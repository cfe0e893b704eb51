import GoKafka.Lib.Slice
import GoKafka.Producer.Async

/-!
# One worker keeps the order

`AsyncProducer.worker` alone, with its batch as the source keeps it: a slice of one array, which
`flush` cuts to length 0 so that the next records overwrite the last ones. `flush` hands the slice
to the synchronous producer and reads the records again, one at a time, while it reports
(`SliceWorker`). The array is not written before the last report, so a worker does what
`AsyncWorker` says of lists (`SliceWorker.step_list`, `SoloProducer.list_next`).

`solo_ordered` says what holds in every state of a run: the batches handed over so far are, one
after the other, the first of the records that `Send` has accepted, each batch has between one
record and the size of a batch, and the results reported are those of the first records handed over.
-/

namespace GoKafka

open Slices List

/-! ## The worker -/

/-- A worker with the array of its batch: in its `select`, in the loop of `flush` after some
results, or returned. -/
inductive SliceWorker where
  | selecting (heap : Heap Record) (batch : Slice) (armed : Bool)
  | reporting (heap : Heap Record) (batch : Slice) (i : Nat) (outcome : ProduceOutcome)
      (last : Bool)
  | returned

/-- The result that `flush` reports for the record at an index. -/
def reportOf (outcome : ProduceOutcome) (r : Record) (i : Nat) : AsyncProduceResult where
  record := r
  err := outcome.2
  result := if outcome.2 = none then outcome.1[i]?.getD {} else {}

/-- What a step of a worker comes to: the worker, what it shares, and the batch with which
`ProduceSyncResult` was called, if it was. -/
abbrev SliceStep := SliceWorker × AsyncShared × Option (List Record)

/-- `flush` up to its loop. -/
def flushSlice (sh : AsyncShared) (heap : Heap Record) (batch : Slice) (armed : Bool)
    (outcome : ProduceOutcome) (last : Bool) : SliceStep :=
  if batch.len = 0 then (if last then .returned else .selecting heap batch armed, sh, none)
  else
    (.reporting heap batch 0 outcome last, { sh with produced := sh.produced ++ elems heap batch },
      some (elems heap batch))

/-- A step of `AsyncProducer.worker`; `room` is the spare room of a new array, should `append` need
one. -/
def SliceWorker.step (cfg : AsyncConfig) (room : Nat → List Record) (sh : AsyncShared)
    (outcome : ProduceOutcome) : SliceWorker → WorkerCase → SliceStep
  | .selecting heap batch armed, .closed =>
    if sh.closed then flushSlice sh heap batch armed outcome true
    else (.selecting heap batch armed, sh, none)
  | .selecting heap batch armed, .receive =>
    match sh.input with
    | [] =>
      if sh.inputClosed then flushSlice sh heap batch armed outcome true
      else (.selecting heap batch armed, sh, none)
    | r :: input =>
      let (heap, batch) := append room heap batch r
      let armed := armed || batch.len = 1
      if cfg.batchLen ≤ batch.len then
        flushSlice { sh with input := input } heap batch armed outcome false
      else (.selecting heap batch armed, { sh with input := input }, none)
  | .selecting heap batch armed, .timer =>
    if armed then flushSlice sh heap batch armed outcome false
    else (.selecting heap batch armed, sh, none)
  | .reporting heap batch i outcome last, .report =>
    match (elems heap batch)[i]? with
    | some r =>
      (.reporting heap batch (i + 1) outcome last,
        { sh with results := sh.results ++ [reportOf outcome r i] }, none)
    | none => (if last then .returned else .selecting heap (batch.cut 0) false, sh, none)
  | w, _ => (w, sh, none)

/-- The worker with lists for its batch and for the results to come. -/
def SliceWorker.list : SliceWorker → AsyncWorker
  | .selecting heap batch armed => .selecting (elems heap batch) armed
  | .reporting heap batch i outcome last =>
    .reporting ((batchResults (elems heap batch) outcome).drop i) last
  | .returned => .returned

/-- The batch has its array. -/
def SliceWorker.Valid : SliceWorker → Prop
  | .selecting heap batch _ | .reporting heap batch _ _ _ => Slices.Valid heap batch
  | .returned => True

/-! ## Arrays and lists -/

section Lists

variable {cfg : AsyncConfig} {room : Nat → List Record} {sh : AsyncShared} {heap : Heap Record}
  {batch : Slice} {armed last : Bool} {outcome : ProduceOutcome}

theorem elems_eq_nil_iff (hvalid : Slices.Valid heap batch) : elems heap batch = [] ↔
    batch.len = 0 := by
  rw [← length_eq_zero_iff, length_elems hvalid]

theorem getElem?_batchResults :
    (batchResults records outcome)[i]? = (records[i]?).map (reportOf outcome · i) := by
  rw [batchResults, List.getElem?_map, List.getElem?_zipIdx]
  cases records[i]? with
  | none => rfl
  | some r => simp [reportOf]

theorem drop_batchResults (hr : records[i]? = some r) :
    (batchResults records outcome).drop i =
      reportOf outcome r i :: (batchResults records outcome).drop (i + 1) := by
  refine drop_eq_getElem?_toList_append.trans ?_
  rw [getElem?_batchResults, hr]
  rfl

theorem drop_batchResults_eq_nil (hi : records[i]? = none) :
    (batchResults records outcome).drop i = [] := by
  refine drop_eq_nil_of_le (List.getElem?_eq_none_iff.1 ?_)
  rw [getElem?_batchResults, hi]
  rfl

theorem flushSlice_list (hvalid : Slices.Valid heap batch) :
    ((flushSlice sh heap batch armed outcome last).1.list,
        (flushSlice sh heap batch armed outcome last).2.1) =
      flush sh (elems heap batch) armed outcome last ∧
    (flushSlice sh heap batch armed outcome last).1.Valid := by
  unfold flushSlice flush
  by_cases hlen : batch.len = 0
  · have hnil := (elems_eq_nil_iff hvalid).2 hlen
    rw [if_pos hlen, if_pos hnil]
    cases last with
    | true => exact ⟨rfl, trivial⟩
    | false =>
      refine ⟨?_, hvalid⟩
      simp [SliceWorker.list, hnil]
  · rw [if_neg hlen, if_neg (mt (elems_eq_nil_iff hvalid).1 hlen)]
    exact ⟨rfl, hvalid⟩

/-- The slice after a record has been appended. -/
theorem append_list {r : Record} (hvalid : Slices.Valid heap batch)
    (happend : append room heap batch r = (heap', batch')) :
    Slices.Valid heap' batch' ∧ elems heap batch ++ [r] = elems heap' batch' ∧
      (elems heap' batch').length = batch'.len := by
  obtain ⟨hvalid', helems⟩ := append_spec room hvalid
  rw [happend] at hvalid' helems
  exact ⟨hvalid', helems.symm, length_elems hvalid'⟩

/-- A step on arrays is the step on lists. -/
theorem SliceWorker.step_list {w : SliceWorker} (hvalid : w.Valid) (branch : WorkerCase) :
    ((w.step cfg room sh outcome branch).1.list, (w.step cfg room sh outcome branch).2.1) =
      w.list.step cfg sh outcome branch ∧ (w.step cfg room sh outcome branch).1.Valid := by
  fun_cases SliceWorker.step cfg room sh outcome w branch with
  | case1 heap batch armed hclosed =>
    rw [SliceWorker.list, AsyncWorker.step, if_pos hclosed]
    exact flushSlice_list hvalid
  | case2 heap batch armed hclosed =>
    rw [SliceWorker.list, AsyncWorker.step, if_neg hclosed]
    exact ⟨rfl, hvalid⟩
  | case3 heap batch armed hinput hclosed =>
    simp only [AsyncWorker.step, hinput, if_pos hclosed]
    exact flushSlice_list hvalid
  | case4 heap batch armed hinput hclosed =>
    simp only [SliceWorker.list, AsyncWorker.step, hinput, if_neg hclosed]
    exact ⟨trivial, hvalid⟩
  | case5 heap batch armed r input hinput heap' batch' happend armed' hfull =>
    obtain ⟨hvalid', helems, hlen⟩ := append_list hvalid happend
    simp only [SliceWorker.list, AsyncWorker.step, hinput, helems, hlen, if_pos hfull]
    exact flushSlice_list hvalid'
  | case6 heap batch armed r input hinput heap' batch' happend armed' hfull =>
    obtain ⟨hvalid', helems, hlen⟩ := append_list hvalid happend
    simp only [SliceWorker.list, AsyncWorker.step, hinput, helems, hlen, if_neg hfull]
    exact ⟨rfl, hvalid'⟩
  | case7 heap batch =>
    exact flushSlice_list hvalid
  | case8 heap batch armed harmed =>
    rw [SliceWorker.list, AsyncWorker.step, if_neg harmed]
    exact ⟨rfl, hvalid⟩
  | case9 heap batch i outcome' last r hr =>
    rw [SliceWorker.list, SliceWorker.list, drop_batchResults hr]
    exact ⟨rfl, hvalid⟩
  | case10 heap batch i outcome' last hnone =>
    rw [SliceWorker.list.eq_2, drop_batchResults_eq_nil hnone]
    cases last with
    | true => exact ⟨rfl, trivial⟩
    | false => exact ⟨rfl, hvalid.addr, Nat.zero_le _⟩
  | case11 w branch h₁ h₂ h₃ h₄ =>
    refine ⟨?_, hvalid⟩
    cases w with
    | returned => cases branch <;> rfl
    | selecting heap batch armed =>
      cases branch with
      | closed => exact (h₁ _ _ _ rfl rfl).elim
      | receive => exact (h₂ _ _ _ rfl rfl).elim
      | timer => exact (h₃ _ _ _ rfl rfl).elim
      | report => rfl
    | reporting heap batch i outcome' last =>
      cases branch with
      | report => exact (h₄ _ _ _ _ _ rfl rfl).elim
      | closed | receive | timer =>
        simp only [SliceWorker.list]
        cases (batchResults (elems heap batch) outcome').drop i <;> rfl

end Lists

/-! ## The order of the records -/

theorem AsyncConfig.batchLen_pos (cfg : AsyncConfig) : 0 < cfg.batchLen := by
  unfold AsyncConfig.batchLen
  split_ifs with hsize
  · decide
  · rw [Int64.le_iff_toInt_le, Int64.toInt_zero] at hsize
    omega

section Order

variable {cfg : AsyncConfig} {room : Nat → List Record} {sh : AsyncShared} {heap : Heap Record}
  {batch : Slice} {outcome : ProduceOutcome}

/-- A worker waits with less than a whole batch. -/
theorem AsyncWorker.step_open {w : AsyncWorker} (hopen : w.batch.length < cfg.batchLen)
    (branch : WorkerCase) : (w.step cfg sh outcome branch).1.batch.length < cfg.batchLen := by
  have hflush : ∀ sh batch armed last,
      (flush sh batch armed outcome last).1.batch.length < cfg.batchLen := by
    intro sh batch armed last
    unfold flush
    split_ifs <;> exact cfg.batchLen_pos
  fun_cases AsyncWorker.step cfg sh outcome w branch with
  | case1 | case3 | case5 | case7 => exact hflush ..
  | case6 batch armed r input hinput batch' armed' hfull => exact Nat.lt_of_not_le hfull
  | case9 => exact cfg.batchLen_pos
  | case10 last => cases last <;> exact cfg.batchLen_pos
  | case2 | case4 | case8 | case11 => exact hopen

/-- What a step produces is the batch of its call of `ProduceSyncResult`. -/
def SliceStep.Calls (cfg : AsyncConfig) (sh : AsyncShared) (s : SliceStep) : Prop :=
  s.2.1.produced = sh.produced ++ s.2.2.getD [] ∧
    ∀ batch, s.2.2 = some batch → 1 ≤ batch.length ∧ batch.length ≤ cfg.batchLen

theorem flushSlice_calls (hvalid : Slices.Valid heap batch) (hlen : batch.len ≤ cfg.batchLen) :
    (flushSlice sh heap batch armed outcome last).Calls cfg sh := by
  unfold flushSlice
  split_ifs with hzero
  · exact ⟨(append_nil _).symm, nofun⟩
  · exact ⟨(append_nil _).symm, nofun⟩
  · refine ⟨rfl, ?_⟩
    rintro _ ⟨⟩
    rw [length_elems hvalid]
    exact ⟨Nat.one_le_iff_ne_zero.2 hzero, hlen⟩

theorem SliceWorker.step_calls {w : SliceWorker} (hvalid : w.Valid)
    (hopen : w.list.batch.length < cfg.batchLen) (branch : WorkerCase) :
    (w.step cfg room sh outcome branch).Calls cfg sh := by
  fun_cases SliceWorker.step cfg room sh outcome w branch with
  | case1 heap batch armed | case3 heap batch armed =>
    exact flushSlice_calls hvalid (length_elems hvalid ▸ Nat.le_of_lt hopen) ..
  | case7 heap batch => exact flushSlice_calls hvalid (length_elems hvalid ▸ Nat.le_of_lt hopen) ..
  | case5 heap batch armed r input hinput heap' batch' happend =>
    obtain ⟨hvalid', helems, hlen⟩ := append_list hvalid happend
    refine flushSlice_calls hvalid' ?_ ..
    rw [← hlen, ← helems, length_append]
    exact hopen
  | case2 | case4 | case6 | case8 | case9 | case10 | case11 => exact ⟨(append_nil _).symm, nofun⟩

end Order

/-! ## Runs -/

/-- An asynchronous producer with one worker, and the batches with which `ProduceSyncResult` was
called. -/
structure SoloProducer where
  shared : AsyncShared := {}
  worker : SliceWorker
  calls : List (List Record) := []

/-- The acts: a `Send`, the two steps of `Close`, and a step of the worker. -/
inductive SoloAct where
  | send (r : Record) (branch : SendCase)
  | closeClosed
  | closeInput
  | work (branch : WorkerCase) (outcome : ProduceOutcome)

/-- The act of the producer with any number of workers. -/
def SoloAct.async : SoloAct → AsyncAct
  | .send r branch => .send r branch
  | .closeClosed => .closeClosed
  | .closeInput => .closeInput
  | .work branch outcome => .work 0 branch outcome

namespace SoloProducer

/-- `Run` has started the worker, with an empty batch of the capacity of a whole one. -/
def start (cfg : AsyncConfig) : SoloProducer where
  worker := .selecting [List.replicate cfg.batchLen { topic := [], partition := 0 }] ⟨0, 0⟩ false

/-- An act. -/
def next (cfg : AsyncConfig) (room : Nat → List Record) (a : SoloProducer) : SoloAct → SoloProducer
  | .send r branch => { a with shared := (a.shared.send cfg r branch).2 }
  | .closeClosed => { a with shared := { a.shared with closed := true } }
  | .closeInput =>
    if a.shared.closed then { a with shared := { a.shared with inputClosed := true } } else a
  | .work branch outcome =>
    let (worker, shared, call) := a.worker.step cfg room a.shared outcome branch
    { shared := shared, worker := worker, calls := a.calls ++ call.toList }

/-- The producer with lists for slices. -/
def list (a : SoloProducer) : AsyncProducer := ⟨a.shared, [a.worker.list]⟩

variable {cfg : AsyncConfig} {room : Nat → List Record} {a : SoloProducer}

/-- The producer with one worker is the producer with any number of workers. -/
theorem list_next (hvalid : a.worker.Valid) :
    (a.next cfg room act).list = a.list.next cfg act.async := by
  cases act with
  | send | closeClosed => rfl
  | closeInput =>
    simp only [next]
    rw [apply_ite list]
    rfl
  | work branch outcome =>
    obtain ⟨hstep, -⟩ := @SliceWorker.step_list cfg room a.shared outcome a.worker hvalid branch
    simp only [list, SoloAct.async, AsyncProducer.next, List.getElem?_cons_zero, ← hstep]
    rfl

/-- The invariant of a run: what was accepted is what was produced, what is in the batch and what is
in the channel, in this order; what was produced has been reported or is being reported, in order;
and the calls are the pieces of what was produced. -/
structure Ordered (cfg : AsyncConfig) (a : SoloProducer) : Prop where
  valid : a.worker.Valid
  open_ : a.worker.list.batch.length < cfg.batchLen
  accepted : a.shared.produced ++ (a.worker.list.batch ++ a.shared.input) = a.shared.accepted
  reported : a.shared.results.map (·.record) ++ a.worker.list.unreported.map (·.record) =
    a.shared.produced
  calls : a.calls.flatten = a.shared.produced
  size : ∀ batch ∈ a.calls, 1 ≤ batch.length ∧ batch.length ≤ cfg.batchLen

theorem ordered_start : (start cfg).Ordered cfg :=
  ⟨⟨Nat.one_pos, Nat.zero_le _⟩, cfg.batchLen_pos, rfl, rfl, rfl, nofun⟩

theorem Ordered.next (h : a.Ordered cfg) (act : SoloAct) : (a.next cfg room act).Ordered cfg := by
  cases act with
  | closeClosed => exact ⟨h.valid, h.open_, h.accepted, h.reported, h.calls, h.size⟩
  | closeInput =>
    simp only [SoloProducer.next]
    split_ifs
    · exact ⟨h.valid, h.open_, h.accepted, h.reported, h.calls, h.size⟩
    · exact h
  | send r branch =>
    cases branch with
    | closed => exact h
    | input =>
      simp only [SoloProducer.next, AsyncShared.send]
      split_ifs
      · exact h
      · refine ⟨h.valid, h.open_, ?_, h.reported, h.calls, h.size⟩
        rw [← h.accepted, append_assoc, append_assoc]
      · exact h
  | work branch outcome =>
    have hcalls := @SliceWorker.step_calls cfg room a.shared outcome a.worker h.valid h.open_ branch
    obtain ⟨hstep, hvalid⟩ :=
      @SliceWorker.step_list cfg room a.shared outcome a.worker h.valid branch
    have hmoves := a.worker.list.step_moves cfg a.shared outcome branch
    have hopen := @AsyncWorker.step_open cfg a.shared outcome _ h.open_ branch
    rw [← hstep] at hmoves hopen
    simp only [SoloProducer.next]
    generalize a.worker.step cfg room a.shared outcome branch = step at hmoves hopen hcalls hvalid
    obtain ⟨w, sh, call⟩ := step
    obtain ⟨hproduced, hsize⟩ := hcalls
    refine ⟨hvalid, hopen, ?_, ?_, ?_, ?_⟩
    · rw [hmoves.records, h.accepted, hmoves.accepted]
    · obtain ⟨new, hnew, hresults⟩ := hmoves.results
      rw [hresults, h.reported, ← hnew]
    · rw [flatten_append, h.calls, hproduced]
      cases call with
      | none => rfl
      | some batch => simp
    · intro batch hbatch
      rcases mem_append.1 hbatch with hold | hnew
      · exact h.size batch hold
      · exact hsize batch (Option.mem_toList.1 hnew)

/-- That the next batch reuses the array of the last is never seen: a run on slices is the same run
on lists. -/
theorem list_run (cfg : AsyncConfig) (room : Nat → List Record) (acts : List SoloAct) :
    (acts.foldl (SoloProducer.next cfg room) (start cfg)).list =
      (acts.map SoloAct.async).foldl (AsyncProducer.next cfg) (AsyncProducer.start 1) := by
  have hrun : ∀ a : SoloProducer, a.Ordered cfg → (acts.foldl (SoloProducer.next cfg room) a).list =
      (acts.map SoloAct.async).foldl (AsyncProducer.next cfg) a.list := by
    induction acts with
    | nil => exact fun a _ => rfl
    | cons act acts ih =>
      intro a ha
      rw [foldl_cons, map_cons, foldl_cons, ih _ (ha.next act), list_next ha.valid]
  exact hrun _ ordered_start

/-- In every state of a run with one worker, the batches passed to `ProduceSyncResult` are one after
the other the first of the accepted records, each has between one record and the size of a batch,
and the results are those of the first records passed, all of them unless the worker is reporting.
-/
theorem solo_ordered (cfg : AsyncConfig) (room : Nat → List Record) (acts : List SoloAct) :
    ∀ a ∈ Run.states (SoloProducer.next cfg room) (start cfg) acts,
      a.calls.flatten <+: a.shared.accepted ∧
      (∀ batch ∈ a.calls, 1 ≤ batch.length ∧ batch.length ≤ cfg.batchLen) ∧
      a.shared.results.map (·.record) <+: a.calls.flatten ∧
      (a.worker.list.unreported = [] → a.shared.results.map (·.record) = a.calls.flatten) := by
  intro a ha
  have halong : Run.Along (SoloProducer.next cfg room) (fun _ _ => True) (start cfg) acts :=
    Run.Along.of_forall fun _ _ => trivial
  have hstep : ∀ (a : SoloProducer) act, a.Ordered cfg → True → (a.next cfg room act).Ordered cfg :=
    fun _ act h _ => h.next act
  have h : a.Ordered cfg := halong.states hstep ordered_start a ha
  rw [h.calls]
  refine ⟨⟨_, h.accepted⟩, h.size, ⟨_, h.reported⟩, fun hnone => ?_⟩
  have hreported := h.reported
  rwa [hnone, map_nil, append_nil] at hreported

/-- Two records are sent, and the worker hands over each in a batch of its own. -/
def twoSent : List SoloAct :=
  [.send { topic := [116], partition := 0 } .input, .send { topic := [116], partition := 1 } .input,
    .work .receive ([], none), .work .report ([], none), .work .report ([], none),
    .work .receive ([], none)]

theorem solo_ordered_two :
    let a := twoSent.foldl (SoloProducer.next { batchSize := 1 } fun _ => [])
      (start { batchSize := 1 })
    a.calls.map (·.map (·.partition)) = [[0], [1]] ∧ a.calls.flatten <+: a.shared.accepted :=
  ⟨by decide, (solo_ordered _ _ twoSent _ (Run.foldl_mem_states _ _ twoSent)).1⟩

end SoloProducer

end GoKafka
