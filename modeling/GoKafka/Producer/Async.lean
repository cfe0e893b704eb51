import GoKafka.Lib.Run
import GoKafka.Lib.Workers
import GoKafka.Producer.Send

/-!
# The asynchronous producer

`async_producer.go`: `Send` puts records into a channel, and workers take them from it, collect them
in batches and give these to the synchronous producer, one result for each record. What happens next
is the choice of a scheduler and, where several cases of a `select` are ready, of the language: a
schedule is a list of acts, and one that is not ready changes nothing. The context is never
cancelled, and results are always taken.

`Close` closes the channel `closed` first and the channel of records next. A worker that finds
`closed` closed gives up its batch and returns, and so does one that finds the channel of records
closed and empty. `settled_iff` says along which schedules no record is lost: every record for which
`Send` returned nil has been produced once and has one result when all workers have returned,
exactly if the worker that returns last leaves the channel empty and none is sent after that. The
case of `closed` can be taken with records in the channel (`settled_loses`).
-/

namespace GoKafka

open List

open Workers.Pool (coe_concat coe_flatMap_eraseIdx coe_flatMap_set
  flatMap_eq_nil_of_forall_eq)

/-! ## Channels and workers -/

/-- The configuration that the asynchronous producer reads. -/
structure AsyncConfig where
  channelBuffer : Int64 := 0
  batchSize : Int64 := 0

/-- The capacity of the channel of records. -/
def AsyncConfig.capacity (cfg : AsyncConfig) : Nat :=
  if cfg.channelBuffer ≤ 0 then 256 else cfg.channelBuffer.toInt.toNat

/-- The size of a batch. -/
def AsyncConfig.batchLen (cfg : AsyncConfig) : Nat :=
  if cfg.batchSize ≤ 0 then 100 else cfg.batchSize.toInt.toNat

/-- `ProduceResult` of `async_producer.go`. -/
structure AsyncProduceResult where
  record : Record
  result : ProduceRecordResult := {}
  err : Option Error := none
  deriving DecidableEq

/-- What the workers share: the records in the channel, whether the two channels are closed, the
records for which `Send` returned nil, those given to the synchronous producer, and the results. -/
structure AsyncShared where
  input : List Record := []
  inputClosed : Bool := false
  closed : Bool := false
  accepted : List Record := []
  produced : List Record := []
  results : List AsyncProduceResult := []
  deriving DecidableEq

/-- A worker waits in its `select` with a batch, the timer armed or not; or it reports results and
then waits again or returns; or it has returned. -/
inductive AsyncWorker where
  | selecting (batch : List Record) (armed : Bool)
  | reporting (results : List AsyncProduceResult) (last : Bool)
  | returned
  deriving DecidableEq

/-- The records that a worker has taken and not yet produced. -/
def AsyncWorker.batch : AsyncWorker → List Record
  | .selecting batch _ => batch
  | _ => []

/-- The results that a worker has not yet reported. -/
def AsyncWorker.unreported : AsyncWorker → List AsyncProduceResult
  | .reporting results _ => results
  | _ => []

/-- What `ProduceSyncResult` returns. -/
abbrev ProduceOutcome := List ProduceRecordResult × Option Error

/-- The results of a batch. -/
def batchResults (batch : List Record) (outcome : ProduceOutcome) : List AsyncProduceResult :=
  batch.zipIdx.map fun (r, i) =>
    { record := r, err := outcome.2
      result := if outcome.2 = none then outcome.1[i]?.getD {} else {} }

/-- `flush`; the worker returns afterwards if it is `last`. -/
def flush (sh : AsyncShared) (batch : List Record) (armed : Bool) (outcome : ProduceOutcome)
    (last : Bool) : AsyncWorker × AsyncShared :=
  if batch = [] then (if last then .returned else .selecting [] armed, sh)
  else (.reporting (batchResults batch outcome) last, { sh with produced := sh.produced ++ batch })

/-- What a worker does next: a case of its `select`, or the next report. -/
inductive WorkerCase where
  | closed
  | receive
  | timer
  | report

/-- A step of `AsyncProducer.worker`, with the outcome of the synchronous producer in case it comes
to be called. -/
def AsyncWorker.step (cfg : AsyncConfig) (sh : AsyncShared) (outcome : ProduceOutcome) :
    AsyncWorker → WorkerCase → AsyncWorker × AsyncShared
  | .selecting batch armed, .closed =>
    if sh.closed then flush sh batch armed outcome true else (.selecting batch armed, sh)
  | .selecting batch armed, .receive =>
    match sh.input with
    | [] =>
      if sh.inputClosed then flush sh batch armed outcome true else (.selecting batch armed, sh)
    | r :: input =>
      let batch := batch ++ [r]
      let armed := armed || batch.length = 1
      if cfg.batchLen ≤ batch.length then
        flush { sh with input := input } batch armed outcome false
      else (.selecting batch armed, { sh with input := input })
  | .selecting batch armed, .timer =>
    if armed then flush sh batch armed outcome false else (.selecting batch armed, sh)
  | .reporting (p :: results) last, .report =>
    (.reporting results last, { sh with results := sh.results ++ [p] })
  | .reporting [] last, .report => (if last then .returned else .selecting [] false, sh)
  | w, _ => (w, sh)

/-! ## Schedules -/

def errClosed : Error := .other "gokafka: client is closed"

/-- The case of its `select` that `Send` takes. -/
inductive SendCase where
  | closed
  | input

/-- `AsyncProducer.Send`, if its case is ready. -/
def AsyncShared.send (cfg : AsyncConfig) (sh : AsyncShared) (r : Record) :
    SendCase → Option (Except Error Unit) × AsyncShared
  | .closed => (if sh.closed then some (.error errClosed) else none, sh)
  | .input =>
    if sh.inputClosed then (some (.error (.panic "send on closed channel")), sh)
    else if sh.input.length < cfg.capacity then
      (some (.ok ()), { sh with input := sh.input ++ [r], accepted := sh.accepted ++ [r] })
    else (none, sh)

/-- `AsyncProducer`, with its workers. -/
structure AsyncProducer where
  shared : AsyncShared := {}
  workers : List AsyncWorker

/-- The acts: a `Send`, the two steps of `Close`, and a step of a worker. -/
inductive AsyncAct where
  | send (r : Record) (branch : SendCase)
  | closeClosed
  | closeInput
  | work (i : Nat) (branch : WorkerCase) (outcome : ProduceOutcome)

namespace AsyncProducer

/-- `Run` has started the workers. -/
def start (n : Nat) : AsyncProducer where
  workers := List.replicate n (.selecting [] false)

/-- An act. -/
def next (cfg : AsyncConfig) (a : AsyncProducer) : AsyncAct → AsyncProducer
  | .send r branch => { a with shared := (a.shared.send cfg r branch).2 }
  | .closeClosed => { a with shared := { a.shared with closed := true } }
  | .closeInput =>
    if a.shared.closed then { a with shared := { a.shared with inputClosed := true } } else a
  | .work i branch outcome =>
    match a.workers[i]? with
    | none => a
    | some w =>
      let (w', shared) := w.step cfg a.shared outcome branch
      { shared := shared, workers := a.workers.set i w' }

/-- All workers have returned. -/
def Done (a : AsyncProducer) : Prop := ∀ w ∈ a.workers, w = .returned

/-- When all workers have returned, nothing is left in the channel, and the records for which `Send`
returned nil are those produced and those with a result, each as often. -/
def Settled (a : AsyncProducer) : Prop :=
  a.Done → a.shared.input = [] ∧ a.shared.accepted.Perm a.shared.produced ∧
    a.shared.accepted.Perm (a.shared.results.map (·.record))

end AsyncProducer

/-- With this step the worker returns. -/
def AsyncWorker.Returns (sh : AsyncShared) : AsyncWorker → WorkerCase → Prop
  | .selecting [] _, .closed => sh.closed
  | .selecting [] _, .receive => sh.input = [] ∧ sh.inputClosed
  | .reporting [] last, .report => last
  | _, _ => False

namespace AsyncProducer

/-- The acts that lose no record: a record is sent while a worker runs, and the worker that returns
last finds nothing in the channel. -/
def Drains (cfg : AsyncConfig) (a : AsyncProducer) : AsyncAct → Prop
  | .send r .input => (a.shared.send cfg r .input).1 = some (.ok ()) → ¬ a.Done
  | .work i branch _ =>
    ∀ w, a.workers[i]? = some w → w.Returns a.shared branch →
      (∀ w' ∈ a.workers.eraseIdx i, w' = .returned) → a.shared.input = []
  | _ => True

end AsyncProducer

/-! ## No record is lost on its way -/

/-- A step of a worker: the records produced, in its batch and in the channel stay the same list,
and the results reported and to be reported are those of the records produced. -/
structure AsyncWorker.Moves (w w' : AsyncWorker) (sh sh' : AsyncShared) : Prop where
  accepted : sh'.accepted = sh.accepted
  records : sh'.produced ++ (w'.batch ++ sh'.input) = sh.produced ++ (w.batch ++ sh.input)
  results : ∃ new, sh'.produced = sh.produced ++ new ∧
    sh'.results.map (·.record) ++ w'.unreported.map (·.record) =
      sh.results.map (·.record) ++ w.unreported.map (·.record) ++ new

/-- Nothing is produced, and no result is new. -/
theorem AsyncWorker.Moves.none {w : AsyncWorker} (hbatch : w'.batch = w.batch)
    (hresults : w'.unreported = w.unreported) (sh : AsyncShared) : w.Moves w' sh sh :=
  ⟨rfl, by rw [hbatch], [], (append_nil _).symm, by rw [hresults, append_nil]⟩

theorem map_record_batchResults : (batchResults batch outcome).map (·.record) = batch := by
  rw [batchResults, map_map]
  exact zipIdx_map_fst 0 batch

theorem flush_moves (armed' : Bool) :
    (AsyncWorker.selecting batch armed').Moves (flush sh batch armed outcome last).1 sh
      (flush sh batch armed outcome last).2 := by
  unfold flush
  split_ifs with hbatch hlast
  · subst hbatch
    exact .none (by rfl) (by rfl) sh
  · subst hbatch
    exact .none (by rfl) (by rfl) sh
  · refine ⟨rfl, ?_, batch, rfl, ?_⟩
    · simp [AsyncWorker.batch]
    · simp [AsyncWorker.unreported, map_record_batchResults]

variable {batch : List Record}

/-- Taking a record from the channel. -/
theorem AsyncWorker.Moves.receive (hinput : sh.input = r :: input)
    (h : (AsyncWorker.selecting (batch ++ [r]) armed').Moves w' { sh with input := input } sh') :
    (AsyncWorker.selecting batch armed).Moves w' sh sh' := by
  refine ⟨h.accepted, h.records.trans ?_, h.results⟩
  simp [AsyncWorker.batch, hinput]

theorem AsyncWorker.step_moves (cfg : AsyncConfig) (sh : AsyncShared) (outcome : ProduceOutcome)
    (w : AsyncWorker) (branch : WorkerCase) :
    w.Moves (w.step cfg sh outcome branch).1 sh (w.step cfg sh outcome branch).2 := by
  fun_cases AsyncWorker.step cfg sh outcome w branch with
  | case1 | case3 | case7 => exact flush_moves ..
  | case5 batch armed r input hinput batch' armed' hfull =>
    exact .receive hinput (flush_moves armed)
  | case6 batch armed r input hinput batch' armed' hfull =>
    exact .receive hinput (.none (w := .selecting batch' armed') rfl rfl _)
  | case9 p results last =>
    refine ⟨rfl, rfl, [], (append_nil _).symm, ?_⟩
    simp [AsyncWorker.unreported]
  | case10 last => cases last <;> exact .none (by rfl) (by rfl) sh
  | case2 | case4 | case8 | case11 => exact .none (by rfl) (by rfl) sh

theorem flush_returned_iff :
    (flush sh batch armed outcome last).1 = .returned ↔ batch = [] ∧ last := by
  unfold flush
  split_ifs with hbatch hlast <;> simp [*]

/-- A worker returns only as `Returns` says. -/
theorem AsyncWorker.returns_of_step {w : AsyncWorker} (hw : w ≠ .returned)
    (h : (w.step cfg sh outcome branch).1 = .returned) : w.Returns sh branch := by
  revert h
  fun_cases AsyncWorker.step cfg sh outcome w branch with
  | case1 batch armed hclosed =>
    intro h
    obtain ⟨rfl, -⟩ := flush_returned_iff.1 h
    exact hclosed
  | case3 batch armed hinput hclosed =>
    intro h
    obtain ⟨rfl, -⟩ := flush_returned_iff.1 h
    exact ⟨hinput, hclosed⟩
  | case5 | case7 =>
    intro h
    cases (flush_returned_iff.1 h).2
  | case10 last =>
    intro h
    cases last
    · cases h
    · rfl
  | case11 w branch =>
    intro h
    exact absurd h hw
  | case2 | case4 | case6 | case8 | case9 => exact nofun

theorem AsyncWorker.Returns.step_eq {w : AsyncWorker} (h : w.Returns sh branch) :
    w.step cfg sh outcome branch = (.returned, sh) := by
  revert h
  fun_cases AsyncWorker.Returns sh w branch with
  | case1 armed =>
    intro h
    rw [AsyncWorker.step, if_pos h]
    rfl
  | case2 armed =>
    rintro ⟨hinput, hclosed⟩
    simp only [AsyncWorker.step, hinput, if_pos hclosed]
    rfl
  | case3 last =>
    rintro rfl
    rfl
  | case4 => exact False.elim

namespace AsyncProducer

/-- Every accepted record is in the channel, in a batch or produced, and every produced one has a
result that is to be reported or has been. -/
structure Conserves (a : AsyncProducer) : Prop where
  records : (a.shared.input + (a.workers.flatMap (·.batch) + a.shared.produced) : Multiset Record) =
    a.shared.accepted
  results : ((a.workers.flatMap (·.unreported)).map (·.record) +
    a.shared.results.map (·.record) : Multiset Record) = a.shared.produced

variable {cfg : AsyncConfig} {a : AsyncProducer}

theorem conserves_start : (start n).Conserves := by
  have hstart : ∀ w ∈ (start n).workers, w = .selecting [] false :=
    fun w hw => eq_of_mem_replicate hw
  constructor
  · rw [flatMap_eq_nil_of_forall_eq hstart rfl]
    rfl
  · rw [flatMap_eq_nil_of_forall_eq hstart rfl]
    rfl

theorem Conserves.send (h : a.Conserves) (r : Record) (branch : SendCase) :
    (a.next cfg (.send r branch)).Conserves := by
  cases branch with
  | closed => exact h
  | input =>
    rw [next, AsyncShared.send]
    split_ifs
    · exact h
    · refine ⟨?_, h.results⟩
      rw [coe_concat, coe_concat, ← h.records]
      ac_rfl
    · exact h

theorem Conserves.work (h : a.Conserves) (i : Nat) (branch : WorkerCase)
    (outcome : ProduceOutcome) :
    (a.next cfg (.work i branch outcome)).Conserves := by
  rw [next]
  cases hw : a.workers[i]? with
  | none => exact h
  | some w =>
    have hmoves := w.step_moves cfg a.shared outcome branch
    dsimp only
    generalize (w.step cfg a.shared outcome branch).1 = w' at hmoves ⊢
    generalize (w.step cfg a.shared outcome branch).2 = sh' at hmoves ⊢
    constructor
    · have hrecords : (sh'.produced + (w'.batch + sh'.input) : Multiset Record) =
          a.shared.produced + (w.batch + a.shared.input) := by
        simp only [Multiset.coe_add, hmoves.records]
      rw [hmoves.accepted, ← h.records, coe_flatMap_set _ hw, coe_flatMap_eraseIdx _ hw]
      calc (sh'.input + (w'.batch + (a.workers.eraseIdx i).flatMap (·.batch) + sh'.produced) :
            Multiset Record)
          = sh'.produced + (w'.batch + sh'.input) + (a.workers.eraseIdx i).flatMap (·.batch) := by
            ac_rfl
        _ = a.shared.produced + (w.batch + a.shared.input) +
              (a.workers.eraseIdx i).flatMap (·.batch) := by rw [hrecords]
        _ = _ := by ac_rfl
    · obtain ⟨new, hnew, hresults⟩ := hmoves.results
      have hreported : (sh'.results.map (·.record) + w'.unreported.map (·.record) :
          Multiset Record) =
          a.shared.results.map (·.record) + w.unreported.map (·.record) + new := by
        simp only [Multiset.coe_add, hresults]
      rw [hnew, ← Multiset.coe_add, ← h.results, map_flatMap, map_flatMap, coe_flatMap_set _ hw,
        coe_flatMap_eraseIdx _ hw]
      calc _ = (sh'.results.map (·.record) + w'.unreported.map (·.record) +
              (a.workers.eraseIdx i).flatMap fun w => w.unreported.map (·.record) :
              Multiset Record) := by ac_rfl
        _ = a.shared.results.map (·.record) + w.unreported.map (·.record) + new +
              (a.workers.eraseIdx i).flatMap fun w => w.unreported.map (·.record) := by
            rw [hreported]
        _ = _ := by ac_rfl

theorem Conserves.next (h : a.Conserves) (act : AsyncAct) : (a.next cfg act).Conserves := by
  cases act with
  | send r branch => exact h.send r branch
  | closeClosed => exact ⟨h.records, h.results⟩
  | closeInput =>
    simp only [AsyncProducer.next]
    split_ifs
    · exact ⟨h.records, h.results⟩
    · exact h
  | work i branch outcome => exact h.work i branch outcome

/-- Whatever the schedule, no record is lost on its way or produced twice, at any time. -/
theorem conserves_run (cfg : AsyncConfig) (n : Nat) (acts : List AsyncAct) :
    (acts.foldl (AsyncProducer.next cfg) (start n)).Conserves :=
  Run.Along.foldl (fun _ act h _ => Conserves.next h act)
    (Run.Along.of_forall (R := fun _ => True) fun _ _ => trivial) conserves_start

/-- Where all workers have returned, only the channel can hold a record back. -/
theorem Conserves.settled (h : a.Conserves) (hempty : a.Done → a.shared.input = []) :
    a.Settled := by
  intro hdone
  have hrecords := h.records
  have hresults := h.results
  rw [hempty hdone, flatMap_eq_nil_of_forall_eq hdone rfl]
    at hrecords
  rw [flatMap_eq_nil_of_forall_eq hdone rfl] at hresults
  exact ⟨hempty hdone, Multiset.coe_eq_coe.1 hrecords.symm,
    Multiset.coe_eq_coe.1 (hresults.trans hrecords).symm⟩

/-! ## When the channel is empty at the end -/

theorem done_set_iff (hw : a.workers[i]? = some w) :
    Done ⟨sh, a.workers.set i w'⟩ ↔ w' = .returned ∧ ∀ w ∈ a.workers.eraseIdx i, w = .returned := by
  obtain ⟨hi, -⟩ := List.getElem?_eq_some_iff.1 hw
  simp [Done, (set_perm_cons_eraseIdx hi w').mem_iff]

/-- Nothing is in the channel when all workers have returned. -/
def Emptied (a : AsyncProducer) : Prop := a.Done → a.shared.input = []

theorem emptied_send_iff (h : a.Emptied) :
    (a.next cfg (.send r .input)).Emptied ↔ a.Drains cfg (.send r .input) := by
  simp only [next, Drains, AsyncShared.send]
  split_ifs with hclosed hroom
  · exact iff_of_true h nofun
  · constructor
    · intro hnext _ hdone
      cases append_eq_nil_iff.1 (hnext hdone) |>.2
    · intro hrun hdone
      exact absurd hdone (hrun rfl)
  · exact iff_of_true h nofun

theorem emptied_work_iff (h : a.Emptied) :
    (a.next cfg (.work i branch outcome)).Emptied ↔ a.Drains cfg (.work i branch outcome) := by
  simp only [next, Drains]
  cases hw : a.workers[i]? with
  | none => exact iff_of_true h nofun
  | some w =>
    simp only [Option.some.injEq, forall_eq']
    constructor
    · intro hnext hreturns hothers
      rw [hreturns.step_eq] at hnext
      exact hnext ((done_set_iff hw).2 ⟨rfl, hothers⟩)
    · intro hlast hdone
      obtain ⟨hreturned, hothers⟩ := (done_set_iff hw).1 hdone
      by_cases hrun : w = .returned
      · -- a worker that has returned does nothing
        subst hrun
        have hstep : AsyncWorker.step cfg a.shared outcome .returned branch =
            (.returned, a.shared) := by cases branch <;> rfl
        obtain ⟨hi, hget⟩ := List.getElem?_eq_some_iff.1 hw
        have hsame : a.workers.set i .returned = a.workers := by rw [← hget, set_getElem_self]
        rw [hstep] at hdone ⊢
        rw [hsame] at hdone
        exact h hdone
      · have hreturns := AsyncWorker.returns_of_step hrun hreturned
        rw [hreturns.step_eq]
        exact hlast hreturns hothers

theorem emptied_next_iff (h : a.Emptied) : (a.next cfg act).Emptied ↔ a.Drains cfg act := by
  cases act with
  | send r branch =>
    cases branch with
    | closed => exact iff_of_true h trivial
    | input => exact emptied_send_iff h
  | closeClosed => exact iff_of_true h trivial
  | closeInput =>
    refine iff_of_true ?_ trivial
    rw [next]
    split_ifs <;> exact h
  | work i branch outcome => exact emptied_work_iff h

/-- Every record for which `Send` returned nil is produced once and has one result when all workers
have returned, exactly along the schedules in which the worker that returns last leaves the channel
empty and no record is sent after that. -/
theorem settled_iff (cfg : AsyncConfig) (n : Nat) (acts : List AsyncAct) :
    (∀ a ∈ Run.states (next cfg) (start n) acts, a.Settled) ↔
      Run.Along (next cfg) (Drains cfg) (start n) acts := by
  refine @Run.states_iff_along _ _ (next cfg) (Drains cfg) (fun a => a.Conserves ∧ a.Emptied)
    (start n) acts Settled ?_ ?_ ?_ ⟨conserves_start, fun _ => rfl⟩
  · rintro a act ⟨hconserves, hempty⟩ hact
    exact ⟨hconserves.next act, (emptied_next_iff hempty).2 hact⟩
  · rintro a ⟨hconserves, hempty⟩
    exact hconserves.settled hempty
  · rintro a act ⟨-, hempty⟩ hsettled
    exact (emptied_next_iff hempty).1 fun hdone => (hsettled hdone).1

/-- A record is sent, `Close` begins, and the only worker takes the case of `closed`: all workers
have returned, and the record is neither produced nor reported. -/
theorem settled_loses :
    let a := [AsyncAct.send { topic := [116], partition := 0 } .input, .closeClosed,
      .work 0 .closed ([], none)].foldl (next {}) (start 1)
    a.Done ∧ a.shared.accepted = [{ topic := [116], partition := 0 }] ∧
      a.shared.input = a.shared.accepted ∧ a.shared.produced = [] ∧ a.shared.results = [] := by
  refine ⟨?_, rfl, rfl, rfl, rfl⟩
  intro w hw
  exact mem_singleton.1 hw

end AsyncProducer

/-- A worker's step closes no channel. -/
theorem AsyncWorker.step_channels (w : AsyncWorker) :
    (w.step cfg sh outcome branch).2.closed = sh.closed ∧
      (w.step cfg sh outcome branch).2.inputClosed = sh.inputClosed := by
  have hflush : ∀ (sh : AsyncShared) batch armed last,
      (flush sh batch armed outcome last).2.closed = sh.closed ∧
        (flush sh batch armed outcome last).2.inputClosed = sh.inputClosed := by
    intro sh batch armed last
    unfold flush
    split_ifs <;> exact ⟨rfl, rfl⟩
  fun_cases AsyncWorker.step cfg sh outcome w branch with
  | case1 | case3 | case5 | case7 => exact hflush ..
  | case2 | case4 | case6 | case8 | case9 | case10 | case11 => exact ⟨rfl, rfl⟩

end GoKafka
