import GoKafka.Producer.Async

/-!
# Calls of Send while the producer is closed

`AsyncProducer.Send` is one `select` over the end of its context, the channel `closed` and the
channel of records. A call comes to its `select` once. If some cases are ready then, the language
takes any one of them; if none is, the call waits, and the next event that makes a case ready ends
its wait: a worker that takes a record, the end of the context, or a channel that is closed. A send
on a closed channel is ready, and panics.

`Close` closes `closed` before the channel of records. So the calls that wait are all woken with
`ErrClosed`, and none is left when the channel of records is closed (`Sound.awake`). A call that
comes to its `select` after that has the panic among its ready cases: no call panics, whatever cases
are taken, exactly if none comes to its `select` after `Close` has closed the channel of records
(`sendsProper_iff`).
-/

namespace GoKafka

open List

/-! ## Calls -/

/-- Where a call of `Send` is: before its `select`, waiting in it, or at its end. -/
inductive SendPhase where
  | calling
  | waiting
  | returned (result : Except Error Unit)
  deriving DecidableEq

/-- A call of `Send`, with the error of its context when that has ended. -/
structure AsyncSend where
  record : Record
  ctxErr : Option String := none
  phase : SendPhase := .calling
  deriving DecidableEq

namespace AsyncSend

/-- The ready cases of the `select` of `Send`, in the order of the source: how the call ends, and
what it leaves behind. -/
def ready (cfg : AsyncConfig) (sh : AsyncShared) (call : AsyncSend) :
    List (Except Error Unit × AsyncShared) :=
  (call.ctxErr.toList.map fun msg => (.error (.other msg), sh)) ++
    [SendCase.closed, SendCase.input].filterMap fun branch =>
      (sh.send cfg call.record branch).1.map (·, (sh.send cfg call.record branch).2)

/-- `AsyncProducer.Send`: one of the ready cases is taken, if there is one. -/
def select (cfg : AsyncConfig) (sh : AsyncShared) (call : AsyncSend) (pick : Nat) :
    Option (Except Error Unit × AsyncShared) :=
  (call.ready cfg sh)[pick % (call.ready cfg sh).length]?

/-- A call that waits ends. -/
def wake (result : Except Error Unit) (call : AsyncSend) : AsyncSend :=
  if call.phase = .waiting then { call with phase := .returned result } else call

/-- The call's context ends. -/
def cancel (msg : String) (call : AsyncSend) : AsyncSend :=
  if call.ctxErr = none then { call.wake (.error (.other msg)) with ctxErr := some msg } else call

/-- If the call has ended, it has returned nil, `ErrClosed` or its context's error. -/
def Proper (call : AsyncSend) : Prop :=
  ∀ result, call.phase = .returned result →
    result = .ok () ∨ result = .error errClosed ∨
      ∃ msg, call.ctxErr = some msg ∧ result = .error (.other msg)

end AsyncSend

/-! ## The producer with its calls -/

/-- The producer, the calls of `Send`, and those of them that wait at the channel of records, the
one that has waited longest first. -/
structure SendSystem where
  producer : AsyncProducer
  calls : List AsyncSend
  sendq : List Nat := []

/-- The events: a call comes to its `select`, its context ends, the two steps of `Close`, and a step
of a worker. -/
inductive SendAct where
  | send (i : Nat)
  | cancel (i : Nat) (msg : String)
  | closeClosed
  | closeInput
  | work (i : Nat) (branch : WorkerCase) (outcome : ProduceOutcome)

namespace SendSystem

/-- `Run` has started the workers, and no call has come to its `select`. -/
def start (n : Nat) (records : List Record) : SendSystem where
  producer := .start n
  calls := records.map fun r => { record := r }

/-- Call `i` comes to its `select`. -/
def send (cfg : AsyncConfig) (pick : Nat → Nat) (s : SendSystem) (i : Nat) : SendSystem :=
  match s.calls[i]? with
  | none => s
  | some call =>
    if call.phase = .calling then
      match call.select cfg s.producer.shared (pick i) with
      | some (result, shared) =>
        { s with
          producer := { s.producer with shared := shared }
          calls := s.calls.set i { call with phase := .returned result } }
      | none =>
        { s with calls := s.calls.set i { call with phase := .waiting }, sendq := s.sendq ++ [i] }
    else s

/-- If there is room in the channel, the call that has waited longest sends its record. -/
def handOver (cfg : AsyncConfig) (s : SendSystem) : SendSystem :=
  match s.sendq with
  | [] => s
  | i :: sendq =>
    match s.calls[i]? with
    | none => s
    | some call =>
      match s.producer.shared.send cfg call.record .input with
      | (some result, shared) =>
        { producer := { s.producer with shared := shared }
          calls := s.calls.set i { call with phase := .returned result }
          sendq := sendq }
      | (none, _) => s

/-- All calls that wait end. -/
def wakeAll (result : Except Error Unit) (s : SendSystem) : SendSystem :=
  { s with calls := s.calls.map (·.wake result), sendq := [] }

/-- An event; of the ready cases of call `i`, `pick i` says which is taken. -/
def next (cfg : AsyncConfig) (pick : Nat → Nat) (s : SendSystem) : SendAct → SendSystem
  | .send i => s.send cfg pick i
  | .cancel i msg => { s with calls := s.calls.modify i (·.cancel msg), sendq := s.sendq.erase i }
  | .closeClosed =>
    { s.wakeAll (.error errClosed) with producer := s.producer.next cfg .closeClosed }
  | .closeInput =>
    if s.producer.shared.closed then
      { s.wakeAll (.error (.panic "send on closed channel")) with
        producer := s.producer.next cfg .closeInput }
    else s
  | .work i branch outcome =>
    handOver cfg { s with producer := s.producer.next cfg (.work i branch outcome) }

/-- Call `i` has not come to its `select`. -/
def Calling (s : SendSystem) (i : Nat) : Prop :=
  ∃ call, s.calls[i]? = some call ∧ call.phase = .calling

/-- No call comes to its `select` after the channel of records has been closed. -/
def BeforeClose (s : SendSystem) : SendAct → Prop
  | .send i => s.Calling i → s.producer.shared.inputClosed = false
  | _ => True

end SendSystem

/-! ## What a call meets -/

theorem AsyncShared.send_closed (cfg : AsyncConfig) (sh : AsyncShared) (r : Record)
    (branch : SendCase) :
    (sh.send cfg r branch).2.closed = sh.closed ∧
      (sh.send cfg r branch).2.inputClosed = sh.inputClosed := by
  cases branch with
  | closed => exact ⟨rfl, rfl⟩
  | input =>
    unfold AsyncShared.send
    split_ifs <;> exact ⟨rfl, rfl⟩

/-- As long as the channel of records is open, a send returns nil or `ErrClosed`. -/
theorem AsyncShared.send_result {sh : AsyncShared} (hopen : sh.inputClosed = false)
    (h : (sh.send cfg r branch).1 = some result) : result = .ok () ∨ result = .error errClosed := by
  cases branch with
  | closed =>
    simp only [AsyncShared.send, Option.ite_none_right_eq_some, Option.some.injEq] at h
    exact .inr h.2.symm
  | input =>
    simp only [AsyncShared.send, hopen, Bool.false_eq_true, if_false] at h
    split_ifs at h
    exact .inl (Option.some.inj h).symm

namespace AsyncSend

variable {call : AsyncSend}

theorem mem_ready : (result, sh') ∈ call.ready cfg sh ↔
    (∃ msg, call.ctxErr = some msg ∧ result = .error (.other msg) ∧ sh' = sh) ∨
      ∃ branch, (sh.send cfg call.record branch).1 = some result ∧
        sh' = (sh.send cfg call.record branch).2 := by
  have hbranch : ∀ branch, branch ∈ [SendCase.closed, SendCase.input] := by
    intro branch
    cases branch <;> simp
  simp only [ready, mem_append, mem_map, Option.mem_toList, Prod.mk.injEq,
    mem_filterMap, Option.map_eq_some_iff, hbranch, true_and]
  refine or_congr ?_ ?_
  · exact exists_congr fun msg => and_congr_right fun _ =>
      and_congr ⟨Eq.symm, Eq.symm⟩ ⟨Eq.symm, Eq.symm⟩
  · refine exists_congr fun branch => ⟨?_, ?_⟩
    · rintro ⟨result', h, rfl, rfl⟩
      exact ⟨h, rfl⟩
    · rintro ⟨h, rfl⟩
      exact ⟨result, h, rfl, rfl⟩

theorem mem_ready_of_select (h : call.select cfg sh pick = some (result, sh')) :
    (result, sh') ∈ call.ready cfg sh :=
  List.mem_of_getElem? h

theorem exists_select (h : (result, sh') ∈ call.ready cfg sh) :
    ∃ pick, call.select cfg sh pick = some (result, sh') := by
  obtain ⟨pick, hlt, hpick⟩ := getElem_of_mem h
  exact ⟨pick, by rw [select, Nat.mod_eq_of_lt hlt, List.getElem?_eq_getElem hlt, hpick]⟩

theorem closed_of_select_eq_none (h : call.select cfg sh pick = none) : sh.closed = false := by
  by_contra hclosed
  have hmem : (.error errClosed, sh) ∈ call.ready cfg sh :=
    mem_ready.2 (.inr ⟨.closed, if_pos (Bool.eq_true_of_not_eq_false hclosed), rfl⟩)
  have hlen := length_pos_of_mem hmem
  exact absurd (List.getElem?_eq_none_iff.1 h) (Nat.not_le.2 (Nat.mod_lt _ hlen))

theorem proper_wake (h : call.Proper) (hresult : result = .ok () ∨ result = .error errClosed) :
    (call.wake result).Proper := by
  unfold wake
  split_ifs with hwaiting
  · rintro _ ⟨⟩
    exact hresult.imp_right .inl
  · exact h

theorem wake_phase_ne : (call.wake result).phase ≠ .waiting := by
  unfold wake
  split_ifs with hwaiting
  · exact nofun
  · exact hwaiting

theorem wake_of_ne (h : call.phase ≠ .waiting) : call.wake result = call :=
  if_neg h

theorem calling_of_wake (h : (call.wake result).phase = .calling) : call.phase = .calling := by
  unfold wake at h
  split_ifs at h
  exact h

theorem proper_cancel (h : call.Proper) : (call.cancel msg).Proper := by
  unfold cancel wake
  split_ifs with hlive hwaiting
  · rintro _ ⟨⟩
    exact .inr (.inr ⟨msg, rfl, rfl⟩)
  · intro result hresult
    rcases h result hresult with hok | herr | ⟨msg', hmsg', -⟩
    · exact .inl hok
    · exact .inr (.inl herr)
    · exact nomatch hlive.symm.trans hmsg'
  · exact h

theorem phase_cancel (msg : String) : (call.cancel msg).phase = call.phase ∨
    call.phase = .waiting ∧ (call.cancel msg).phase = .returned (.error (.other msg)) := by
  unfold cancel wake
  split_ifs with hlive hwaiting
  · exact .inr ⟨hwaiting, rfl⟩
  · exact .inl rfl
  · exact .inl rfl

end AsyncSend

namespace SendSystem

variable {cfg : AsyncConfig} {pick pick' : Nat → Nat} {s : SendSystem} {act : SendAct} {i : Nat}

/-! ## No panic before the channel is closed -/

/-- The calls that have ended are proper; `closed` is closed before the channel of records, and once
it is, no call waits. -/
structure Sound (s : SendSystem) : Prop where
  proper : ∀ call ∈ s.calls, call.Proper
  closes : s.producer.shared.inputClosed → s.producer.shared.closed
  awake : s.producer.shared.closed → s.sendq = [] ∧ ∀ call ∈ s.calls, call.phase ≠ .waiting

theorem sound_start : (start n records).Sound := by
  have hcalling : ∀ call ∈ (start n records).calls, call.phase = .calling := by
    intro call hcall
    obtain ⟨r, -, rfl⟩ := mem_map.1 hcall
    rfl
  refine ⟨fun call hcall result hresult => ?_, nofun, nofun⟩
  exact nomatch (hcalling call hcall).symm.trans hresult

/-- A call ends with a proper result, and no channel is closed. -/
theorem Sound.finish (h : s.Sound) {sendq : List Nat} (hcall : call.Proper)
    (hphase : call.phase ≠ .waiting) (hclosed : shared.closed = s.producer.shared.closed)
    (hinput : shared.inputClosed = s.producer.shared.inputClosed) (hsendq : sendq ⊆ s.sendq) :
    Sound
      { producer := { s.producer with shared := shared }, calls := s.calls.set i call
        sendq := sendq } := by
  refine ⟨fun call' hmem => ?_, fun hin => ?_, fun hcl => ?_⟩
  · rcases mem_or_eq_of_mem_set hmem with hmem | rfl
    · exact h.proper call' hmem
    · exact hcall
  · exact hclosed.trans (h.closes (hinput.symm.trans hin))
  · obtain ⟨hnil, hwaiting⟩ := h.awake (hclosed.symm.trans hcl)
    refine ⟨subset_nil.1 (hnil ▸ hsendq), fun call' hmem => ?_⟩
    rcases mem_or_eq_of_mem_set hmem with hmem | rfl
    · exact hwaiting call' hmem
    · exact hphase

theorem Sound.send (h : s.Sound) (hopen : s.Calling i → s.producer.shared.inputClosed = false) :
    (s.send cfg pick i).Sound := by
  fun_cases SendSystem.send cfg pick s i with
  | case1 => exact h
  | case2 call hcall hcalling result shared hselect =>
    have hopen := hopen ⟨call, hcall, hcalling⟩
    rcases AsyncSend.mem_ready.1 (AsyncSend.mem_ready_of_select hselect) with
      ⟨msg, hmsg, rfl, rfl⟩ | ⟨branch, hresult, rfl⟩
    · refine h.finish ?_ nofun rfl rfl (List.Subset.refl _)
      rintro _ ⟨⟩
      exact .inr (.inr ⟨msg, hmsg, rfl⟩)
    · have hflags := AsyncShared.send_closed cfg s.producer.shared call.record branch
      refine h.finish ?_ nofun hflags.1 hflags.2 (List.Subset.refl _)
      rintro _ ⟨⟩
      exact (AsyncShared.send_result hopen hresult).imp_right .inl
  | case3 call hcall hcalling hselect =>
    -- nothing was ready, so `closed` is open
    have hclosed := AsyncSend.closed_of_select_eq_none hselect
    refine ⟨fun call' hmem => ?_, h.closes, fun hcl => nomatch hclosed.symm.trans hcl⟩
    rcases mem_or_eq_of_mem_set hmem with hmem | rfl
    · exact h.proper call' hmem
    · exact nofun
  | case4 => exact h

theorem Sound.handOver (h : s.Sound) : (s.handOver cfg).Sound := by
  fun_cases SendSystem.handOver cfg s with
  | case1 | case2 | case4 => exact h
  | case3 i sendq hsendq call hcall result shared hsend =>
    have hopen : s.producer.shared.inputClosed = false := by
      by_contra hclosed
      have hnil := (h.awake (h.closes (Bool.eq_true_of_not_eq_false hclosed))).1
      exact nomatch hsendq.symm.trans hnil
    have hflags := AsyncShared.send_closed cfg s.producer.shared call.record .input
    have hfst : (s.producer.shared.send cfg call.record .input).1 = some result :=
      congrArg Prod.fst hsend
    have hresult := AsyncShared.send_result hopen hfst
    rw [hsend] at hflags
    refine h.finish ?_ nofun hflags.1 hflags.2 (hsendq ▸ subset_cons_self i sendq)
    rintro _ ⟨⟩
    exact hresult.imp_right .inl

/-- A channel is closed, and the calls that wait end. -/
theorem sound_wakeAll {producer : AsyncProducer}
    (hresult : ∀ call ∈ s.calls, (call.wake result).Proper)
    (hcloses : producer.shared.inputClosed → producer.shared.closed) :
    Sound { s.wakeAll result with producer := producer } := by
  refine ⟨fun call hcall => ?_, hcloses, fun _ => ⟨rfl, fun call hcall => ?_⟩⟩
  · obtain ⟨call', hcall', rfl⟩ := mem_map.1 hcall
    exact hresult call' hcall'
  · obtain ⟨call', -, rfl⟩ := mem_map.1 hcall
    exact AsyncSend.wake_phase_ne

theorem exists_of_mem_modify {calls : List AsyncSend} (h : call ∈ calls.modify i f) :
    ∃ call' ∈ calls, call = call' ∨ call = f call' := by
  obtain ⟨j, hj⟩ := mem_iff_getElem?.1 h
  rw [List.getElem?_modify] at hj
  obtain ⟨call', hcall', heq⟩ := Option.map_eq_some_iff.1 hj
  refine ⟨call', mem_of_getElem? hcall', ?_⟩
  split_ifs at heq
  · exact .inr heq.symm
  · exact .inl heq.symm

theorem Sound.cancel (h : s.Sound) (i : Nat) (msg : String) :
    Sound { s with calls := s.calls.modify i (·.cancel msg), sendq := s.sendq.erase i } := by
  refine ⟨fun call hmem => ?_, h.closes, fun hcl => ?_⟩
  · obtain ⟨call', hcall', rfl | rfl⟩ := exists_of_mem_modify hmem
    · exact h.proper call hcall'
    · exact AsyncSend.proper_cancel (h.proper call' hcall')
  · obtain ⟨hnil, hwaiting⟩ := h.awake hcl
    refine ⟨by rw [hnil]; rfl, fun call hmem => ?_⟩
    obtain ⟨call', hcall', rfl | rfl⟩ := exists_of_mem_modify hmem
    · exact hwaiting call hcall'
    · rcases @AsyncSend.phase_cancel call' msg with hphase | ⟨hphase, -⟩
      · exact hphase ▸ hwaiting call' hcall'
      · exact absurd hphase (hwaiting call' hcall')

/-- An event keeps the calls sound, unless a call comes too late. -/
theorem Sound.next (h : s.Sound) (hact : s.BeforeClose act) : (s.next cfg pick act).Sound := by
  cases act with
  | send i => exact h.send hact
  | cancel i msg => exact h.cancel i msg
  | closeClosed =>
    exact sound_wakeAll (fun call hcall => AsyncSend.proper_wake (h.proper call hcall) (.inr rfl))
      fun _ => rfl
  | closeInput =>
    rw [SendSystem.next]
    split_ifs with hclosed
    · -- the calls that waited have returned when `closed` was closed
      refine sound_wakeAll (fun call hcall => ?_) fun _ => ?_
      · rw [AsyncSend.wake_of_ne ((h.awake hclosed).2 call hcall)]
        exact h.proper call hcall
      · rw [AsyncProducer.next, if_pos hclosed]
        exact hclosed
    · exact h
  | work i branch outcome =>
    have hflags : (s.producer.next cfg (.work i branch outcome)).shared.closed =
        s.producer.shared.closed ∧
        (s.producer.next cfg (.work i branch outcome)).shared.inputClosed =
          s.producer.shared.inputClosed := by
      rw [AsyncProducer.next]
      cases s.producer.workers[i]? with
      | none => exact ⟨rfl, rfl⟩
      | some w =>
        obtain ⟨hclosed, hinput⟩ := w.step_channels
        exact ⟨hclosed, hinput⟩
    refine Sound.handOver ⟨h.proper, fun hin => ?_, fun hcl => ?_⟩
    · exact hflags.1.trans (h.closes (hflags.2.symm.trans hin))
    · exact h.awake (hflags.1.symm.trans hcl)

/-! ## A call that comes too late -/

/-- When the channel of records is closed, a call that comes to its `select` can panic. -/
theorem exists_panic (hcalling : s.Calling i) (hclosed : s.producer.shared.inputClosed = true) :
    ∃ pick, ∃ call ∈ (s.send cfg pick i).calls, ¬ call.Proper := by
  obtain ⟨call, hcall, hphase⟩ := hcalling
  have hmem : (.error (.panic "send on closed channel"), s.producer.shared) ∈
      call.ready cfg s.producer.shared := by
    refine AsyncSend.mem_ready.2 (.inr ⟨.input, ?_⟩)
    simp [AsyncShared.send, hclosed]
  obtain ⟨p, hp⟩ := AsyncSend.exists_select hmem
  refine ⟨fun _ => p, { call with phase := .returned (.error (.panic "send on closed channel")) },
    ?_, ?_⟩
  · simp only [SendSystem.send, hcall, hphase, if_true, hp]
    exact mem_set (List.getElem?_eq_some_iff.1 hcall).1 _
  · intro hproper
    rcases hproper _ rfl with h | h | ⟨msg, -, h⟩
    · cases h
    · cases h
    · cases h

theorem calling_of_set (hcall : call.phase ≠ .calling) {producer : AsyncProducer} {sendq : List Nat}
    (h : Calling ⟨producer, s.calls.set j call, sendq⟩ i) : i ≠ j ∧ s.Calling i := by
  obtain ⟨call', hcall', hphase⟩ := h
  rw [List.getElem?_set] at hcall'
  split_ifs at hcall' with hj hlt
  · cases hcall'
    exact absurd hphase hcall
  · exact ⟨Ne.symm hj, call', hcall', hphase⟩

/-- A call comes to its `select` once. -/
theorem calling_of_send (h : (s.send cfg pick j).Calling i) : i ≠ j ∧ s.Calling i := by
  revert h
  fun_cases SendSystem.send cfg pick s j with
  | case1 hnone =>
    rintro ⟨call, hcall, hphase⟩
    refine ⟨?_, call, hcall, hphase⟩
    rintro rfl
    exact nomatch hnone.symm.trans hcall
  | case2 | case3 =>
    intro h
    refine calling_of_set ?_ h
    exact nofun
  | case4 call hcall hphase =>
    rintro ⟨call', hcall', hphase'⟩
    refine ⟨?_, call', hcall', hphase'⟩
    rintro rfl
    cases hcall.symm.trans hcall'
    exact hphase hphase'

/-- No event takes a call back. -/
theorem calling_of_next (h : (s.next cfg pick act).Calling i) : s.Calling i := by
  have hwake : ∀ {result producer},
      Calling { s.wakeAll result with producer := producer } i → s.Calling i := by
    rintro result producer ⟨call, hcall, hphase⟩
    obtain ⟨call', hcall', rfl⟩ := Option.map_eq_some_iff.1 (List.getElem?_map ▸ hcall)
    exact ⟨call', hcall', AsyncSend.calling_of_wake hphase⟩
  cases act with
  | send j => exact (calling_of_send h).2
  | cancel j msg =>
    obtain ⟨call, hcall, hphase⟩ := h
    rw [SendSystem.next, List.getElem?_modify] at hcall
    obtain ⟨call', hcall', rfl⟩ := Option.map_eq_some_iff.1 hcall
    refine ⟨call', hcall', ?_⟩
    split_ifs at hphase
    · rcases @AsyncSend.phase_cancel call' msg with hsame | ⟨-, hreturned⟩
      · exact hsame.symm.trans hphase
      · exact nomatch hreturned.symm.trans hphase
    · exact hphase
  | closeClosed => exact hwake h
  | closeInput =>
    rw [SendSystem.next] at h
    split_ifs at h
    · exact hwake h
    · exact h
  | work j branch outcome =>
    revert h
    rw [SendSystem.next]
    fun_cases SendSystem.handOver with
    | case1 | case2 | case4 => exact id
    | case3 =>
      intro h
      refine (calling_of_set ?_ h).2
      exact nofun

theorem send_congr (h : s.Calling i → pick i = pick' i) :
    s.send cfg pick i = s.send cfg pick' i := by
  unfold SendSystem.send
  cases hcall : s.calls[i]? with
  | none => rfl
  | some call =>
    by_cases hphase : call.phase = .calling
    · simp [h ⟨call, hcall, hphase⟩]
    · simp [hphase]

theorem next_congr (h : ∀ i, s.Calling i → pick i = pick' i) :
    s.next cfg pick act = s.next cfg pick' act := by
  cases act with
  | send i => exact send_congr (h i)
  | _ => rfl

/-- Which case a call takes matters only if it is still to come to its `select`. -/
theorem states_congr (h : ∀ i, s.Calling i → pick i = pick' i) :
    Run.states (next cfg pick) s acts = Run.states (next cfg pick') s acts := by
  induction acts generalizing s with
  | nil => rfl
  | cons act acts ih =>
    rw [Run.states, Run.states, ih fun i hi => h i (calling_of_next hi), next_congr h]

theorem exists_pick (pick pick' : Nat → Nat) :
    ∃ pick'', s.next cfg pick'' act = s.next cfg pick act ∧
      ∀ j, (s.next cfg pick act).Calling j → pick'' j = pick' j := by
  cases act with
  | send i =>
    refine ⟨Function.update pick' i (pick i), ?_, fun j hj => ?_⟩
    · exact send_congr fun _ => Function.update_self i (pick i) pick'
    · exact Function.update_of_ne (calling_of_send hj).1 _ _
  | _ => exact ⟨pick', rfl, fun _ _ => rfl⟩

theorem beforeClose_of_proper
    (h : ∀ pick, ∀ call ∈ (s.next cfg pick act).calls, call.Proper) : s.BeforeClose act := by
  cases act with
  | send i =>
    intro hcalling
    by_contra hclosed
    obtain ⟨pick, call, hcall, himproper⟩ :=
      @exists_panic cfg s i hcalling (Bool.eq_true_of_not_eq_false hclosed)
    exact himproper (h pick call hcall)
  | _ => trivial

/-- Whatever ready cases are taken, `Send` returns nil, `ErrClosed` or its context's error and never
sends on the closed channel, if and only if no call comes to its `select` after the channel has been
closed. -/
theorem sendsProper_iff (cfg : AsyncConfig) (n : Nat) (records : List Record)
    (acts : List SendAct) :
    (∀ pick, ∀ s ∈ Run.states (next cfg pick) (start n records) acts, ∀ call ∈ s.calls,
        call.Proper) ↔
      ∀ pick, Run.Along (next cfg pick) BeforeClose (start n records) acts := by
  constructor
  · generalize start n records = s
    intro h
    induction acts generalizing s with
    | nil => exact fun _ => trivial
    | cons act acts ih =>
      have hact : s.BeforeClose act := beforeClose_of_proper fun pick =>
        h pick _ (mem_cons_of_mem _ (Run.head_mem_states _ _ _))
      intro pick
      refine ⟨hact, ih (s.next cfg pick act) (fun pick' s' hs' => ?_) pick⟩
      obtain ⟨pick'', hstep, hlater⟩ := exists_pick pick pick'
      refine h pick'' s' (mem_cons_of_mem _ ?_)
      rwa [hstep, states_congr hlater]
  · intro h pick s hs
    have hsound := @Run.Along.states _ _ (next cfg pick) BeforeClose Sound _ acts
      (fun s act hs hact => hs.next hact) (h pick) sound_start s hs
    exact hsound.proper

/-- A call that comes after `Close` takes the case of the channel of records. -/
theorem send_afterClose : ([.closeClosed, .closeInput, .send 0].foldl (next {} fun _ => 1)
        (start 1 [{ topic := [116], partition := 0 }])).calls.map (·.phase) =
      [.returned (.error (.panic "send on closed channel"))] := by
  decide

end SendSystem

end GoKafka
