import GoKafka.Producer.AsyncOrder

/-!
# The batching producer

`batch_producer.go`: `Send` collects records and hands a full batch to `ProduceSync`, and a timer
hands on what there is when it goes off; it may then wait for the mutex behind other calls. In any
order, no record is lost, repeated or overtaken, and none waits without a timer (`batched_run`).
-/

namespace GoKafka

open List

/-- `BatchProducer`: its records and whether it has a timer; whether that is still running, and the
timers that wait for the mutex; the records sent and the calls of `ProduceSync`. -/
structure BatchProducer where
  pending : List Record := []
  timer : Bool := false
  running : Bool := false
  waiting : Nat := 0
  sent : List Record := []
  calls : List (List Record) := []

/-- A call of `Send`, one of `Flush` or `Close`, a timer goes off, or it gets the mutex. -/
inductive BatchAct where
  | send (r : Record) (outcome : Option Error)
  | flush (outcome : Option Error)
  | fire
  | fired (outcome : Option Error)

namespace BatchProducer

/-- `flushLocked`; `outcome` is what `ProduceSync` returns if it is called. -/
def flushLocked (b : BatchProducer) (outcome : Option Error) : Option Error × BatchProducer :=
  let b := { b with timer := false, running := b.running && !b.timer }
  if b.pending.length = 0 then (none, b)
  else (outcome, { b with pending := [], calls := b.calls ++ [b.pending] })

/-- `Send`; the size of a batch has the same default as that of the asynchronous producer. -/
def send (cfg : AsyncConfig) (b : BatchProducer) (r : Record) (outcome : Option Error) :
    Option Error × BatchProducer :=
  let b := { b with pending := b.pending ++ [r], sent := b.sent ++ [r] }
  if cfg.batchLen ≤ b.pending.length then b.flushLocked outcome
  else (none, if b.timer then b else { b with timer := true, running := true })

/-- An act; the function of a timer ignores the error. -/
def next (cfg : AsyncConfig) (b : BatchProducer) : BatchAct → BatchProducer
  | .send r outcome => (b.send cfg r outcome).2
  | .flush outcome => (b.flushLocked outcome).2
  | .fire => if b.running then { b with running := false, waiting := b.waiting + 1 } else b
  | .fired outcome =>
    if b.waiting = 0 then b else ({ b with waiting := b.waiting - 1 }.flushLocked outcome).2

/-- The records sent are those handed on, in batches of the allowed size, and those that wait, fewer
than a batch and with a timer that runs or has gone off. -/
structure Batched (cfg : AsyncConfig) (b : BatchProducer) : Prop where
  order : b.calls.flatten ++ b.pending = b.sent
  sizes : ∀ batch ∈ b.calls, 0 < batch.length ∧ batch.length ≤ cfg.batchLen
  fewer : b.pending.length < cfg.batchLen
  armed : b.timer = true ↔ b.pending ≠ []
  timed : b.timer = true → b.running = true ∨ 0 < b.waiting

variable {cfg : AsyncConfig} {b : BatchProducer}

theorem batched_flushLocked (b : BatchProducer) (horder : b.calls.flatten ++ b.pending = b.sent)
    (hsizes : ∀ batch ∈ b.calls, 0 < batch.length ∧ batch.length ≤ cfg.batchLen)
    (hlen : b.pending.length ≤ cfg.batchLen) (outcome : Option Error) :
    (b.flushLocked outcome).2.Batched cfg := by
  have hpos := cfg.batchLen_pos
  rw [flushLocked]
  dsimp only
  split_ifs with hempty
  · have hnil := length_eq_zero_iff.1 hempty
    exact ⟨horder, hsizes, hempty.trans_lt hpos, by simp [hnil], nofun⟩
  · refine ⟨by simpa using horder, ?_, hpos, by simp, nofun⟩
    intro batch hbatch
    rcases mem_append.1 hbatch with hold | hnew
    · exact hsizes batch hold
    · rw [mem_singleton.1 hnew]
      exact ⟨Nat.pos_of_ne_zero hempty, hlen⟩

theorem Batched.next (h : b.Batched cfg) (act : BatchAct) : (b.next cfg act).Batched cfg := by
  cases act with
  | send r outcome =>
    have horder : b.calls.flatten ++ (b.pending ++ [r]) = b.sent ++ [r] := by
      rw [← append_assoc, h.order]
    have hlen : (b.pending ++ [r]).length ≤ cfg.batchLen := by
      rw [length_append]
      exact h.fewer
    simp only [BatchProducer.next, send]
    split_ifs with hfull htimer
    · exact batched_flushLocked { b with pending := b.pending ++ [r], sent := b.sent ++ [r] } horder
        h.sizes hlen outcome
    · exact ⟨horder, h.sizes, not_le.1 hfull, by simp [htimer], h.timed⟩
    · exact ⟨horder, h.sizes, not_le.1 hfull, by simp, fun _ => .inl rfl⟩
  | flush outcome => exact batched_flushLocked _ h.order h.sizes h.fewer.le outcome
  | fire =>
    simp only [BatchProducer.next]
    split_ifs
    · exact ⟨h.order, h.sizes, h.fewer, h.armed, fun _ => .inr (Nat.succ_pos _)⟩
    · exact h
  | fired outcome =>
    simp only [BatchProducer.next]
    split_ifs
    · exact h
    · exact batched_flushLocked { b with waiting := b.waiting - 1 } h.order h.sizes h.fewer.le
        outcome

/-- Whatever the order of calls and timers, what is sent is handed on or waits, in order. -/
theorem batched_run (cfg : AsyncConfig) (acts : List BatchAct) :
    (acts.foldl (BatchProducer.next cfg) {}).Batched cfg := by
  refine Run.Along.foldl (fun _ act h _ => Batched.next h act)
    (Run.Along.of_forall (R := fun _ => True) fun _ _ => trivial) ?_
  exact ⟨rfl, nofun, cfg.batchLen_pos, by simp, nofun⟩

end BatchProducer

end GoKafka
