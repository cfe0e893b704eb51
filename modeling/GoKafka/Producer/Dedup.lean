import GoKafka.Producer.PartialRetry

/-!
# Idempotent calls and lost responses

The idempotent producer against leaders that deduplicate by sequence number. A leader appends a
batch whose base sequence is the next one it expects, acknowledges a batch it has already appended
without appending it again, and rejects any other (`LeaderLog.handle`). A request can be applied
while its response is lost (`Fate`).

When a call gives up after such a loss, the producer gives the block of sequence numbers back
although the leader has used it. The next call on the partition sends other records under the same
numbers; if it sends as many of them, the leader takes them for the batch it has, and the call
returns nil with its records in no log (`produce_lost`). `calls_delivered` is the condition that
excludes this.
-/

namespace GoKafka

open Assoc List

/-! ## Leaders -/

/-- A batch in a partition's log. -/
structure AppendedBatch where
  base : Int32
  records : List ProduceRecord
  deriving DecidableEq

/-- A batch holds these records; one without a timestamp has got the time of a send. -/
def AppendedBatch.Holds (b : AppendedBatch) (rs : List Record) : Prop :=
  List.Forall₂ (fun r p => ∃ now, p = Record.wire now r) rs b.records

/-- A partition's log, as far as one producer id and epoch has written it. -/
structure LeaderLog where
  batches : List AppendedBatch := []
  deriving DecidableEq

namespace LeaderLog

variable (l : LeaderLog)

/-- The next sequence number the leader expects. -/
def next : Int32 :=
  match l.batches.getLast? with
  | none => 0
  | some b => Int32.ofInt ((b.base.toInt + b.records.length) % 2 ^ 31)

/-- The leader has appended a batch of this base sequence and record count. -/
def Has (base : Int32) (count : Nat) : Prop :=
  ∃ b ∈ l.batches, b.base = base ∧ b.records.length = count

instance (base : Int32) (count : Nat) : Decidable (l.Has base count) :=
  inferInstanceAs (Decidable (∃ _ ∈ _, _))

/-- The offset of the batch with this base sequence, or the end of the log. -/
def offset (base : Int32) : Int64 :=
  Int64.ofNat ((l.batches.takeWhile (·.base ≠ base)).map (·.records.length)).sum

/-- What the leader makes of a batch: its log after it, and the error code of the answer. -/
def handle (b : PartitionBatch) : LeaderLog × Int16 :=
  if l.Has b.baseSequence b.records.length then (l, 0)
  else if b.baseSequence = l.next then
    ({ batches := l.batches ++ [⟨b.baseSequence, b.records⟩] }, 0)
  else (l, errCodeOutOfOrderSequence)

/-- The leader's answer. -/
def answer (b : PartitionBatch) : ProduceResult :=
  ⟨b.topic, b.partition, l.offset b.baseSequence, (l.handle b).2⟩

end LeaderLog

/-- The logs of all partitions. -/
abbrev LeaderLogs := PartKey → LeaderLog

/-- What becomes of a broker's request: it is answered, it is applied and the response is lost, or
it is lost itself. -/
inductive Fate where
  | delivered
  | applied (e : Error)
  | lost (e : Error)

/-- The broker's side of an exchange. -/
def LeaderLogs.respond (logs : LeaderLogs) (fate : Int32 → Fate) (node : Int32)
    (bs : List PartitionBatch) : Except Error (List ProduceResult) :=
  match fate node with
  | .delivered => .ok (bs.map fun b => (logs b.partKey).answer b)
  | .applied e | .lost e => .error e

/-- The batches of an exchange that are applied. -/
def Exchange.applied (fate : Int32 → Fate) (ex : Exchange) : List PartitionBatch :=
  match fate ex.node, ex.request with
  | .lost _, _ | _, .error _ => []
  | _, .ok bs => bs

/-- The logs after a batch. -/
def LeaderLogs.append (logs : LeaderLogs) (b : PartitionBatch) : LeaderLogs :=
  Function.update logs b.partKey ((logs b.partKey).handle b).1

/-- The logs after the exchanges of an attempt. -/
def LeaderLogs.after (logs : LeaderLogs) (fate : Int32 → Fate) (exs : List Exchange) : LeaderLogs :=
  (exs.flatMap (·.applied fate)).foldl LeaderLogs.append logs

/-- An attempt's environment but for the brokers' answers, and the fates of its requests. -/
structure AttemptPlan where
  env : AttemptEnv
  fate : Int32 → Fate

/-- The world of a call: its plan for each attempt, and the logs. -/
def leaders (plan : Nat → AttemptPlan) : World (Nat × LeaderLogs) :=
  { env := fun w => { (plan w.1).env with respond := LeaderLogs.respond w.2 (plan w.1).fate }
    next := fun w sent => (w.1 + 1, w.2.after (plan w.1).fate (sent.getD [])) }

/-! ## Calls -/

/-- A call of `ProduceSync`. -/
structure Call where
  records : List Record
  cfg : ProducerConfig
  openErr : Option Error := none
  init : Except Error ProducerID
  plan : Nat → AttemptPlan

/-- The idempotent producer and the leaders. -/
structure Calls where
  producer : Producer := { idempotent := true }
  logs : LeaderLogs := fun _ => {}

namespace Calls

variable (s : Calls) (c : Call)

/-- What a call returns. -/
def call : ProduceReturn (Nat × LeaderLogs) :=
  produceSyncResult c.cfg (leaders c.plan) s.producer c.openErr c.init c.records (0, s.logs)

/-- The state after a call. -/
def after : Calls := ⟨(s.call c).producer, (s.call c).world.2⟩

/-- The counter of a partition. -/
def counter (k : PartKey) : Int32 := baseSequence s.producer.identity k

/-- The state after calls one after the other. -/
def run (s : Calls) (cs : List Call) : Calls := cs.foldl after s

end Calls

/-- The condition on an attempt: for each partition the records were assigned to, the numbers stay
in range and the leader has no batch of as many records under the number the counter stood at. -/
def Attempt.Fresh (s : Calls) (a : Attempt) : Prop :=
  ∀ k, a.frozen.filter (·.partKey = k) ≠ [] →
    (s.counter k).toInt + (a.frozen.filter (·.partKey = k)).length < 2 ^ 31 ∧
    ¬ (s.logs k).Has (s.counter k) (a.frozen.filter (·.partKey = k)).length

/-- The condition on a call. The partitions are assigned once in a call, so that its attempts agree
about them. -/
def Calls.Fresh (s : Calls) (c : Call) : Prop := ∀ a ∈ (s.call c).attempts, a.Fresh s

/-- Every record of a call is in its partition's log, in a batch the call has added. -/
def Delivered (s s' : Calls) (c : Call) : Prop :=
  ∃ f, List.Forall₂ FrozenRecord c.records f ∧ ∀ k, f.filter (·.partKey = k) ≠ [] →
    ∃ b : AppendedBatch, b.Holds (f.filter (·.partKey = k)) ∧
      (s'.logs k).batches = (s.logs k).batches ++ [b]

/-! ## One log -/

theorem errCodeOutOfOrderSequence_ne_zero : errCodeOutOfOrderSequence ≠ 0 := by decide

/-- A log with one batch more, of this base sequence, that holds these records. -/
def LeaderLog.Extends (l l' : LeaderLog) (base : Int32) (rs : List Record) : Prop :=
  ∃ b : AppendedBatch, b.base = base ∧ b.Holds rs ∧ l'.batches = l.batches ++ [b]

/-- A leader that is sent the same records again and again under a number that was new to it ends up
with one copy of them, and says that it has it. -/
theorem LeaderLog.handle_again {l : LeaderLog}
    (hrecords : (AppendedBatch.mk b.baseSequence b.records).Holds rs)
    (hnew : ¬ l₀.Has b.baseSequence rs.length) (hl : l = l₀ ∨ l₀.Extends l b.baseSequence rs) :
    (l.handle b).1 = l₀ ∧ (l.handle b).2 ≠ 0 ∨ l₀.Extends (l.handle b).1 b.baseSequence rs := by
  have hlen : rs.length = b.records.length := List.Forall₂.length_eq hrecords
  unfold handle
  rcases hl with rfl | ⟨b', hbase, hrecords', hbatches⟩
  · rw [if_neg (hlen ▸ hnew)]
    split_ifs with hnext
    · exact .inr ⟨_, rfl, hrecords, rfl⟩
    · exact .inl ⟨rfl, errCodeOutOfOrderSequence_ne_zero⟩
  · have hhas : l.Has b.baseSequence b.records.length := by
      refine ⟨b', ?_, hbase, ?_⟩
      · rw [hbatches]
        exact mem_append_right _ (mem_singleton_self b')
      · rw [← hlen]
        exact (List.Forall₂.length_eq hrecords').symm
    rw [if_pos hhas]
    exact .inr ⟨b', hbase, hrecords', hbatches⟩

/-! ## The logs after an attempt -/

namespace LeaderLogs

variable {bs : List PartitionBatch}

theorem foldl_append_of_not_mem (h : k ∉ bs.map (·.partKey)) : bs.foldl append logs k = logs k := by
  induction bs generalizing logs with
  | nil => rfl
  | cons b bs ih =>
    have ⟨hb, hbs⟩ := ne_and_not_mem_of_not_mem_cons h
    exact (ih hbs).trans (Function.update_of_ne hb _ _)

theorem foldl_append (hnodup : (bs.map (·.partKey)).Nodup) (hb : b ∈ bs) :
    bs.foldl append logs b.partKey = ((logs b.partKey).handle b).1 := by
  induction bs generalizing logs with
  | nil => cases hb
  | cons b' bs ih =>
    have ⟨hout, hbs⟩ := nodup_cons.1 hnodup
    rcases mem_cons.1 hb with rfl | hb
    · exact (foldl_append_of_not_mem hout).trans (Function.update_self _ _ _)
    · have hne : b.partKey ≠ b'.partKey := by
        intro heq
        exact hout (mem_map.2 ⟨b, hb, heq⟩)
      rw [foldl_cons, ih hbs hb, append, Function.update_of_ne hne]

end LeaderLogs

theorem Exchange.mem_applied {ex : Exchange} (h : b ∈ ex.applied fate) :
    ∃ bs, ex.request = .ok bs ∧ b ∈ bs := by
  unfold applied at h
  split at h
  · cases h
  · cases h
  · next bs hbs _ => exact ⟨bs, hbs, h⟩

/-- Leaders answer for each partition that they are sent. -/
theorem LeaderLogs.definite {env : AttemptEnv} {logs : LeaderLogs}
    (hresp : env.respond = logs.respond fate) : env.Definite := by
  intro node bs rs _ hrs
  rw [hresp, LeaderLogs.respond] at hrs
  split at hrs
  · cases hrs
    rw [map_map]
    exact .refl _
  · cases hrs
  · cases hrs

section Sent

variable {cfg : ProducerConfig} {env : AttemptEnv} {routed : List RoutedRecord}
  {identity : Option ProducerIdentity} {out : SendOut} {exs : List Exchange} {logs : LeaderLogs}
  {k : PartKey}

/-- An exchange applies batches of partitions that it sent. -/
theorem Exchange.Sent.applied_asked {ex : Exchange} (h : ex.Sent cfg env routed identity)
    (hb : b ∈ ex.applied fate) : ∃ r ∈ routed, r.leader = ex.node ∧ r.partKey = b.partKey := by
  obtain ⟨bs, hbs, hmem⟩ := Exchange.mem_applied hb
  exact (h.mem bs hbs _).1 (mem_map_of_mem hmem)

/-- An entry of an answer is that of a batch that was applied. -/
theorem Exchange.Sent.delivered {ex : Exchange} (h : ex.Sent cfg env routed identity)
    (hresp : env.respond = logs.respond fate) (hres : res ∈ ex.entries) :
    ∃ b ∈ ex.applied fate, (logs b.partKey).answer b = res := by
  obtain ⟨bs, hbs, rs, hanswer, -, hres⟩ := h.request_ok hres
  rw [hresp, LeaderLogs.respond] at hanswer
  split at hanswer
  · next hfate =>
    cases hanswer
    obtain ⟨b, hb, rfl⟩ := mem_map.1 hres
    refine ⟨b, ?_, rfl⟩
    rw [Exchange.applied, hfate, hbs]
    exact hb
  · cases hanswer
  · cases hanswer

variable (h : SendSpec cfg env routed identity out exs)
include h

theorem SendSpec.nodup_applied (hleader : OneLeader routed) :
    ((exs.flatMap (·.applied fate)).map (·.partKey)).Nodup := by
  rw [map_flatMap, nodup_flatMap]
  refine ⟨fun ex hex => ?_, (pairwise_map.1 h.nodup).imp_of_mem ?_⟩
  · unfold Exchange.applied
    split
    · exact nodup_nil
    · exact nodup_nil
    · next bs hbs _ => exact (h.exchange ex hex).nodup bs hbs
  · intro ex ex' hex hex' hnode k hk hk'
    obtain ⟨b, hb, rfl⟩ := mem_map.1 hk
    obtain ⟨b', hb', hkey⟩ := mem_map.1 hk'
    exact hnode (congrArg _ (h.eq_of_asked hleader hex hex' ((h.exchange ex hex).applied_asked hb)
      (hkey ▸ (h.exchange ex' hex').applied_asked hb')))

theorem SendSpec.after_of_not_mem (hk : k ∉ routed.map (·.partKey)) :
    logs.after fate exs k = logs k := by
  refine LeaderLogs.foldl_append_of_not_mem fun hmem => hk ?_
  obtain ⟨b, hb, rfl⟩ := mem_map.1 hmem
  obtain ⟨ex, hex, hin⟩ := mem_flatMap.1 hb
  obtain ⟨r, hr, -, hkey⟩ := (h.exchange ex hex).applied_asked hin
  exact mem_map.2 ⟨r, hr, hkey⟩

/-- The batch a send has for a partition. -/
structure BatchFor (env : AttemptEnv) (routed : List RoutedRecord)
    (identity : Option ProducerIdentity) (k : PartKey) (b : PartitionBatch) : Prop where
  base : b.baseSequence = baseSequence identity k
  records : b.records = (routed.filter (·.partKey = k)).map (·.produceRecord env.now)

/-- What becomes of a partition of a send: it is reported as failed, whether its leader has handled
the batch or not, or its leader has handled the batch and acknowledged it. -/
inductive KeyOutcome (env : AttemptEnv) (routed : List RoutedRecord)
    (identity : Option ProducerIdentity) (exs : List Exchange) (k : PartKey)
    (log log' : LeaderLog) : Prop where
  | failed (hack : lastAck (exs.flatMap (·.entries)) k = none)
      (hfail : FailedIn env.now routed exs k)
      (hlog : log' = log ∨ ∃ b, BatchFor env routed identity k b ∧ log' = (log.handle b).1)
  | acked (hack : (lastAck (exs.flatMap (·.entries)) k).isSome)
      (hfail : ¬ FailedIn env.now routed exs k) (b : PartitionBatch)
      (hb : BatchFor env routed identity k b) (hcode : (log.handle b).2 = 0)
      (hlog : log' = (log.handle b).1)

theorem SendSpec.outcome (hleader : OneLeader routed) (hresp : env.respond = logs.respond fate)
    (hk : k ∈ routed.map (·.partKey)) :
    KeyOutcome env routed identity exs k (logs k) (logs.after fate exs k) := by
  have hdef := LeaderLogs.definite hresp
  obtain ⟨ex, hex, hasked, hfailed, hacked⟩ := h.own hleader hdef.answers hk
  have hsent := h.exchange ex hex
  rw [hsent.failedKeys_iff hdef hasked] at hfailed
  -- the partition's log handles the batch that its own exchange applies
  have happlied {b : PartitionBatch} (hb : b ∈ ex.applied fate) (hkey : b.partKey = k) :
      BatchFor env routed identity k b ∧ logs.after fate exs k = ((logs k).handle b).1 := by
    subst hkey
    obtain ⟨bs, hbs, hmem⟩ := Exchange.mem_applied hb
    exact ⟨⟨hsent.baseSequence bs hbs b hmem, hsent.records bs hbs b hmem⟩,
      LeaderLogs.foldl_append (h.nodup_applied hleader) (mem_flatMap.2 ⟨ex, hex, hb⟩)⟩
  by_cases hack : ex.AcksKey k
  · obtain ⟨res, hres, hkey, hcode⟩ := hack
    obtain ⟨b, hb, rfl⟩ := hsent.delivered hresp hres
    obtain ⟨hbatch, hlog⟩ := happlied hb hkey
    obtain rfl : b.partKey = k := hkey
    exact .acked (hacked.2 ⟨_, hres, rfl, hcode⟩) (fun hf => hfailed.1 hf ⟨_, hres, rfl, hcode⟩) b
      hbatch hcode hlog
  · refine .failed (Option.not_isSome_iff_eq_none.1 fun hs => hack (hacked.1 hs))
      (hfailed.2 hack) ?_
    by_cases hin : k ∈ (ex.applied fate).map (·.partKey)
    · obtain ⟨b, hb, hkey⟩ := mem_map.1 hin
      exact .inr ⟨b, happlied hb hkey⟩
    · refine .inl (LeaderLogs.foldl_append_of_not_mem fun hmem => hin ?_)
      obtain ⟨b, hb, rfl⟩ := mem_map.1 hmem
      obtain ⟨ex', hex', hb'⟩ := mem_flatMap.1 hb
      rw [h.eq_of_asked hleader hex hex' hasked ((h.exchange ex' hex').applied_asked hb')]
      exact mem_map_of_mem hb'

end Sent

theorem map_positionsOf
    (h : ∀ (i : Nat) (r : Record), f[i]? = some r → r.partKey = k → acked.getD i false = false) :
    (positionsOf f acked k).map (·.1.1) = f.filter (·.partKey = k) := by
  have hfst : (positionsOf f acked k).map (·.1) =
      (pendingRecords f acked).filter (·.1.partKey = k) := by
    have hzip : (pendingRecords f acked).zipIdx.map (·.1) = pendingRecords f acked :=
      zipIdx_map_fst 0 _
    conv_rhs => rw [← hzip, filter_map]
    rfl
  have hpending : (pendingRecords f acked).filter (·.1.partKey = k) =
      f.zipIdx.filter (·.1.partKey = k) := by
    unfold pendingRecords
    rw [filter_filter]
    refine filter_congr fun ⟨r, i⟩ hmem => ?_
    have hr := mk_mem_zipIdx_iff_getElem?.1 hmem
    by_cases hkey : r.partKey = k
    · simp only [hkey, h i r hr hkey, decide_true, Bool.not_false, Bool.and_self]
    · simp [hkey]
  have hzip : f.zipIdx.map (·.1) = f := zipIdx_map_fst 0 _
  calc (positionsOf f acked k).map (·.1.1)
      = ((positionsOf f acked k).map (·.1)).map (·.1) := by rw [map_map]; rfl
    _ = (f.zipIdx.filter (·.1.partKey = k)).map (·.1) := by rw [hfst, hpending]
    _ = (f.zipIdx.map (·.1)).filter (·.partKey = k) := by rw [filter_map]; rfl
    _ = f.filter (·.partKey = k) := by rw [hzip]

/-- Then the batch holds them. -/
theorem BatchFor.holds (hb : BatchFor env (routedPending c f acked) identity k b)
    (h : ∀ (i : Nat) (r : Record), f[i]? = some r → r.partKey = k → acked.getD i false = false) :
    (AppendedBatch.mk b.baseSequence b.records).Holds (f.filter (·.partKey = k)) := by
  rw [hb.records, filter_routedPending, map_map, ← map_positionsOf h]
  exact forall₂_map_left_iff.2 (forall₂_map_right_iff.2
    (forall₂_same.2 fun q _ => ⟨env.now q.2, rfl⟩))

theorem length_filter_routedPending
    (h : ∀ (i : Nat) (r : Record), f[i]? = some r → r.partKey = k → acked.getD i false = false) :
    ((routedPending c f acked).filter (·.partKey = k)).length =
      (f.filter (·.partKey = k)).length := by
  rw [filter_routedPending, ← map_positionsOf h, length_map, length_map]

/-! ## A call -/

/-- How a partition stands in the middle of a call, with the records of the call that go to it: none
of them is acknowledged, and the log is as it was or has them already, or all of them are and the
counter has moved. -/
inductive KeyState (s : Calls) (f : List Record) (k : PartKey) (v : ProduceVars) (log : LeaderLog) :
    Prop where
  | pending
      (hacked : ∀ (i : Nat) (r : Record), f[i]? = some r → r.partKey = k →
        v.acked.getD i false = false)
      (hcounter : baseSequence v.identity k = s.counter k)
      (hlog : log = s.logs k ∨ f.filter (·.partKey = k) ≠ [] ∧
        (s.logs k).Extends log (s.counter k) (f.filter (·.partKey = k)))
  | done (hne : f.filter (·.partKey = k) ≠ [])
      (hacked : ∀ (i : Nat) (r : Record), f[i]? = some r → r.partKey = k →
        v.acked.getD i false = true)
      (hcounter : baseSequence v.identity k =
        s.counter k + Int32.ofNat (f.filter (·.partKey = k)).length)
      (hrange : (s.counter k).toInt + (f.filter (·.partKey = k)).length < 2 ^ 31)
      (hlog : (s.logs k).Extends log (s.counter k) (f.filter (·.partKey = k)))

section Call

variable {records : List Record} {v : ProduceVars} {logs : LeaderLogs} {k : PartKey} {s : Calls}

/-- A send keeps the state of each partition. -/
theorem KeyState.sent (hstate : KeyState s f k v (logs k))
    (h : SentPending cfg env records v out f exs) (hresp : env.respond = logs.respond fate)
    {id : ProducerIdentity} (hid : v.identity = some id) (hpos : 0 ≤ (s.counter k).toInt)
    (hrange : f.filter (·.partKey = k) ≠ [] →
      (s.counter k).toInt + (f.filter (·.partKey = k)).length < 2 ^ 31)
    (hnew : f.filter (·.partKey = k) ≠ [] →
      ¬ (s.logs k).Has (s.counter k) (f.filter (·.partKey = k)).length) :
    KeyState s f k out.vars (logs.after fate exs k) := by
  have hans := (LeaderLogs.definite hresp).answers
  obtain ⟨so, hspec, -, hident⟩ := h.send
  obtain ⟨id', hid', -, hseq⟩ := hspec.identity id hid
  have hbase : baseSequence v.identity k = id.state.sequence k := by rw [hid]; rfl
  have hbase' : baseSequence out.vars.identity k = id'.state.sequence k := by rw [hident, hid']; rfl
  have hacked (i : Nat) (r : Record) (hr : f[i]? = some r) (hkey : r.partKey = k) :
      out.vars.acked.getD i false = true ↔ v.acked.getD i false = true ∨
        (lastAck (exs.flatMap (·.entries)) k).isSome := by
    rw [h.acked]
    refine or_congr_right ⟨?_, fun hack => ⟨r, hr, hkey.symm ▸ hack⟩⟩
    rintro ⟨r', hr', hack⟩
    obtain rfl := Option.some.inj (hr.symm.trans hr')
    exact hkey ▸ hack
  by_cases hk : k ∈ (routedPending env.cluster f v.acked).map (·.partKey)
  · obtain ⟨i, r, hr, hkey, hpending⟩ := mem_keys_routedPending.1 hk
    have hne : f.filter (·.partKey = k) ≠ [] :=
      ne_nil_of_mem (mem_filter.2 ⟨mem_of_getElem? hr, decide_eq_true hkey⟩)
    cases hstate with
    | done _ hall => cases (hall i r hr hkey).symm.trans hpending
    | pending hunacked hcounter hlog =>
      have hlog := hlog.imp_right And.right
      have hagain {b : PartitionBatch}
          (hb : BatchFor env (routedPending env.cluster f v.acked) v.identity k b) :=
        LeaderLog.handle_again (hb.holds hunacked) (hb.base.trans hcounter ▸ hnew hne)
          (hb.base.trans hcounter ▸ hlog)
      cases hspec.outcome oneLeader_routedPending hresp hk with
      | failed hack hfail hafter =>
        refine .pending (fun i r hr hkey => ?_) ?_ ?_
        · have hiff := hacked i r hr hkey
          rw [hunacked i r hr hkey, hack] at hiff
          exact Bool.not_eq_true _ ▸ fun htrue => by simpa using hiff.1 htrue
        · rw [hbase', hseq, if_pos hk, if_pos hfail, ← hbase, hcounter, if_neg]
          rw [Int32.lt_iff_toInt_lt, Int32.toInt_zero]
          omega
        · rcases hafter with hsame | ⟨b, hb, hafter⟩
          · exact hsame ▸ hlog.imp_right fun hext => ⟨hne, hext⟩
          · have hb' := hb.base.trans hcounter
            rcases hagain hb with ⟨hsame, -⟩ | hext
            · exact .inl (hafter.trans hsame)
            · exact .inr ⟨hne, hafter ▸ hb' ▸ hext⟩
      | acked hack hfail b hb hcode hafter =>
        have hb' := hb.base.trans hcounter
        refine .done hne (fun i r hr hkey => (hacked i r hr hkey).2 (.inr hack)) ?_ (hrange hne) ?_
        · rw [hbase', hseq, if_pos hk, if_neg hfail, ← hbase, hcounter,
            length_filter_routedPending hunacked]
        · rcases hagain hb with ⟨-, hne⟩ | hext
          · exact absurd hcode hne
          · exact hafter ▸ hb' ▸ hext
  · -- nothing of the partition is pending
    have hnone : ¬ (lastAck (exs.flatMap (·.entries)) k).isSome := by
      intro hack
      obtain ⟨res, hmem, -, hkey⟩ := lastAck_isSome.1 hack
      obtain ⟨ex, hex, hin⟩ := mem_flatMap.1 hmem
      obtain ⟨r, hr, -, hrkey⟩ := (hspec.exchange ex hex).entry_asked hans hin
      exact hk (mem_map.2 ⟨r, hr, hrkey.trans hkey⟩)
    have hsame : baseSequence out.vars.identity k = baseSequence v.identity k := by
      rw [hbase', hseq, if_neg hk, hbase]
    have hacked' (i : Nat) (r : Record) (hr : f[i]? = some r) (hkey : r.partKey = k) :
        out.vars.acked.getD i false = v.acked.getD i false :=
      Bool.eq_iff_iff.2 ((hacked i r hr hkey).trans (or_iff_left hnone))
    rw [hspec.after_of_not_mem hk]
    cases hstate with
    | pending hunacked hcounter hlog =>
      exact .pending (fun i r hr hkey => (hacked' i r hr hkey).trans (hunacked i r hr hkey))
        (hsame.trans hcounter) hlog
    | done hne hall hcounter hrange hlog =>
      exact .done hne (fun i r hr hkey => (hacked' i r hr hkey).trans (hall i r hr hkey))
        (hsame.trans hcounter) hrange hlog

/-- What holds between the attempts of a call. -/
structure CallInv (s : Calls) (records : List Record) (w : Nat × LeaderLogs) (v : ProduceVars) :
    Prop where
  fits : v.Fits records
  identity : ∃ id, v.identity = some id
  fresh : v.frozen = none → ∀ i : Nat, v.acked.getD i false = false
  keys : ∀ k, KeyState s (v.frozen.getD []) k v (w.2 k)

/-- Freezing the partitions changes no partition's state. -/
theorem CallInv.frozen (h : CallInv s records w v) (hkept : v.frozen = none ∨ v.frozen = some f)
    (k : PartKey) : KeyState s f k v (w.2 k) := by
  have hk := h.keys k
  rcases hkept with hnone | hsome
  · rw [hnone] at hk
    cases hk with
    | pending _ hcounter hlog =>
      exact .pending (fun i r _ _ => h.fresh hnone i) hcounter
        (.inl (hlog.resolve_right fun hne => hne.1 rfl))
    | done hne => exact absurd rfl hne
  · rw [hsome] at hk
    exact hk

theorem KeyState.unsent (h : KeyState s f k v log) (hout : Unsent records v out) :
    KeyState s f k out.vars log := by
  cases h with
  | pending hacked hcounter hlog =>
    exact .pending (hout.acked ▸ hacked) (hout.identity ▸ hcounter) hlog
  | done hne hacked hcounter hrange hlog =>
    exact .done hne (hout.acked ▸ hacked) (hout.identity ▸ hcounter) hrange hlog

theorem CallInv.unsent (h : CallInv s records w v) (hout : Unsent records v out) :
    CallInv s records w out.vars := by
  refine ⟨hout.fits h.fits, hout.identity ▸ h.identity, fun hnone => ?_, fun k => ?_⟩
  · cases hv : v.frozen with
    | none => exact hout.acked ▸ h.fresh hv
    | some f => cases hnone.symm.trans (hout.kept f hv)
  · cases hf : out.vars.frozen with
    | none =>
      cases hv : v.frozen with
      | none => exact (h.frozen (.inl hv) k).unsent hout
      | some f => cases hf.symm.trans (hout.kept f hv)
    | some f =>
      refine (h.frozen ?_ k).unsent hout
      cases hv : v.frozen with
      | none => exact .inl rfl
      | some f' => exact .inr ((hout.kept f' hv).symm.trans hf)

theorem CallInv.attempt (hsound : ∀ n, (plan n).env.Sound) (hpos : ∀ k, 0 ≤ (s.counter k).toInt)
    (h : CallInv s records w v) (hfresh : ((leaders plan).attempt cfg records w v).Fresh s) :
    CallInv s records ((leaders plan).next w ((leaders plan).attempt cfg records w v).out.sent)
      ((leaders plan).attempt cfg records w v).out.vars := by
  have hsound' : ((leaders plan).env w).Sound := ⟨(hsound w.1).freezing, (hsound w.1).cluster⟩
  rcases @attempt_spec cfg _ _ _ hsound' h.fits with hout | ⟨f, exs, hout⟩
  · have hlogs : ((leaders plan).next w ((leaders plan).attempt cfg records w v).out.sent).2 =
        w.2 := by
      show w.2.after _
        (Option.getD (GoKafka.attempt cfg records ((leaders plan).env w) v).sent []) =
        w.2
      rw [hout.sent]
      rfl
    have hinv := h.unsent hout
    exact ⟨hinv.fits, hinv.identity, hinv.fresh, hlogs ▸ hinv.keys⟩
  · have hlogs : ((leaders plan).next w ((leaders plan).attempt cfg records w v).out.sent).2 =
        w.2.after (plan w.1).fate exs := by
      show w.2.after _
        (Option.getD (GoKafka.attempt cfg records ((leaders plan).env w) v).sent []) =
        _
      rw [hout.sent]
      rfl
    obtain ⟨id, hid⟩ := h.identity
    obtain ⟨so, hspec, -, hident⟩ := hout.send
    obtain ⟨id', hid', -⟩ := hspec.identity id hid
    refine ⟨hout.fits, ⟨id', hident.trans hid'⟩, fun hnone => ?_, fun k => ?_⟩
    · cases hout.frozen.symm.trans hnone
    · have hf : ((leaders plan).attempt cfg records w v).out.vars.frozen.getD [] = f :=
        congrArg (Option.getD · []) hout.frozen
      have hfrozen : ((leaders plan).attempt cfg records w v).frozen = f := hf
      have hk := hfresh k
      rw [hfrozen] at hk
      rw [hf, hlogs]
      exact (h.frozen hout.kept k).sent hout rfl hid (hpos k) (fun hne => (hk hne).1)
        fun hne => (hk hne).2

/-- After an attempt without an error every record is acknowledged. -/
theorem SentPending.acked_of_clean (h : SentPending cfg env records v out f exs)
    (hresp : env.respond = logs.respond fate) (herr : out.err = none) (hi : i < records.length) :
    out.vars.acked.getD i false = true := by
  obtain ⟨so, hspec, hso, -⟩ := h.send
  have hclean := hspec.err.1 (hso.symm.trans herr)
  have hr : f[i]? = some (f.get ⟨i, h.freeze.length_eq ▸ hi⟩) := List.getElem?_eq_getElem _
  refine (h.acked i).2 ?_
  cases hpending : v.acked.getD i false with
  | true => exact .inl rfl
  | false =>
    have hk := (@mem_keys_routedPending _ _ env.cluster _).2 ⟨i, _, hr, rfl, hpending⟩
    cases hspec.outcome oneLeader_routedPending hresp hk with
    | acked hack => exact .inr ⟨_, hr, hack⟩
    | failed _ hfail =>
      -- a failed partition leaves a code or an error
      obtain ⟨ex, hex, hin⟩ := hfail
      obtain ⟨rs, hrs, hcodes⟩ := hclean ex hex
      unfold Exchange.failedKeys at hin
      rw [hrs] at hin
      obtain ⟨res, hres, -⟩ := mem_map.1 hin
      have ⟨hmem, hcode⟩ := mem_filter.1 hres
      exact absurd (hcodes res hmem) (of_decide_eq_true hcode)

end Call

/-! ## Calls one after the other -/

/-- What holds between calls. -/
structure Calls.Ready (s : Calls) : Prop where
  idempotent : s.producer.idempotent = true
  counters : ∀ k, 0 ≤ (s.counter k).toInt

/-- A call sends nothing, or it makes attempts. -/
inductive CallShape (s : Calls) (records : List Record) (ret : ProduceReturn (Nat × LeaderLogs)) :
    Prop where
  | idle (hlogs : ret.world.2 = s.logs) (hproducer : ret.producer = s.producer)
      (herr : ret.err = none → records = [])
  | ran (v : ProduceVars) (hinv : CallInv s records ret.world v)
      (hproducer : ret.producer = { s.producer with identity := v.identity })
      (herr : ret.err = none → ∀ i < records.length, v.acked.getD i false = true)

section Calls

variable {s : Calls} {c : Call}

theorem CallInv.start {id : ProducerIdentity}
    (hcounter : ∀ k, id.state.sequence k = s.counter k) :
    CallInv s c.records (0, s.logs) (.start c.records (some id)) := by
  refine ⟨ProduceVars.fits_start c.records _, ⟨id, rfl⟩, fun _ i => getD_replicate_false,
    fun k => .pending (fun i r hr => ?_) (hcounter k) (.inl rfl)⟩
  cases hr

theorem ensureProducerID_ok (hready : s.Ready) (h : ensureProducerID s.producer init = .ok p) :
    ∃ id, p = { s.producer with identity := some id } ∧ ∀ k, id.state.sequence k = s.counter k := by
  unfold ensureProducerID at h
  rw [if_pos hready.idempotent] at h
  cases hid : s.producer.identity with
  | some id =>
    rw [hid] at h
    cases h
    refine ⟨id, ?_, fun k => ?_⟩
    · rw [← hid]
    · unfold Calls.counter
      rw [hid]
      rfl
  | none =>
    rw [hid] at h
    cases init with
    | error e => cases h
    | ok pid =>
      cases h
      refine ⟨{ pid := pid }, rfl, fun k => ?_⟩
      unfold Calls.counter
      rw [hid]
      rfl

theorem acked_of_nil (hsound : ∀ n, (plan n).env.Sound) (hfits : v.Fits records)
    (hnil : (retryLoop cfg records (leaders plan) cfg.attempts w v).err = none) :
    ∀ i < records.length,
      (retryLoop cfg records (leaders plan) cfg.attempts w v).vars.acked.getD i false = true := by
  have hsound' (w : Nat × LeaderLogs) : ((leaders plan).env w).Sound :=
    ⟨(hsound w.1).freezing, (hsound w.1).cluster⟩
  have hstep : ∀ (_ : List Attempt) (v : ProduceVars) w, v.Fits records →
      ((leaders plan).attempt cfg records w v).out.vars.Fits records := by
    intro _ v w hv
    rcases @attempt_spec cfg _ _ _ (hsound' w) hv with hout | ⟨f, exs, hout⟩
    · exact hout.fits hv
    · exact hout.fits
  obtain ⟨left, hleft⟩ := cfg.attempts_pos
  rw [hleft] at hnil ⊢
  have hends := @retryLoop_ends _ cfg records (leaders plan) left w v
  obtain ⟨a, ha, herr⟩ := hends.err.1 hnil
  rw [hends.vars a ha herr]
  obtain ⟨xs, ys, hxs⟩ := append_of_mem ha
  have ⟨_, hmid⟩ := @retryLoop_induct _ cfg records (leaders plan) (fun _ v => v.Fits records) hstep
    (left + 1) w v [] hfits
  obtain ⟨w', v', hv', rfl⟩ := hmid xs a ys hxs
  rcases @attempt_spec cfg _ _ _ (hsound' w') hv' with hout | ⟨f, exs, hout⟩
  · exact absurd herr hout.err
  · exact fun i hi => hout.acked_of_clean rfl herr hi

theorem call_shape (hready : s.Ready) (hsound : ∀ n, (c.plan n).env.Sound) (hfresh : s.Fresh c) :
    CallShape s c.records (s.call c) := by
  unfold Calls.Fresh at hfresh
  unfold Calls.call produceSyncResult at hfresh ⊢
  cases hopen : c.openErr with
  | some e => exact .idle rfl rfl nofun
  | none =>
    rw [hopen] at hfresh
    split_ifs at hfresh ⊢ with hrecords
    · exact .idle rfl rfl fun _ => hrecords
    · cases hinit : ensureProducerID s.producer c.init with
      | error e => exact .idle rfl rfl nofun
      | ok p =>
        rw [hinit] at hfresh
        obtain ⟨id, rfl, hcounter⟩ := ensureProducerID_ok hready hinit
        have hstart : CallInv s c.records (0, s.logs) _ := CallInv.start hcounter
        have hinv := retryLoop_invariant (CallInv s c.records) (Attempt.Fresh s)
          (fun w v hw hQ => hw.attempt hsound hready.counters hQ) hstart hfresh
        exact .ran _ hinv rfl (acked_of_nil hsound hstart.fits)

/-- A fresh call adds to the logs, and the next call can start. -/
theorem Calls.Ready.after (hready : s.Ready) (hsound : ∀ n, (c.plan n).env.Sound)
    (hfresh : s.Fresh c) : (s.after c).Ready ∧
      ∀ k, (s.logs k).batches <+: ((s.after c).logs k).batches := by
  cases call_shape hready hsound hfresh with
  | idle hlogs hproducer _ =>
    have hcounter (k : PartKey) : (s.after c).counter k = s.counter k :=
      congrArg (fun p : Producer => baseSequence p.identity k) hproducer
    refine ⟨⟨(congrArg Producer.idempotent hproducer).trans hready.idempotent, fun k => ?_⟩,
      fun k => ?_⟩
    · exact hcounter k ▸ hready.counters k
    · exact (congrArg (fun l : LeaderLogs => (s.logs k).batches <+: (l k).batches) hlogs).mpr
        prefix_rfl
  | ran v hinv hproducer _ =>
    have hcounter (k : PartKey) : (s.after c).counter k = baseSequence v.identity k :=
      congrArg (fun p : Producer => baseSequence p.identity k) hproducer
    refine ⟨⟨(congrArg Producer.idempotent hproducer).trans hready.idempotent, fun k => ?_⟩,
      fun k => ?_⟩
    · rw [hcounter]
      have hpos := hready.counters k
      cases hinv.keys k with
      | pending _ hsame => exact hsame ▸ hpos
      | done _ _ hmoved hrange =>
        rw [hmoved, Int32.toInt_add, Int32.toInt_ofNat_of_lt (by omega),
          Int.bmod_eq_of_le (by omega) (by omega)]
        omega
    · cases hinv.keys k with
      | pending _ _ hlog =>
        rcases hlog with hsame | ⟨-, b, -, -, hext⟩
        · exact hsame ▸ prefix_rfl
        · exact ⟨[b], hext.symm⟩
      | done _ _ _ _ hlog =>
        obtain ⟨b, -, -, hext⟩ := hlog
        exact ⟨[b], hext.symm⟩

theorem Delivered.of_records_nil (h : c.records = []) : Delivered s s' c := by
  refine ⟨[], ?_, fun k hne => absurd rfl hne⟩
  rw [h]
  exact .nil

/-- A fresh call that returns nil has delivered its records. -/
theorem Calls.Ready.delivered (hready : s.Ready) (hsound : ∀ n, (c.plan n).env.Sound)
    (hfresh : s.Fresh c) (hnil : (s.call c).err = none) : Delivered s (s.after c) c := by
  cases call_shape hready hsound hfresh with
  | idle _ _ herr =>
    exact .of_records_nil (herr hnil)
  | ran v hinv _ herr =>
    have hacked := herr hnil
    cases hf : v.frozen with
    | none =>
      have hrecords : c.records = [] := by
        refine eq_nil_iff_length_eq_zero.2 (Nat.eq_zero_of_not_pos fun hpos => ?_)
        cases (hacked 0 hpos).symm.trans (hinv.fresh hf 0)
      exact .of_records_nil hrecords
    | some f =>
      have hforall := hinv.fits.frozen f hf
      refine ⟨f, hforall, fun k hne => ?_⟩
      cases hinv.frozen (.inr hf) k with
      | pending hunacked =>
        obtain ⟨r, hr⟩ := exists_mem_of_ne_nil _ hne
        have ⟨hmem, hkey⟩ := mem_filter.1 hr
        obtain ⟨i, hi⟩ := mem_iff_getElem?.1 hmem
        have hlt : i < c.records.length := hforall.length_eq ▸ (List.getElem?_eq_some_iff.1 hi).1
        cases (hacked i hlt).symm.trans (hunacked i r hi (of_decide_eq_true hkey))
      | done _ _ _ _ hlog =>
        obtain ⟨b, -, hholds, hext⟩ := hlog
        exact ⟨b, hholds, hext⟩

theorem Calls.run_append : s.run (cs ++ cs') = (s.run cs).run cs' :=
  List.foldl_append

theorem Calls.Ready.run (hready : s.Ready) (hsound : ∀ c ∈ cs, ∀ n, (c.plan n).env.Sound)
    (hfresh : ∀ pre c post, cs = pre ++ c :: post → (s.run pre).Fresh c) : (s.run cs).Ready ∧
      ∀ k, (s.logs k).batches <+: ((s.run cs).logs k).batches := by
  induction cs generalizing s with
  | nil => exact ⟨hready, fun k => prefix_rfl⟩
  | cons c cs ih =>
    have ⟨hsoundc, hsounds⟩ := forall_mem_cons.1 hsound
    have ⟨hnext, hgrows⟩ := hready.after hsoundc (hfresh [] c cs rfl)
    have ⟨hend, hmore⟩ := ih hnext hsounds fun pre c' post heq =>
      hfresh (c :: pre) c' post (congrArg (c :: ·) heq)
    exact ⟨hend, fun k => (hgrows k).trans (hmore k)⟩

theorem Calls.ready_start : ({} : Calls).Ready := ⟨rfl, fun _ => Int.le_refl 0⟩

/-- In every sequence of fresh calls, whatever requests and responses are lost, a call that returns
nil has delivered its records, and they stay in the logs. -/
theorem calls_delivered {cs : List Call} (hsound : ∀ c ∈ cs, ∀ n, (c.plan n).env.Sound)
    (hfresh : ∀ pre c post, cs = pre ++ c :: post → (Calls.run {} pre).Fresh c)
    {pre post : List Call} {c : Call} (hcs : cs = pre ++ c :: post)
    (hnil : ((Calls.run {} pre).call c).err = none) :
    Delivered (Calls.run {} pre) (Calls.run {} (pre ++ [c])) c ∧
      ∀ k, ((Calls.run {} (pre ++ [c])).logs k).batches <+: ((Calls.run {} cs).logs k).batches := by
  subst hcs
  have ⟨hsoundPre, hsoundRest⟩ := forall_mem_append.1 hsound
  have ⟨hsoundC, hsoundPost⟩ := forall_mem_cons.1 hsoundRest
  have hfreshC := hfresh pre c post rfl
  have ⟨hready, _⟩ := Calls.ready_start.run hsoundPre fun xs c' ys heq =>
    hfresh xs c' (ys ++ c :: post) (by rw [heq, append_assoc]; rfl)
  have ⟨hnext, _⟩ := hready.after hsoundC hfreshC
  have ⟨_, hgrows⟩ := hnext.run hsoundPost fun xs c' ys heq => by
    have hf := hfresh (pre ++ c :: xs) c' ys (by rw [heq, append_assoc]; rfl)
    rwa [Calls.run_append] at hf
  rw [Calls.run_append, Calls.run_append]
  exact ⟨hready.delivered hsoundC hfreshC hnil, hgrows⟩

end Calls

/-- One record for topic `t`, in a call with an attempt for each fate. -/
def callT (value : Bytes) (fates : List Fate) : Call :=
  { records := [{ topic := [116], partition := 0, value := some value }]
    cfg := { configT with maxAttempts := fates.length }
    init := .ok ⟨1, 0⟩
    plan := fun n => ⟨envT fun _ _ => .ok [], fun _ => fates.getD n .delivered⟩ }

/-- A call of one record is fresh when the leader has not used the counter for one record. -/
theorem callT_fresh {s : Calls} {fates : List Fate}
    (hfrozen : ∀ f ∈ (s.call (callT value fates)).attempts.map (·.frozen),
      f = (callT value fates).records)
    (hrange : (s.counter ⟨[116], 0⟩).toInt + 1 < 2 ^ 31)
    (hnew : ¬ (s.logs ⟨[116], 0⟩).Has (s.counter ⟨[116], 0⟩) 1) : s.Fresh (callT value fates) := by
  intro a ha k hne
  rw [hfrozen _ (mem_map_of_mem ha)] at hne ⊢
  obtain ⟨r, hr⟩ := exists_mem_of_ne_nil _ hne
  have ⟨hin, hkey⟩ := mem_filter.1 hr
  obtain rfl := mem_singleton.1 hin
  obtain rfl := of_decide_eq_true hkey
  exact ⟨hrange, hnew⟩

/-- Two calls with two attempts: the first response of one is lost, and the first request of the
other. -/
def keptCalls : List Call :=
  [callT [1] [.applied (.transport "EOF"), .delivered],
    callT [2] [.lost (.transport "EOF"), .delivered]]

/-- Both calls return nil, and each record is in the log once. -/
theorem calls_delivered_two :
    ((Calls.run {} keptCalls).logs ⟨[116], 0⟩).batches.map (·.records.map (·.value)) =
      [[some [1]], [some [2]]] ∧
    ∀ pre c post, keptCalls = pre ++ c :: post → ((Calls.run {} pre).call c).err = none →
      Delivered (Calls.run {} pre) (Calls.run {} (pre ++ [c])) c := by
  refine ⟨by decide +kernel, fun pre c post hcs hnil => ?_⟩
  refine (calls_delivered ?_ ?_ hcs hnil).1
  · intro c hc n
    rcases mem_cons.1 hc with rfl | hc
    · exact ⟨clusterT_sound, clusterT_sound⟩
    · obtain rfl := mem_singleton.1 hc
      exact ⟨clusterT_sound, clusterT_sound⟩
  · intro pre c post heq
    match pre, heq with
    | [], heq =>
      obtain ⟨rfl, -⟩ := List.cons.inj heq
      exact callT_fresh (by decide +kernel) (by decide +kernel) (by decide +kernel)
    | [c'], heq =>
      obtain ⟨rfl, htail⟩ := List.cons.inj heq
      obtain ⟨rfl, -⟩ := List.cons.inj htail
      exact callT_fresh (by decide +kernel) (by decide +kernel) (by decide +kernel)
    | c' :: c'' :: pre, heq =>
      obtain ⟨-, htail⟩ := List.cons.inj heq
      obtain ⟨-, hnone⟩ := List.cons.inj htail
      exact absurd hnone (append_ne_nil_of_right_ne_nil _ (cons_ne_nil _ _)).symm

/-- The first call's record is appended and the response is lost; the second call sends another
record. -/
def lostCalls : List Call := [callT [1] [.applied (.transport "EOF")], callT [2] [.delivered]]

/-- The second call returns nil, and the log has the first call's record only. -/
theorem produce_lost :
    ((Calls.run {} (lostCalls.take 1)).call (callT [2] [.delivered])).err = none ∧
    ((Calls.run {} lostCalls).logs ⟨[116], 0⟩).batches.map (·.records.map (·.value)) =
      [[some [1]]] ∧
    ¬ Delivered (Calls.run {} (lostCalls.take 1)) (Calls.run {} lostCalls)
      (callT [2] [.delivered]) := by
  have hlog : ((Calls.run {} lostCalls).logs ⟨[116], 0⟩).batches =
      ((Calls.run {} (lostCalls.take 1)).logs ⟨[116], 0⟩).batches := by decide +kernel
  refine ⟨by decide +kernel, by decide +kernel, ?_⟩
  rintro ⟨f, hf, hlogs⟩
  cases hf with
  | cons hr hnil =>
    cases hnil
    obtain rfl := hr.keeps (by decide)
    obtain ⟨b, -, hext⟩ := hlogs ⟨[116], 0⟩ (by decide)
    rw [hlog] at hext
    exact absurd hext (by simp)

end GoKafka
