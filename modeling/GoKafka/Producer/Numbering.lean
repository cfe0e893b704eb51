import GoKafka.Lib.Run
import GoKafka.Producer.Routing
import GoKafka.Protocol.BatchRoundTrip

/-!
# The numbers of a producer's batches

An idempotent producer numbers the records it sends to a partition, and the broker expects the
numbers without gaps. Over any sequence of sends whose outcomes are definite, the base sequence of a
batch is the number of records that were acknowledged on its partition before (`sends_numbered`): a
send reserves a block for each of its partitions, the encoder takes the base of each from the
cursor, and the blocks of the partitions that failed are given back, whatever happens to the others.
-/

namespace GoKafka

open Assoc List

/-! ## Sends one after the other -/

/-- A call of `sendRecords`. -/
structure SendCall where
  cfg : ProducerConfig
  env : AttemptEnv
  records : List Record

/-- A producer between sends, with the number of its records that were acknowledged on each
partition. -/
structure Numbering where
  identity : Option ProducerIdentity
  acked : PartKey → Nat := fun _ => 0

/-- The batches of an exchange; a request that could not be encoded has none. -/
def Exchange.batches (ex : Exchange) : List PartitionBatch :=
  match ex.request with
  | .ok bs => bs
  | .error _ => []

/-- The number of records of a partition that were acknowledged in an exchange. -/
def Exchange.ackedRecords (ex : Exchange) (k : PartKey) : Nat :=
  if ex.AcksKey k then ((ex.batches.filter (·.partKey = k)).map (·.records.length)).sum else 0

namespace Numbering

variable (s : Numbering) (c : SendCall)

/-- What the producer's next send comes to. -/
def send : SendOut := sendRecords c.cfg c.env c.records s.identity

/-- The producer after it. -/
def next : Numbering where
  identity := (s.send c).identity
  acked k := s.acked k + ((s.send c).exchanges.map (·.ackedRecords k)).sum

/-- A producer with a new id. -/
def start (pid : ProducerID) : Numbering where
  identity := some { pid := pid }

/-- The counter of a partition is the number of acknowledged records, as long as this is in the
range of sequence numbers. -/
def Counts : Prop :=
  s.identity ≠ none ∧
    ∀ k, s.acked k < 2 ^ 31 → (baseSequence s.identity k).toInt = s.acked k

end Numbering

/-- The metadata names a leader for a partition: in the index, or in the list of the topic. -/
def Cluster.Names (c : Cluster) (topic : Bytes) (part leader : Int32) : Prop :=
  c.leaderNodeID topic part = (leader, true) ∨
    ∃ t, c.md.topics.find? (·.name = topic) = some t ∧
      ∃ p ∈ t.partitions, p.partition = part ∧ p.leader = leader

/-- The metadata names one leader for a partition. -/
def Cluster.OneLeader (c : Cluster) : Prop :=
  ∀ topic part leader leader', c.Names topic part leader → c.Names topic part leader' →
    leader = leader'

/-- The records of a call name their partitions, as `freezePartitions` leaves them, or the metadata
names one leader for each. -/
def SendCall.Settled (c : SendCall) : Prop :=
  (∀ r ∈ c.records, 0 ≤ r.partition) ∨ c.env.cluster.OneLeader

/-! ## Routing with one metadata -/

theorem names_of_resolvePartition {partition : NilBytes → Nat → Int32}
    (h : resolvePartition c partition r = .ok (part, leader)) :
    c.Names r.topic part leader ∧
      (0 ≤ r.partition → c.leaderNodeID r.topic part = (leader, true)) := by
  obtain ⟨t, hfind, -, ⟨-, -, hleader⟩ | ⟨hpos, hlisted⟩⟩ := resolvePartition_cases h
  · exact ⟨.inl hleader, fun _ => hleader⟩
  · exact ⟨.inr ⟨t, hfind, hlisted⟩, fun hnamed => absurd hnamed hpos⟩

theorem SendCall.Settled.oneLeader {c : SendCall} (h : c.Settled)
    (hrouted : routeRecords c.env.cluster c.env.repartition 0 c.records = .ok routed) :
    GoKafka.OneLeader routed := by
  rw [← routeInterleaved_none] at hrouted
  intro r hr r' hr' hkey
  obtain ⟨htopic, hpart⟩ := PartKey.mk.inj hkey
  obtain ⟨hmem, hres⟩ := mem_routeInterleaved hrouted hr
  obtain ⟨hmem', hres'⟩ := mem_routeInterleaved hrouted hr'
  rw [Refreshes.resolve, Refreshes.cacheAt_none] at hres hres'
  obtain ⟨hnames, hindex⟩ := names_of_resolvePartition hres
  obtain ⟨hnames', hindex'⟩ := names_of_resolvePartition hres'
  rw [← htopic, ← hpart] at hnames' hindex'
  rcases h with hnamed | hone
  · have hleader := hindex (hnamed _ (mem_of_getElem? hmem))
    have hleader' := hindex' (hnamed _ (mem_of_getElem? hmem'))
    exact (Prod.mk.inj (hleader.symm.trans hleader')).1
  · exact hone _ _ _ _ hnames hnames'

/-! ## What a send adds -/

theorem sum_map_of_unique {α : Type} {l : List α} {f : α → Nat} {x : α} (hnodup : l.Nodup)
    (hx : x ∈ l) (h : ∀ y ∈ l, y ≠ x → f y = 0) : (l.map f).sum = f x := by
  induction l with
  | nil => cases hx
  | cons y l ih =>
    obtain ⟨hy, hl⟩ := nodup_cons.1 hnodup
    rw [map_cons, sum_cons]
    rcases mem_cons.1 hx with rfl | hx
    · have hrest : (l.map f).sum = 0 := sum_eq_zero fun n hn => by
        obtain ⟨z, hz, rfl⟩ := mem_map.1 hn
        exact h z (mem_cons_of_mem _ hz) fun heq => hy (heq ▸ hz)
      rw [hrest, Nat.add_zero]
    · rw [h y mem_cons_self fun heq => hy (heq ▸ hx), Nat.zero_add]
      exact ih hl hx fun z hz => h z (mem_cons_of_mem _ hz)

section Send

variable {cfg : ProducerConfig} {env : AttemptEnv} {routed : List RoutedRecord}
  {identity : Option ProducerIdentity} {out : SendOut} {exs : List Exchange} {k : PartKey}

theorem Exchange.Sent.sum_records {ex : Exchange} (h : ex.Sent cfg env routed identity)
    (hbs : ex.request = .ok bs) (hasked : ∃ r ∈ routed, r.leader = ex.node ∧ r.partKey = k) :
    ((ex.batches.filter (·.partKey = k)).map (·.records.length)).sum =
      (routed.filter (·.partKey = k)).length := by
  obtain ⟨b, hb, rfl⟩ := mem_map.1 ((h.mem bs hbs k).2 hasked)
  have hbatches : ex.batches = bs := by rw [Exchange.batches, hbs]
  have hbsnodup : bs.Nodup := (h.nodup bs hbs).of_map
  rw [hbatches, sum_map_of_unique (hbsnodup.filter _)
    (mem_filter.2 ⟨hb, decide_eq_true rfl⟩), h.records bs hbs b hb, length_map]
  intro b' hb' hne
  obtain ⟨hb', hkey⟩ := mem_filter.1 hb'
  exact (hne (inj_on_of_nodup_map (h.nodup bs hbs) hb' hb (of_decide_eq_true hkey))).elim

theorem SendSpec.sum_ackedRecords (h : SendSpec cfg env routed identity out exs)
    (hdef : env.Definite) (hleader : OneLeader routed) :
    (exs.map (·.ackedRecords k)).sum =
      if k ∈ routed.map (·.partKey) ∧ ¬ FailedIn env.now routed exs k then
        (routed.filter (·.partKey = k)).length
      else 0 := by
  have hzero : ∀ ex ∈ exs, ¬ (∃ r ∈ routed, r.leader = ex.node ∧ r.partKey = k) →
      ex.ackedRecords k = 0 := by
    intro ex hex hnone
    refine if_neg fun ⟨res, hres, hkey, _⟩ => hnone ?_
    exact hkey ▸ (h.exchange ex hex).entry_asked hdef.answers hres
  by_cases hk : k ∈ routed.map (·.partKey)
  · obtain ⟨ex, hex, hasked, hfailed, -⟩ := h.own hleader hdef.answers hk
    rw [(h.exchange ex hex).failedKeys_iff hdef hasked] at hfailed
    rw [sum_map_of_unique h.nodup.of_map hex fun ex' hex' hne =>
      hzero ex' hex' fun hasked' => hne (h.eq_of_asked hleader hex' hex hasked' hasked),
      Exchange.ackedRecords]
    simp only [hk, hfailed, true_and, not_not]
    split_ifs with hack
    · obtain ⟨res, hres, -⟩ := hack
      obtain ⟨bs, hbs, -⟩ := (h.exchange ex hex).request_ok hres
      exact (h.exchange ex hex).sum_records hbs hasked
    · rfl
  · rw [if_neg fun hin => hk hin.1]
    refine sum_eq_zero fun n hn => ?_
    obtain ⟨ex, hex, rfl⟩ := mem_map.1 hn
    refine hzero ex hex ?_
    rintro ⟨r, hr, -, hkey⟩
    exact hk (hkey ▸ mem_map_of_mem hr)

end Send

/-! ## The number in the batch -/

/-- The base sequence in the bytes of a record batch. -/
def baseSequenceField (raw : Bytes) : Bytes := (raw.drop 53).take 4

/-- A sequenced batch carries the number it was encoded with. -/
theorem baseSequenceField_encodeRecordBatch (hseq : settings.sequenced = true)
    (h : encodeRecordBatch C clock records settings seq = .ok raw) :
    baseSequenceField raw = writeInt32 seq := by
  have hne : records ≠ [] := by
    rintro rfl
    cases h
  cases hpay : compressPayload C settings
      (encodeRecordsPayload (clock (records.length + 1)) records) with
  | error e =>
    obtain ⟨first, rest, rfl⟩ := exists_cons_of_ne_nil hne
    rw [encodeRecordBatch, hpay] at h
    cases h
  | ok p =>
    rw [encodeRecordBatch_eq seq hne hpay] at h
    cases h
    rw [encodedHeader, hseq]
    rfl

/-! ## Whole runs -/

section Runs

variable {s : Numbering} {c : SendCall}

/-- What a send with one metadata comes to: nothing is sent, or the specification holds of what is.
-/
theorem Numbering.send_cases (s : Numbering) (hsettled : c.Settled) :
    ((s.send c).identity = s.identity ∧ (s.send c).exchanges = []) ∨
      ∃ routed, OneLeader routed ∧
        SendSpec c.cfg c.env routed s.identity (s.send c) (s.send c).exchanges := by
  rw [Numbering.send, sendRecords]
  cases hrouted : routeRecords c.env.cluster c.env.repartition 0 c.records with
  | error e => exact .inl ⟨rfl, rfl⟩
  | ok routed =>
    have hleader := hsettled.oneLeader hrouted
    rw [← routeInterleaved_none] at hrouted
    exact .inr ⟨routed, hleader,
      sendRouted_spec_of_range (map_idx_routeInterleaved hrouted) hleader⟩

/-- A send keeps the counters at the numbers of acknowledged records. -/
theorem Numbering.Counts.next (h : s.Counts) (hdef : c.env.Definite) (hsettled : c.Settled) :
    (s.next c).Counts := by
  rcases s.send_cases hsettled with ⟨hid, hexs⟩ | ⟨routed, hleader, hspec⟩
  · have hsame : (s.next c) = s := by
      rw [Numbering.next, hid, hexs]
      rfl
    rwa [hsame]
  · obtain ⟨id, hid⟩ := Option.ne_none_iff_exists'.1 h.1
    obtain ⟨id', hid', -, hseq⟩ := hspec.identity id hid
    have hnext : (s.next c).identity = some id' := hid'
    refine ⟨by rw [hnext]; exact Option.some_ne_none _, fun k hk => ?_⟩
    have hsum := @SendSpec.sum_ackedRecords _ _ _ _ _ _ k hspec hdef hleader
    have hacked : (s.next c).acked k = s.acked k + _ := congrArg (s.acked k + ·) hsum
    have hcount : s.acked k < 2 ^ 31 → (id.state.sequence k).toInt = s.acked k := by
      have hcounts := h.2 k
      rwa [hid] at hcounts
    rw [hacked] at hk ⊢
    rw [hnext, baseSequence, hseq k]
    by_cases hin : k ∈ routed.map (·.partKey)
    · by_cases hfail : FailedIn c.env.now routed (s.send c).exchanges k
      · -- the block is given back
        simp only [hin, hfail, not_true, and_false, if_true, if_false, Nat.add_zero] at hk ⊢
        have hseqk := hcount hk
        rw [if_neg, hseqk]
        rw [Int32.lt_iff_toInt_lt, Int32.toInt_zero]
        omega
      · simp only [hin, hfail, not_false_eq_true, and_true, if_true, if_false] at hk ⊢
        have hreserve := @ProduceState.toInt_reserveBlock id.state k
          (routed.filter (·.partKey = k)).length (by omega) (by omega)
        rw [ProduceState.sequence_reserveBlock_self] at hreserve
        omega
    · simp only [hin, false_and, if_false, Nat.add_zero] at hk ⊢
      exact hcount hk

/-- The batches of a send carry the counters. -/
theorem Numbering.Counts.batch (h : s.Counts) (hsettled : c.Settled)
    (hex : ex ∈ (s.send c).exchanges) (hb : b ∈ ex.batches) (hk : s.acked b.partKey < 2 ^ 31) :
    b.baseSequence.toInt = s.acked b.partKey ∧
      baseSequenceField b.raw = writeInt32 b.baseSequence := by
  rcases s.send_cases hsettled with ⟨-, hexs⟩ | ⟨routed, hleader, hspec⟩
  · rw [hexs] at hex
    cases hex
  · have hsent := hspec.exchange ex hex
    obtain ⟨bs, hbs, hmem⟩ : ∃ bs, ex.request = .ok bs ∧ b ∈ bs := by
      rw [Exchange.batches] at hb
      split at hb
      · next bs hbs => exact ⟨bs, hbs, hb⟩
      · cases hb
    obtain ⟨id, hid⟩ := Option.ne_none_iff_exists'.1 h.1
    constructor
    · rw [hsent.baseSequence bs hbs b hmem]
      exact h.2 _ hk
    · refine baseSequenceField_encodeRecordBatch ?_ (hsent.raw bs hbs b hmem)
      rw [hid]
      rfl

theorem Numbering.counts_start : (start pid).Counts :=
  ⟨Option.some_ne_none _, fun _ _ => rfl⟩

/-- In every sequence of sends with definite outcomes, the base sequence in a batch is the number of
records acknowledged on its partition before, and after a send the counter of every partition is the
number acknowledged by then. -/
theorem sends_numbered (pid : ProducerID) {calls : List SendCall}
    (hdef : ∀ c ∈ calls, c.env.Definite) (hsettled : ∀ c ∈ calls, c.Settled) :
    Run.Along Numbering.next (fun s c =>
      (∀ ex ∈ (s.send c).exchanges, ∀ b ∈ ex.batches, s.acked b.partKey < 2 ^ 31 →
        b.baseSequence.toInt = s.acked b.partKey ∧
          baseSequenceField b.raw = writeInt32 b.baseSequence) ∧
      (s.next c).Counts) (Numbering.start pid) calls := by
  have hcalls : Run.Along Numbering.next (fun _ c => c.env.Definite ∧ c.Settled)
      (Numbering.start pid) calls :=
    Run.Along.of_forall fun c hc => ⟨hdef c hc, hsettled c hc⟩
  refine hcalls.of_invariant (fun s c hs hc => hs.next hc.1 hc.2) (fun s c hs hc => ?_)
    Numbering.counts_start
  exact ⟨fun ex hex b hb => hs.batch hc.2 hex hb, hs.next hc.1 hc.2⟩

end Runs

/-- A send of records for partition 0 of topic `t`, which is answered with an error code. -/
def sendT (values : List Bytes) (code : Int16) : SendCall where
  cfg := configT
  env := envT fun _ bs => .ok (bs.map fun b => ⟨b.topic, b.partition, 0, code⟩)
  records := values.map fun v => { topic := [116], partition := 0, value := some v }

theorem sendT_definite : (sendT values code).env.Definite := by
  intro node bs rs _ hrs
  cases hrs
  rw [map_map]
  exact .refl _

theorem sendT_settled : (sendT values code).Settled := by
  refine .inl fun r hr => ?_
  obtain ⟨v, -, rfl⟩ := mem_map.1 hr
  exact Int32.le_refl 0

/-- One record is acknowledged, two are rejected, and these are sent again. -/
def threeSends : List SendCall := [sendT [[1]] 0, sendT [[2], [3]] 6, sendT [[2], [3]] 0]

theorem sends_numbered_three :
    Run.outputs Numbering.next (fun s c => ((s.send c).exchanges.flatMap (·.batches)).map
        (·.baseSequence)) (Numbering.start ⟨1, 0⟩) threeSends = [0, 1, 1] ∧
      Run.Along Numbering.next (fun s c =>
        (∀ ex ∈ (s.send c).exchanges, ∀ b ∈ ex.batches, s.acked b.partKey < 2 ^ 31 →
          b.baseSequence.toInt = s.acked b.partKey ∧
            baseSequenceField b.raw = writeInt32 b.baseSequence) ∧
        (s.next c).Counts) (Numbering.start ⟨1, 0⟩) threeSends := by
  have hsends : ∀ c ∈ threeSends, ∃ values code, c = sendT values code := by
    intro c hc
    simp only [threeSends, mem_cons, not_mem_nil, or_false] at hc
    rcases hc with rfl | rfl | rfl <;> exact ⟨_, _, rfl⟩
  refine ⟨by decide +kernel, sends_numbered ⟨1, 0⟩ (fun c hc => ?_) fun c hc => ?_⟩
  · obtain ⟨values, code, rfl⟩ := hsends c hc
    exact sendT_definite
  · obtain ⟨values, code, rfl⟩ := hsends c hc
    exact sendT_settled

end GoKafka
