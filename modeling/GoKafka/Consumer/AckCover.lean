import GoKafka.Consumer.ShareAck
import GoKafka.Lib.Intervals

/-!
# What the requests of a share consumer acknowledge

`coalesceAckBatches` turns the offsets of a partition into ranges, and `acknowledge` sends the
partitions' ranges to their leaders. The ranges are an exact cover and the shortest one
(`coalesceAckBatches_minimal`): after sorting, the loop closes a range only where the next offset is
not the one behind it, and the offset behind it is then in no range. `acknowledge_covers` is the
same for the requests of a call, on the wire: a partition of the records is in one request, to its
leader, and in one entry of it, with the offsets that were given.
-/

namespace GoKafka

open Assoc List

/-! ## The ranges of a partition -/

/-- The ends of a range. -/
def ShareAckBatch.ends (b : ShareAckBatch) : Int64 × Int64 := (b.firstOffset, b.lastOffset)

/-- The second range begins behind the offset that follows the first one. -/
def ShareAckBatch.Before (b b' : ShareAckBatch) : Prop :=
  b.lastOffset.toInt + 1 < b'.firstOffset.toInt

theorem toInt_add_one_lt {next : Int64} (hle : last ≤ next) (hne : next ≠ last)
    (hsucc : next ≠ last + 1) : last.toInt + 1 < next.toInt := by
  rw [Int64.le_iff_toInt_le] at hle
  have hlt : last.toInt ≠ next.toInt := fun h => hne (Int64.toInt_inj.1 h.symm)
  have hmax : last ≠ Int64.maxValue := by
    rintro rfl
    have hnext := next.toInt_lt
    have hvalue : Int64.maxValue.toInt = 2 ^ 63 - 1 := by decide
    omega
  have hnext : last.toInt + 1 ≠ next.toInt := by
    rw [← toInt_add_one hmax]
    exact fun h => hsucc (Int64.toInt_inj.1 h.symm)
  omega

/-- The ranges from an open one on: each has an offset, none is before the open one, and they lie
apart. -/
theorem coalesceLoop_before (hfirst : first ≤ last) (hsorted : (last :: os).Pairwise (· ≤ ·)) :
    (∀ b ∈ coalesceLoop type first last os,
      first ≤ b.firstOffset ∧ b.firstOffset ≤ b.lastOffset ∧ b.type = type) ∧
    (coalesceLoop type first last os).Pairwise ShareAckBatch.Before := by
  fun_induction coalesceLoop type first last os with
  | case1 => exact ⟨by simp [hfirst], pairwise_singleton _ _⟩
  | case2 first last next os hjoins ih =>
    exact ih (hfirst.trans (rel_of_pairwise_cons hsorted mem_cons_self)) hsorted.of_cons
  | case3 first last next os hapart ih =>
    have hle : last ≤ next := rel_of_pairwise_cons hsorted mem_cons_self
    obtain ⟨hne, hsucc⟩ := not_or.1 hapart
    obtain ⟨hranges, hapart⟩ := ih le_rfl hsorted.of_cons
    constructor
    · refine forall_mem_cons.2 ⟨⟨le_rfl, hfirst, rfl⟩, fun b hb => ?_⟩
      obtain ⟨hlow, hrange⟩ := hranges b hb
      exact ⟨(hfirst.trans hle).trans hlow, hrange⟩
    · refine pairwise_cons.2 ⟨fun b hb => ?_, hapart⟩
      have hlow := Int64.le_iff_toInt_le.1 (hranges b hb).1
      have hgap := toInt_add_one_lt hle hne hsucc
      show last.toInt + 1 < b.firstOffset.toInt
      omega

theorem coalesceAckBatches_before :
    (∀ b ∈ coalesceAckBatches offsets type, b.firstOffset ≤ b.lastOffset ∧ b.type = type) ∧
    (coalesceAckBatches offsets type).Pairwise ShareAckBatch.Before := by
  have hsorted := pairwise_insertionSort (· ≤ ·) offsets
  unfold coalesceAckBatches
  cases hsort : offsets.insertionSort (· ≤ ·) with
  | nil => exact ⟨nofun, .nil⟩
  | cons first os =>
    rw [hsort] at hsorted
    obtain ⟨hranges, hapart⟩ := coalesceLoop_before le_rfl hsorted
    exact ⟨fun b hb => (hranges b hb).2, hapart⟩

theorem mem_covered_ends {bs : List ShareAckBatch} :
    o ∈ Intervals.covered (bs.map (·.ends)) ↔ ∃ b ∈ bs, b.Has o := by
  simp [Intervals.covered, ShareAckBatch.ends, ShareAckBatch.Has]

/-- Ranges that lie apart leave out the offset behind each but the last. -/
theorem apart_of_before {bs : List ShareAckBatch} (hne : ∀ b ∈ bs, b.firstOffset ≤ b.lastOffset)
    (hbefore : bs.Pairwise ShareAckBatch.Before) :
    (bs.map (·.ends)).Pairwise (Intervals.Apart (Intervals.covered (bs.map (·.ends)))) := by
  have hsymm : Std.Symm fun b c : ShareAckBatch => b.Before c ∨ c.Before b := ⟨fun _ _ => Or.symm⟩
  have hboth : bs.Pairwise fun b c => b.Before c ∨ c.Before b := hbefore.imp .inl
  have hthree : ∀ b ∈ bs, ∀ c ∈ bs, b ≠ c → b.Before c ∨ c.Before b :=
    fun b hb c hc => hboth.forall hb hc
  rw [pairwise_map]
  refine hbefore.imp_of_mem fun {b b'} hb _ hbb' => ?_
  -- the offset behind `b` is in no range: the others lie before `b` or behind that offset
  have hle := Int64.le_iff_toInt_le.1 (hne b hb)
  have hbb' : b.lastOffset.toInt + 1 < b'.firstOffset.toInt := hbb'
  have hmax : b.lastOffset ≠ Int64.maxValue := by
    intro heq
    have hhigh := b'.firstOffset.toInt_lt
    have hvalue : Int64.maxValue.toInt = 2 ^ 63 - 1 := by decide
    rw [heq] at hbb'
    omega
  have hsucc := toInt_add_one hmax
  refine ⟨b.lastOffset + 1, fun hmem => ?_, ?_, ?_⟩
  · obtain ⟨c, hc, hlow, hhigh⟩ := mem_covered_ends.1 hmem
    rw [Int64.le_iff_toInt_le] at hlow hhigh
    by_cases heq : b = c
    · subst heq
      omega
    · rcases hthree b hb c hc heq with hafter | hbefore
      · have hafter : b.lastOffset.toInt + 1 < c.firstOffset.toInt := hafter
        omega
      · have hbefore : c.lastOffset.toInt + 1 < b.firstOffset.toInt := hbefore
        omega
  · show b.firstOffset ≤ b.lastOffset + 1
    rw [Int64.le_iff_toInt_le]
    omega
  · show b.lastOffset + 1 ≤ b'.firstOffset
    rw [Int64.le_iff_toInt_le]
    omega

/-- The ranges are sorted, not empty, disjoint and not adjacent, their offsets are those given, and
no shorter list of ranges has these offsets. -/
theorem coalesceAckBatches_minimal (offsets : List Int64) (type : ShareAckType) :
    (coalesceAckBatches offsets type).Pairwise
        (fun b b' => b.lastOffset.toInt + 1 < b'.firstOffset.toInt) ∧
      (∀ b ∈ coalesceAckBatches offsets type, b.firstOffset ≤ b.lastOffset ∧ b.type = type) ∧
      (∀ o, (∃ b ∈ coalesceAckBatches offsets type, b.Has o) ↔ o ∈ offsets) ∧
      ∀ ranges : List ShareAckBatch, (∀ o, (∃ b ∈ ranges, b.Has o) ↔ o ∈ offsets) →
        (coalesceAckBatches offsets type).length ≤ ranges.length := by
  obtain ⟨hranges, hbefore⟩ := coalesceAckBatches_before
  refine ⟨hbefore, hranges, has_coalesceAckBatches, fun ranges hcover => ?_⟩
  have hne : ∀ b ∈ coalesceAckBatches offsets type, b.firstOffset ≤ b.lastOffset :=
    fun b hb => (hranges b hb).1
  have hsame : Intervals.covered (ranges.map (·.ends)) =
      Intervals.covered ((coalesceAckBatches offsets type).map (·.ends)) := by
    ext o
    rw [mem_covered_ends, mem_covered_ends, hcover, has_coalesceAckBatches]
  have hlength := Intervals.length_le_of_covered_eq
    (forall_mem_map.2 hne) (apart_of_before hne hbefore) hsame
  rwa [length_map, length_map] at hlength

example :
    coalesceAckBatches [7, 5, 6, 5, 9] .accept = [⟨5, 7, .accept⟩, ⟨9, 9, .accept⟩] := by decide

/-! ## The requests of a call -/

/-- `byTopic` and `order` of `EncodeShareAcknowledgeRequest`: the topics as they first come, each
with its partitions. -/
def ackTopics (parts : List ShareFetchPartition) : List (UUID × List ShareFetchPartition) :=
  let byTopic := group (·.topicID) parts
  (firstKeys (·.topicID) parts).map fun id => (id, (byTopic.lookup id).getD [])

/-- A partition entry of a request on the wire: the broker that gets the request, the topic it
stands under, and the entry. -/
structure WireAck where
  broker : Int32
  topicID : UUID
  part : ShareFetchPartition

/-- The entries that `EncodeShareAcknowledgeRequest` writes for the partitions of a request. -/
def writtenAcks (broker : Int32) (parts : List ShareFetchPartition) : List WireAck :=
  (ackTopics parts).flatMap fun t => t.2.map (⟨broker, t.1, ·⟩)

/-- The entries of requests on the wire. -/
def wireAcks (sent : List (Int32 × ShareAcknowledgeRequest)) : List WireAck :=
  sent.flatMap fun q => writtenAcks q.1 q.2.partitions

theorem writtenAcks_perm :
    (writtenAcks broker parts).Perm (parts.map fun p => ⟨broker, p.topicID, p⟩) := by
  have htopics : writtenAcks broker parts =
      ((firstKeys (·.topicID) parts).flatMap fun id => parts.filter (·.topicID = id)).map
        fun p => ⟨broker, p.topicID, p⟩ := by
    unfold writtenAcks ackTopics
    simp only [getD_lookup_group]
    rw [flatMap_map, map_flatMap]
    refine flatMap_congr fun id _ => map_congr_left fun p hp => ?_
    rw [of_decide_eq_true (mem_filter.1 hp).2]
  rw [htopics]
  exact (flatMap_filter_perm nodup_firstKeys fun p hp =>
    mem_firstKeys.2 (mem_map_of_mem hp)).map _

/-- If every request is answered without an error, there is one for each broker. -/
theorem sendAcks_of_ok {env : AckEnv} {type : ShareAckType}
    {grouped : AList fun _ : Int32 => List AckEntry} {brokers : List Int32} {s : ShareConsumer}
    (h : ∀ q ∈ (sendAcks env type grouped brokers s).sent, env.respond q.1 q.2 = .ok ()) :
    (sendAcks env type grouped brokers s).err = none ∧
      (sendAcks env type grouped brokers s).sent.map (fun q => (q.1, q.2.partitions)) =
        brokers.map fun b => (b, ackPartitions env type ((grouped.lookup b).getD [])) := by
  fun_induction sendAcks env type grouped brokers s with
  | case1 => exact ⟨rfl, rfl⟩
  | case2 broker brokers s entries epoch request e hfirst =>
    cases hfirst.symm.trans (h _ (mem_singleton_self _))
  | case3 broker brokers s entries epoch request hfirst rest ih =>
    obtain ⟨herr, hsent⟩ := ih (forall_mem_cons.1 h).2
    exact ⟨herr, congrArg (_ :: ·) hsent⟩

/-- The requests and the error of `acknowledge` are those of its loop. -/
theorem ShareConsumer.acknowledge_eq (s : ShareConsumer) (cfg : ShareConfig) {env : AckEnv}
    {type : ShareAckType} {records : List Record} {entries : List AckEntry} (hne : records ≠ [])
    (hentries : ackEntries env.cluster records = .ok entries) :
    let grouped := Assoc.group (·.leader) entries
    let out := sendAcks env type grouped (env.brokerOrder.keys grouped) s
    (s.acknowledge cfg env type records).err = out.err ∧
      (s.acknowledge cfg env type records).sent = out.sent := by
  intro grouped out
  simp only [ShareConsumer.acknowledge, if_neg hne, hentries, grouped, out]
  split
  · exact ⟨rfl, rfl⟩
  · split_ifs
    · exact ⟨rfl, rfl⟩
    · exact ⟨rfl, rfl⟩

section Known

variable {records : List Record} {id : Bytes → UUID} {leader : PartKey → Int32}

/-- The records with their topics' ids and their partitions' leaders. -/
def knownEntries (id : Bytes → UUID) (leader : PartKey → Int32) (records : List Record) :
    List AckEntry :=
  records.map fun r => ⟨r, id r.topic, leader r.partKey⟩

theorem ackEntries_known (hid : ∀ r ∈ records, c.topicIDByName r.topic = some (id r.topic))
    (hleader : ∀ r ∈ records, c.leaderBroker r.topic r.partition = .ok ⟨leader r.partKey⟩) :
    ackEntries c records = .ok (knownEntries id leader records) := by
  induction records with
  | nil => rfl
  | cons r records ih =>
    obtain ⟨hid₁, hids⟩ := forall_mem_cons.1 hid
    obtain ⟨hleader₁, hleaders⟩ := forall_mem_cons.1 hleader
    rw [ackEntries, hid₁]
    simp only [hleader₁, ih hids hleaders]
    rfl

/-- The entry of a partition of the records. -/
def ackPartitionOf (id : Bytes → UUID) (type : ShareAckType) (records : List Record) (k : PartKey) :
    ShareFetchPartition where
  topicID := id k.topic
  partition := k.part
  ackBatches := coalesceAckBatches ((records.filter (·.partKey = k)).map (·.offset)) type

/-- The partitions of a broker's request, in the order of its loop. -/
def ackKeys (env : AckEnv) (entries : List AckEntry) (broker : Int32) : List PartKey :=
  env.partOrder.keys (group (·.record.partKey) (entries.filter (·.leader = broker)))

theorem mem_ackKeys :
    k ∈ ackKeys env (knownEntries id leader records) broker ↔
      k ∈ records.map (·.partKey) ∧ leader k = broker := by
  rw [ackKeys, MapOrder.mem_keys, AList.mem_keys, mem_keys_group]
  simp only [knownEntries, mem_map, mem_filter, decide_eq_true_eq]
  constructor
  · rintro ⟨e, ⟨⟨r, hr, rfl⟩, hleader⟩, rfl⟩
    exact ⟨⟨r, hr, rfl⟩, hleader⟩
  · rintro ⟨⟨r, hr, rfl⟩, hleader⟩
    exact ⟨_, ⟨⟨r, hr, rfl⟩, hleader⟩, rfl⟩

/-- The request of a broker has an entry for each of its partitions, with all the partition's
offsets. -/
theorem ackPartitions_known :
    ackPartitions env type ((knownEntries id leader records).filter (·.leader = broker)) =
      (ackKeys env (knownEntries id leader records) broker).map
        (ackPartitionOf id type records) := by
  refine map_congr_left fun k hk => ?_
  obtain ⟨hmem, hbroker⟩ := mem_ackKeys.1 hk
  have hacks : ((knownEntries id leader records).filter (·.leader = broker)).filter
      (·.record.partKey = k) = knownEntries id leader (records.filter (·.partKey = k)) := by
    rw [filter_filter, knownEntries, filter_map]
    refine congrArg _ (filter_congr fun r _ => ?_)
    by_cases hr : r.partKey = k
    · simp [hr, hbroker]
    · simp [hr]
  have hhead : ((knownEntries id leader (records.filter (·.partKey = k))).head?.map
      (·.topicID)).getD (Vector.replicate 16 0) = id k.topic := by
    obtain ⟨r, hr, hrk⟩ := mem_map.1 hmem
    have hne : r ∈ records.filter (·.partKey = k) := mem_filter.2 ⟨hr, decide_eq_true hrk⟩
    cases hrs : records.filter (·.partKey = k) with
    | nil =>
      rw [hrs] at hne
      cases hne
    | cons r' rs =>
      have hr' : r' ∈ records.filter (·.partKey = k) := by
        rw [hrs]
        exact mem_cons_self
      obtain rfl := of_decide_eq_true (mem_filter.1 hr').2
      rfl
  dsimp only
  rw [getD_lookup_group, hacks]
  congr 2
  rw [knownEntries, map_map]
  rfl

/-- The partitions of all requests. -/
def requestKeys (env : AckEnv) (id : Bytes → UUID) (leader : PartKey → Int32)
    (records : List Record) : List PartKey :=
  let entries := knownEntries id leader records
  (env.brokerOrder.keys (Assoc.group (·.leader) entries)).flatMap (ackKeys env entries)

theorem mem_requestKeys : k ∈ requestKeys env id leader records ↔ k ∈ records.map (·.partKey) := by
  simp only [requestKeys, mem_flatMap, mem_ackKeys, MapOrder.mem_keys, AList.mem_keys,
    mem_keys_group]
  constructor
  · rintro ⟨broker, -, hk, -⟩
    exact hk
  · intro hk
    refine ⟨leader k, ?_, hk, rfl⟩
    obtain ⟨r, hr, rfl⟩ := mem_map.1 hk
    exact mem_map.2 ⟨_, mem_map_of_mem hr, rfl⟩

theorem nodup_requestKeys : (requestKeys env id leader records).Nodup := by
  refine nodup_flatMap.2 ⟨fun broker _ => MapOrder.nodup_keys _ _, ?_⟩
  refine (env.brokerOrder.nodup_keys _).imp fun hne k hk hk' => hne ?_
  exact (mem_ackKeys.1 hk).2.symm.trans (mem_ackKeys.1 hk').2

/-- The entry of a partition, in the request to its leader. -/
def wireAckOf (id : Bytes → UUID) (leader : PartKey → Int32) (type : ShareAckType)
    (records : List Record) (k : PartKey) : WireAck :=
  ⟨leader k, id k.topic, ackPartitionOf id type records k⟩

/-- Where all requests succeed, `acknowledge` does, and its requests have one entry for each
partition of the records. -/
theorem wireAcks_perm (s : ShareConsumer) (cfg : ShareConfig)
    (hid : ∀ r ∈ records, env.cluster.topicIDByName r.topic = some (id r.topic))
    (hleader : ∀ r ∈ records,
      env.cluster.leaderBroker r.topic r.partition = .ok ⟨leader r.partKey⟩)
    (hsent : ∀ q ∈ (s.acknowledge cfg env type records).sent, env.respond q.1 q.2 = .ok ()) :
    (s.acknowledge cfg env type records).err = none ∧
      (wireAcks (s.acknowledge cfg env type records).sent).Perm
        ((requestKeys env id leader records).map (wireAckOf id leader type records)) := by
  by_cases hnil : records = []
  · subst hnil
    have hkeys : requestKeys env id leader [] = [] :=
      eq_nil_iff_forall_not_mem.2 fun k hk => not_mem_nil (mem_requestKeys.1 hk)
    rw [hkeys]
    exact ⟨rfl, .nil⟩
  obtain ⟨hsame, hout⟩ := s.acknowledge_eq cfg hnil (ackEntries_known hid hleader)
  rw [hout] at hsent ⊢
  rw [hsame]
  obtain ⟨herr, hsent⟩ := sendAcks_of_ok hsent
  constructor
  · exact herr
  · generalize hgrouped : Assoc.group (·.leader) (knownEntries id leader records) = grouped at *
    have hparts : wireAcks (sendAcks env type grouped (env.brokerOrder.keys grouped) s).sent =
        (env.brokerOrder.keys grouped).flatMap
          fun b => writtenAcks b ((ackKeys env (knownEntries id leader records) b).map
            (ackPartitionOf id type records)) := by
      subst hgrouped
      have hwritten := congrArg (List.flatMap fun q => writtenAcks q.1 q.2) hsent
      rw [flatMap_map, flatMap_map] at hwritten
      rw [wireAcks, hwritten]
      simp only [getD_lookup_group, ackPartitions_known]
    rw [hparts, requestKeys, hgrouped, map_flatMap]
    refine List.Perm.flatMap_left _ fun b _ => (writtenAcks_perm).trans ?_
    rw [map_map]
    refine .of_eq (map_congr_left fun k hk => ?_)
    rw [Function.comp_apply, wireAckOf, (mem_ackKeys.1 hk).2]
    rfl

end Known

/-- If all requests of `acknowledge` succeed, each partition of the records is in one entry of one
request, which goes to the partition's leader, the offsets in the entry's ranges are those of the
records, and no other partition has an entry. -/
theorem ShareConsumer.acknowledge_covers (s : ShareConsumer) (cfg : ShareConfig) (env : AckEnv)
    (type : ShareAckType) (records : List Record) (id : Bytes → UUID) (leader : PartKey → Int32)
    (hid : ∀ r ∈ records, env.cluster.topicIDByName r.topic = some (id r.topic))
    (hdistinct : ∀ r ∈ records, ∀ r' ∈ records, id r.topic = id r'.topic → r.topic = r'.topic)
    (hleader : ∀ r ∈ records,
      env.cluster.leaderBroker r.topic r.partition = .ok ⟨leader r.partKey⟩)
    (hsent : ∀ q ∈ (s.acknowledge cfg env type records).sent, env.respond q.1 q.2 = .ok ()) :
    (s.acknowledge cfg env type records).err = none ∧
      (∀ r ∈ records, ∃ part : ShareFetchPartition,
        (wireAcks (s.acknowledge cfg env type records).sent).filter
            (fun w => w.topicID = id r.topic ∧ w.part.partition = r.partition) =
          [⟨leader r.partKey, id r.topic, part⟩] ∧
        ∀ o, (∃ b ∈ part.ackBatches, b.Has o) ↔
          ∃ r' ∈ records, r'.partKey = r.partKey ∧ r'.offset = o) ∧
      ∀ w ∈ wireAcks (s.acknowledge cfg env type records).sent,
        ∃ r ∈ records, w.topicID = id r.topic ∧ w.part.partition = r.partition := by
  obtain ⟨herr, hperm⟩ := wireAcks_perm s cfg hid hleader hsent
  refine ⟨herr, fun r hr => ⟨ackPartitionOf id type records r.partKey, ?_, fun o => ?_⟩, ?_⟩
  · refine perm_singleton.1 ((hperm.filter _).trans (.of_eq ?_))
    -- the entry of another partition has another topic id or another partition number
    have hnames : ∀ k ∈ requestKeys env id leader records,
        decide ((wireAckOf id leader type records k).topicID = id r.topic ∧
          (wireAckOf id leader type records k).part.partition = r.partition) =
        decide (k = r.partKey) := by
      intro k hk
      obtain ⟨r', hr', rfl⟩ := mem_map.1 (mem_requestKeys.1 hk)
      refine decide_eq_decide.2 ⟨fun ⟨htopic, hpart⟩ => ?_, fun heq => ?_⟩
      · exact congrArg₂ PartKey.mk (hdistinct r' hr' r hr htopic) hpart
      · rw [heq]
        exact ⟨rfl, rfl⟩
    rw [filter_map, Function.comp_def, filter_congr hnames, filter_eq,
      count_eq_one_of_mem nodup_requestKeys
        (mem_requestKeys.2 (mem_map_of_mem hr))]
    rfl
  · rw [ackPartitionOf, has_coalesceAckBatches]
    simp [and_assoc]
  · intro w hw
    obtain ⟨k, hk, rfl⟩ := mem_map.1 (hperm.mem_iff.1 hw)
    obtain ⟨r, hr, rfl⟩ := mem_map.1 (mem_requestKeys.1 hk)
    exact ⟨r, hr, rfl, rfl⟩

/-- Broker 1 leads partition 0 of topic `t`, broker 2 partition 1, and requests succeed. -/
def ackTwoLeaders : AckEnv where
  cluster := Cluster.storeMetadata { seeds := [] }
    { brokers := [⟨1⟩, ⟨2⟩], topics := [⟨[116], Vector.replicate 16 1, [⟨0, 1, -1⟩, ⟨1, 2, -1⟩]⟩] }
  brokerOrder := ⟨List.reverse, List.reverse_perm⟩
  partOrder := ⟨id, .refl⟩
  respond _ _ := .ok ()

/-- Offsets 8 and 7 of partition 0, and offset 3 of partition 1 between them. -/
def mixedRecords : List Record :=
  [{ topic := [116], partition := 0, offset := 8 }, { topic := [116], partition := 1, offset := 3 },
    { topic := [116], partition := 0, offset := 7 }]

theorem ShareConsumer.acknowledge_covers_two :
    (ShareConsumer.acknowledge {} ⟨[103], false, 0⟩ ackTwoLeaders .accept mixedRecords).err = none ∧
      ∀ r ∈ mixedRecords, ∃ part : ShareFetchPartition,
        (wireAcks (ShareConsumer.acknowledge {} ⟨[103], false, 0⟩ ackTwoLeaders .accept
              mixedRecords).sent).filter
            (fun w => w.topicID = Vector.replicate 16 1 ∧ w.part.partition = r.partition) =
          [⟨if r.partition = 0 then 1 else 2, Vector.replicate 16 1, part⟩] ∧
        ∀ o, (∃ b ∈ part.ackBatches, b.Has o) ↔
          ∃ r' ∈ mixedRecords, r'.partKey = r.partKey ∧ r'.offset = o := by
  have hcovers :=
    ShareConsumer.acknowledge_covers {} ⟨[103], false, 0⟩ ackTwoLeaders .accept mixedRecords
    (fun _ => Vector.replicate 16 1) (fun k => if k.part = 0 then 1 else 2) (by decide) (by decide)
    (by decide) (fun _ _ => rfl)
  exact ⟨hcovers.1, hcovers.2.1⟩

end GoKafka
