import GoKafka.Consumer.Poll
import GoKafka.Protocol.Assignors

/-!
# Applying an assignment

`Consumer.applyAssignment` in `consumer.go`: a member parses the bytes the leader computed for it
and takes over its partitions. An eager member whose bytes encode no partition takes all partitions
of its topics instead, which is right for a member that is alone. `applyAssignment_exact_iff`
composes the leader and the members: the members' partitions are the ones their bytes encode, and
no two members share one, exactly when every member that subscribes to a topic with partitions is
reached by one of its topics.
-/

namespace GoKafka

open Assoc Deal List

/-- A call of the rebalance listener. -/
inductive RebalanceEvent where
  | revoked (partitions : List PartitionOffset)
  | assigned (partitions : List PartitionOffset)
  deriving DecidableEq

/-- The fields of `Consumer` that taking an assignment reads and writes. -/
structure GroupConsumer where
  topics : List Bytes
  cooperative : Bool := false
  listening : Bool := false
  cluster : Cluster
  assignments : List PartitionOffset := []

/-- The partitions of a parsed assignment, at offset 0. -/
def partitionsOf (parsed : List TopicPartitionAssignment) : List PartitionOffset :=
  parsed.flatMap fun a => a.partitions.map fun p =>
    { topic := a.topic, partition := p, offset := 0 }

/-- `Consumer.notifyRevokedLocked`. -/
def GroupConsumer.notifyRevoked (c : GroupConsumer) : List RebalanceEvent :=
  if c.listening = false ∨ c.assignments = [] then [] else [.revoked c.assignments]

/-- `Consumer.applyAssignmentIncrementalLocked`. -/
def GroupConsumer.applyAssignmentIncremental (c : GroupConsumer)
    (parsed : List TopicPartitionAssignment) : GroupConsumer × List RebalanceEvent :=
  let newSet := (partitionsOf parsed).map (·.partKey)
  let kept := c.assignments.filter (·.partKey ∈ newSet)
  let revoked := c.assignments.filter (·.partKey ∉ newSet)
  let existing := kept.map (·.partKey)
  let assigned := (partitionsOf parsed).filter (·.partKey ∉ existing)
  ({ c with assignments := kept ++ assigned },
    (if c.listening ∧ revoked ≠ [] then [.revoked revoked] else []) ++
      if c.listening ∧ assigned ≠ [] then [.assigned assigned] else [])

/-- The last loops of `applyAssignment`: all partitions of the topics, from the metadata. -/
def GroupConsumer.allPartitions (c : GroupConsumer) : List PartitionOffset :=
  c.topics.flatMap fun topic =>
    (c.cluster.md.topics.filter (·.name = topic)).flatMap fun t =>
      t.partitions.map fun p => { topic := topic, partition := p.partition, offset := 0 }

/-- `Consumer.applyAssignment`: whether the listener was told of the assigned partitions, the
consumer after it and the listener's calls. -/
def GroupConsumer.applyAssignment (c : GroupConsumer) (raw : Bytes) :
    Except Error (Bool × GroupConsumer × List RebalanceEvent) := do
  let parsed ← parseMemberAssignment raw
  if c.cooperative ∧ parsed ≠ [] then return (true, c.applyAssignmentIncremental parsed)
  else if parsed ≠ [] then
    return (false, { c with assignments := partitionsOf parsed }, c.notifyRevoked)
  else if c.cooperative then return (false, { c with assignments := [] }, c.notifyRevoked)
  else
    -- for a single member whose coordinator returns an empty assignment
    return (false, { c with assignments := c.allPartitions }, c.notifyRevoked)

/-! ## An eager member -/

/-- The partitions a consumer holds. -/
def GroupConsumer.held (c : GroupConsumer) : List PartKey := c.assignments.map (·.partKey)

/-- The partitions an assignment encodes. -/
def encodedPartitions (parsed : List TopicPartitionAssignment) : List PartKey :=
  (partitionsOf parsed).map (·.partKey)

variable {parsed : List TopicPartitionAssignment}

theorem mem_encodedPartitions :
    ⟨topic, p⟩ ∈ encodedPartitions parsed ↔ ∃ a ∈ parsed, a.topic = topic ∧ p ∈ a.partitions := by
  simp only [encodedPartitions, partitionsOf, mem_map, mem_flatMap]
  constructor
  · rintro ⟨_, ⟨a, ha, q, hq, rfl⟩, hkey⟩
    cases hkey
    exact ⟨a, ha, rfl, hq⟩
  · rintro ⟨a, ha, rfl, hp⟩
    exact ⟨_, ⟨a, ha, p, hp, rfl⟩, rfl⟩

/-- What an eager member takes. -/
theorem applyAssignment_eager {c : GroupConsumer} (heager : c.cooperative = false)
    (h : parseMemberAssignment raw = .ok parsed) :
    c.applyAssignment raw = .ok (false,
      { c with assignments := if parsed = [] then c.allPartitions else partitionsOf parsed },
      c.notifyRevoked) := by
  rw [GroupConsumer.applyAssignment, h]
  by_cases hnil : parsed = []
  · simp [hnil, heager, Bind.bind, Except.bind, Pure.pure, Except.pure]
  · simp [hnil, heager, Bind.bind, Except.bind, Pure.pure, Except.pure]

/-! ## The group -/

/-- The metadata holds the topics and partitions of the leader's map. -/
def Holds (md : MetadataResponse) (tp : TopicPartitions) : Prop :=
  ∀ topic p, p ∈ tp.parts topic ↔
    ∃ t ∈ md.topics, t.name = topic ∧ p ∈ t.partitions.map (·.partition)

/-- A member is reached: its topics have no partitions, or it comes early enough in one of them. -/
def Reached (protocolName : String) (members : List MemberSubscription) (tp : TopicPartitions)
    (m : MemberSubscription) : Prop :=
  (∀ t ∈ m.topics, tp.parts t = []) ∨
    ∃ t ∈ m.topics, seatsBefore protocolName members t m.memberID < (tp.parts t).length

instance (protocolName : String) (members : List MemberSubscription) (tp : TopicPartitions)
    (m : MemberSubscription) : Decidable (Reached protocolName members tp m) :=
  inferInstanceAs (Decidable ((∀ t ∈ m.topics, tp.parts t = []) ∨
    ∃ t ∈ m.topics, seatsBefore protocolName members t m.memberID < (tp.parts t).length))

/-- The eager consumer of a member. -/
def MemberSubscription.consumer (m : MemberSubscription) (cluster : Cluster) (listening : Bool)
    (assignments : List PartitionOffset) : GroupConsumer :=
  { topics := m.topics, cluster := cluster, listening := listening, assignments := assignments }

theorem mem_allPartitions {c : GroupConsumer} (h : Holds c.cluster.md tp) :
    ⟨topic, p⟩ ∈ c.allPartitions.map (·.partKey) ↔ topic ∈ c.topics ∧ p ∈ tp.parts topic := by
  rw [h topic p]
  simp only [GroupConsumer.allPartitions, mem_map, mem_flatMap, mem_filter, decide_eq_true_eq]
  constructor
  · rintro ⟨_, ⟨t, ht, md, ⟨hmd, hname⟩, q, hq, rfl⟩, hkey⟩
    cases hkey
    exact ⟨ht, md, hmd, hname, q, hq, rfl⟩
  · rintro ⟨ht, md, hmd, hname, q, hq, rfl⟩
    exact ⟨_, ⟨topic, ht, md, ⟨hmd, hname⟩, q, hq, rfl⟩, rfl⟩

section Group

variable {protocolName : String} {members : List MemberSubscription} {tp : TopicPartitions}
  {deals : List (Bytes × List (Bytes × List Int32))}

variable (h : GroupDeals protocolName members tp deals)
include h

theorem GroupDeals.share_ne_nil_iff (hids : (members.map (·.memberID)).Nodup) (hm : m ∈ members) :
    deals.filterMap (memberShare m.memberID) ≠ [] ↔
      ∃ t ∈ m.topics, seatsBefore protocolName members t m.memberID < (tp.parts t).length := by
  constructor
  · intro hne
    have ⟨a, ha⟩ := exists_mem_of_ne_nil _ hne
    have ⟨d, hd, hshare⟩ := mem_filterMap.1 ha
    have ⟨hhands, _⟩ := memberShare_eq_some hshare
    have ⟨m', hm', htopic, hid⟩ := h.subscribed hd hhands
    obtain rfl := inj_on_of_nodup_map hids hm' hm hid
    exact ⟨d.1, htopic, (h.reaches hd hm htopic).1 hhands⟩
  · rintro ⟨t, ht, hlt⟩
    have hparts : tp.parts t ≠ [] := ne_nil_of_length_pos (Nat.zero_lt_of_lt hlt)
    obtain ⟨d, hd, rfl⟩ := h.complete m hm t ht hparts
    have hhands := (h.reaches hd hm ht).2 hlt
    exact ne_nil_of_mem (mem_filterMap.2 ⟨d, hd, if_neg hhands⟩)

/-- No partition is in the shares of two members. -/
theorem GroupDeals.share_disjoint (hpk : pk ∈ encodedPartitions (deals.filterMap (memberShare mid)))
    (hpk' : pk ∈ encodedPartitions (deals.filterMap (memberShare mid'))) : mid = mid' := by
  obtain ⟨topic, p⟩ := pk
  have hhand : ∀ {mid : Bytes}, ⟨topic, p⟩ ∈ encodedPartitions (deals.filterMap (memberShare mid)) →
      ∃ d ∈ deals, d.1 = topic ∧ ∃ parts, (mid, parts) ∈ d.2 ∧ p ∈ parts := by
    intro mid hmem
    have ⟨a, ha, htopic, hp⟩ := mem_encodedPartitions.1 hmem
    have ⟨d, hd, hshare⟩ := mem_filterMap.1 ha
    have ⟨_, heq⟩ := memberShare_eq_some hshare
    rw [heq] at htopic hp
    have ⟨parts, hparts, hp⟩ := mem_flatten.1 hp
    exact ⟨d, hd, htopic, parts, mem_handsOf.1 hparts, hp⟩
  have ⟨d, hd, htopic, parts, hparts, hp⟩ := hhand hpk
  have ⟨d', hd', htopic', parts', hparts', hp'⟩ := hhand hpk'
  -- the topic is dealt once, so both hands are of the same deal
  obtain rfl := inj_on_of_nodup_map h.nodup hd hd' (htopic.trans htopic'.symm)
  have ⟨seats, hdealt, _⟩ := h.dealt d hd
  exact hdealt.seat_unique (tp.nodup d.1) hparts hparts' hp hp'

theorem GroupDeals.exact_iff
    (hids : (members.map (·.memberID)).Nodup) {m : MemberSubscription} (hm : m ∈ members)
    {c : GroupConsumer} (htopics : c.topics = m.topics) (hmd : Holds c.cluster.md tp) :
    (∀ pk, pk ∈ (if deals.filterMap (memberShare m.memberID) = [] then c.allPartitions
        else partitionsOf (deals.filterMap (memberShare m.memberID))).map (·.partKey) ↔
      pk ∈ encodedPartitions (deals.filterMap (memberShare m.memberID))) ↔
    Reached protocolName members tp m := by
  have hshare := h.share_ne_nil_iff hids hm
  by_cases hnil : deals.filterMap (memberShare m.memberID) = []
  · -- the fallback: exact when there is nothing to take
    rw [if_pos hnil, hnil]
    constructor
    · intro hexact
      refine .inl fun t ht => eq_nil_iff_forall_not_mem.2 fun p hp => ?_
      have hmem := (hexact ⟨t, p⟩).1 ((mem_allPartitions hmd).2 ⟨htopics ▸ ht, hp⟩)
      cases hmem
    · rintro (hempty | hreached) ⟨topic, p⟩
      · rw [mem_allPartitions hmd, htopics]
        constructor
        · rintro ⟨ht, hp⟩
          rw [hempty topic ht] at hp
          cases hp
        · intro hmem
          cases hmem
      · exact absurd hnil (hshare.2 hreached)
  · rw [if_neg hnil]
    exact ⟨fun _ => .inr (hshare.1 hnil), fun _ pk => Iff.rfl⟩

end Group

/-- The leader's assignments, applied by every member of an eager group: no partition is held by
two members and each holds what its bytes encode, exactly when every member is reached. -/
theorem applyAssignment_exact_iff (order : MapOrder Bytes) (protocolName : String)
    {members : List MemberSubscription} (hids : (members.map (·.memberID)).Nodup)
    (tp : TopicPartitions) {cluster : Cluster} (hmd : Holds cluster.md tp)
    (listening : MemberSubscription → Bool)
    (before : MemberSubscription → List PartitionOffset) :
    ∃ out, computeGroupAssignments order protocolName members tp.map = .ok out ∧
    ∃ (encoded : MemberSubscription → List TopicPartitionAssignment)
      (after : MemberSubscription → GroupConsumer),
      (∀ m ∈ members, ∃ raw events, out.lookup m.memberID = some raw ∧
        parseMemberAssignment raw = .ok (encoded m) ∧
        (m.consumer cluster (listening m) (before m)).applyAssignment raw =
          .ok (false, after m, events)) ∧
      (((∀ m ∈ members, ∀ m' ∈ members, m ≠ m' →
          ∀ pk, pk ∈ (after m).held → pk ∉ (after m').held) ∧
        ∀ m ∈ members, ∀ pk, pk ∈ (after m).held ↔ pk ∈ encodedPartitions (encoded m)) ↔
      ∀ m ∈ members, Reached protocolName members tp m) := by
  have ⟨deals, hdeals, _, out, hout, hmem, hparse⟩ :=
    computeGroupAssignments_spec order protocolName hids tp
  let encoded := fun m : MemberSubscription => deals.filterMap (memberShare m.memberID)
  let consumer := fun m : MemberSubscription => m.consumer cluster (listening m) (before m)
  let after := fun m : MemberSubscription =>
    { consumer m with
      assignments := if encoded m = [] then (consumer m).allPartitions
        else partitionsOf (encoded m) }
  have hexact : ∀ m ∈ members, (∀ pk, pk ∈ (after m).held ↔ pk ∈ encodedPartitions (encoded m)) ↔
        Reached protocolName members tp m := fun m hm =>
    @GroupDeals.exact_iff _ _ _ _ hdeals hids m hm (consumer m) rfl hmd
  refine ⟨out, hout, encoded, after, ?_, ?_⟩
  · intro m hm
    have ⟨raw, hraw⟩ := Option.isSome_iff_exists.1
      (AList.lookup_isSome.2 ((hmem m.memberID).2 ⟨m, hm, rfl⟩))
    have hparse := (hparse m.memberID raw hraw).2
    exact ⟨raw, _, hraw, hparse, applyAssignment_eager rfl hparse⟩
  · constructor
    · rintro ⟨_, hall⟩ m hm
      exact (hexact m hm).1 (hall m hm)
    · intro hreached
      have hall := fun m hm => (hexact m hm).2 (hreached m hm)
      refine ⟨fun m hm m' hm' hne pk hpk hpk' => hne ?_, hall⟩
      have hid := hdeals.share_disjoint ((hall m hm pk).1 hpk) ((hall m' hm' pk).1 hpk')
      exact inj_on_of_nodup_map hids hm hm' hid

/-! ## Two members of one topic -/

/-- Members `a` and `b`, both subscribed to topic `t`. -/
def twoMembers : List MemberSubscription :=
  [⟨[97], [[116]], by decide, by simp [maxInt16]⟩, ⟨[98], [[116]], by decide, by simp [maxInt16]⟩]

/-- Topic `t` with its partitions. -/
def oneTopic (parts : List Int32) (hnodup : parts.Nodup) (hcount : parts.length < 2 ^ 31) :
    TopicPartitions where
  map := (∅ : AList fun _ : Bytes => List Int32).insert [116] parts
  nodup topic := by
    rw [partsOf]
    by_cases h : topic = [116]
    · rw [h, AList.lookup_insert]
      exact hnodup
    · rw [AList.lookup_insert_ne h]
      exact List.nodup_nil
  count topic := by
    rw [partsOf]
    by_cases h : topic = [116]
    · rw [h, AList.lookup_insert]
      exact hcount
    · rw [AList.lookup_insert_ne h]
      exact Nat.two_pow_pos 31

/-- The metadata of that topic. -/
def topicCluster (parts : List Int32) : Cluster where
  seeds := []
  md := { topics := [{ name := [116], partitions := parts.map fun p => ⟨p, 1, 0⟩ }] }

theorem topicCluster_holds (hnodup : parts.Nodup) (hcount : parts.length < 2 ^ 31) :
    Holds (topicCluster parts).md (oneTopic parts hnodup hcount) := by
  intro topic p
  have hparts :
      (oneTopic parts hnodup hcount).parts topic = if topic = [116] then parts else [] := by
    rw [TopicPartitions.parts, partsOf, oneTopic]
    split_ifs with h
    · rw [h, AList.lookup_insert]
      rfl
    · rw [AList.lookup_insert_ne h]
      rfl
  rw [hparts]
  by_cases h : topic = [116]
  · simp [topicCluster, h]
  · simp [topicCluster, h, Ne.symm h]

/-- With two partitions both members are reached. -/
theorem applyAssignment_exact_iff_two :
    ∃ out, computeGroupAssignments ⟨id, fun _ => .refl _⟩ "range" twoMembers
      (oneTopic [0, 1] (by decide) (by decide)).map = .ok out ∧
    ∃ after : MemberSubscription → GroupConsumer,
      (∀ m ∈ twoMembers, ∃ raw, out.lookup m.memberID = some raw ∧
        ((m.consumer (topicCluster [0, 1]) false []).applyAssignment raw).map (·.2.1) =
          .ok (after m)) ∧
      ∀ m ∈ twoMembers, ∀ m' ∈ twoMembers, m ≠ m' →
        ∀ pk, pk ∈ (after m).held → pk ∉ (after m').held := by
  have ⟨out, hout, _, after, hafter, hiff⟩ :=
    applyAssignment_exact_iff ⟨id, fun _ => .refl _⟩ "range"
      (show (twoMembers.map (·.memberID)).Nodup by decide) (oneTopic [0, 1] (by decide) (by decide))
      (topicCluster_holds _ _) (fun _ => false) fun _ => []
  refine ⟨out, hout, after, ?_, (hiff.2 (by decide +kernel)).1⟩
  intro m hm
  have ⟨raw, _, hraw, _, happly⟩ := hafter m hm
  exact ⟨raw, hraw, by rw [happly]; rfl⟩

/-- A join of the group: for each member the partitions its bytes encode and those it holds. -/
def joinGroup (protocolName : String) (members : List MemberSubscription)
    (topicPartitions : AList fun _ : Bytes => List Int32) (cluster : Cluster) :
    Except Error (List (List PartKey × List PartKey)) := do
  let out ← computeGroupAssignments ⟨id, Assoc.perm_id⟩ protocolName members topicPartitions
  members.mapM fun m => do
    let raw := (out.lookup m.memberID).getD []
    let parsed ← parseMemberAssignment raw
    let (_, c, _) ← (m.consumer cluster false []).applyAssignment raw
    return (encodedPartitions parsed, c.held)

/-- With one partition the second member's bytes encode nothing, and it takes the partition of the
first. -/
theorem applyAssignment_duplicates :
    Holds (topicCluster [0]).md (oneTopic [0] (by decide) (by decide)) ∧
    (joinGroup "range" twoMembers (oneTopic [0] (by decide) (by decide)).map
      (topicCluster [0])).toOption =
      some [([⟨[116], 0⟩], [⟨[116], 0⟩]), ([], [⟨[116], 0⟩])] :=
  ⟨topicCluster_holds _ _, by decide +kernel⟩

end GoKafka
