import GoKafka.Consumer.Assignment

/-!
# The leader's assignments as a partition

What the members decode from the leader's output is a partition of what there is to consume
(`ExactShares`): each partition of a topic with a subscriber is one member's, who subscribes to the
topic, and nobody has anything else. The hands of a topic are a function of its partitions and its
subscribers in order (`groupHands`), so that neither the order of the members nor the order in which
the loop visits the topics matters (`owns_perm`), and they are dealt evenly where the subscribers of
a topic are all different. `computeGroupAssignments_exact` puts the parts together, for topics with
no more partitions than a length field can say; `computeGroupAssignments_overflows` is a topic with
one partition too many.
-/

namespace GoKafka

open Assoc Deal Reading List

/-- Each partition of a topic with a subscriber is one member's, who subscribes to the topic, and
nobody has anything else. -/
structure ExactShares (members : List MemberSubscription) (tp : TopicPartitions)
    (owns : Bytes → Finset PartKey) : Prop where
  covered : ∀ m ∈ members, ∀ t ∈ m.topics, ∀ p ∈ tp.parts t, ∃! mid, ⟨t, p⟩ ∈ owns mid
  only : ∀ mid, ∀ pk ∈ owns mid, pk.part ∈ tp.parts pk.topic ∧
    ∃ m ∈ members, m.memberID = mid ∧ pk.topic ∈ m.topics

/-- Two subscribers of a topic have the same number of its partitions, up to one. -/
def EvenShares (members : List MemberSubscription) (owns : Bytes → Finset PartKey) : Prop :=
  ∀ t, ∀ m ∈ members, ∀ m' ∈ members, t ∈ m.topics → t ∈ m'.topics →
    ((owns m.memberID).filter (·.topic = t)).card ≤
      ((owns m'.memberID).filter (·.topic = t)).card + 1

/-! ## What a member is dealt -/

section Owns

variable (protocolName : String) (members : List MemberSubscription) (tp : TopicPartitions)

/-- The partitions that a member is dealt, over all topics with subscribers. -/
def owns (mid : Bytes) : Finset PartKey :=
  (members.flatMap fun m => m.topics.flatMap fun t =>
    (held (groupHands protocolName members tp t) mid).map fun p => ⟨t, p⟩).toFinset

variable {protocolName members tp}

theorem mem_owns :
    pk ∈ owns protocolName members tp mid ↔ (∃ m ∈ members, pk.topic ∈ m.topics) ∧
      pk.part ∈ held (groupHands protocolName members tp pk.topic) mid := by
  simp only [owns, mem_toFinset, mem_flatMap, mem_map]
  constructor
  · rintro ⟨m, hm, t, ht, p, hp, rfl⟩
    exact ⟨⟨m, hm, ht⟩, hp⟩
  · rintro ⟨⟨m, hm, ht⟩, hp⟩
    exact ⟨m, hm, pk.topic, ht, pk.part, hp, rfl⟩

theorem groupHands_perm (h : members'.Perm members) :
    groupHands protocolName members' tp topic = groupHands protocolName members tp topic := by
  rw [groupHands, groupHands, sortAsc_congr (subscribers_perm h)]

theorem owns_perm (h : members'.Perm members) :
    owns protocolName members' tp = owns protocolName members tp := by
  ext pk
  rw [mem_owns, mem_owns, groupHands_perm h]
  simp [h.mem_iff]

variable {m : MemberSubscription}

/-- The hands of a topic with a subscriber deal its partitions. -/
theorem groupHands_dealt (hm : m ∈ members) {t : Bytes} (ht : t ∈ m.topics) :
    Dealt (tp.parts t) (row protocolName (sortAsc (subscribers members t)))
        (groupHands protocolName members tp t) ∧
      ((subscribers members t).Nodup →
        Evenly (sortAsc (subscribers members t)) (groupHands protocolName members tp t)) :=
  groupHands_deals tp (List.ne_nil_of_mem (mem_subscribers.2 ⟨m, hm, ht, rfl⟩))

theorem held_sublist (hands : List (Bytes × List Int32)) (mid : Bytes) :
    (held hands mid).Sublist (hands.flatMap (·.2)) :=
  List.filter_sublist.flatMap _

/-- A member is dealt partitions of the topic, each once. -/
theorem held_groupHands (hm : m ∈ members) (ht : t ∈ m.topics) :
    (held (groupHands protocolName members tp t) mid).Nodup ∧
      held (groupHands protocolName members tp t) mid ⊆ tp.parts t := by
  have hperm := (@groupHands_dealt protocolName members tp m hm t ht).1.perm
  have hsub := held_sublist (groupHands protocolName members tp t) mid
  exact ⟨hsub.nodup (hperm.nodup_iff.2 (tp.nodup t)), fun p hp => hperm.mem_iff.1 (hsub.subset hp)⟩

theorem exactShares_owns : ExactShares members tp (owns protocolName members tp) := by
  refine ⟨?_, ?_⟩
  · intro m hm t ht p hp
    have hdealt := (@groupHands_dealt protocolName members tp m hm t ht).1
    obtain ⟨g, hg, hpg⟩ := mem_flatMap.1 (hdealt.perm.mem_iff.2 hp)
    refine ⟨g.1, mem_owns.2 ⟨⟨m, hm, ht⟩, mem_held.2 ⟨g.2, hg, hpg⟩⟩, ?_⟩
    intro mid hmid
    obtain ⟨items, hg', hpg'⟩ := mem_held.1 (mem_owns.1 hmid).2
    exact hdealt.seat_unique (tp.nodup t) hg' hg hpg' hpg
  · intro mid pk hpk
    obtain ⟨⟨m, hm, ht⟩, hheld⟩ := mem_owns.1 hpk
    refine ⟨(held_groupHands hm ht).2 hheld, ?_⟩
    obtain ⟨items, hg, -⟩ := mem_held.1 hheld
    have hseat := (@groupHands_dealt protocolName members tp m hm _ ht).1.seat _ hg
    obtain ⟨m', hm', ht', hid⟩ := mem_subscribers.1 (mem_seats.1 hseat)
    exact ⟨m', hm', hid, ht'⟩

theorem card_owns (hm : m ∈ members) (ht : t ∈ m.topics) :
    ((owns protocolName members tp mid).filter (·.topic = t)).card =
      (held (groupHands protocolName members tp t) mid).length := by
  have himage : (owns protocolName members tp mid).filter (·.topic = t) =
      (held (groupHands protocolName members tp t) mid).toFinset.image fun p => ⟨t, p⟩ := by
    ext ⟨topic, p⟩
    simp only [Finset.mem_filter, mem_owns, Finset.mem_image, mem_toFinset, PartKey.mk.injEq]
    constructor
    · rintro ⟨⟨-, hp⟩, rfl⟩
      exact ⟨p, hp, rfl, rfl⟩
    · rintro ⟨p, hp, rfl, rfl⟩
      exact ⟨⟨⟨m, hm, ht⟩, hp⟩, rfl⟩
  rw [himage, Finset.card_image_of_injective _ fun p q h => (PartKey.mk.inj h).2,
    toFinset_card_of_nodup (held_groupHands hm ht).1]

theorem subscribers_nodup (hids : (members.map (·.memberID)).Nodup)
    (htopics : ∀ m ∈ members, m.topics.Nodup) : (subscribers members t).Nodup := by
  have hpairs : (subscriptions members).Nodup := by
    refine nodup_flatMap.2 ⟨fun m hm => (htopics m hm).map fun a b h => (Prod.mk.inj h).1, ?_⟩
    refine (pairwise_map.1 hids).imp fun hne => ?_
    intro pair hpair hpair'
    obtain ⟨a, -, rfl⟩ := mem_map.1 hpair
    obtain ⟨b, -, heq⟩ := mem_map.1 hpair'
    exact hne (Prod.mk.inj heq).2.symm
  refine (hpairs.filter _).map_on ?_
  intro x hx y hy hxy
  have hxt := of_decide_eq_true (mem_filter.1 hx).2
  have hyt := of_decide_eq_true (mem_filter.1 hy).2
  exact Prod.ext (hxt.trans hyt.symm) hxy

theorem evenShares_owns (hids : (members.map (·.memberID)).Nodup)
    (htopics : ∀ m ∈ members, m.topics.Nodup) :
    EvenShares members (owns protocolName members tp) := by
  intro t m hm m' hm' ht ht'
  rw [card_owns hm ht, card_owns hm ht]
  have heven := (@groupHands_dealt protocolName members tp m hm t ht).2
    (subscribers_nodup hids htopics)
  exact heven _ ((sortAsc_perm _).mem_iff.2 (mem_subscribers.2 ⟨m, hm, ht, rfl⟩))
    _ ((sortAsc_perm _).mem_iff.2 (mem_subscribers.2 ⟨m', hm', ht', rfl⟩))

end Owns

/-! ## What a member decodes -/

section Decoded

variable {deals : List (Bytes × List (Bytes × List Int32))}

theorem mem_encodedPartitions_share :
    pk ∈ encodedPartitions (deals.filterMap (memberShare mid)) ↔
      ∃ d ∈ deals, d.1 = pk.topic ∧ pk.part ∈ held d.2 mid := by
  obtain ⟨topic, p⟩ := pk
  rw [mem_encodedPartitions]
  constructor
  · rintro ⟨a, ha, rfl, hp⟩
    obtain ⟨d, hd, hshare⟩ := mem_filterMap.1 ha
    obtain ⟨-, rfl⟩ := memberShare_eq_some hshare
    exact ⟨d, hd, rfl, hp⟩
  · rintro ⟨d, hd, rfl, hp⟩
    obtain ⟨items, hitems, hp'⟩ := mem_held.1 hp
    have hne : handsOf d.2 mid ≠ [] := ne_nil_of_mem (mem_handsOf.2 hitems)
    exact ⟨_, mem_filterMap.2 ⟨d, hd, if_neg hne⟩, rfl, hp⟩

/-- A member decodes the partitions it is dealt. -/
theorem GroupDeals.decoded (h : GroupDeals protocolName members tp deals)
    (hhands : ∀ d ∈ deals, d.2 = groupHands protocolName members tp d.1) :
    (encodedPartitions (deals.filterMap (memberShare mid))).toFinset =
      owns protocolName members tp mid := by
  ext pk
  rw [mem_toFinset, mem_encodedPartitions_share, mem_owns]
  constructor
  · rintro ⟨d, hd, htopic, hp⟩
    obtain ⟨items, hitems, -⟩ := mem_held.1 hp
    have hne : handsOf d.2 mid ≠ [] := ne_nil_of_mem (mem_handsOf.2 hitems)
    obtain ⟨m, hm, ht, -⟩ := h.subscribed hd hne
    rw [hhands d hd] at hp
    exact htopic ▸ ⟨⟨m, hm, ht⟩, hp⟩
  · rintro ⟨⟨m, hm, ht⟩, hp⟩
    have hparts := (held_groupHands hm ht).2 hp
    obtain ⟨d, hd, htopic⟩ := h.complete m hm pk.topic ht (ne_nil_of_mem hparts)
    exact ⟨d, hd, htopic, by rw [hhands d hd, htopic]; exact hp⟩

theorem GroupDeals.decoded_nodup (h : GroupDeals protocolName members tp deals) :
    (encodedPartitions (deals.filterMap (memberShare mid))).Nodup := by
  have htopics : ((deals.filterMap (memberShare mid)).map (·.topic)).Nodup :=
    (memberShare_topics deals mid).nodup h.nodup
  have hparts : ∀ a ∈ deals.filterMap (memberShare mid), a.partitions.Nodup := by
    intro a ha
    obtain ⟨d, hd, hshare⟩ := mem_filterMap.1 ha
    obtain ⟨-, rfl⟩ := memberShare_eq_some hshare
    obtain ⟨seats, hdealt, -⟩ := h.dealt d hd
    exact (held_sublist d.2 mid).nodup (hdealt.perm.nodup_iff.2 (tp.nodup d.1))
  have heq : encodedPartitions (deals.filterMap (memberShare mid)) =
      (deals.filterMap (memberShare mid)).flatMap fun a =>
        a.partitions.map fun p => ⟨a.topic, p⟩ := by
    simp [encodedPartitions, partitionsOf, map_flatMap, Function.comp_def]
  rw [heq]
  refine nodup_flatMap.2 ⟨fun a ha => (hparts a ha).map fun p q hpq => (PartKey.mk.inj hpq).2, ?_⟩
  refine (pairwise_map.1 htopics).imp fun hne => ?_
  intro pk hpk hpk'
  obtain ⟨p, -, rfl⟩ := mem_map.1 hpk
  obtain ⟨q, -, heq⟩ := mem_map.1 hpk'
  exact hne (PartKey.mk.inj heq).1.symm

end Decoded

/-- Every assignor computes an exact partition that depends neither on the order of the members nor
on the order of the loop over the topics, and an even one where no subscription lists a topic
twice. -/
theorem computeGroupAssignments_exact (protocolName : String) {members : List MemberSubscription}
    (hids : (members.map (·.memberID)).Nodup) (tp : TopicPartitions) :
    ∃ owns : Bytes → Finset PartKey, ExactShares members tp owns ∧
      ((∀ m ∈ members, m.topics.Nodup) → EvenShares members owns) ∧
      ∀ (order : MapOrder Bytes) (members' : List MemberSubscription), members'.Perm members →
        ∃ out, computeGroupAssignments order protocolName members' tp.map = .ok out ∧
          (∀ m ∈ members, m.memberID ∈ out) ∧
          ∀ mid raw, out.lookup mid = some raw → ∃ parsed,
            parseMemberAssignment raw = .ok parsed ∧ (encodedPartitions parsed).Nodup ∧
              (encodedPartitions parsed).toFinset = owns mid := by
  refine ⟨owns protocolName members tp, exactShares_owns, evenShares_owns hids, ?_⟩
  intro order members' hperm
  have hids' : (members'.map (·.memberID)).Nodup := (hperm.map _).nodup_iff.2 hids
  obtain ⟨deals, hdeals, hhands, out, hout, hmem, hparse⟩ :=
    computeGroupAssignments_spec order protocolName hids' tp
  refine ⟨out, hout, fun m hm => (hmem m.memberID).2 ⟨m, hperm.mem_iff.2 hm, rfl⟩,
    fun mid raw hraw => ?_⟩
  refine ⟨_, (hparse mid raw hraw).2, hdeals.decoded_nodup, ?_⟩
  rw [hdeals.decoded hhands, owns_perm hperm]

/-- Members `a` and `b` of topic `t` with three partitions, in any order. -/
theorem computeGroupAssignments_exact_two : ∃ owns : Bytes → Finset PartKey,
      (∃! mid, ⟨[116], 2⟩ ∈ owns mid) ∧
      ((owns [97]).filter (·.topic = [116])).card ≤
        ((owns [98]).filter (·.topic = [116])).card + 1 ∧
      ∀ order : MapOrder Bytes, ∃ out, computeGroupAssignments order "roundrobin"
        twoMembers.reverse (oneTopic [0, 1, 2] (by decide) (by decide)).map = .ok out := by
  obtain ⟨owns, hexact, heven, hcomputes⟩ := computeGroupAssignments_exact "roundrobin"
    (show (twoMembers.map (·.memberID)).Nodup by decide)
    (oneTopic [0, 1, 2] (by decide) (by decide))
  have ha := mem_cons_self (a := twoMembers[0]) (l := [twoMembers[1]])
  have hb : twoMembers[1] ∈ twoMembers := getElem_mem _
  refine ⟨owns, hexact.covered _ ha [116] (by decide) 2 (by decide +kernel), ?_, ?_⟩
  · exact heven (by decide) [116] _ ha _ hb (by decide) (by decide)
  · intro order
    obtain ⟨out, hout, -⟩ := hcomputes order _ (reverse_perm _)
    exact ⟨out, hout⟩

/-! ## A member alone -/

/-- The partitions of the given topics. -/
def partsFor (topicPartitions : AList fun _ : Bytes => List Int32) (topics : List Bytes) :
    AList fun _ : Bytes => List Int32 :=
  index id (partsOf topicPartitions) topics

theorem partsOf_partsFor (topicPartitions : AList fun _ : Bytes => List Int32) :
    partsOf (partsFor topicPartitions topics) topic =
      if topic ∈ topics then partsOf topicPartitions topic else [] := by
  have hlookup : (partsFor topicPartitions topics).lookup topic =
      if topic ∈ topics then some (partsOf topicPartitions topic) else none := by
    refine lookup_index_eq fun v => ?_
    split_ifs with htopic
    · simp [htopic]
    · simp only [iff_false, not_exists, not_and]
      rintro t ht rfl
      exact (htopic ht).elim
  rw [partsOf, hlookup]
  split_ifs
  · rfl
  · rfl

/-- Everything there is of the given topics. -/
def wholeAssignment (topicPartitions : AList fun _ : Bytes => List Int32) (topics : List Bytes) :
    List TopicPartitionAssignment :=
  (topics.dedup.filter fun t => partsOf topicPartitions t ≠ []).map fun t =>
    ⟨t, partsOf topicPartitions t⟩

variable {topicPartitions : AList fun _ : Bytes => List Int32}

theorem assignmentSize_le {topics : List Bytes} {assignments : List TopicPartitionAssignment}
    (hnodup : (assignments.map (·.topic)).Nodup)
    (htopics : ∀ a ∈ assignments, a.topic ∈ topics ∧ partsOf topicPartitions a.topic ≠ [] ∧
      a.partitions.length ≤ (partsOf topicPartitions a.topic).length) :
    assignmentSize assignments ≤ assignmentSize (wholeAssignment topicPartitions topics) := by
  let size (t : Bytes) : Nat := 6 + t.length + 4 * (partsOf topicPartitions t).length
  have hsub : assignments.map (·.topic) ⊆
      topics.dedup.filter fun t => partsOf topicPartitions t ≠ [] := by
    intro t ht
    obtain ⟨a, ha, rfl⟩ := mem_map.1 ht
    obtain ⟨htopic, hparts, -⟩ := htopics a ha
    exact mem_filter.2 ⟨mem_dedup.2 htopic, decide_eq_true hparts⟩
  obtain ⟨chosen, hperm, hchosen⟩ := subperm_of_subset hnodup hsub
  rw [assignmentSize, assignmentSize, wholeAssignment, map_map]
  refine Nat.add_le_add_left ?_ 6
  calc (assignments.map fun a => 6 + a.topic.length + 4 * a.partitions.length).sum
      ≤ (assignments.map fun a => size a.topic).sum := by
        refine sum_le_sum fun a ha => ?_
        have hle := (htopics a ha).2.2
        simp only [size]
        omega
    _ = (chosen.map size).sum := by rw [(hperm.map size).sum_nat, map_map]; rfl
    _ ≤ _ := (hchosen.map size).sum_le_sum fun _ _ => Nat.zero_le _

/-- What a member alone in its group is assigned: every partition of its topics once. -/
theorem computeGroupAssignments_alone (hnodup : ∀ t, (partsOf topicPartitions t).Nodup)
    (hcount : ∀ t ∈ m.topics, (partsOf topicPartitions t).length < 2 ^ 31) :
    ∃ out raw parsed,
      computeGroupAssignments order protocolName [m] topicPartitions = .ok out ∧
      (∀ mid, mid ∈ out ↔ mid = m.memberID) ∧ out.lookup m.memberID = some raw ∧
      raw.length ≤ assignmentSize (wholeAssignment topicPartitions m.topics) ∧
      parseMemberAssignment raw = .ok parsed ∧ (encodedPartitions parsed).Nodup ∧
      ∀ pk, pk ∈ encodedPartitions parsed ↔
        pk.topic ∈ m.topics ∧ pk.part ∈ partsOf topicPartitions pk.topic := by
  let tp : TopicPartitions := {
    map := partsFor topicPartitions m.topics
    nodup := fun t => by
      rw [partsOf_partsFor]
      split_ifs
      · exact hnodup t
      · exact nodup_nil
    count := fun t => by
      rw [partsOf_partsFor]
      split_ifs with ht
      · exact hcount t ht
      · decide }
  have hparts : ∀ t ∈ m.topics, tp.parts t = partsOf topicPartitions t :=
    fun t ht => (partsOf_partsFor _).trans (if_pos ht)
  obtain ⟨deals, hdeals, hhands, out, hout, hmem, hraw⟩ := @computeGroupAssignments_spec
    [m] order protocolName (nodup_singleton _) tp
  have hcongr : computeGroupAssignments order protocolName [m] tp.map =
      computeGroupAssignments order protocolName [m] topicPartitions := by
    refine computeGroupAssignments_congr fun m' hm' t ht => ?_
    obtain rfl := mem_singleton.1 hm'
    exact hparts t ht
  rw [hcongr] at hout
  have hmids : ∀ mid, mid ∈ out ↔ mid = m.memberID := by
    simp [hmem, eq_comm]
  obtain ⟨raw, hlookup⟩ := Option.isSome_iff_exists.1 (AList.lookup_isSome.2 ((hmids _).2 rfl))
  obtain ⟨hencode, hparse⟩ := hraw _ _ hlookup
  refine ⟨out, raw, _, hout, hmids, hlookup, ?_, hparse, hdeals.decoded_nodup, fun pk => ?_⟩
  · rw [length_encodeMemberAssignment hencode]
    refine assignmentSize_le ((memberShare_topics deals _).nodup hdeals.nodup) fun a ha => ?_
    obtain ⟨d, hd, hshare⟩ := mem_filterMap.1 ha
    obtain ⟨hne, rfl⟩ := memberShare_eq_some hshare
    obtain ⟨m', hm', ht, -⟩ := hdeals.subscribed hd hne
    obtain rfl := mem_singleton.1 hm'
    have hreached := (hdeals.reaches hd hm' ht).1 hne
    obtain ⟨seats, hdealt, -⟩ := hdeals.dealt d hd
    have hle := length_handsOf_flatten d.2 m'.memberID
    rw [hdealt.perm.length_eq] at hle
    rw [hparts _ ht] at hreached hle
    exact ⟨ht, ne_nil_of_length_pos (Nat.zero_lt_of_lt hreached), hle⟩
  · rw [← mem_toFinset, hdeals.decoded hhands]
    have hexact := @exactShares_owns protocolName [m] tp
    constructor
    · intro hpk
      obtain ⟨hpart, m', hm', -, ht⟩ := hexact.only _ _ hpk
      obtain rfl := mem_singleton.1 hm'
      exact ⟨ht, hparts _ ht ▸ hpart⟩
    · rintro ⟨ht, hpart⟩
      obtain ⟨mid, hpk, -⟩ := hexact.covered m mem_cons_self pk.topic ht pk.part
        (by rwa [hparts _ ht])
      obtain ⟨-, m', hm', hid, -⟩ := hexact.only _ _ hpk
      obtain rfl := mem_singleton.1 hm'
      exact hid ▸ hpk

/-! ## One partition too many -/

theorem soloTopics_count : ([[116]] : List Bytes).length < 2 ^ 31 := by decide

theorem soloTopics_names : ∀ t ∈ ([[116]] : List Bytes), t.length ≤ maxInt16 := by simp [maxInt16]

/-- Member `a`, subscribed to topic `t`. -/
def soloMember : MemberSubscription := ⟨[97], [[116]], soloTopics_count, soloTopics_names⟩

/-- The partitions of a topic that has all that are not negative. -/
def everyPartition : List Int32 := (List.range (2 ^ 31)).map Int32.ofNat

theorem everyPartition_nodup : everyPartition.Nodup := by
  refine nodup_range.map_on fun i hi j hj hij => ?_
  have hi := mem_range.1 hi
  have hj := mem_range.1 hj
  have heq := congrArg Int32.toInt hij
  rw [Int32.toInt_ofNat_of_lt hi, Int32.toInt_ofNat_of_lt hj] at heq
  exact Int.ofNat.inj heq

theorem everyPartition_length : everyPartition.length = 2 ^ 31 := by
  rw [everyPartition, length_map, length_range]

/-- A member alone is dealt all partitions. -/
theorem assignMembers_solo (hparts : parts ≠ []) :
    assignMembers ⟨id, fun _ => .refl _⟩ "range" [soloMember]
      ((∅ : AList fun _ : Bytes => List Int32).insert [116] parts) =
      (∅ : ByMember).insert [97] [{ topic := [116], partitions := sortAsc parts }] := by
  have hsorted := sortAsc_ne_nil hparts
  have hlen : (sortAsc parts).length ≠ 0 := mt length_eq_zero_iff.1 hsorted
  have hlookup : (((∅ : AList fun _ : Bytes => List Int32).insert [116] parts).lookup
      [116]).getD [] = parts := by rw [AList.lookup_insert]; rfl
  have hkeys : (MapOrder.mk id fun _ => .refl _).keys
      (group (·.1) (subscriptions [soloMember])) = [[116]] := by decide
  calc assignMembers _ "range" [soloMember] _
      = assignTopics "range" (group (·.1) (subscriptions [soloMember])) _
          ((MapOrder.mk id fun _ => .refl _).keys (group (·.1) (subscriptions [soloMember])))
          ((∅ : ByMember).insert [97] []) := rfl
    _ = assignRange [116] (sortAsc parts) [[97]] ((∅ : ByMember).insert [97] []) := by
      rw [hkeys, assignTopics, hlookup, if_neg hparts]
      rfl
    _ = appendTopicParts ((∅ : ByMember).insert [97] []) [97] [116] (sortAsc parts) := by
      simp [assignRange, assignRangeLoop, Nat.mod_one, hlen]

/-- A number of partitions that wraps around to a negative one is read as none, and the partitions
are left unread. -/
theorem consumes_overflow (htopic : topic.length ≤ maxInt16) (hparts : parts.length = 2 ^ 31) :
    ∃ raw rest, encodeTopicAssignment { topic := topic, partitions := parts } = .ok (raw ++ rest) ∧
      Consumes parseLegacyTopic raw { topic := topic, partitions := [] } := by
  have hstring : writeString topic = .ok (writeInt16 (Int16.ofNat topic.length) ++ topic) :=
    if_neg (not_lt.2 htopic)
  refine ⟨_, _, bind_eq_ok.2 ⟨_, hstring, rfl⟩, (consumes_readString hstring).bind ?_⟩
  rw [hparts]
  refine (consumes_readInt32 _).bind ?_
  exact Consumes.pure _

/-- Alone in the group, a member of a topic with 2^31 partitions decodes none of them. -/
theorem computeGroupAssignments_overflows : everyPartition.Nodup ∧ (0 : Int32) ∈ everyPartition ∧
    ∃ out raw, computeGroupAssignments ⟨id, fun _ => .refl _⟩ "range" [soloMember]
      ((∅ : AList fun _ : Bytes => List Int32).insert [116] everyPartition) = .ok out ∧
      out.lookup [97] = some raw ∧
      parseMemberAssignment raw = .ok [{ topic := [116], partitions := [] }] := by
  have hzero : (0 : Int32) ∈ everyPartition :=
    mem_map.2 ⟨0, mem_range.2 (by decide), rfl⟩
  have hsorted : (sortAsc everyPartition).length = 2 ^ 31 :=
    (sortAsc_perm _).length_eq.trans everyPartition_length
  obtain ⟨raw, rest, hraw, hread⟩ :=
    consumes_overflow (show [116].length ≤ maxInt16 by decide) hsorted
  have hencode : encodeMemberAssignment [{ topic := [116], partitions := sortAsc everyPartition }] =
      .ok (writeInt16 0 ++ (writeInt32 1 ++ raw) ++ rest) := by
    refine bind_eq_ok.2 ⟨[raw ++ rest], ?_, ?_⟩
    · exact bind_eq_ok.2 ⟨_, hraw, rfl⟩
    · simp [Pure.pure, Except.pure]
  refine ⟨everyPartition_nodup, hzero, (∅ : AList fun _ : Bytes => Bytes).insert [97]
    (writeInt16 0 ++ (writeInt32 1 ++ raw) ++ rest), _, ?_, AList.lookup_insert ∅, ?_⟩
  · rw [computeGroupAssignments, if_neg (cons_ne_nil _ _), assignMembers_solo (ne_nil_of_mem hzero)]
    exact bind_eq_ok.2 ⟨_, hencode, rfl⟩
  · refine parseMemberAssignment_legacy ?_ rest
    have hone : Consumes (readN parseLegacyTopic 1) (raw ++ [])
        [{ topic := [116], partitions := [] }] :=
      hread.bind ((Consumes.pure []).map (TopicPartitionAssignment.mk [116] [] :: ·))
    rwa [append_nil] at hone

end GoKafka
