import GoKafka.Protocol.Assignors

/-!
# Totals over all topics

The assignors deal every topic from the member with the smallest id on, so that the member that
gets more of one topic gets more of the others too: where all members subscribe to the same topics,
no member has more than the first and none less than the last, and what the first is ahead adds up
over the topics (`blockShare_first`, `given_eq`). The totals of any two members differ by at most
one if and only if it adds up to at most one (`evenTotals_iff`), that is, with every topic
listed once, if the partitions of at most one topic cannot be divided evenly (`groupLead_of_nodup`).
-/

namespace GoKafka

open Assoc Deal List

/-- The number of partitions of an assignment. -/
def totalPartitions (assignments : List TopicPartitionAssignment) : Nat :=
  (assignments.map (·.partitions.length)).sum

section

variable (order : MapOrder Bytes) (protocolName : String) (members : List MemberSubscription)
  (topicPartitions : AList fun _ : Bytes => List Int32)

/-- The assignment that `ComputeGroupAssignments` encodes for a member. -/
def given (mid : Bytes) : List TopicPartitionAssignment :=
  (assignMembers order protocolName members topicPartitions).entriesOf mid

/-- The totals of any two members differ by at most one. -/
def EvenTotals : Prop :=
  ∀ m ∈ members, ∀ m' ∈ members,
    totalPartitions (given order protocolName members topicPartitions m.memberID) ≤
      totalPartitions (given order protocolName members topicPartitions m'.memberID) + 1

end

/-! ## What is encoded -/

theorem exists_encodeMemberAssignment (h : ∀ a ∈ assignments, a.topic.length ≤ maxInt16) :
    ∃ raw, encodeMemberAssignment assignments = .ok raw := by
  have htopics := @mapM_eq_ok Error _ _ encodeTopicAssignment (fun a => stringBytes a.topic ++
    writeInt32 (Int32.ofNat a.partitions.length) ++ a.partitions.flatMap writeInt32) assignments
    fun a ha => bind_eq_ok.2 ⟨_, writeString_eq (h a ha), rfl⟩
  exact ⟨_, bind_eq_ok.2 ⟨_, htopics, rfl⟩⟩

/-- `ComputeGroupAssignments` returns the bytes of what each member is given. -/
theorem computeGroupAssignments_given (topicPartitions : AList fun _ : Bytes => List Int32) :
    ∃ out, computeGroupAssignments order protocolName members topicPartitions = .ok out ∧
      ∀ m ∈ members, ∃ raw, out.lookup m.memberID = some raw ∧
        encodeMemberAssignment (given order protocolName members topicPartitions m.memberID) =
          .ok raw := by
  obtain ⟨topics, -, hkeys, hentries, hmem⟩ :=
    assignMembers_eq order protocolName members topicPartitions
  have hnames : ∀ mid, ∀ a ∈ given order protocolName members topicPartitions mid,
      a.topic.length ≤ maxInt16 := by
    intro mid a ha
    rw [given, hentries] at ha
    obtain ⟨d, hd, hshare⟩ := mem_filterMap.1 ha
    obtain ⟨t, ht, rfl⟩ := mem_map.1 hd
    obtain ⟨m, -, htm⟩ := (hkeys t).1 (mem_filter.1 ht).1
    rw [(memberShare_eq_some hshare).2]
    exact m.names t htm
  rw [computeGroupAssignments]
  split_ifs with hnil
  · exact ⟨∅, rfl, fun m hm => by rw [hnil] at hm; cases hm⟩
  · have hgiven : ∀ e ∈ (assignMembers order protocolName members topicPartitions).entries,
        e.2 = given order protocolName members topicPartitions e.1 :=
      fun e he => ByMember.eq_entriesOf he
    have hencodes : ∀ e ∈ (assignMembers order protocolName members topicPartitions).entries,
        ∃ raw, encodeMemberAssignment e.2 = .ok raw :=
      fun e he => exists_encodeMemberAssignment fun a ha => hnames e.1 a (hgiven e he ▸ ha)
    obtain ⟨out, hout, hlookup⟩ := encodeMembers_ok (AList.nodupKeys _) hencodes
    refine ⟨out, hout, fun m hm => ?_⟩
    obtain ⟨a, ha⟩ := Option.isSome_iff_exists.1
      (AList.lookup_isSome.2 ((hmem _).2 (.inl ⟨m, hm, rfl⟩)))
    have he := AList.mem_lookup_iff.1 ha
    obtain ⟨raw, hencode⟩ := hencodes ⟨m.memberID, a⟩ he
    refine ⟨raw, (hlookup _ _).2 ⟨_, he, rfl, hencode⟩, ?_⟩
    rw [← hgiven ⟨m.memberID, a⟩ he]
    exact hencode

/-! ## What a member holds of each topic -/

/-- A member's total is what it holds of each topic. -/
theorem totalPartitions_memberShare (deals : List (Bytes × List (Bytes × List Int32))) :
    totalPartitions (deals.filterMap (memberShare mid)) =
      (deals.map fun d => (held d.2 mid).length).sum := by
  have hheld : ∀ d : Bytes × List (Bytes × List Int32),
      held d.2 mid = (handsOf d.2 mid).flatten := fun d => flatMap_def
  induction deals with
  | nil => rfl
  | cons d deals ih =>
    rw [map_cons, sum_cons, ← ih, hheld]
    cases hshare : memberShare mid d with
    | none =>
      rw [memberShare] at hshare
      split_ifs at hshare with hnil
      rw [filterMap_cons_none (by rw [memberShare, if_pos hnil]), hnil]
      simp
    | some a =>
      rw [filterMap_cons_some hshare, (memberShare_eq_some hshare).2]
      rfl

/-- The topics of a group whose members subscribe to the same topics. -/
def groupTopics (members : List MemberSubscription) : List Bytes :=
  (members.head?.map (·.topics)).getD []

/-- How often each member comes in the row a topic is dealt to. -/
def seatsEach (protocolName : String) (members : List MemberSubscription) (topic : Bytes) : Nat :=
  if isSticky protocolName then 1 else (groupTopics members).count topic

section Same

variable {members : List MemberSubscription}
  (hsame : ∀ m ∈ members, ∀ m' ∈ members, m.topics.Perm m'.topics)

include hsame

theorem perm_groupTopics (hm : m ∈ members) : m.topics.Perm (groupTopics members) := by
  cases members with
  | nil => cases hm
  | cons m' members => exact hsame m hm m' mem_cons_self

theorem mem_groupTopics : topic ∈ groupTopics members ↔ ∃ m ∈ members, topic ∈ m.topics := by
  constructor
  · intro h
    cases members with
    | nil => cases h
    | cons m members => exact ⟨m, mem_cons_self, h⟩
  · rintro ⟨m, hm, h⟩
    exact (perm_groupTopics hsame hm).mem_iff.1 h

theorem subscribers_eq (topic : Bytes) : subscribers members topic =
      (members.map (·.memberID)).flatMap (List.replicate ((groupTopics members).count topic)) := by
  rw [subscribers, subscriptions, filter_flatMap, map_flatMap, flatMap_map]
  refine flatMap_congr fun m hm => ?_
  rw [← (perm_groupTopics hsame hm).count_eq topic]
  refine eq_replicate_iff.2 ⟨?_, ?_⟩
  · rw [length_map, ← countP_eq_length_filter, countP_map, List.count]
    refine countP_congr fun t _ => ?_
    simp
  · simp only [mem_map, mem_filter]
    rintro mid ⟨_, ⟨⟨t, -, rfl⟩, -⟩, rfl⟩
    rfl

/-- The members in the order of their ids. -/
theorem sortAsc_subscribers (topic : Bytes) : sortAsc (subscribers members topic) =
      (sortAsc (members.map (·.memberID))).flatMap
        (List.replicate ((groupTopics members).count topic)) := by
  have hrow : ((sortAsc (members.map (·.memberID))).flatMap
      (List.replicate ((groupTopics members).count topic))).Pairwise (· ≤ ·) := by
    refine pairwise_flatMap.2 ⟨fun mid _ => ?_, (sortAsc_pairwise _).imp ?_⟩
    · exact pairwise_replicate.2 (.inr le_rfl)
    · intro mid mid' hle a ha a' ha'
      rw [eq_of_mem_replicate ha, eq_of_mem_replicate ha']
      exact hle
  have hperm := sortAsc_perm (subscribers members topic)
  rw [subscribers_eq hsame] at hperm ⊢
  have hids := (sortAsc_perm (members.map MemberSubscription.memberID)).flatMap_right
    (List.replicate ((groupTopics members).count topic))
  exact (hperm.trans hids.symm).eq_of_pairwise (fun _ _ _ _ => le_antisymm)
    (sortAsc_pairwise _) hrow

end Same

/-- A member's place in the order of the ids. -/
def place (members : List MemberSubscription) (mid : Bytes) : Nat :=
  @List.idxOf _ instBEqOfDecidableEq mid (sortAsc (members.map (·.memberID)))

theorem sum_map_filter {α : Type} {p : α → Bool} {f : α → Nat} (h : ∀ x, p x = false → f x = 0)
    (l : List α) : ((l.filter p).map f).sum = (l.map f).sum := by
  induction l with
  | nil => rfl
  | cons x l ih =>
    rw [map_cons, sum_cons, filter_cons]
    cases hx : p x with
    | true => rw [if_pos rfl, map_cons, sum_cons, ih]
    | false => rw [if_neg Bool.false_ne_true, ih, h x hx, Nat.zero_add]

section Totals

variable {protocolName : String}
  (hname : protocolName = "roundrobin" ∨ isSticky protocolName = true)
  {members : List MemberSubscription} (hids : (members.map (·.memberID)).Nodup)
  (hsame : ∀ m ∈ members, ∀ m' ∈ members, m.topics.Perm m'.topics)

include hname hids hsame

theorem length_held_topicHands (htopic : topic ∈ groupTopics members) (parts : List Int32)
    (hm : m ∈ members) :
    (held (topicHands protocolName (sortAsc parts) (sortAsc (subscribers members topic)))
      m.memberID).length =
      blockShare parts.length members.length (seatsEach protocolName members topic)
        (place members m.memberID) := by
  have hperm := sortAsc_perm (members.map (·.memberID))
  have hnodup := hperm.nodup_iff.2 hids
  have hmem : m.memberID ∈ sortAsc (members.map (·.memberID)) :=
    hperm.mem_iff.2 (mem_map_of_mem hm)
  have hlen : (sortAsc (members.map (·.memberID))).length = members.length := by
    rw [hperm.length_eq, length_map]
  have hcount : 0 < (groupTopics members).count topic := count_pos_iff.2 htopic
  rw [topicHands, sortAsc_subscribers hsame, seatsEach]
  rcases hname with rfl | hsticky
  · rw [if_pos rfl, if_neg (by decide), length_held_robin _ hnodup hcount hmem, hlen,
      (sortAsc_perm parts).length_eq, place]
  · have hne : protocolName ≠ "roundrobin" := by
      rintro rfl
      exact absurd hsticky (by decide)
    rw [if_neg hne, if_pos hsticky, if_pos hsticky, ← share_eq_blockShare]
    have hrow : ∀ mid, mid ∈ sortAsc (members.map (·.memberID)) ↔
        mid ∈ (sortAsc (members.map (·.memberID))).flatMap
          (List.replicate ((groupTopics members).count topic)) := by
      intro mid
      simp only [mem_flatMap, mem_replicate]
      refine ⟨fun h => ⟨mid, h, hcount.ne', rfl⟩, ?_⟩
      rintro ⟨_, h, -, heq⟩
      exact heq ▸ h
    have hsorted : (sortAsc (members.map (·.memberID))).Pairwise (· < ·) :=
      ((sortAsc_pairwise _).and hnodup).imp fun h => lt_of_le_of_ne h.1 h.2
    cases hseats : (sortAsc (members.map (·.memberID))).flatMap
        (List.replicate ((groupTopics members).count topic)) with
    | nil =>
      have hin := (hrow m.memberID).1 hmem
      rw [hseats] at hin
      cases hin
    | cons first rest =>
      rw [hseats] at hrow
      have hheld := length_held_balance hrow hsorted (sortAsc (sortAsc parts)) hmem
      rw [hlen, (sortAsc_perm _).length_eq, (sortAsc_perm parts).length_eq] at hheld
      exact hheld

/-- A member's total. -/
theorem totalPartitions_given (order : MapOrder Bytes)
    (topicPartitions : AList fun _ : Bytes => List Int32) (hm : m ∈ members) :
    totalPartitions (given order protocolName members topicPartitions m.memberID) =
      ((groupTopics members).dedup.map fun t => blockShare (partsOf topicPartitions t).length
        members.length (seatsEach protocolName members t) (place members m.memberID)).sum := by
  obtain ⟨topics, hnodup, hkeys, hentries, -⟩ :=
    assignMembers_eq order protocolName members topicPartitions
  have htopics : topics.Perm (groupTopics members).dedup := by
    refine (perm_ext_iff_of_nodup hnodup (nodup_dedup _)).2 fun t => ?_
    rw [hkeys, mem_dedup, mem_groupTopics hsame]
  have hnone : ∀ t, decide (partsOf topicPartitions t ≠ []) = false →
      blockShare (partsOf topicPartitions t).length members.length
        (seatsEach protocolName members t) (place members m.memberID) = 0 := by
    intro t ht
    rw [not_not.1 (of_decide_eq_false ht)]
    simp [blockShare]
  rw [given, hentries, totalPartitions_memberShare, topicDeals, map_map,
    ← (htopics.map _).sum_nat, ← sum_map_filter hnone]
  refine congrArg List.sum (map_congr_left fun t ht => ?_)
  have htopic := (mem_groupTopics hsame).2 ((hkeys t).1 (mem_filter.1 ht).1)
  exact length_held_topicHands hname hids hsame htopic _ hm

end Totals

/-! ## The first and the last member -/

/-- What the first member is ahead of the last, of a topic with `parts` partitions that are dealt
to `members` members with `seats` seats each. -/
def lead (parts members seats : Nat) : Nat :=
  min (parts % (members * seats)) seats - (parts % (members * seats) - (members - 1) * seats)

/-- What the first member is ahead of the last over all topics. -/
def groupLead (protocolName : String) (members : List MemberSubscription)
    (topicPartitions : AList fun _ : Bytes => List Int32) : Nat :=
  ((groupTopics members).dedup.map fun t => lead (partsOf topicPartitions t).length members.length
    (seatsEach protocolName members t)).sum

theorem blockShare_le (h : k ≤ k') :
    blockShare items places c k' ≤ blockShare items places c k := by
  have hle : k * c ≤ k' * c := Nat.mul_le_mul_right c h
  rw [blockShare, blockShare]
  omega

theorem blockShare_first {items places c : Nat} (hc : 0 < c) :
    blockShare items places c 0 = blockShare items places c (places - 1) + lead items places c := by
  rw [blockShare, blockShare, lead, Nat.zero_mul]
  omega

/-- With one seat each, the first member is one ahead unless the partitions can be divided. -/
theorem lead_one (hplaces : 0 < places) :
    lead items places 1 = if places ∣ items then 0 else 1 := by
  have hlt := Nat.mod_lt items hplaces
  rw [lead, Nat.mul_one]
  split_ifs with hdvd
  · omega
  · omega

section EvenTotals

theorem seatsEach_pos (h : topic ∈ groupTopics members) :
    0 < seatsEach protocolName members topic := by
  rw [seatsEach]
  split_ifs
  · exact Nat.one_pos
  · exact count_pos_iff.2 h

theorem sum_blockShare_first (topicPartitions : AList fun _ : Bytes => List Int32) :
    ((groupTopics members).dedup.map fun t => blockShare (partsOf topicPartitions t).length
        members.length (seatsEach protocolName members t) 0).sum =
      ((groupTopics members).dedup.map fun t => blockShare (partsOf topicPartitions t).length
        members.length (seatsEach protocolName members t) (members.length - 1)).sum +
      groupLead protocolName members topicPartitions := by
  rw [groupLead, ← sum_map_add]
  refine congrArg List.sum (map_congr_left fun t ht => ?_)
  exact blockShare_first (seatsEach_pos (mem_dedup.1 ht))

/-- The lead of a group in which every topic is listed once: the number of topics whose partitions
cannot be divided evenly. -/
theorem groupLead_of_nodup (hpos : 0 < members.length) (hnodup : (groupTopics members).Nodup)
    (topicPartitions : AList fun _ : Bytes => List Int32) :
    groupLead protocolName members topicPartitions =
      (groupTopics members).countP fun t =>
        ¬ members.length ∣ (partsOf topicPartitions t).length := by
  have hlead : ∀ t ∈ groupTopics members, lead (partsOf topicPartitions t).length members.length
      (seatsEach protocolName members t) =
      if members.length ∣ (partsOf topicPartitions t).length then 0 else 1 := by
    intro t ht
    rw [seatsEach, count_eq_one_of_mem hnodup ht, ite_self, lead_one hpos]
  rw [groupLead, hnodup.dedup, map_congr_left hlead]
  generalize groupTopics members = topics
  induction topics with
  | nil => rfl
  | cons t topics ih =>
    rw [map_cons, sum_cons, ih, countP_cons]
    split_ifs <;> simp_all [Nat.add_comm]

end EvenTotals

theorem length_sortAsc_ids (members : List MemberSubscription) :
    (sortAsc (members.map (·.memberID))).length = members.length := by
  rw [(sortAsc_perm _).length_eq, length_map]

theorem place_lt (hm : m ∈ members) : place members m.memberID < members.length := by
  rw [← length_sortAsc_ids]
  exact (@idxOf_lt_length_iff _ instBEqOfDecidableEq _ _ _).2
    ((sortAsc_perm _).mem_iff.2 (mem_map_of_mem hm))

theorem exists_place (hids : (members.map (·.memberID)).Nodup) (hk : k < members.length) :
    ∃ m ∈ members, place members m.memberID = k := by
  have hperm := sortAsc_perm (members.map (·.memberID))
  have hk' := hk.trans_eq (length_sortAsc_ids members).symm
  obtain ⟨m, hm, hid⟩ := mem_map.1 (hperm.mem_iff.1 (getElem_mem hk'))
  refine ⟨m, hm, ?_⟩
  rw [hid]
  exact @List.Nodup.idxOf_getElem _ instBEqOfDecidableEq _ _ (hperm.nodup_iff.2 hids) k hk'

/-- The totals of any two members differ by at most one if and only if the first member is at most
one ahead of the last over all topics. -/
theorem evenTotals_iff (order : MapOrder Bytes) {protocolName : String}
    (hname : protocolName = "roundrobin" ∨ isSticky protocolName = true)
    {members : List MemberSubscription} (hids : (members.map (·.memberID)).Nodup)
    (hsame : ∀ m ∈ members, ∀ m' ∈ members, m.topics.Perm m'.topics)
    (topicPartitions : AList fun _ : Bytes => List Int32) :
    EvenTotals order protocolName members topicPartitions ↔
      groupLead protocolName members topicPartitions ≤ 1 := by
  rcases Nat.eq_zero_or_pos members.length with hnil | hpos
  · rw [length_eq_zero_iff] at hnil
    subst hnil
    exact ⟨fun _ => Nat.zero_le 1, fun _ m hm => by cases hm⟩
  obtain ⟨total, htotal⟩ : ∃ total : Nat → Nat, ∀ k, total k = ((groupTopics members).dedup.map
      fun t => blockShare (partsOf topicPartitions t).length members.length
        (seatsEach protocolName members t) k).sum := ⟨_, fun _ => rfl⟩
  have hgiven : ∀ m ∈ members,
      totalPartitions (given order protocolName members topicPartitions m.memberID) =
        total (place members m.memberID) := fun m hm =>
    (totalPartitions_given hname hids hsame order topicPartitions hm).trans (htotal _).symm
  have hmono : ∀ {k k'}, k ≤ k' → total k' ≤ total k := by
    intro k k' hle
    rw [htotal, htotal]
    exact sum_le_sum fun t _ => blockShare_le hle
  have hlead : total 0 = total (members.length - 1) +
      groupLead protocolName members topicPartitions := by
    rw [htotal, htotal]
    exact sum_blockShare_first topicPartitions
  constructor
  · intro h
    obtain ⟨first, hfirst, hzero⟩ := exists_place hids hpos
    obtain ⟨last, hlast, hend⟩ := exists_place hids (Nat.sub_one_lt_of_lt hpos)
    have hle := h first hfirst last hlast
    rw [hgiven first hfirst, hgiven last hlast, hzero, hend] at hle
    omega
  · intro h m hm m' hm'
    rw [hgiven m hm, hgiven m' hm']
    have hle : total (place members m.memberID) ≤ total 0 := hmono (Nat.zero_le _)
    have hle' : total (members.length - 1) ≤ total (place members m'.memberID) :=
      hmono (Nat.le_sub_one_of_lt (place_lt hm'))
    omega

/-- Two members that both subscribe to topics `a` and `b`. -/
def twoTopicMembers : List MemberSubscription :=
  [⟨ascii "m1", [ascii "a", ascii "b"], by decide, by decide⟩,
    ⟨ascii "m2", [ascii "b", ascii "a"], by decide, by decide⟩]

/-- Topics `a` and `b` with these numbers of partitions. -/
def twoTopics (a b : Nat) : AList fun _ : Bytes => List Int32 :=
  ((∅ : AList fun _ : Bytes => List Int32).insert (ascii "a")
    ((List.range a).map Int32.ofNat)).insert (ascii "b") ((List.range b).map Int32.ofNat)

/-- The order in which the keys were added. -/
def addedOrder : MapOrder Bytes := ⟨id, Assoc.perm_id⟩

/-- Four partitions and one can be dealt evenly. -/
theorem evenTotals_fourAndOne : groupLead "sticky" twoTopicMembers (twoTopics 4 1) = 1 ∧
      EvenTotals addedOrder "sticky" twoTopicMembers (twoTopics 4 1) := by
  have hlead : groupLead "sticky" twoTopicMembers (twoTopics 4 1) = 1 := by decide +kernel
  refine ⟨hlead, (evenTotals_iff addedOrder (.inr (by decide)) (by decide) ?_ _).2 hlead.le⟩
  decide

/-- One partition of each topic: whatever the assignor, the first member gets both. -/
theorem totals_oneAndOne : ["roundrobin", "sticky", "cooperative-sticky"].map (fun protocolName =>
      twoTopicMembers.map fun m => totalPartitions
        (given addedOrder protocolName twoTopicMembers (twoTopics 1 1) m.memberID)) =
      [[2, 0], [2, 0], [2, 0]] := by
  decide +kernel

end GoKafka
