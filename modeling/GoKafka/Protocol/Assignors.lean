import GoKafka.Protocol.GroupAssign

/-!
# What the assignors compute

Each of the three assignors deals the partitions of a topic to the members subscribed to it
(`assignTopic_eq`, `topicHands_deals`): every partition goes to one member, and the members reached
are the first ones in the order of their ids, as many as there are partitions. Over all topics, what
a member is assigned is one entry for each topic it is dealt partitions of (`memberShare`), and
`computeGroupAssignments_spec` says that these are the bytes computed for it.
-/

namespace GoKafka

open Assoc Deal List

/-- Appending the hands of a topic to the members' assignments. -/
def dealTopic (topic : Bytes) (hands : List (Bytes × List Int32)) (byMember : ByMember) :
    ByMember :=
  hands.foldl (fun bm h => appendTopicParts bm h.1 topic h.2) byMember

/-- A member's assignments so far. -/
def ByMember.entriesOf (byMember : ByMember) (mid : Bytes) : List TopicPartitionAssignment :=
  (byMember.lookup mid).getD []

/-! ## Each assignor deals -/

theorem assignRangeLoop_eq :
    assignRangeLoop topic per extra i parts members byMember =
      dealTopic topic (chunks per extra i parts members) byMember := by
  induction members generalizing i parts byMember with
  | nil => rfl
  | cons mid members ih =>
    by_cases hzero : share per extra i = 0
    · rw [chunks_cons_of_zero hzero, ← ih]
      exact if_pos hzero
    · rw [chunks_cons_of_pos hzero, dealTopic, foldl_cons, ← dealTopic, ← ih]
      exact if_neg hzero

theorem appendBuckets_eq :
    appendBuckets topic hands byMember =
      dealTopic topic (hands.filter fun g => !g.2.isEmpty) byMember := by
  induction hands generalizing byMember with
  | nil => rfl
  | cons g hands ih =>
    rw [appendBuckets, ih, filter_cons]
    cases hg : g.2 with
    | nil => simp
    | cons p ps => simp [dealTopic, hg]

theorem assignStickyLoop_eq (counts : Bytes → Nat) :
    assignStickyLoop topic first members counts parts byMember =
      dealTopic topic (balance first members counts parts) byMember := by
  induction parts generalizing counts byMember with
  | nil => rfl
  | cons p parts ih =>
    rw [assignStickyLoop, ih]
    rfl

/-- The protocol names of the sticky assignor. -/
def isSticky (protocolName : String) : Bool :=
  protocolName = "sticky" ∨ protocolName = "cooperative-sticky"

/-- The row of seats an assignor deals to: the subscribers, which the sticky assignor counts
once. -/
def row (protocolName : String) (mids : List Bytes) : List Bytes :=
  if isSticky protocolName then mids.dedup else mids

theorem sortAsc_perm {α : Type} [LE α] [DecidableLE α] (l : List α) : (sortAsc l).Perm l :=
  List.perm_insertionSort _ _

theorem sortAsc_ne_nil {α : Type} [LE α] [DecidableLE α] {l : List α} (h : l ≠ []) :
    sortAsc l ≠ [] :=
  fun hnil => h (List.perm_nil.1 (hnil ▸ sortAsc_perm l).symm)

theorem sortAsc_pairwise (l : List Bytes) : (sortAsc l).Pairwise (· ≤ ·) :=
  List.pairwise_insertionSort _ _

/-- Sorting forgets the order. -/
theorem sortAsc_congr {l : List Bytes} (h : l.Perm l') : sortAsc l = sortAsc l' :=
  (((sortAsc_perm l).trans h).trans (sortAsc_perm l').symm).eq_of_pairwise
    (fun _ _ _ _ => le_antisymm) (sortAsc_pairwise l) (sortAsc_pairwise l')

/-- The hands of the sticky assignor. -/
def stickyHands (parts : List Int32) : List Bytes → List (Bytes × List Int32)
  | [] => []
  | first :: rest => balance first rest (fun _ => 0) (sortAsc parts)

/-- The hands in which the assignor of a protocol name deals the partitions of a topic. -/
def topicHands (protocolName : String) (parts : List Int32) (mids : List Bytes) :
    List (Bytes × List Int32) :=
  if protocolName = "roundrobin" then robin parts mids
  else if isSticky protocolName then stickyHands parts mids
  else chunks (parts.length / mids.length) (parts.length % mids.length) 0 parts mids

variable {byMember : ByMember} {mid : Bytes} {topic : Bytes} {members : List MemberSubscription}

theorem assignSticky_cons (hfresh : ∀ mid, ∀ a ∈ byMember.entriesOf mid, a.topic ≠ topic) :
    assignSticky topic parts (first :: rest) byMember =
      dealTopic topic (balance first rest (fun _ => 0) (sortAsc parts)) byMember := by
  have hcounts : (fun mid => if mid ∈ first :: rest then
      stickyTopicCount ((byMember.lookup mid).getD []) topic else 0) = fun _ => 0 := by
    funext mid
    split_ifs
    · have hnone : (byMember.entriesOf mid).find? (·.topic = topic) = none :=
        List.find?_eq_none.2 fun a ha => by simpa using hfresh mid a ha
      rw [ByMember.entriesOf] at hnone
      rw [stickyTopicCount, hnone]
    · rfl
  simp only [assignSticky, hcounts]
  exact assignStickyLoop_eq _

theorem assignTopic_eq (protocolName : String) (parts : List Int32) (hmids : mids ≠ [])
    (hfresh : ∀ mid, ∀ a ∈ byMember.entriesOf mid, a.topic ≠ topic) :
    assignTopic protocolName topic parts mids byMember =
      dealTopic topic (topicHands protocolName parts mids) byMember := by
  rw [assignTopic, topicHands, isSticky]
  by_cases hrobin : protocolName = "roundrobin"
  · rw [if_pos hrobin, if_pos hrobin, assignRoundRobin, if_neg hmids]
    exact appendBuckets_eq
  · rw [if_neg hrobin, if_neg hrobin]
    by_cases hsticky : protocolName = "sticky" ∨ protocolName = "cooperative-sticky"
    · rw [if_pos hsticky, if_pos (decide_eq_true hsticky)]
      obtain ⟨first, rest, rfl⟩ := exists_cons_of_ne_nil hmids
      exact assignSticky_cons hfresh
    · rw [if_neg hsticky, if_neg (by simpa using hsticky), assignRange, if_neg hmids,
        assignRangeLoop_eq]

/-- The hands deal the partitions, and to subscribers that are all different they deal them
evenly. -/
theorem topicHands_deals (protocolName : String) (parts : List Int32) (hmids : mids ≠ [])
    (hsorted : mids.Pairwise (· ≤ ·)) :
    Dealt parts (row protocolName mids) (topicHands protocolName parts mids) ∧
      (mids.Nodup → Evenly mids (topicHands protocolName parts mids)) := by
  rw [topicHands, row]
  by_cases hrobin : protocolName = "roundrobin"
  · rw [if_pos hrobin, hrobin]
    exact ⟨dealt_robin hmids, even_robin⟩
  · rw [if_neg hrobin]
    by_cases hsticky : isSticky protocolName = true
    · rw [if_pos hsticky, if_pos hsticky]
      obtain ⟨first, rest, rfl⟩ := exists_cons_of_ne_nil hmids
      have hrow {row : List Bytes} (hsub : row.Sublist (first :: rest)) (hnodup : row.Nodup) :
          row.Pairwise (· < ·) :=
        ((hsorted.sublist hsub).and hnodup).imp fun h => lt_of_le_of_ne h.1 h.2
      exact ⟨(dealt_balance (fun s => mem_dedup) (hrow (dedup_sublist _) (nodup_dedup _))
        (sortAsc parts)).of_perm (sortAsc_perm parts),
        fun hnodup => even_balance (fun _ => Iff.rfl) (hrow (.refl _) hnodup) (sortAsc parts)⟩
    · rw [if_neg hsticky, if_neg hsticky]
      exact ⟨dealt_chunks hmids, even_chunks⟩

/-! ## A member's assignments -/

theorem entriesOf_appendTopicParts (byMember : ByMember) (mid topic : Bytes) (parts : List Int32)
    (mid' : Bytes) :
    (appendTopicParts byMember mid topic parts).entriesOf mid' =
      if mid = mid' then addTopicParts topic parts (byMember.entriesOf mid')
      else byMember.entriesOf mid' := by
  rw [ByMember.entriesOf, appendTopicParts]
  split_ifs with h
  · subst h
    rw [AList.lookup_insert]
    rfl
  · rw [AList.lookup_insert_ne (Ne.symm h)]
    rfl

/-- The map's entries are the members' assignments. -/
theorem ByMember.eq_entriesOf {byMember : ByMember}
    {e : (_ : Bytes) × List TopicPartitionAssignment} (h : e ∈ byMember.entries) :
    e.2 = byMember.entriesOf e.1 := by
  rw [ByMember.entriesOf, AList.mem_lookup_iff.2 h]
  rfl

/-- The hands of one member. -/
def handsOf (hands : List (Bytes × List Int32)) (mid : Bytes) : List (List Int32) :=
  (hands.filter (·.1 = mid)).map (·.2)

theorem mem_handsOf : parts ∈ handsOf hands mid ↔ (mid, parts) ∈ hands := by
  simp [handsOf]

theorem length_handsOf_flatten (hands : List (Bytes × List Int32)) (mid : Bytes) :
    (handsOf hands mid).flatten.length ≤ (hands.flatMap (·.2)).length := by
  exact (filter_sublist.flatMap fun g : Bytes × List Int32 => g.2).length_le

/-- A member's entry for the topic of a deal, if it is dealt partitions. -/
def memberShare (mid : Bytes) (deal : Bytes × List (Bytes × List Int32)) :
    Option TopicPartitionAssignment :=
  if handsOf deal.2 mid = [] then none
  else some { topic := deal.1, partitions := (handsOf deal.2 mid).flatten }

theorem memberShare_eq_some (h : memberShare mid deal = some a) :
    handsOf deal.2 mid ≠ [] ∧
      a = { topic := deal.1, partitions := (handsOf deal.2 mid).flatten } := by
  rw [memberShare] at h
  split_ifs at h with hnil
  exact ⟨hnil, (Option.some.inj h).symm⟩

/-- A member has its topics in the order of the deals. -/
theorem memberShare_topics (deals : List (Bytes × List (Bytes × List Int32))) (mid : Bytes) :
    ((deals.filterMap (memberShare mid)).map (·.topic)).Sublist (deals.map (·.1)) := by
  induction deals with
  | nil => exact List.Sublist.refl _
  | cons d deals ih =>
    rw [filterMap_cons]
    cases hshare : memberShare mid d with
    | none => exact ih.cons d.1
    | some a =>
      have ⟨_, heq⟩ := memberShare_eq_some hshare
      rw [heq]
      exact ih.cons_cons d.1

/-- The entries of other topics are passed over. -/
theorem addTopicParts_append (parts : List Int32) (rest : List TopicPartitionAssignment)
    (h : ∀ a ∈ assignments, a.topic ≠ topic) :
    addTopicParts topic parts (assignments ++ rest) =
      assignments ++ addTopicParts topic parts rest := by
  induction assignments with
  | nil => rfl
  | cons a assignments ih =>
    rw [cons_append, addTopicParts, if_neg (h a mem_cons_self),
      ih fun b hb => h b (mem_cons_of_mem _ hb), cons_append]

/-- Dealing more of a topic that a member has as its last entry. -/
theorem entriesOf_dealTopic_last (h : ∀ a ∈ assignments, a.topic ≠ topic)
    (hlast : byMember.entriesOf mid = assignments ++ [{ topic := topic, partitions := parts }]) :
    (dealTopic topic hands byMember).entriesOf mid =
      assignments ++ [{ topic := topic, partitions := parts ++ (handsOf hands mid).flatten }] := by
  induction hands generalizing byMember parts with
  | nil => simpa [dealTopic, handsOf] using hlast
  | cons g hands ih =>
    rw [dealTopic, foldl_cons, ← dealTopic]
    have hentry := entriesOf_appendTopicParts byMember g.1 topic g.2 mid
    by_cases hg : g.1 = mid
    · rw [if_pos hg, hlast, addTopicParts_append _ _ h, addTopicParts, if_pos rfl] at hentry
      rw [ih hentry]
      simp [handsOf, hg]
    · rw [if_neg hg, hlast] at hentry
      rw [ih hentry]
      simp [handsOf, hg]

/-- Dealing a new topic adds a member's share of it. -/
theorem entriesOf_dealTopic (hands : List (Bytes × List Int32))
    (h : ∀ a ∈ byMember.entriesOf mid, a.topic ≠ topic) :
    (dealTopic topic hands byMember).entriesOf mid =
      byMember.entriesOf mid ++ (memberShare mid (topic, hands)).toList := by
  induction hands generalizing byMember with
  | nil => simp [dealTopic, memberShare, handsOf]
  | cons g hands ih =>
    rw [dealTopic, foldl_cons, ← dealTopic]
    have hentry := entriesOf_appendTopicParts byMember g.1 topic g.2 mid
    by_cases hg : g.1 = mid
    · rw [if_pos hg, ← append_nil (byMember.entriesOf mid), addTopicParts_append _ _ h] at hentry
      rw [entriesOf_dealTopic_last h hentry]
      simp [memberShare, handsOf, hg]
    · rw [if_neg hg] at hentry
      have hhands : handsOf (g :: hands) mid = handsOf hands mid := by simp [handsOf, hg]
      rw [ih (by rwa [hentry]), hentry, memberShare, memberShare, hhands]

theorem mem_dealTopic :
    mid ∈ dealTopic topic hands byMember ↔ mid ∈ byMember ∨ ∃ g ∈ hands, g.1 = mid := by
  induction hands generalizing byMember with
  | nil => simp [dealTopic]
  | cons g hands ih =>
    rw [dealTopic, foldl_cons, ← dealTopic, ih, appendTopicParts, AList.mem_insert,
      exists_mem_cons_iff, or_assoc, or_left_comm, @eq_comm _ mid]

/-! ## All topics -/

section Topics

variable {protocolName : String} {topicMembers : AList fun _ : Bytes => List (Bytes × Bytes)}
  {topicPartitions : AList fun _ : Bytes => List Int32}

/-- The members subscribed to a topic, with the map of `ComputeGroupAssignments`. -/
def midsOf (topicMembers : AList fun _ : Bytes => List (Bytes × Bytes)) (topic : Bytes) :
    List Bytes :=
  ((topicMembers.lookup topic).getD []).map (·.2)

/-- The partitions of a topic, with the map of `ComputeGroupAssignments`. -/
def partsOf (topicPartitions : AList fun _ : Bytes => List Int32) (topic : Bytes) : List Int32 :=
  (topicPartitions.lookup topic).getD []

/-- The deals of the topics that have partitions, to the members that each topic has. -/
def topicDeals (protocolName : String) (mids : Bytes → List Bytes)
    (topicPartitions : AList fun _ : Bytes => List Int32) (topics : List Bytes) :
    List (Bytes × List (Bytes × List Int32)) :=
  (topics.filter (partsOf topicPartitions · ≠ [])).map fun t =>
    (t, topicHands protocolName (sortAsc (partsOf topicPartitions t)) (sortAsc (mids t)))

/-- The loop over the topics deals the topics that have partitions. -/
theorem assignTopics_deals {topics : List Bytes} (hnodup : topics.Nodup)
    (hmids : ∀ t ∈ topics, midsOf topicMembers t ≠ [])
    (hfresh : ∀ mid, ∀ a ∈ byMember.entriesOf mid, a.topic ∉ topics) :
    (∀ mid, (assignTopics protocolName topicMembers topicPartitions topics byMember).entriesOf mid =
      byMember.entriesOf mid ++
        (topicDeals protocolName (midsOf topicMembers) topicPartitions topics).filterMap
          (memberShare mid)) ∧
    ∀ mid, mid ∈ assignTopics protocolName topicMembers topicPartitions topics byMember ↔
      mid ∈ byMember ∨ ∃ d ∈ topicDeals protocolName (midsOf topicMembers) topicPartitions topics,
        ∃ g ∈ d.2, g.1 = mid := by
  induction topics generalizing byMember with
  | nil => simp [assignTopics, topicDeals]
  | cons topic topics ih =>
    have ⟨hnot, hnodup⟩ := nodup_cons.1 hnodup
    have hmids' := fun t ht => hmids t (mem_cons_of_mem _ ht)
    have hfreshTopic : ∀ mid, ∀ a ∈ byMember.entriesOf mid, a.topic ≠ topic := fun mid a ha heq =>
      hfresh mid a ha (heq ▸ mem_cons_self)
    have hfresh' : ∀ mid, ∀ a ∈ byMember.entriesOf mid, a.topic ∉ topics := fun mid a ha hmem =>
      hfresh mid a ha (mem_cons_of_mem _ hmem)
    have hround :
        assignTopics protocolName topicMembers topicPartitions (topic :: topics) byMember =
        assignTopics protocolName topicMembers topicPartitions topics
          (if partsOf topicPartitions topic = [] then byMember
            else assignTopic protocolName topic (sortAsc (partsOf topicPartitions topic))
              (sortAsc (midsOf topicMembers topic)) byMember) := rfl
    by_cases hparts : partsOf topicPartitions topic = []
    · rw [hround, if_pos hparts, topicDeals, filter_cons_of_neg (by simpa using hparts)]
      exact ih hnodup hmids' hfresh'
    · have hdeal := assignTopic_eq protocolName (sortAsc (partsOf topicPartitions topic))
        (sortAsc_ne_nil (hmids topic mem_cons_self)) hfreshTopic
      rw [hround, if_neg hparts, hdeal, topicDeals, filter_cons_of_pos (by simpa using hparts),
        map_cons, ← topicDeals]
      generalize topicHands protocolName (sortAsc (partsOf topicPartitions topic))
        (sortAsc (midsOf topicMembers topic)) = hands
      have hstep := fun mid => entriesOf_dealTopic hands (hfreshTopic mid)
      have hfreshStep : ∀ mid, ∀ a ∈ (dealTopic topic hands byMember).entriesOf mid,
          a.topic ∉ topics := by
        intro mid a ha
        rw [hstep mid] at ha
        rcases mem_append.1 ha with ha | ha
        · exact hfresh' mid a ha
        · have ⟨_, hshare⟩ := memberShare_eq_some (Option.mem_toList.1 ha)
          rw [hshare]
          exact hnot
      have ⟨hentries, hmem⟩ := ih hnodup hmids' hfreshStep
      refine ⟨fun mid => ?_, fun mid => ?_⟩
      · rw [hentries, hstep, append_assoc, filterMap_cons]
        cases memberShare mid (topic, hands) <;> rfl
      · rw [hmem, mem_dealTopic, exists_mem_cons_iff, or_assoc]

end Topics

/-! ## The whole group -/

/-- The members subscribed to a topic, once for each time it is in their subscription. -/
def subscribers (members : List MemberSubscription) (topic : Bytes) : List Bytes :=
  ((subscriptions members).filter (·.1 = topic)).map (·.2)

theorem mem_subscribers : mid ∈ subscribers members topic ↔
      ∃ m ∈ members, topic ∈ m.topics ∧ m.memberID = mid := by
  simp [subscribers, subscriptions]

theorem subscribers_perm (h : members.Perm members') :
    (subscribers members topic).Perm (subscribers members' topic) :=
  ((h.flatMap_right _).filter _).map _

theorem mem_row : mid ∈ row protocolName mids ↔ mid ∈ mids := by
  rw [row]
  split_ifs
  · exact mem_dedup
  · rfl

theorem row_perm (h : mids.Perm mids') : (row protocolName mids).Perm (row protocolName mids') := by
  rw [row, row]
  split_ifs
  · exact h.dedup
  · exact h

theorem row_sortAsc_pairwise : (row protocolName (sortAsc mids)).Pairwise (· ≤ ·) := by
  rw [row]
  split_ifs
  · exact (sortAsc_pairwise mids).sublist (dedup_sublist _)
  · exact sortAsc_pairwise mids

/-- The number of subscribers of a topic with smaller ids. -/
def seatsBefore (protocolName : String) (members : List MemberSubscription) (topic mid : Bytes) :
    Nat :=
  (row protocolName (subscribers members topic)).countP (· < mid)

/-- The topics' partitions as the metadata has them: each partition of a topic once, and no more
than a length field can say. -/
structure TopicPartitions where
  map : AList fun _ : Bytes => List Int32
  nodup : ∀ topic, (partsOf map topic).Nodup
  count : ∀ topic, (partsOf map topic).length < 2 ^ 31

/-- The partitions of a topic; none if the topic is not known. -/
def TopicPartitions.parts (tp : TopicPartitions) (topic : Bytes) : List Int32 :=
  partsOf tp.map topic

/-- Deals of the group: every topic with subscribers and partitions is dealt once, to the members
subscribed to it, and reaches a member when fewer subscribers come before it than there are
partitions. -/
structure GroupDeals (protocolName : String) (members : List MemberSubscription)
    (tp : TopicPartitions) (deals : List (Bytes × List (Bytes × List Int32))) : Prop where
  nodup : (deals.map (·.1)).Nodup
  complete : ∀ m ∈ members, ∀ t ∈ m.topics, tp.parts t ≠ [] → ∃ d ∈ deals, d.1 = t
  dealt : ∀ d ∈ deals, ∃ seats, Dealt (tp.parts d.1) seats d.2 ∧
    (∀ mid, mid ∈ seats ↔ mid ∈ subscribers members d.1) ∧
    ∀ mid ∈ seats, (∃ g ∈ d.2, g.1 = mid) ↔
      seatsBefore protocolName members d.1 mid < (tp.parts d.1).length

section Group

variable {protocolName : String} {members : List MemberSubscription} {tp : TopicPartitions}
  {deals : List (Bytes × List (Bytes × List Int32))}

theorem mem_seats : mid ∈ row protocolName (sortAsc (subscribers members topic)) ↔
      mid ∈ subscribers members topic := by
  rw [mem_row, (sortAsc_perm _).mem_iff]

/-- A member's place in the row is the number of subscribers with smaller ids. -/
theorem idxOf_seats (hmid : mid ∈ row protocolName (sortAsc (subscribers members topic))) :
    @List.idxOf _ instBEqOfDecidableEq mid
        (row protocolName (sortAsc (subscribers members topic))) =
      seatsBefore protocolName members topic mid := by
  rw [idxOf_eq_countP row_sortAsc_pairwise hmid]
  exact (row_perm (sortAsc_perm _)).countP_eq _

variable {d : Bytes × List (Bytes × List Int32)}

variable (h : GroupDeals protocolName members tp deals)
include h

/-- Only subscribers are dealt partitions. -/
theorem GroupDeals.subscribed (hd : d ∈ deals)
    (hhands : handsOf d.2 mid ≠ []) : ∃ m ∈ members, d.1 ∈ m.topics ∧ m.memberID = mid := by
  have ⟨seats, hdealt, hseats, _⟩ := h.dealt d hd
  have ⟨parts, hparts⟩ := exists_mem_of_ne_nil _ hhands
  exact mem_subscribers.1 ((hseats mid).1 (hdealt.seat _ (mem_handsOf.1 hparts)))

/-- The members a topic reaches. -/
theorem GroupDeals.reaches (hd : d ∈ deals) (hm : m ∈ members) (htopic : d.1 ∈ m.topics) :
    handsOf d.2 m.memberID ≠ [] ↔
      seatsBefore protocolName members d.1 m.memberID < (tp.parts d.1).length := by
  have ⟨seats, _, hseats, hreaches⟩ := h.dealt d hd
  have hseat := (hseats m.memberID).2 (mem_subscribers.2 ⟨m, hm, htopic, rfl⟩)
  rw [← hreaches _ hseat]
  simp [handsOf]

/-- A member's assignment: its topics are among those it subscribes to. -/
theorem GroupDeals.fits (hids : (members.map (·.memberID)).Nodup) (mid : Bytes) :
    Fits (deals.filterMap (memberShare mid)) := by
  have hmem : ∀ a ∈ deals.filterMap (memberShare mid), ∃ d ∈ deals, handsOf d.2 mid ≠ [] ∧
      a = { topic := d.1, partitions := (handsOf d.2 mid).flatten } := by
    intro a ha
    have ⟨d, hd, hshare⟩ := mem_filterMap.1 ha
    exact ⟨d, hd, memberShare_eq_some hshare⟩
  have hparts : ∀ a ∈ deals.filterMap (memberShare mid), a.partitions.length < 2 ^ 31 := by
    intro a ha
    have ⟨d, hd, _, heq⟩ := hmem a ha
    have ⟨seats, hdealt, _⟩ := h.dealt d hd
    have hle := length_handsOf_flatten d.2 mid
    rw [hdealt.perm.length_eq] at hle
    rw [heq]
    exact hle.trans_lt (tp.count d.1)
  by_cases hmember : ∃ m ∈ members, m.memberID = mid
  · have ⟨m, hm, hid⟩ := hmember
    have htopics : ∀ a ∈ deals.filterMap (memberShare mid), a.topic ∈ m.topics := by
      intro a ha
      have ⟨d, hd, hhands, heq⟩ := hmem a ha
      have ⟨m', hm', htopic, hid'⟩ := h.subscribed hd hhands
      obtain rfl := inj_on_of_nodup_map hids hm' hm (hid'.trans hid.symm)
      rw [heq]
      exact htopic
    refine ⟨?_, fun a ha => m.names _ (htopics a ha), hparts⟩
    have hnodup := h.nodup.sublist (memberShare_topics deals mid)
    have hsub : (deals.filterMap (memberShare mid)).map (·.topic) ⊆ m.topics := by
      intro t ht
      have ⟨a, ha, heq⟩ := mem_map.1 ht
      exact heq ▸ htopics a ha
    have hle := (subperm_of_subset hnodup hsub).length_le
    rw [length_map] at hle
    exact hle.trans_lt m.count
  · have hnil : deals.filterMap (memberShare mid) = [] := by
      refine eq_nil_iff_forall_not_mem.2 fun a ha => ?_
      have ⟨d, hd, hhands, _⟩ := hmem a ha
      have ⟨m, hm, _, hid⟩ := h.subscribed hd hhands
      exact hmember ⟨m, hm, hid⟩
    rw [hnil]
    exact ⟨by decide, nofun, nofun⟩

omit h

theorem encodeMembers_ok (hnodup : entries.NodupKeys)
    (h : ∀ e ∈ entries, ∃ raw, encodeMemberAssignment e.2 = .ok raw) :
    ∃ out, encodeMembers entries = .ok out ∧ ∀ mid raw, out.lookup mid = some raw ↔
      ∃ e ∈ entries, e.1 = mid ∧ encodeMemberAssignment e.2 = .ok raw := by
  induction entries with
  | nil => exact ⟨∅, rfl, by simp⟩
  | cons e entries ih =>
    obtain ⟨hnot, hnodup⟩ := nodupKeys_cons.1 hnodup
    obtain ⟨⟨raw, hraw⟩, h⟩ := forall_mem_cons.1 h
    obtain ⟨out, hout, hlookup⟩ := ih hnodup h
    refine ⟨out.insert e.1 raw, bind_eq_ok.2 ⟨raw, hraw, bind_eq_ok.2 ⟨out, hout, rfl⟩⟩,
      fun mid raw' => ?_⟩
    rw [exists_mem_cons_iff]
    by_cases hmid : e.1 = mid
    · have hone : ∀ e' ∈ entries, e'.1 ≠ mid := fun e' he' heq =>
        hnot (hmid.trans heq.symm ▸ mem_map_of_mem he')
      rw [← hmid, AList.lookup_insert, hmid, hraw, or_iff_left]
      · simp
      · exact fun ⟨e', he', heq, _⟩ => hone e' he' heq
    · rw [AList.lookup_insert_ne (Ne.symm hmid), hlookup, or_iff_right fun h => hmid h.1]

/-- The hands of a topic, from all the members subscribed to it. -/
def groupHands (protocolName : String) (members : List MemberSubscription) (tp : TopicPartitions)
    (topic : Bytes) : List (Bytes × List Int32) :=
  topicHands protocolName (sortAsc (tp.parts topic)) (sortAsc (subscribers members topic))

theorem groupHands_deals (tp : TopicPartitions) (h : subscribers members topic ≠ []) :
    Dealt (tp.parts topic) (row protocolName (sortAsc (subscribers members topic)))
        (groupHands protocolName members tp topic) ∧
      ((subscribers members topic).Nodup →
        Evenly (sortAsc (subscribers members topic))
          (groupHands protocolName members tp topic)) := by
  have ⟨hdealt, heven⟩ := topicHands_deals protocolName (sortAsc (tp.parts topic))
    (sortAsc_ne_nil h) (sortAsc_pairwise _)
  exact ⟨hdealt.of_perm (sortAsc_perm _), fun hnodup =>
    heven ((sortAsc_perm _).nodup_iff.2 hnodup)⟩

theorem assignMembers_eq (order : MapOrder Bytes) (protocolName : String)
    (members : List MemberSubscription) (topicPartitions : AList fun _ : Bytes => List Int32) :
    ∃ topics : List Bytes, topics.Nodup ∧ (∀ t, t ∈ topics ↔ ∃ m ∈ members, t ∈ m.topics) ∧
      (∀ mid, (assignMembers order protocolName members topicPartitions).entriesOf mid =
        (topicDeals protocolName (subscribers members) topicPartitions topics).filterMap
          (memberShare mid)) ∧
      ∀ mid, mid ∈ assignMembers order protocolName members topicPartitions ↔
        (∃ m ∈ members, m.memberID = mid) ∨
          ∃ d ∈ topicDeals protocolName (subscribers members) topicPartitions topics,
            ∃ g ∈ d.2, g.1 = mid := by
  simp only [assignMembers]
  generalize hsorted : members.insertionSort (·.memberID ≤ ·.memberID) = sorted
  have hperm : sorted.Perm members := hsorted ▸ perm_insertionSort _ _
  generalize hgroup : group (·.1) (subscriptions sorted) = topicMembers
  have hmids (t : Bytes) : midsOf topicMembers t = subscribers sorted t := by
    rw [← hgroup, midsOf, getD_lookup_group, subscribers]
  have hkeys (t : Bytes) : t ∈ order.keys topicMembers ↔ ∃ m ∈ members, t ∈ m.topics := by
    rw [order.mem_keys, AList.mem_keys, ← hgroup, mem_keys_group]
    simp [subscriptions, hperm.mem_iff]
  have hstart (mid : Bytes) :
      ByMember.entriesOf (index (·.memberID) (fun _ => []) sorted) mid = [] := by
    rw [ByMember.entriesOf, lookup_index]
    cases (sorted.filter (·.memberID = mid)).getLast? <;> rfl
  have hsubscribed : ∀ t ∈ order.keys topicMembers, midsOf topicMembers t ≠ [] := by
    intro t ht
    have ⟨m, hm, htm⟩ := (hkeys t).1 ht
    rw [hmids]
    exact ne_nil_of_mem (mem_subscribers.2 ⟨m, hperm.mem_iff.2 hm, htm, rfl⟩)
  have ⟨hentries, hmem⟩ := @assignTopics_deals (index (·.memberID) (fun _ => []) sorted)
    protocolName topicMembers topicPartitions _ (order.nodup_keys _) hsubscribed (by simp [hstart])
  have hdeals (topics : List Bytes) :
      topicDeals protocolName (midsOf topicMembers) topicPartitions topics =
        topicDeals protocolName (subscribers members) topicPartitions topics := by
    refine map_congr_left fun t _ => ?_
    rw [hmids, sortAsc_congr (subscribers_perm hperm)]
  rw [hdeals] at hentries hmem
  refine ⟨_, order.nodup_keys _, hkeys, fun mid => ?_, fun mid => ?_⟩
  · rw [hentries, hstart, nil_append]
  · rw [hmem]
    rw [← AList.lookup_isSome, ← Option.ne_none_iff_isSome, ne_eq, lookup_index_eq_none, not_not,
      mem_map]
    simp [hperm.mem_iff]

/-- The members' assignments are their shares of deals of the group. -/
theorem assignMembers_deals (order : MapOrder Bytes) (protocolName : String)
    (members : List MemberSubscription) (tp : TopicPartitions) :
    ∃ deals, GroupDeals protocolName members tp deals ∧
      (∀ d ∈ deals, d.2 = groupHands protocolName members tp d.1) ∧
      (∀ mid, (assignMembers order protocolName members tp.map).entriesOf mid =
        deals.filterMap (memberShare mid)) ∧
      ∀ mid, mid ∈ assignMembers order protocolName members tp.map ↔
        ∃ m ∈ members, m.memberID = mid := by
  obtain ⟨topics, hnodup, hkeys, hentries, hmem⟩ :=
    assignMembers_eq order protocolName members tp.map
  generalize hdeals : topicDeals protocolName (subscribers members) tp.map topics = deals
    at hentries hmem
  have htopics : deals.map (·.1) = topics.filter (partsOf tp.map · ≠ []) := by
    rw [← hdeals, topicDeals, map_map]
    exact map_id _
  have hhands : ∀ d ∈ deals, d.2 = groupHands protocolName members tp d.1 := by
    intro d hd
    rw [← hdeals] at hd
    obtain ⟨t, -, rfl⟩ := mem_map.1 hd
    rfl
  have hdealt : ∀ d ∈ deals, ∃ seats, Dealt (tp.parts d.1) seats d.2 ∧
      (∀ mid, mid ∈ seats ↔ mid ∈ subscribers members d.1) ∧
      ∀ mid ∈ seats, (∃ g ∈ d.2, g.1 = mid) ↔
        seatsBefore protocolName members d.1 mid < (tp.parts d.1).length := by
    intro d hd
    have htopic : d.1 ∈ deals.map (·.1) := mem_map_of_mem hd
    rw [htopics] at htopic
    have ⟨m, hm, htm⟩ := (hkeys d.1).1 (mem_filter.1 htopic).1
    have hdealt := @groupHands_deals d.1 protocolName members tp
      (ne_nil_of_mem (mem_subscribers.2 ⟨m, hm, htm, rfl⟩))
    rw [← hhands d hd] at hdealt
    refine ⟨_, hdealt.1, fun mid => mem_seats, fun mid hmid => ?_⟩
    rw [hdealt.1.reaches mid hmid, idxOf_seats hmid]
  refine ⟨deals, ⟨?_, ?_, hdealt⟩, hhands, hentries, fun mid => ?_⟩
  · rw [htopics]
    exact hnodup.filter _
  · intro m hm t ht hparts
    have hmem : t ∈ deals.map (·.1) := by
      rw [htopics]
      exact mem_filter.2 ⟨(hkeys t).2 ⟨m, hm, ht⟩, decide_eq_true hparts⟩
    exact mem_map.1 hmem
  · rw [hmem]
    refine or_iff_left_of_imp ?_
    rintro ⟨d, hd, g, hg, rfl⟩
    obtain ⟨seats, hdealt, hseats, -⟩ := hdealt d hd
    obtain ⟨m, hm, -, hid⟩ := mem_subscribers.1 ((hseats g.1).1 (hdealt.seat g hg))
    exact ⟨m, hm, hid⟩

/-- What the leader computes: deals of the group, with the bytes of each member's assignment. -/
theorem computeGroupAssignments_spec (order : MapOrder Bytes) (protocolName : String)
    (hids : (members.map (·.memberID)).Nodup) (tp : TopicPartitions) :
    ∃ deals, GroupDeals protocolName members tp deals ∧
      (∀ d ∈ deals, d.2 = groupHands protocolName members tp d.1) ∧
      ∃ out, computeGroupAssignments order protocolName members tp.map = .ok out ∧
        (∀ mid, mid ∈ out ↔ ∃ m ∈ members, m.memberID = mid) ∧
        ∀ mid raw, out.lookup mid = some raw →
          encodeMemberAssignment (deals.filterMap (memberShare mid)) = .ok raw ∧
          parseMemberAssignment raw = .ok (deals.filterMap (memberShare mid)) := by
  by_cases hmembers : members = []
  · subst hmembers
    exact ⟨[], ⟨nodup_nil, by simp, by simp⟩, by simp, ∅, rfl, by simp,
      fun mid raw h => by cases h⟩
  · rw [computeGroupAssignments, if_neg hmembers]
    have ⟨deals, hdeals, hhands, hentries, hmem⟩ :=
      assignMembers_deals order protocolName members tp
    generalize assignMembers order protocolName members tp.map = byMember at hentries hmem ⊢
    have hentry : ∀ e ∈ byMember.entries, e.2 = deals.filterMap (memberShare e.1) :=
      fun e he => (ByMember.eq_entriesOf he).trans (hentries e.1)
    have hparses : ∀ e ∈ byMember.entries, ∃ raw, encodeMemberAssignment e.2 = .ok raw ∧
        parseMemberAssignment raw = .ok e.2 := fun e he =>
      parseMemberAssignment_encode (hentry e he ▸ hdeals.fits hids e.1)
    have ⟨out, hout, hraw⟩ := encodeMembers_ok byMember.nodupKeys fun e he =>
      (hparses e he).imp fun _ => And.left
    refine ⟨deals, hdeals, hhands, out, hout, fun mid => ?_, fun mid raw hlookup => ?_⟩
    · rw [← hmem, ← AList.lookup_isSome, Option.isSome_iff_exists, AList.mem_keys]
      simp only [hraw]
      constructor
      · rintro ⟨raw, e, he, rfl, -⟩
        exact mem_map_of_mem he
      · intro hin
        obtain ⟨e, he, rfl⟩ := mem_map.1 hin
        exact (hparses e he).imp fun raw hraw => ⟨e, he, rfl, hraw.1⟩
    · obtain ⟨e, he, rfl, hencode⟩ := (hraw mid raw).1 hlookup
      obtain ⟨raw', hraw', hparse⟩ := hparses e he
      cases hencode.symm.trans hraw'
      rw [← hentry e he]
      exact ⟨hencode, hparse⟩

end Group

/-! ## What the leader reads -/

/-- The loop over the topics reads the partitions of these topics only. -/
theorem assignTopics_congr
    (h : ∀ t ∈ topics, partsOf topicPartitions t = partsOf topicPartitions' t) :
    assignTopics protocolName topicMembers topicPartitions topics byMember =
      assignTopics protocolName topicMembers topicPartitions' topics byMember := by
  induction topics generalizing byMember with
  | nil => rfl
  | cons topic topics ih =>
    have htopic := h topic mem_cons_self
    rw [partsOf, partsOf] at htopic
    rw [assignTopics, assignTopics, htopic, ih fun t ht => h t (mem_cons_of_mem _ ht)]

/-- The leader reads the partitions of subscribed topics only. -/
theorem computeGroupAssignments_congr
    (h : ∀ m ∈ members, ∀ t ∈ m.topics, partsOf topicPartitions t = partsOf topicPartitions' t) :
    computeGroupAssignments order protocolName members topicPartitions =
      computeGroupAssignments order protocolName members topicPartitions' := by
  have hassign : assignMembers order protocolName members topicPartitions =
      assignMembers order protocolName members topicPartitions' := by
    refine assignTopics_congr (fun t ht => ?_)
    rw [order.mem_keys, AList.mem_keys, mem_keys_group] at ht
    obtain ⟨s, hs, rfl⟩ := mem_map.1 ht
    obtain ⟨m, hm, hs⟩ := mem_flatMap.1 hs
    obtain ⟨t, htm, rfl⟩ := mem_map.1 hs
    exact h m ((mem_insertionSort _).1 hm) t htm
  rw [computeGroupAssignments, computeGroupAssignments, hassign]

end GoKafka
