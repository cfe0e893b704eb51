import GoKafka.Consumer.Group
import GoKafka.Consumer.Shares
import GoKafka.Kfake.Groups

/-!
# Joining a group of the mock broker

`kfake/groups.go`: the mock broker admits one member to a group (`handleJoinGroup`), which leads the
group and assigns its partitions, and hands the leader's assignment back (`handleSyncGroup`).
`LoneMember.join` is the whole conversation, through the codecs of both sides and the assignor
between them.

Each message is read back by the other side (`handleJoinGroup_encode`,
`decodeJoinGroupResponse_write` and so on) as long as its sizes are what a compact length can hold
(`LoneMember.Fits`), and then the member ends with every partition of its topics once
(`join_exact`).
-/

namespace GoKafka.Kfake

open Assoc Reading List

/-! ## The program -/

/-- The loop over the protocols of a JoinGroup request. -/
def readProtocol : Read (Bytes × NilBytes) := do
  let name ← readCompactString
  let metadata ← readCompactBytes
  skipTags
  return (name, metadata)

/-- The parsing of `handleJoinGroup`: the group, the member's id and its protocols. -/
def readJoinGroup : Read (Bytes × Bytes × List (Bytes × NilBytes)) := do
  let group ← readCompactString
  let _sessionTimeoutMs ← readInt32
  let _rebalanceTimeoutMs ← readInt32
  let memberID ← readCompactString
  let _groupInstanceID ← readCompactNullableString
  let _protocolType ← readCompactString
  let nProto ← readUvarint
  let protocols ← readN readProtocol (nProto - 1)
  return (group, memberID, protocols)

/-- The answer of `handleJoinGroup`, with the member as leader. -/
def writeJoinGroupResponse (gen : Int32) (assignor memberID : Bytes) (metadata : NilBytes) :
    Bytes :=
  writeInt32 0
    ++ (writeInt16 0
    ++ (writeInt32 gen
    ++ (writeCompactString assignor
    ++ (writeCompactString memberID -- leader
    ++ (writeCompactString memberID
    ++ (writeCompactArrayLen 1
    ++ ((writeCompactString memberID ++ (writeCompactNullableString none
      ++ (writeCompactBytes metadata ++ writeEmptyTagSection)))
    ++ writeEmptyTagSection)))))))

/-- The id of a member: the broker names one that comes without. -/
def memberName (memberID : Bytes) : Bytes :=
  if memberID = [] then ascii "kfake-member-1" else memberID

/-- `handleJoinGroup`: the first protocol of the member is the group's. -/
def handleJoinGroup (b : GroupBroker) (body : Bytes) : Except Error Bytes × GroupBroker :=
  match readJoinGroup (fromBytes body) with
  | .error e => (.error e, b)
  | .ok ((group, memberID, protocols), _) =>
    let (assignor, metadata) := protocols.head?.getD ([], none)
    let memberID := memberName memberID
    let gen := ((b.groups.lookup group).getD {}).generation + 1
    (.ok (writeJoinGroupResponse gen assignor memberID metadata),
      b.updateGroup group fun g => { g with
        memberID := memberID, metadata := metadata, assignor := assignor
        generation := g.generation + 1 })

/-- The parsing of `handleSyncGroup`: the member's id, the protocol's name and the assignments. -/
def readSyncGroup : Read (Bytes × Bytes × List (Bytes × NilBytes)) := do
  let _group ← readCompactString
  let _generationID ← readInt32
  let memberID ← readCompactString
  let _groupInstanceID ← readCompactNullableString
  let _protocolType ← readCompactString
  let protoName ← readCompactString
  let nAssign ← readUvarint
  let assigns ← readN readProtocol (nAssign - 1)
  return (memberID, protoName, assigns)

/-- The answer of `handleSyncGroup`. -/
def writeSyncGroupResponse (protoName : Bytes) (assignment : NilBytes) : Bytes :=
  writeInt32 0
    ++ (writeInt16 0
    ++ (writeCompactString (ascii "consumer")
    ++ (writeCompactString protoName
    ++ (writeCompactBytes assignment
    ++ writeEmptyTagSection))))

/-- `handleSyncGroup`: the last assignment of the member is answered. -/
def handleSyncGroup (body : Bytes) : Except Error Bytes := do
  let ((memberID, protoName, assigns), _) ← readSyncGroup (fromBytes body)
  return writeSyncGroupResponse protoName
    ((assigns.filter (·.1 = memberID)).getLast?.bind (·.2))

/-- A member that joins a group and assigns the partitions of the topics it knows, with the orders
of its loops over maps. -/
structure LoneMember where
  request : JoinGroupRequest
  topicPartitions : AList fun _ : Bytes => List Int32
  memberOrder : MapOrder Bytes := ⟨id, Assoc.perm_id⟩
  topicOrder : MapOrder Bytes := ⟨id, Assoc.perm_id⟩
  syncOrder : MapOrder Bytes := ⟨id, Assoc.perm_id⟩

/-- The members in a JoinGroup answer, with their subscriptions. -/
def LoneMember.members (m : LoneMember) (joined : JoinGroupResponse) :
    Except Error (List MemberSubscription) :=
  (m.memberOrder.keys joined.assignments).mapM fun mid =>
    memberSubscription mid ((joined.assignments.lookup mid).getD [])

/-- The SyncGroup request of the member, in version 5. -/
def LoneMember.syncBody (m : LoneMember) (joined : JoinGroupResponse)
    (assignments : AList fun _ : Bytes => Bytes) : Bytes :=
  encodeSyncGroupRequestFlex 5 m.request.group joined.memberID joined.protocolName
    m.request.instanceID joined.generationID m.syncOrder assignments

/-- The JoinGroup round: what the member decodes from the broker's answer. -/
def LoneMember.joinRound (m : LoneMember) (b : GroupBroker) : Except Error JoinGroupResponse := do
  let body ← encodeJoinGroupRequestFlex m.request
  let answer ← (handleJoinGroup b body).1
  match ← decodeJoinGroupResponseFlex 6 answer with
  | (_, some e) => .error e
  | (joined, none) => .ok joined

/-- The SyncGroup round. -/
def LoneMember.syncRound (m : LoneMember) (joined : JoinGroupResponse)
    (assignments : AList fun _ : Bytes => Bytes) :
      Except Error (List TopicPartitionAssignment) := do
  let answer ← handleSyncGroup (m.syncBody joined assignments)
  let raw ← decodeSyncGroupResponseFlex 5 answer
  parseMemberAssignment raw.bytes

/-- The member joins through the broker, assigns as the leader and parses what it is assigned. -/
def LoneMember.join (m : LoneMember) (b : GroupBroker) :
    Except Error (List TopicPartitionAssignment) := do
  let joined ← m.joinRound b
  let members ← m.members joined
  let assignments ← computeGroupAssignments m.topicOrder joined.protocolName members
    m.topicPartitions
  m.syncRound joined assignments

/-! ## The messages are read back -/

/-- A list of one protocol, or of one member's assignment. -/
theorem consumes_readProtocols {name bytes : Bytes} (hname : name.length + 1 < 2 ^ 29)
    (hbytes : bytes.length + 1 < 2 ^ 29) :
    Consumes (readN readProtocol 1) (writeSyncAssignment (name, bytes)) [(name, some bytes)] := by
  have hone : Consumes readProtocol (writeSyncAssignment (name, bytes)) (name, some bytes) := by
    refine (consumes_readCompactString hname).bind ?_
    refine (consumes_readCompactBytes_some hbytes).bind ?_
    exact consumes_skipTags_empty.map fun _ => (name, some bytes)
  rw [← append_nil (writeSyncAssignment _)]
  exact hone.bind ((Consumes.pure []).map _)

/-- A JoinGroup request without its tagged fields. -/
def joinBody (r : JoinGroupRequest) (session rebalance : Int32) (metadata : Bytes) : Bytes :=
  writeCompactString r.group ++ (writeInt32 session ++ (writeInt32 rebalance
    ++ (writeCompactString r.memberID ++ (writeGroupInstanceID r.instanceID
    ++ (writeCompactString (ascii "consumer")
    ++ (writeCompactArrayLen 1 ++ writeSyncAssignment (r.assignorName, metadata)))))))

/-- The sizes of a JoinGroup request are what the reader's length prefixes can hold. -/
structure RequestFits (r : JoinGroupRequest) : Prop where
  group : r.group.length + 1 < 2 ^ 29
  memberID : r.memberID.length + 1 < 2 ^ 29
  assignor : r.assignor.length + 1 < 2 ^ 29
  instanceID : r.instanceID.length + 1 < 2 ^ 29
  names : ∀ t ∈ r.topics, t.length ≤ maxInt16
  subscription : subscriptionSize r.topics + 1 < 2 ^ 29

variable {m : LoneMember}

theorem RequestFits.assignorName (h : RequestFits r) : r.assignorName.length + 1 < 2 ^ 29 := by
  rw [JoinGroupRequest.assignorName]
  split_ifs
  · decide
  · exact h.assignor

theorem length_memberName (h : memberID.length + 1 < 2 ^ 29) :
    (memberName memberID).length + 1 < 2 ^ 29 := by
  rw [memberName]
  split_ifs
  · decide
  · exact h

theorem length_le_subscriptionSize (topics : List Bytes) :
    topics.length ≤ subscriptionSize topics := by
  induction topics with
  | nil => exact Nat.zero_le _
  | cons t topics ih =>
    simp only [subscriptionSize, map_cons, sum_cons, length_cons] at ih ⊢
    omega

theorem consumes_readJoinGroup (h : RequestFits r) (hmetadata : metadata.length + 1 < 2 ^ 29)
    (session rebalance : Int32) :
    Consumes readJoinGroup (joinBody r session rebalance metadata)
      (r.group, r.memberID, [(r.assignorName, some metadata)]) := by
  refine (consumes_readCompactString h.group).bind ?_
  refine (consumes_readInt32 _).bind ((consumes_readInt32 _).bind ?_)
  refine (consumes_readCompactString h.memberID).bind ?_
  refine (consumes_groupInstanceID h.instanceID).bind ?_
  refine (consumes_readCompactString (by decide)).bind ?_
  refine (consumes_readUvarint_arrayLen (by decide)).bind ?_
  exact (consumes_readProtocols h.assignorName hmetadata).map fun ps => (r.group, r.memberID, ps)

theorem handleJoinGroup_encode (h : RequestFits r) :
    ∃ body metadata gen, encodeJoinGroupRequestFlex r = .ok body ∧
      (handleJoinGroup b body).1 = .ok (writeJoinGroupResponse gen r.assignorName
        (memberName r.memberID) (some metadata)) ∧
      metadata.length = subscriptionSize r.topics ∧
      decodeConsumerSubscription metadata = .ok r.topics := by
  have hsize := h.subscription
  have hcount := length_le_subscriptionSize r.topics
  obtain ⟨metadata, hencode, hlength, hdecode⟩ :=
    decodeConsumerSubscription_encode h.names (by omega)
  generalize hsession : (if r.sessionTimeoutMs ≤ 0 then 45000 else r.sessionTimeoutMs) = session
  generalize hrebalance :
    (if r.rebalanceTimeoutMs ≤ 0 then session else r.rebalanceTimeoutMs) = rebalance
  have hread := consumes_readJoinGroup h (by omega : metadata.length + 1 < 2 ^ 29) session rebalance
  refine ⟨joinBody r session rebalance metadata ++ writeEmptyTagSection, metadata,
    ((b.groups.lookup r.group).getD {}).generation + 1, ?_, ?_, hlength, hdecode⟩
  · rw [encodeJoinGroupRequestFlex, hencode, ← hrebalance, ← hsession]
    simp only [joinBody, writeSyncAssignment, append_assoc]
    rfl
  · rw [handleJoinGroup, hread (fromBytes _) writeEmptyTagSection (Cursor.valid_start _) rfl]
    rfl

/-- The answer to a join: the member leads the group, and the group has it alone. -/
theorem decodeJoinGroupResponse_write (hassignor : assignor.length + 1 < 2 ^ 29)
    (hmember : memberID.length + 1 < 2 ^ 29) (hmetadata : metadata.length + 1 < 2 ^ 29) :
    decodeJoinGroupResponseFlex 6 (writeJoinGroupResponse gen assignor memberID (some metadata)) =
      .ok ({ generationID := gen, memberID := memberID, leaderID := memberID
             protocolName := assignor.text
             assignments := index Prod.fst Prod.snd [(memberID, metadata)] }, none) := by
  have hone : ∀ e ∈ [(memberID, metadata)], Consumes (readJoinMember 6)
      (writeCompactString e.1 ++ (writeCompactNullableString none
        ++ (writeCompactBytes (some e.2) ++ writeEmptyTagSection))) e := by
    simp only [mem_singleton, forall_eq]
    refine (consumes_readCompactString hmember).bind ?_
    refine (consumes_readCompactNullableString_null).bind ?_
    refine (consumes_readCompactBytes_some hmetadata).bind ?_
    exact consumes_skipTagSection_empty.map fun _ => (memberID, metadata)
  have hmembers := Consumes.readN hone
  rw [flatMap_singleton] at hmembers
  refine Consumes.run (m := readJoinGroupResponse 6) ?_
  refine (consumes_readInt32 0).bind ((consumes_readInt16).bind ?_)
  refine (consumes_readInt32 gen).bind ?_
  refine (consumes_readCompactString hassignor).bind ?_
  refine (consumes_readCompactString hmember).bind ((consumes_readCompactString hmember).bind ?_)
  refine (consumes_readUvarint_arrayLen (by decide)).bind ?_
  refine hmembers.bind ?_
  exact consumes_skipTagSection_empty.map _

/-- The two ways of writing a group instance id agree. -/
theorem writeCompactNullableString_strPtr (id : Bytes) :
    writeCompactNullableString (strPtr id) = writeGroupInstanceID id := by
  rw [strPtr, writeGroupInstanceID]
  split_ifs
  · rfl
  · rfl

theorem handleSyncGroup_encode (h : RequestFits m.request)
    (hproto : joined.protocolName = protoName.text) (hname : protoName.length + 1 < 2 ^ 29)
    (hmember : joined.memberID.length + 1 < 2 ^ 29)
    (honly : ∀ mid, mid ∈ assignments ↔ mid = joined.memberID)
    (hlookup : assignments.lookup joined.memberID = some raw) (hraw : raw.length + 1 < 2 ^ 29) :
    handleSyncGroup (m.syncBody joined assignments) =
      .ok (writeSyncGroupResponse protoName (some raw)) := by
  have hkeys := m.syncOrder.keys_eq_singleton honly
  have hcount : assignments.keys.length = 1 := by
    rw [← (m.syncOrder.perm assignments.keys).length_eq]
    exact congrArg List.length hkeys
  have hread : Consumes readSyncGroup (writeCompactString m.request.group
      ++ (writeInt32 joined.generationID ++ (writeCompactString joined.memberID
      ++ (writeGroupInstanceID m.request.instanceID
      ++ (writeCompactString (ascii "consumer") ++ (writeCompactString protoName
      ++ (writeCompactArrayLen 1 ++ writeSyncAssignment (joined.memberID, raw))))))))
      (joined.memberID, protoName, [(joined.memberID, some raw)]) := by
    refine (consumes_readCompactString h.group).bind ((consumes_readInt32 _).bind ?_)
    refine (consumes_readCompactString hmember).bind ?_
    refine (consumes_groupInstanceID h.instanceID).bind ?_
    refine (consumes_readCompactString (by decide)).bind ?_
    refine (consumes_readCompactString hname).bind ?_
    refine (consumes_readUvarint_arrayLen (by decide)).bind ?_
    exact (consumes_readProtocols hmember hraw).map fun as => (joined.memberID, protoName, as)
  refine bind_eq_ok.2 ⟨_, hread (fromBytes (m.syncBody joined assignments)) writeEmptyTagSection
    (Cursor.valid_start _) ?_, ?_⟩
  · show m.syncBody joined assignments = _
    rw [LoneMember.syncBody, encodeSyncGroupRequestFlex, if_pos (by decide), if_pos (by decide),
      writeCompactNullableString_strPtr, hkeys, hcount, hproto, ascii_text, map_singleton,
      flatMap_singleton, hlookup]
    simp
  · simp [pure, Except.pure]

theorem decodeSyncGroupResponse_write (hname : protoName.length + 1 < 2 ^ 29)
    (hraw : raw.length + 1 < 2 ^ 29) :
    decodeSyncGroupResponseFlex 5 (writeSyncGroupResponse protoName (some raw)) =
      .ok (some raw) := by
  refine Consumes.run (m := readSyncGroupResponse 5) ?_
  refine (consumes_readInt32 0).bind ((consumes_readInt16).bind ?_)
  refine (consumes_readCompactNullableString (by decide)).bind ?_
  refine (consumes_readCompactNullableString hname).bind ?_
  refine (consumes_readCompactBytes_some hraw).bind ?_
  exact consumes_skipTagSection_empty.map _

/-! ## The whole conversation -/

theorem memberSubscription_eq {mid raw : Bytes} {topics : List Bytes}
    (h : decodeConsumerSubscription raw = .ok topics) :
    ∃ member, memberSubscription mid raw = .ok member ∧ member.memberID = mid ∧
      member.topics = topics := by
  rw [memberSubscription]
  split
  · next e herror => cases herror.symm.trans h
  · next topics' hok =>
    cases hok.symm.trans h
    exact ⟨_, rfl, rfl, rfl⟩

/-- The sizes of the messages are what the reader's length prefixes can hold, and the partitions of
a topic are distinct. -/
structure LoneMember.Fits (m : LoneMember) : Prop where
  request : RequestFits m.request
  distinct : ∀ t, (partsOf m.topicPartitions t).Nodup
  assignment : assignmentSize (wholeAssignment m.topicPartitions m.request.topics) + 1 < 2 ^ 29

/-- Each partition takes four bytes. -/
theorem LoneMember.Fits.count (h : m.Fits) (ht : t ∈ m.request.topics) :
    (partsOf m.topicPartitions t).length < 2 ^ 31 := by
  have hsize := h.assignment
  have hle := @assignmentSize_le m.topicPartitions m.request.topics
    [⟨t, partsOf m.topicPartitions t⟩] (nodup_singleton _)
  by_cases hparts : partsOf m.topicPartitions t = []
  · rw [hparts]
    decide
  · have hle := hle (by simp [ht, hparts])
    simp only [assignmentSize, map_singleton, sum_singleton] at hle hsize
    omega

theorem LoneMember.members_eq
    (hassign : joined.assignments = index Prod.fst Prod.snd [(mid, metadata)])
    (hsubscription : memberSubscription mid metadata = .ok member) :
    m.members joined = .ok [member] := by
  have hsingle : joined.assignments = (∅ : AList fun _ : Bytes => Bytes).insert mid metadata :=
    hassign
  have hkeys : m.memberOrder.keys joined.assignments = [mid] := by
    refine m.memberOrder.keys_eq_singleton fun k => ?_
    rw [hsingle, AList.mem_insert]
    exact or_iff_left (AList.notMem_empty k)
  rw [members, hkeys]
  refine mapM_eq_ok (g := fun _ => member) fun k hk => ?_
  rw [mem_singleton.1 hk, hsingle, AList.lookup_insert]
  exact hsubscription

theorem LoneMember.joinRound_eq (h : RequestFits m.request) :
    ∃ joined members, m.joinRound b = .ok joined ∧ m.members joined = .ok [members] ∧
      joined.protocolName = m.request.assignorName.text ∧
      joined.memberID = memberName m.request.memberID ∧
      members.memberID = joined.memberID ∧ members.topics = m.request.topics := by
  obtain ⟨body, metadata, gen, hbody, hanswer, hlength, hdecode⟩ := handleJoinGroup_encode h
  have hmember := length_memberName h.memberID
  have hsize : metadata.length + 1 < 2 ^ 29 := hlength ▸ h.subscription
  obtain ⟨member, hsubscription, hid, htopics⟩ :=
    @memberSubscription_eq (memberName m.request.memberID) _ _ hdecode
  refine ⟨{ generationID := gen, memberID := memberName m.request.memberID
            leaderID := memberName m.request.memberID
            protocolName := m.request.assignorName.text
            assignments := index Prod.fst Prod.snd [(memberName m.request.memberID, metadata)] },
    member, ?_, ?_, rfl, rfl, hid, htopics⟩
  · rw [joinRound, hbody]
    show ((handleJoinGroup b body).1 >>= _) = _
    rw [hanswer]
    show (decodeJoinGroupResponseFlex 6 _ >>= _) = _
    rw [decodeJoinGroupResponse_write h.assignorName hmember hsize]
    rfl
  · exact members_eq rfl hsubscription

/-- A member that joins alone through the broker is assigned each partition of each topic it
subscribes to once, and nothing else. -/
theorem join_exact {m : LoneMember} (h : m.Fits) (b : GroupBroker) :
    ∃ out, m.join b = .ok out ∧ (encodedPartitions out).Nodup ∧
      ∀ topic p, ⟨topic, p⟩ ∈ encodedPartitions out ↔
        topic ∈ m.request.topics ∧ p ∈ partsOf m.topicPartitions topic := by
  obtain ⟨joined, member, hjoined, hmembers, hproto, hname, hid, htopics⟩ :=
    LoneMember.joinRound_eq h.request
  obtain ⟨assignments, raw, parsed, hassign, honly, hlookup, hsize, hparse, hnodup, hmem⟩ :=
    computeGroupAssignments_alone h.distinct
      fun t ht => h.count (htopics ▸ ht)
  have hraw : raw.length + 1 < 2 ^ 29 := by
    have hfits := h.assignment
    rw [htopics] at hsize
    omega
  rw [hid] at honly hlookup
  have hsync := handleSyncGroup_encode h.request hproto h.request.assignorName
    (hname ▸ length_memberName h.request.memberID) honly hlookup hraw
  refine ⟨parsed, ?_, hnodup, fun topic p => htopics ▸ hmem ⟨topic, p⟩⟩
  rw [LoneMember.join, hjoined]
  refine bind_eq_ok.2 ⟨_, rfl, bind_eq_ok.2 ⟨_, hmembers, bind_eq_ok.2 ⟨_, hassign, ?_⟩⟩⟩
  exact bind_eq_ok.2 ⟨_, hsync, bind_eq_ok.2
    ⟨_, decodeSyncGroupResponse_write h.request.assignorName hraw, hparse⟩⟩

/-- A member without id and assignor that names topic `t` twice, where `t` has two partitions. -/
def memberT (group : Bytes) : LoneMember where
  request := { group := group, topics := [[116], [116]] }
  topicPartitions := (∅ : AList fun _ : Bytes => List Int32).insert [116] [1, 0]

theorem partsOf_memberT (group : Bytes) :
    partsOf (memberT group).topicPartitions t = if t = [116] then [1, 0] else [] := by
  rw [partsOf, memberT]
  split_ifs with ht
  · rw [ht, AList.lookup_insert, Option.getD_some]
  · rw [AList.lookup_insert_ne ht]
    rfl

theorem memberT_fits {group : Bytes} (h : group.length + 1 < 2 ^ 29) : (memberT group).Fits where
  request := ⟨h, by simp [memberT], by simp [memberT], by simp [memberT],
    by simp [memberT, maxInt16], by simp [memberT, subscriptionSize]⟩
  distinct t := by
    rw [partsOf_memberT]
    split_ifs
    · decide
    · exact nodup_nil
  assignment := by
    have htopics : (memberT group).request.topics.dedup = [[116]] := by simp [memberT]
    rw [wholeAssignment, htopics]
    simp [partsOf_memberT, assignmentSize]

theorem join_exact_twice :
    ∃ out, (memberT [103]).join newGroupBroker = .ok out ∧ (encodedPartitions out).Nodup ∧
      ∀ topic p, ⟨topic, p⟩ ∈ encodedPartitions out ↔
        topic ∈ [[116], [116]] ∧ p ∈ partsOf (memberT [103]).topicPartitions topic :=
  join_exact (memberT_fits (by decide)) newGroupBroker

/-- The broker refuses a group whose name is longer than a compact length can say. -/
theorem join_error_of_long (hlong : 2 ^ 29 ≤ m.request.group.length + 1) :
    ∃ e, m.join b = .error e := by
  rw [LoneMember.join, LoneMember.joinRound]
  cases hencode : encodeJoinGroupRequestFlex m.request with
  | error e => exact ⟨e, rfl⟩
  | ok body =>
    have hbody : ∃ rest, body = writeCompactString m.request.group ++ rest := by
      obtain ⟨metadata, -, hbody⟩ := bind_eq_ok.1 hencode
      cases hbody
      exact ⟨_, rfl⟩
    obtain ⟨rest, rfl⟩ := hbody
    obtain ⟨e, he⟩ := @readCompactString_long m.request.group hlong
      (fromBytes (writeCompactString m.request.group ++ rest)) rest rfl
    have hrun : readJoinGroup (fromBytes (writeCompactString m.request.group ++ rest)) =
        .error e := by
      show (readCompactString _ >>= fun p => _) = _
      rw [he]
      rfl
    refine ⟨e, ?_⟩
    show (((handleJoinGroup b _).1 >>= _) >>= _) = _
    rw [handleJoinGroup, hrun]
    rfl

theorem join_longGroup :
    ∃ e, (memberT (List.replicate (2 ^ 29) 0)).join newGroupBroker = .error e := by
  have hlong (n : Nat) : n ≤ (memberT (List.replicate n 0)).request.group.length + 1 := by
    rw [memberT, length_replicate]
    exact Nat.le_succ n
  exact join_error_of_long (hlong _)

end GoKafka.Kfake
