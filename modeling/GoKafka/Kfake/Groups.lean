import GoKafka.Kfake.Broker

/-!
# The mock broker's groups

`kfake/groups.go`: the offsets that groups have committed (`handleOffsetCommit`) and that they fetch
(`handleOffsetFetch`). As with produce requests, a commit is stored while the request is parsed.

The store refines a map from groups and partitions to offsets: a commit of the client changes it as
`offset_handleOffsetCommit` says, and a fetch is answered from it (`fetchOffsets_eq`).
`commits_fetch` puts the two together over any sequence of commits.
-/

namespace GoKafka.Kfake

open Assoc Reading List

/-! ## The program -/

/-- `store.group`, and an update of the group it returns. -/
def GroupBroker.updateGroup (b : GroupBroker) (id : Bytes) (f : GroupState → GroupState) :
    GroupBroker :=
  { b with groups := b.groups.insert id (f ((b.groups.lookup id).getD {})) }

def takeOffsetFetchFault (b : GroupBroker) : Int16 × GroupBroker :=
  if b.offsetFetchFailN ≤ 0 then (0, b)
  else (b.offsetFetchFailCode, { b with offsetFetchFailN := b.offsetFetchFailN - 1 })

/-- A partition of a commit is stored. -/
def GroupBroker.commit (b : GroupBroker) (group : Bytes) (k : PartKey) (off : Int64) :
    GroupBroker :=
  b.updateGroup group fun g => { g with offsets := g.offsets.set k off }

/-- The loop over the partitions of a topic. -/
def commitPart (group name : Bytes) : Handler Error GroupBroker UInt8 Int32 := do
  let part ← Handler.read readInt32
  let off ← Handler.read readInt64
  let _leaderEpoch ← Handler.read readInt32
  let _metadata ← Handler.read readCompactNullableString
  Handler.read skipTags
  Handler.update fun b => (part, b.commit group ⟨name, part⟩ off)

/-- The loop over the topics. -/
def commitTopic (group : Bytes) : Handler Error GroupBroker UInt8 (TopicEntries Int32) := do
  let name ← Handler.read readCompactString
  let nParts ← Handler.read readUvarint
  let parts ← handleN (commitPart group name) (nParts - 1)
  Handler.read skipTags
  return ⟨name, parts⟩

/-- The parsing of `handleOffsetCommit`, up to the end of its topics. -/
def commitHandler : Handler Error GroupBroker UInt8 (List (TopicEntries Int32)) := do
  let group ← Handler.read readCompactString
  let _generationID ← Handler.read readInt32
  let _memberID ← Handler.read readCompactString
  let _groupInstanceID ← Handler.read readCompactNullableString
  let nTopics ← Handler.read readUvarint
  Handler.update fun b => ((), b.updateGroup group id)
  handleN (commitTopic group) (nTopics - 1)

/-- The answer of `handleOffsetCommit`: error code 0 for every partition. -/
def writeCommitResponse (committed : List (TopicEntries Int32)) : Bytes :=
  writeInt32 0
    ++ (writeTopics (fun p => writeInt32 p ++ (writeInt16 0 ++ writeEmptyTagSection)) committed
    ++ writeEmptyTagSection)

def handleOffsetCommit (b : GroupBroker) (body : Bytes) : Except Error Bytes × GroupBroker :=
  match commitHandler (fromBytes body) b with
  | (.error e, b) => (.error e, b)
  | (.ok (committed, _), b) => (.ok (writeCommitResponse committed), b)

/-- The parsing of `handleOffsetFetch`. -/
def readOffsetFetch : Read (Bytes × List (TopicEntries Int32)) := do
  let group ← readCompactString
  let reqs ← readTopics readCompactString skipTags fun _ => readInt32
  return (group, reqs)

/-- The offset a group has committed for a partition. -/
def GroupBroker.offset (b : GroupBroker) (group : Bytes) (k : PartKey) : Option Int64 :=
  (b.groups.lookup group).bind (·.offsets.offset k)

/-- A partition of the answer of `handleOffsetFetch`. -/
def writeFetchedOffset (faultCode : Int16) (p : Int32 × Int64) : Bytes :=
  writeInt32 p.1
    ++ (writeInt64 (if faultCode ≠ 0 then -1 else p.2)
    ++ (writeInt32 (-1) -- committed_leader_epoch
    ++ (writeCompactNullableString none -- metadata
    ++ (writeInt16 faultCode
    ++ writeEmptyTagSection))))

/-- The answer of `handleOffsetFetch`. -/
def writeOffsetFetchResponse (faultCode : Int16) (ts : List (TopicEntries (Int32 × Int64))) :
    Bytes :=
  writeInt32 0
    ++ (writeTopics (writeFetchedOffset faultCode) ts
    ++ (writeInt16 0 -- error_code
    ++ writeEmptyTagSection))

/-- `handleOffsetFetch` below version 8. -/
def handleOffsetFetch (b : GroupBroker) (body : Bytes) : Except Error Bytes × GroupBroker :=
  match readOffsetFetch (fromBytes body) with
  | .error e => (.error e, b)
  | .ok ((group, reqs), _) =>
    let (faultCode, b) := takeOffsetFetchFault b
    let b := b.updateGroup group id
    (.ok (writeOffsetFetchResponse faultCode (reqs.map fun t =>
      ⟨t.topic, t.parts.map fun p => (p, (b.offset group ⟨t.topic, p⟩).getD (-1))⟩)), b)

/-! ## The store -/

section Store

variable (b : GroupBroker) (group group' : Bytes) (k k' : PartKey)

/-- A fetch of a group that is not there makes it, without offsets. -/
theorem GroupBroker.offset_updateGroup_id :
    (b.updateGroup group id).offset group' k = b.offset group' k := by
  simp only [GroupBroker.offset, GroupBroker.updateGroup]
  by_cases hgroup : group' = group
  · subst hgroup
    rw [AList.lookup_insert]
    cases b.groups.lookup group' with
    | none => rfl
    | some g => rfl
  · rw [AList.lookup_insert_ne hgroup]

theorem GroupBroker.offset_commit (off : Int64) : (b.commit group k off).offset group' k' =
      if group' = group ∧ k' = k then some off else b.offset group' k' := by
  simp only [GroupBroker.offset, GroupBroker.commit, GroupBroker.updateGroup]
  by_cases hgroup : group' = group
  · subst hgroup
    rw [AList.lookup_insert, Option.bind_some, OffsetMap.offset_set]
    by_cases hk : k' = k
    · rw [if_pos hk, if_pos ⟨rfl, hk⟩]
    · rw [if_neg hk, if_neg fun h => hk h.2]
      cases b.groups.lookup group' with
      | none => rfl
      | some g => rfl
  · rw [AList.lookup_insert_ne hgroup, if_neg fun h => hgroup h.1]

/-- Commits one after the other: a partition has what was last stored for it. -/
theorem GroupBroker.offset_commits (pairs : List (PartKey × Int64)) :
    (pairs.foldl (fun b p => b.commit group p.1 p.2) b).offset group' k =
      if group' = group then ((index Prod.fst Prod.snd pairs).lookup k).or (b.offset group' k)
      else b.offset group' k := by
  induction pairs using List.reverseRecOn with
  | nil => split <;> rfl
  | append_singleton pairs p ih =>
    rw [foldl_append, foldl_cons, foldl_nil, offset_commit, ih, index_concat]
    by_cases hgroup : group' = group
    · rw [if_pos hgroup, if_pos hgroup]
      by_cases hk : k = p.1
      · rw [if_pos ⟨hgroup, hk⟩, hk, AList.lookup_insert, Option.some_or]
      · rw [if_neg fun h => hk h.2, AList.lookup_insert_ne hk]
    · rw [if_neg hgroup, if_neg hgroup, if_neg fun h => hgroup h.1]

end Store

/-! ## Commits -/

/-- The broker with the offsets of a commit. -/
def GroupBroker.commitAll (b : GroupBroker) (group : Bytes) (pairs : List (PartKey × Int64)) :
    GroupBroker :=
  pairs.foldl (fun b p => b.commit group p.1 p.2) (b.updateGroup group id)

theorem handles_commitPart (group : Bytes) (b : GroupBroker) :
    Handles (commitPart group name) (writeCommitPart 8 p) b p.1
      (b.commit group ⟨name, p.1⟩ p.2) := by
  refine ((consumes_readInt32 _).handles b).bind (((consumes_readInt64).handles b).bind ?_)
  refine ((consumes_readInt32 _).handles b).bind ?_
  refine (consumes_readCompactNullableString_null.handles b).bind ?_
  rw [← append_nil writeEmptyTagSection]
  exact (consumes_skipTags_empty.handles b).bind (Handles.update _ b)

theorem handles_commitTopic (group : Bytes) {t : TopicEntries (Int32 × Int64)}
    (htopic : t.topic.length + 1 < 2 ^ 29) (hparts : t.parts.length + 1 < 2 ^ 29)
    (b : GroupBroker) :
    Handles (commitTopic group) (writeCompactString t.topic ++ (writeCompactArrayLen t.parts.length
        ++ (t.parts.flatMap (writeCommitPart 8) ++ writeEmptyTagSection))) b
      ⟨t.topic, t.parts.map Prod.fst⟩
      (t.parts.foldl (fun b p => b.commit group ⟨t.topic, p.1⟩ p.2) b) := by
  refine ((consumes_readCompactString htopic).handles b).bind ?_
  refine ((consumes_readUvarint_arrayLen hparts).handles b).bind ?_
  have hloop : Handles (handleN (commitPart group t.topic) t.parts.length)
      (t.parts.flatMap (writeCommitPart 8)) b (t.parts.map Prod.fst)
      (t.parts.foldl (fun b p => b.commit group ⟨t.topic, p.1⟩ p.2) b) :=
    Handles.handleN_pure (fun p _ => handles_commitPart group) b
  refine hloop.bind ?_
  rw [← append_nil writeEmptyTagSection]
  exact (consumes_skipTags_empty.handles _).bind (Handles.pure _ _)

/-- An OffsetCommit request of the client. -/
structure CommitCall where
  group : Bytes
  memberID : Bytes := []
  groupInstanceID : Bytes := []
  generation : Int32 := 0
  order : OffsetOrder := {}
  offsets : OffsetMap

/-- The request on the wire, in version 8. -/
def CommitCall.body (call : CommitCall) : Bytes :=
  encodeOffsetCommitRequestFlex 8 call.group call.memberID call.groupInstanceID call.generation
    call.order call.offsets

/-- The sizes of a commit are what the reader's length prefixes can hold. -/
structure CommitCall.Fits (call : CommitCall) : Prop where
  group : call.group.length + 1 < 2 ^ 29
  memberID : call.memberID.length + 1 < 2 ^ 29
  groupInstanceID : call.groupInstanceID.length + 1 < 2 ^ 29
  offsets : call.offsets.Fits

theorem consumes_groupInstanceID {id : Bytes} (h : id.length + 1 < 2 ^ 29) :
    Consumes readCompactNullableString (writeGroupInstanceID id) id := by
  rw [writeGroupInstanceID]
  split_ifs with hnil
  · rw [hnil]
    exact consumes_readCompactNullableString_null
  · exact consumes_readCompactNullableString h

/-- A commit of the client stores the offsets of its map. -/
theorem handleOffsetCommit_body {call : CommitCall} (h : call.Fits) :
    ∃ answer, handleOffsetCommit b call.body = (.ok answer,
      b.commitAll call.group (commitPairs (commitEntries call.order call.offsets))) := by
  have hfit := topicsFit_commitEntries h.offsets call.order
  generalize hts : commitEntries call.order call.offsets = ts at hfit ⊢
  have htopics := Handles.handleN_pure (fun t ht =>
    handles_commitTopic call.group (hfit.topic t ht) (hfit.parts t ht))
    (b.updateGroup call.group id)
  have hstore : ts.foldl
      (fun b t => t.parts.foldl (fun b p => b.commit call.group ⟨t.topic, p.1⟩ p.2) b)
      (b.updateGroup call.group id) = b.commitAll call.group (commitPairs ts) := by
    rw [GroupBroker.commitAll, commitPairs, foldl_flatMap]
    simp [foldl_map]
  rw [hstore] at htopics
  have hread : Handles commitHandler (writeCompactString call.group ++ (writeInt32 call.generation
      ++ (writeCompactString call.memberID ++ (writeGroupInstanceID call.groupInstanceID
        ++ writeTopics (writeCommitPart 8) ts)))) b
      (ts.map fun t => ⟨t.topic, t.parts.map Prod.fst⟩)
      (b.commitAll call.group (commitPairs ts)) := by
    refine ((consumes_readCompactString h.group).handles b).bind ?_
    refine ((consumes_readInt32 _).handles b).bind ?_
    refine ((consumes_readCompactString h.memberID).handles b).bind ?_
    refine ((consumes_groupInstanceID h.groupInstanceID).handles b).bind ?_
    refine ((consumes_readUvarint_arrayLen hfit.count).handles b).bind ?_
    have hgroup : Handles (Handler.update fun b : GroupBroker => ((), b.updateGroup call.group id))
        ([] : Bytes) b () (b.updateGroup call.group id) := @Handles.update Error _ _ _ _ b
    exact hgroup.bind htopics
  have hbody : (fromBytes call.body).rest = (writeCompactString call.group
      ++ (writeInt32 call.generation ++ (writeCompactString call.memberID
        ++ (writeGroupInstanceID call.groupInstanceID
          ++ writeTopics (writeCommitPart 8) ts)))) ++ writeEmptyTagSection := by
    show call.body = _
    rw [CommitCall.body, encodeOffsetCommitRequestFlex, if_pos (by decide), hts]
    simp
  refine ⟨writeCommitResponse (ts.map fun t => ⟨t.topic, t.parts.map Prod.fst⟩), ?_⟩
  rw [handleOffsetCommit, hread (fromBytes call.body) _ (Cursor.valid_start _) hbody]

/-- What a group has committed for a partition after a commit: the offset in the commit's map, or
what it had before. -/
theorem offset_handleOffsetCommit {call : CommitCall} (h : call.Fits) (group : Bytes) :
    (handleOffsetCommit b call.body).2.offset group k =
      if group = call.group then (call.offsets.offset k).or (b.offset group k)
      else b.offset group k := by
  obtain ⟨answer, hanswer⟩ := handleOffsetCommit_body h
  rw [hanswer]
  rw [GroupBroker.commitAll, GroupBroker.offset_commits, GroupBroker.offset_updateGroup_id,
    lookup_index_commitPairs]

/-! ## Fetches -/

/-- An OffsetFetch request of the client. -/
structure OffsetFetchCall where
  group : Bytes
  parts : List PartKey
  requireStable : Bool := false

/-- The request on the wire, in version 7. -/
def OffsetFetchCall.body (call : OffsetFetchCall) : Bytes :=
  encodeOffsetFetchRequestFlex 7 call.group call.parts call.requireStable

/-- The sizes of a fetch are what the reader's length prefixes can hold: the number of topics, the
number of partitions of each, and the names. -/
structure OffsetFetchCall.Fits (call : OffsetFetchCall) : Prop where
  group : call.group.length + 1 < 2 ^ 29
  topics : TopicsFit (fetchEntries call.parts)

/-- What the broker answers and the client decodes. -/
def GroupBroker.fetchOffsets (b : GroupBroker) (call : OffsetFetchCall) :
    Except Error (List CommittedOffset) := do
  decodeOffsetFetchResponseFlex (← (handleOffsetFetch b call.body).1)

/-- A partition's answer as the client has it. -/
def committedOffset (topic : Bytes) (p : Int32 × Int64) : CommittedOffset where
  topic := topic
  partition := p.1
  offset := p.2

theorem consumes_readCommittedOffset :
    Consumes (readCommittedOffset topic) (writeFetchedOffset 0 p) (committedOffset topic p) := by
  refine (consumes_readInt32 _).bind ((consumes_readInt64).bind ((consumes_readInt32 _).bind ?_))
  refine consumes_readCompactNullableString_null.bind ((consumes_readInt16).bind ?_)
  exact consumes_skipTagSection_empty.map _

theorem decodeOffsetFetchResponseFlex_write (hfit : TopicsFit ts) :
    decodeOffsetFetchResponseFlex (writeOffsetFetchResponse 0 ts) =
      .ok (ts.flatMap fun t => t.parts.map (committedOffset t.topic)) := by
  have htopics : Consumes (readTopics readCompactString skipTagSection readCommittedOffset)
      (writeTopics (writeFetchedOffset 0) ts)
      (ts.map fun t => ⟨t.topic, t.parts.map (committedOffset t.topic)⟩) :=
    consumes_readTopics consumes_skipTagSection_empty hfit
      fun t _ p _ => consumes_readCommittedOffset
  have hread : Consumes readOffsetFetchResponse (writeOffsetFetchResponse 0 ts)
      (ts.flatMap fun t => t.parts.map (committedOffset t.topic)) := by
    have hflat := flatMap_map (fun t => (⟨t.topic, t.parts.map (committedOffset t.topic)⟩ :
      TopicEntries CommittedOffset)) (·.parts) ts
    rw [← hflat]
    exact (consumes_readInt32 0).bind (htopics.bind ((consumes_readInt16).bind
      (consumes_skipTagSection_empty.map _)))
  exact hread.run

theorem fetchOffsets_eq {b : GroupBroker} (hfault : b.offsetFetchFailN ≤ 0) (h : call.Fits) :
    b.fetchOffsets call = .ok ((fetchEntries call.parts).flatMap fun t => t.parts.map fun p =>
      committedOffset t.topic (p, (b.offset call.group ⟨t.topic, p⟩).getD (-1))) := by
  -- the partitions are read as they are written
  have htopics : Consumes (readTopics readCompactString skipTags fun _ => readInt32)
      (writeTopics writeInt32 (fetchEntries call.parts)) (fetchEntries call.parts) := by
    have hread : Consumes (readTopics readCompactString skipTags fun _ => readInt32)
        (writeTopics writeInt32 (fetchEntries call.parts))
        ((fetchEntries call.parts).map fun t => ⟨t.topic, t.parts.map id⟩) :=
      @consumes_readTopics _ _ _ consumes_skipTags_empty _ h.topics _ _ (fun _ => id)
        fun _ _ p _ => consumes_readInt32 p
    simpa only [map_id, map_id'] using hread
  have hread : Consumes readOffsetFetch
      (writeCompactString call.group ++ writeTopics writeInt32 (fetchEntries call.parts))
      (call.group, fetchEntries call.parts) :=
    (consumes_readCompactString h.group).bind (htopics.map _)
  have hbody : (fromBytes call.body).rest =
      (writeCompactString call.group ++ writeTopics writeInt32 (fetchEntries call.parts)) ++
        (writeInt8 (if call.requireStable then 1 else 0) ++ writeEmptyTagSection) := by
    show call.body = _
    rw [OffsetFetchCall.body, encodeOffsetFetchRequestFlex, if_pos (by decide), append_assoc]
  have htake : takeOffsetFetchFault b = (0, b) := if_pos hfault
  rw [GroupBroker.fetchOffsets, handleOffsetFetch,
    hread (fromBytes call.body) _ (Cursor.valid_start _) hbody]
  simp only [htake, GroupBroker.offset_updateGroup_id, bind, Except.bind]
  rw [decodeOffsetFetchResponseFlex_write (topicsFit_congr (by simp) h.topics), flatMap_map]
  simp [Function.comp_def]

/-! ## Any sequence of commits -/

/-- The broker after a sequence of commits, with what it answered. -/
def runCommits (calls : List CommitCall) (b : GroupBroker) :
    List (Except Error Bytes) × GroupBroker :=
  runAll (fun call b => handleOffsetCommit b call.body) calls b

theorem runCommits_cons :
    runCommits (call :: calls) b =
      ((handleOffsetCommit b call.body).1 ::
          (runCommits calls (handleOffsetCommit b call.body).2).1,
        (runCommits calls (handleOffsetCommit b call.body).2).2) := rfl

/-- The last offset that a sequence of commits has for a group and a partition. -/
def lastCommitted (group : Bytes) (k : PartKey) (calls : List CommitCall) : Option Int64 :=
  (calls.reverse.filter (·.group = group)).findSome? (·.offsets.offset k)

/-- A sequence of commits leaves each group with the last offset committed for each partition. -/
theorem offset_runCommits (h : ∀ call ∈ calls, call.Fits) (group : Bytes) :
    (runCommits calls b).2.offset group k =
      (lastCommitted group k calls).or (b.offset group k) := by
  induction calls generalizing b with
  | nil => rfl
  | cons call calls ih =>
    obtain ⟨hcall, hcalls⟩ := forall_mem_cons.1 h
    rw [runCommits_cons, ih hcalls, offset_handleOffsetCommit hcall]
    rw [lastCommitted, lastCommitted]
    by_cases hgroup : call.group = group
    · subst hgroup
      simp [Option.or_assoc]
    · simp [hgroup, Ne.symm hgroup]

theorem GroupBroker.offsetFetchFailN_commitAll (b : GroupBroker) (group : Bytes) :
    (b.commitAll group pairs).offsetFetchFailN = b.offsetFetchFailN := by
  have hfold : ∀ b' : GroupBroker,
      (pairs.foldl (fun b p => b.commit group p.1 p.2) b').offsetFetchFailN =
        b'.offsetFetchFailN := by
    induction pairs with
    | nil => exact fun _ => rfl
    | cons p pairs ih => exact fun b' => ih (b'.commit group p.1 p.2)
  exact hfold (b.updateGroup group id)

theorem runCommits_ok (h : ∀ call ∈ calls, call.Fits) (b : GroupBroker) :
    (∀ answer ∈ (runCommits calls b).1, answer.isOk) ∧
      (runCommits calls b).2.offsetFetchFailN = b.offsetFetchFailN := by
  induction calls generalizing b with
  | nil => exact ⟨nofun, rfl⟩
  | cons call calls ih =>
    obtain ⟨hcall, hcalls⟩ := forall_mem_cons.1 h
    obtain ⟨answer, hanswer⟩ := handleOffsetCommit_body hcall
    rw [runCommits_cons, hanswer]
    obtain ⟨hok, hfault⟩ := ih hcalls (b.commitAll call.group _)
    exact ⟨forall_mem_cons.2 ⟨rfl, hok⟩, hfault.trans (b.offsetFetchFailN_commitAll _)⟩

/-- A broker without committed offsets and without faults to inject. -/
structure GroupBroker.Fresh (b : GroupBroker) : Prop where
  fault : b.offsetFetchFailN ≤ 0
  offsets : ∀ group k, b.offset group k = none

theorem fresh_newGroupBroker : newGroupBroker.Fresh := ⟨le_rfl, fun _ _ => rfl⟩

/-- After any sequence of commits, a fetch returns each of its partitions with the last offset
committed for it in the group, or -1. A further commit that does not have the partitions of the
fetch in its group does not change what it returns. -/
theorem commits_fetch {b₀ : GroupBroker} (hfresh : b₀.Fresh) {calls : List CommitCall}
    (hcalls : ∀ call ∈ calls, call.Fits) {fetch : OffsetFetchCall} (hfetch : fetch.Fits) :
    (∀ answer ∈ (runCommits calls b₀).1, answer.isOk) ∧
    (∃ out, (runCommits calls b₀).2.fetchOffsets fetch = .ok out ∧
      (out.map (·.partKey)).Perm fetch.parts ∧
      ∀ co ∈ out, co.errorCode = 0 ∧
        co.offset = (lastCommitted fetch.group co.partKey calls).getD (-1)) ∧
    ∀ call : CommitCall, call.Fits →
      (∀ k ∈ fetch.parts, call.group = fetch.group → call.offsets.offset k = none) →
      (handleOffsetCommit (runCommits calls b₀).2 call.body).2.fetchOffsets fetch =
        (runCommits calls b₀).2.fetchOffsets fetch := by
  obtain ⟨hanswers, hfault⟩ := runCommits_ok hcalls b₀
  replace hfault := hfault.trans_le hfresh.fault
  have hparts := fetchEntries_perm fetch.parts
  refine ⟨hanswers, ⟨_, fetchOffsets_eq hfault hfetch, ?_, fun co hco => ?_⟩,
    fun call hcall hnone => ?_⟩
  · rw [map_flatMap]
    simpa only [map_map, Function.comp_def, committedOffset] using hparts
  · obtain ⟨t, -, hco⟩ := mem_flatMap.1 hco
    obtain ⟨p, -, rfl⟩ := mem_map.1 hco
    refine ⟨rfl, ?_⟩
    rw [committedOffset, offset_runCommits hcalls, hfresh.offsets, Option.or_none]
  · obtain ⟨answer, hanswer⟩ := handleOffsetCommit_body hcall
    have hfault' :
        (handleOffsetCommit (runCommits calls b₀).2 call.body).2.offsetFetchFailN ≤ 0 := by
      rw [hanswer]
      exact ((runCommits calls b₀).2.offsetFetchFailN_commitAll _).trans_le hfault
    rw [fetchOffsets_eq hfault' hfetch, fetchOffsets_eq hfault hfetch]
    refine congrArg Except.ok (flatMap_congr fun t ht => map_congr_left fun p hp => ?_)
    have hk : ⟨t.topic, p⟩ ∈ fetch.parts :=
      hparts.mem_iff.1 (mem_flatMap.2 ⟨t, ht, mem_map_of_mem hp⟩)
    rw [offset_handleOffsetCommit hcall]
    split_ifs with hgroup
    · rw [hnone _ hk hgroup.symm, Option.none_or]
    · rfl

/-! ## A commit and its fetch -/

/-- A commit of offset 5 for partition 0 of topic `t`. -/
def commitT (group : Bytes) : CommitCall where
  group := group
  offsets := OffsetMap.set ∅ ⟨[116], 0⟩ 5

/-- A fetch of partitions 0 and 1 of topic `t`. -/
def fetchT (group : Bytes) : OffsetFetchCall where
  group := group
  parts := [⟨[116], 0⟩, ⟨[116], 1⟩]

theorem commitT_fits {group : Bytes} (h : group.length + 1 < 2 ^ 29) : (commitT group).Fits where
  group := h
  memberID := by simp [commitT]
  groupInstanceID := by simp [commitT]
  offsets := by
    have hmem : ∀ {t}, t ∈ (commitT group).offsets → t = [116] := by
      intro t ht
      exact ((AList.mem_insert _).1 ht).resolve_right (AList.notMem_empty t)
    refine ⟨by simp [commitT, OffsetMap.set], fun t ht => ?_, fun t parts hparts => ?_⟩
    · rw [hmem ht]
      decide
    · obtain rfl : t = [116] := hmem (AList.lookup_isSome.1 (by rw [hparts]; rfl))
      cases hparts
      decide

theorem commits_fetch_five :
    ∃ out, (runCommits [commitT [103]] newGroupBroker).2.fetchOffsets (fetchT [103]) = .ok out ∧
      (out.map (·.partKey)).Perm [⟨[116], 0⟩, ⟨[116], 1⟩] ∧
      ∀ co ∈ out, co.errorCode = 0 ∧
        co.offset = (lastCommitted [103] co.partKey [commitT [103]]).getD (-1) :=
  (commits_fetch fresh_newGroupBroker (by simpa using commitT_fits (by decide))
    ⟨by decide, by decide, by decide, by decide⟩).2.1

/-- A commit for a group whose name has 2²⁹ bytes is refused, and so is the fetch of its offsets. -/
theorem commit_longGroup :
    let group : Bytes := List.replicate (2 ^ 29) 0
    (∃ e, handleOffsetCommit newGroupBroker (commitT group).body = (.error e, newGroupBroker)) ∧
      ∃ e, newGroupBroker.fetchOffsets (fetchT group) = .error e := by
  intro group
  have hlong : 2 ^ 29 ≤ group.length + 1 := by
    rw [show group.length = 2 ^ 29 from length_replicate]
    exact Nat.le_succ _
  constructor
  · obtain ⟨e, he⟩ := @readCompactString_long group hlong (fromBytes (commitT group).body) _ rfl
    have hrun : commitHandler (fromBytes (commitT group).body) newGroupBroker =
        (.error e, newGroupBroker) := Handler.read_bind_error he
    exact ⟨e, by rw [handleOffsetCommit, hrun]⟩
  · obtain ⟨e, he⟩ := @readCompactString_long group hlong (fromBytes (fetchT group).body) _ rfl
    have hrun : readOffsetFetch (fromBytes (fetchT group).body) = .error e := by
      show (readCompactString _ >>= fun p => _) = _
      rw [he]
      rfl
    refine ⟨e, ?_⟩
    rw [GroupBroker.fetchOffsets, handleOffsetFetch, hrun]
    rfl

end GoKafka.Kfake
