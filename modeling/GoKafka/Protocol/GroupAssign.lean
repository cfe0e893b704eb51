import GoKafka.Wire.Buffer
import GoKafka.Lib.Assoc
import GoKafka.Lib.Deal

/-!
# The group leader's assignor

`internal/protocol/group_assign.go` and `assignment.go`: the leader of a consumer group computes an
assignment for every member (`computeGroupAssignments`), which travels to the member as bytes
(`encodeMemberAssignment`, `parseMemberAssignment`). `parseMemberAssignment_encode` is the round
trip.

Member ids and topic names are compared as Go strings are, byte by byte. The loop over the topics
is a loop over a map, so it takes them in any order.
-/

namespace GoKafka

open Assoc Deal Reading List

/-- Bytes are ordered as numbers, and byte strings lexicographically. -/
instance linearOrderUInt8 : LinearOrder UInt8 where
  le_refl := UInt8.le_refl
  le_trans _ _ _ := UInt8.le_trans
  lt_iff_le_not_ge _ _ := by grind
  le_antisymm _ _ := UInt8.le_antisymm
  le_total := UInt8.le_total
  toDecidableLE := inferInstance
  toDecidableEq := inferInstance
  toDecidableLT := inferInstance

structure TopicPartitionAssignment where
  topic : Bytes
  partitions : List Int32
  deriving DecidableEq

/-! ## Subscriptions -/

def decodeConsumerSubscription (raw : Bytes) : Except Error (List Bytes) :=
  if raw = [] then .ok []
  else do
    let read : Read (List Bytes) := do
      let _version ← readInt16
      let nTopics ← readInt32
      readN readString nTopics.toInt.toNat
    let (topics, _) ← read (fromBytes raw)
    return topics

/-- `MemberSubscription`. The topics come out of `DecodeConsumerSubscription`, so their number and
their lengths are what its length fields can hold. -/
structure MemberSubscription where
  memberID : Bytes
  topics : List Bytes
  count : topics.length < 2 ^ 31
  names : ∀ t ∈ topics, t.length ≤ maxInt16

/-- A string that was read has a length that an int16 holds. -/
theorem readString_length (h : readString b = .ok (t, b')) : t.length ≤ maxInt16 := by
  obtain ⟨n, b₁, -, h⟩ := bind_ok h
  split_ifs at h with hneg
  · cases h
    exact Nat.zero_le _
  · rw [readSlice] at h
    split_ifs at h
    cases h
    have hlt := n.toInt_lt
    rw [length_take, maxInt16]
    omega

/-- The topics of a subscription that was decoded can be encoded again. -/
theorem decodeConsumerSubscription_ok (h : decodeConsumerSubscription raw = .ok topics) :
    topics.length < 2 ^ 31 ∧ ∀ t ∈ topics, t.length ≤ maxInt16 := by
  rw [decodeConsumerSubscription] at h
  split_ifs at h with hraw
  · cases h
    exact ⟨by decide, nofun⟩
  · obtain ⟨⟨topics', b'⟩, hread, h⟩ := bind_eq_ok.1 h
    obtain rfl : topics' = topics := Except.ok.inj h
    obtain ⟨_, b₁, -, hread⟩ := bind_ok hread
    obtain ⟨nTopics, b₂, -, hread⟩ := bind_ok hread
    obtain ⟨hlen, hmem⟩ := readN_ok hread
    refine ⟨?_, fun t ht => ?_⟩
    · have hlt := nTopics.toInt_lt
      omega
    · obtain ⟨c, c', ht⟩ := hmem t ht
      exact readString_length ht

/-! ## Assignments as bytes -/

/-- The body of `EncodeMemberAssignment`'s loop. -/
def encodeTopicAssignment (a : TopicPartitionAssignment) : Except Error Bytes := do
  let topic ← writeString a.topic
  return topic ++ writeInt32 (Int32.ofNat a.partitions.length) ++ a.partitions.flatMap writeInt32

def encodeMemberAssignment (assignments : List TopicPartitionAssignment) : Except Error Bytes := do
  let topics ← assignments.mapM encodeTopicAssignment
  return writeInt16 0 ++ writeInt32 (Int32.ofNat assignments.length) ++ topics.flatten

/-- The body of `parseLegacyAssignment`'s loop. -/
def parseLegacyTopic : Read TopicPartitionAssignment := do
  let topic ← readString
  let nParts ← readInt32
  let parts ← readN readInt32 nParts.toInt.toNat
  return { topic := topic, partitions := parts }

def parseLegacyAssignment : Read (List TopicPartitionAssignment) := do
  let nTopics ← readInt32
  readN parseLegacyTopic nTopics.toInt.toNat

/-- The body of `parseCompactAssignment`'s loop. -/
def parseCompactTopic : Read TopicPartitionAssignment := do
  let topic ← readCompactString
  let nParts ← readUvarint
  let parts ← readN readInt32 (nParts - 1)
  return { topic := topic, partitions := parts }

def parseCompactAssignment : Read (List TopicPartitionAssignment) := do
  let nTopics ← readUvarint
  readN parseCompactTopic (nTopics - 1)

def parseMemberAssignment (raw : Bytes) : Except Error (List TopicPartitionAssignment) :=
  if raw = [] then .ok []
  else do
    let read : Read (List TopicPartitionAssignment) := do
      let version ← readInt16
      if version = 0 ∨ version = 1 then parseLegacyAssignment else parseCompactAssignment
    let (assignments, _) ← read (fromBytes raw)
    return assignments

/-! ## The assignors -/

/-- The assignments of the members: `map[string][]TopicPartitionAssignment`. -/
abbrev ByMember := AList fun _ : Bytes => List TopicPartitionAssignment

/-- The loop of `appendTopicParts`. -/
def addTopicParts (topic : Bytes) (parts : List Int32) :
    List TopicPartitionAssignment → List TopicPartitionAssignment
  | [] => [{ topic := topic, partitions := parts }]
  | a :: assignments =>
    if a.topic = topic then { a with partitions := a.partitions ++ parts } :: assignments
    else a :: addTopicParts topic parts assignments

def appendTopicParts (byMember : ByMember) (memberID topic : Bytes) (parts : List Int32) :
    ByMember :=
  byMember.insert memberID (addTopicParts topic parts ((byMember.lookup memberID).getD []))

/-- The loop of `assignRange` from a member on, with the partitions from `idx` on. -/
def assignRangeLoop (topic : Bytes) (per extra : Nat) :
    Nat → List Int32 → List Bytes → ByMember → ByMember
  | _, _, [], byMember => byMember
  | i, parts, mid :: members, byMember =>
    let count := if i < extra then per + 1 else per
    if count = 0 then assignRangeLoop topic per extra (i + 1) parts members byMember
    else
      assignRangeLoop topic per extra (i + 1) (parts.drop count) members
        (appendTopicParts byMember mid topic (parts.take count))

def assignRange (topic : Bytes) (parts : List Int32) (members : List Bytes) (byMember : ByMember) :
    ByMember :=
  if members = [] then byMember
  else
    assignRangeLoop topic (parts.length / members.length) (parts.length % members.length) 0 parts
      members byMember

/-- The second loop of `assignRoundRobin`. -/
def appendBuckets (topic : Bytes) : List (Bytes × List Int32) → ByMember → ByMember
  | [], byMember => byMember
  | (mid, bucket) :: rest, byMember =>
    appendBuckets topic rest
      (if 0 < bucket.length then appendTopicParts byMember mid topic bucket else byMember)

def assignRoundRobin (topic : Bytes) (parts : List Int32) (members : List Bytes)
    (byMember : ByMember) : ByMember :=
  if members = [] then byMember
  else
    let bs := buckets members.length 0 parts (List.replicate members.length [])
    appendBuckets topic (members.zip bs) byMember

def stickyTopicCount (assignments : List TopicPartitionAssignment) (topic : Bytes) : Nat :=
  match assignments.find? (·.topic = topic) with
  | some a => a.partitions.length
  | none => 0

/-- `stickyPickMember`, with the first member apart. The counts are a map with default 0. -/
def stickyPickMember (counts : Bytes → Nat) (first : Bytes) (rest : List Bytes) : Bytes :=
  leastLoaded counts first rest

/-- The last loop of `assignSticky`. -/
def assignStickyLoop (topic first : Bytes) (members : List Bytes) :
    (Bytes → Nat) → List Int32 → ByMember → ByMember
  | _, [], byMember => byMember
  | counts, p :: parts, byMember =>
    let mid := stickyPickMember counts first members
    assignStickyLoop topic first members (Function.update counts mid (counts mid + 1)) parts
      (appendTopicParts byMember mid topic [p])

/-- `sort.Strings`, and `sort.Slice` with `<` on numbers. -/
def sortAsc {α : Type} [LE α] [DecidableLE α] (l : List α) : List α := l.insertionSort (· ≤ ·)

def assignSticky (topic : Bytes) (parts : List Int32) (members : List Bytes) (byMember : ByMember) :
    ByMember :=
  match members with
  | [] => byMember
  | first :: rest =>
    let counts := fun mid =>
      if mid ∈ members then stickyTopicCount ((byMember.lookup mid).getD []) topic else 0
    assignStickyLoop topic first rest counts (sortAsc parts) byMember

/-- The assignor a protocol name selects. -/
def assignTopic (protocolName : String) :
    Bytes → List Int32 → List Bytes → ByMember → ByMember :=
  if protocolName = "roundrobin" then assignRoundRobin
  else if protocolName = "sticky" ∨ protocolName = "cooperative-sticky" then assignSticky
  else assignRange

/-- The loop of `ComputeGroupAssignments` over the topics, each with the members subscribed to
it. -/
def assignTopics (protocolName : String)
    (topicMembers : AList fun _ : Bytes => List (Bytes × Bytes))
    (topicPartitions : AList fun _ : Bytes => List Int32) : List Bytes → ByMember → ByMember
  | [], byMember => byMember
  | topic :: topics, byMember =>
    let mids := sortAsc (((topicMembers.lookup topic).getD []).map (·.2))
    let parts := (topicPartitions.lookup topic).getD []
    assignTopics protocolName topicMembers topicPartitions topics
      (if parts = [] then byMember
        else assignTopic protocolName topic (sortAsc parts) mids byMember)

/-- The loop that encodes the members' assignments. -/
def encodeMembers : List (Sigma fun _ : Bytes => List TopicPartitionAssignment) →
    Except Error (AList fun _ : Bytes => Bytes)
  | [] => .ok ∅
  | ⟨mid, a⟩ :: rest => do
    let raw ← encodeMemberAssignment a
    let out ← encodeMembers rest
    return out.insert mid raw

/-- The subscriptions as pairs of a topic and a member, in the order of the two loops. -/
def subscriptions (members : List MemberSubscription) : List (Bytes × Bytes) :=
  members.flatMap fun m => m.topics.map fun t => (t, m.memberID)

/-- The body of `ComputeGroupAssignments` up to the encoding. -/
def assignMembers (order : MapOrder Bytes) (protocolName : String)
    (members : List MemberSubscription) (topicPartitions : AList fun _ : Bytes => List Int32) :
    ByMember :=
  let sorted := members.insertionSort (·.memberID ≤ ·.memberID)
  let byMember := index (·.memberID) (fun _ => []) sorted
  let topicMembers := group (·.1) (subscriptions sorted)
  assignTopics protocolName topicMembers topicPartitions (order.keys topicMembers) byMember

def computeGroupAssignments (order : MapOrder Bytes) (protocolName : String)
    (members : List MemberSubscription) (topicPartitions : AList fun _ : Bytes => List Int32) :
    Except Error (AList fun _ : Bytes => Bytes) :=
  if members = [] then .ok ∅
  else encodeMembers (assignMembers order protocolName members topicPartitions).entries

/-! ## The bytes are read back -/

/-- The sizes of an assignment are what the length fields can hold. -/
structure Fits (assignments : List TopicPartitionAssignment) : Prop where
  count : assignments.length < 2 ^ 31
  topics : ∀ a ∈ assignments, a.topic.length ≤ maxInt16
  partitions : ∀ a ∈ assignments, a.partitions.length < 2 ^ 31

/-- The partitions of a topic are read back. -/
theorem consumes_topicAssignment (htopic : a.topic.length ≤ maxInt16)
    (hparts : a.partitions.length < 2 ^ 31) :
    ∃ raw, encodeTopicAssignment a = .ok raw ∧ Consumes parseLegacyTopic raw a := by
  refine ⟨_, bind_eq_ok.2 ⟨_, writeString_eq htopic, rfl⟩, ?_⟩
  rw [append_assoc]
  refine (consumes_readString_stringBytes htopic).bind ?_
  refine (consumes_readInt32 _).bind ?_
  rw [toNat_ofNat_int32 hparts]
  exact (Consumes.readN fun v _ => consumes_readInt32 v).map fun parts =>
    ({ topic := a.topic, partitions := parts } : TopicPartitionAssignment)

variable {assignments : List TopicPartitionAssignment}

/-- The topics of an assignment are read back one after the other. -/
theorem consumes_topicAssignments (htopics : ∀ a ∈ assignments, a.topic.length ≤ maxInt16)
    (hparts : ∀ a ∈ assignments, a.partitions.length < 2 ^ 31) :
    ∃ raws, assignments.mapM encodeTopicAssignment = .ok raws ∧
      Consumes (readN parseLegacyTopic assignments.length) raws.flatten assignments := by
  induction assignments with
  | nil => exact ⟨[], rfl, Consumes.pure []⟩
  | cons a assignments ih =>
    have ⟨raw, hraw, hread⟩ :=
      consumes_topicAssignment (htopics a mem_cons_self) (hparts a mem_cons_self)
    have ⟨raws, hraws, hreads⟩ := ih (fun b hb => htopics b (mem_cons_of_mem _ hb))
      fun b hb => hparts b (mem_cons_of_mem _ hb)
    refine ⟨raw :: raws, ?_, hread.bind (hreads.map (a :: ·))⟩
    rw [mapM_cons]
    exact bind_eq_ok.2 ⟨raw, hraw, bind_eq_ok.2 ⟨raws, hraws, rfl⟩⟩

/-- The sections of a legacy assignment decide what is parsed; bytes after them are ignored. -/
theorem parseMemberAssignment_legacy
    (h : Consumes (readN parseLegacyTopic n.toInt.toNat) raw assignments) (rest : Bytes) :
    parseMemberAssignment (writeInt16 0 ++ (writeInt32 n ++ raw) ++ rest) = .ok assignments := by
  have hread : Consumes (do
      let version ← readInt16
      if version = 0 ∨ version = 1 then parseLegacyAssignment else parseCompactAssignment)
      (writeInt16 0 ++ (writeInt32 n ++ raw)) assignments := by
    refine (consumes_readInt16).bind ?_
    exact (consumes_readInt32 _).bind h
  exact bind_eq_ok.2
    ⟨_, hread (fromBytes _) rest (Cursor.valid_start _) (by simp [fromBytes, Cursor.rest]), rfl⟩

/-- An assignment within the limits of the layout is parsed to itself. -/
theorem parseMemberAssignment_encode (h : Fits assignments) :
    ∃ raw, encodeMemberAssignment assignments = .ok raw ∧
      parseMemberAssignment raw = .ok assignments := by
  have ⟨raws, hraws, hreads⟩ := consumes_topicAssignments h.topics h.partitions
  refine ⟨_, bind_eq_ok.2 ⟨raws, hraws, rfl⟩, ?_⟩
  rw [← toNat_ofNat_int32 h.count] at hreads
  have hparse := parseMemberAssignment_legacy hreads []
  rwa [append_nil, ← append_assoc] at hparse

/-! ## Sizes -/

/-- The size of an assignment on the wire. -/
def assignmentSize (assignments : List TopicPartitionAssignment) : Nat :=
  6 + (assignments.map fun a => 6 + a.topic.length + 4 * a.partitions.length).sum

/-- The bytes a topic takes. -/
theorem length_encodeTopicAssignment (h : encodeTopicAssignment a = .ok raw) :
    raw.length = 6 + a.topic.length + 4 * a.partitions.length := by
  obtain ⟨topic, htopic, h⟩ := bind_eq_ok.1 h
  cases h
  rw [writeString] at htopic
  split_ifs at htopic
  cases htopic
  simp
  omega

/-- The bytes an assignment takes. -/
theorem length_encodeMemberAssignment (h : encodeMemberAssignment assignments = .ok raw) :
    raw.length = assignmentSize assignments := by
  obtain ⟨topics, htopics, h⟩ := bind_eq_ok.1 h
  cases h
  have hlengths : assignments.map (fun a => 6 + a.topic.length + 4 * a.partitions.length) =
      topics.map List.length := by
    have hforall := (forall₂_of_mapM_ok htopics).imp fun a raw ha =>
      (length_encodeTopicAssignment ha).symm
    rwa [← forall₂_eq_eq_eq, forall₂_map_left_iff, forall₂_map_right_iff]
  simp only [assignmentSize, hlengths, length_append, length_writeInt16, length_writeInt32,
    length_flatten]

end GoKafka
