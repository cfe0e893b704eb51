import GoKafka.Lib.Assoc
import GoKafka.Record
import GoKafka.Wire.Flex

/-!
# Committed offsets on the wire

The flexible requests of `internal/protocol/groups.go` and `offsets.go` that commit and fetch the
offsets of a group, and the answer to the second. A commit is written from a map of maps, in any
order of the two loops (`OffsetOrder`); `lookup_index_commitPairs` says that the entries written are
the map's. A fetch groups its partitions by topic: `fetchEntries_perm` says that no partition is
lost or added. A batched fetch asks for several groups, and each group of the answer has an error
code of its own, which the decoder drops.
-/

namespace GoKafka

open Assoc Reading List

/-! ## Offsets by topic and partition -/

/-- `map[string]map[int32]int64`. -/
abbrev OffsetMap := AList fun _ : Bytes => AList fun _ : Int32 => Int64

/-- The offset of a partition. -/
def OffsetMap.offset (m : OffsetMap) (k : PartKey) : Option Int64 :=
  (m.lookup k.topic).bind (·.lookup k.part)

/-- The assignment `m[topic][part] = off`, which makes the inner map when there is none. -/
def OffsetMap.set (m : OffsetMap) (k : PartKey) (off : Int64) : OffsetMap :=
  m.insert k.topic (((m.lookup k.topic).getD ∅).insert k.part off)

theorem OffsetMap.offset_set (m : OffsetMap) :
    (m.set k off).offset k' = if k' = k then some off else m.offset k' := by
  obtain ⟨topic, part⟩ := k
  obtain ⟨topic', part'⟩ := k'
  simp only [OffsetMap.offset, OffsetMap.set, PartKey.mk.injEq]
  by_cases htopic : topic' = topic
  · subst htopic
    rw [AList.lookup_insert, Option.bind_some]
    by_cases hpart : part' = part
    · subst hpart
      rw [AList.lookup_insert, if_pos ⟨rfl, rfl⟩]
    · rw [AList.lookup_insert_ne hpart, if_neg fun h => hpart h.2]
      cases m.lookup topic' with
      | none => rfl
      | some parts => rfl
  · rw [AList.lookup_insert_ne htopic, if_neg fun h => htopic h.1]

/-! ## The program -/

/-- The orders of the loops over the topics of a map and over the partitions of a topic. -/
structure OffsetOrder where
  topics : MapOrder Bytes := ⟨id, Assoc.perm_id⟩
  parts : Bytes → MapOrder Int32 := fun _ => ⟨id, Assoc.perm_id⟩

/-- The topics of a commit with their partitions and offsets, as the loops visit them. -/
def commitEntries (order : OffsetOrder) (offsets : OffsetMap) :
    List (TopicEntries (Int32 × Int64)) :=
  (order.topics.keys offsets).map fun topic =>
    let parts := (offsets.lookup topic).getD ∅
    ⟨topic, ((order.parts topic).keys parts).map fun part => (part, (parts.lookup part).getD 0)⟩

/-- A partition of a commit. -/
def writeCommitPart (ver : Int16) (p : Int32 × Int64) : Bytes :=
  writeInt32 p.1
    ++ (writeInt64 p.2
    ++ ((if ver ≥ 6 then writeInt32 (-1) else []) -- committed_leader_epoch
    ++ (writeCompactNullableString none -- metadata
    ++ writeEmptyTagSection)))

/-- The group instance id of a commit: an empty one is null. -/
def writeGroupInstanceID (groupInstanceID : Bytes) : Bytes :=
  if groupInstanceID = [] then writeUvarint 0 else writeCompactString groupInstanceID

def encodeOffsetCommitRequestFlex (ver : Int16) (group memberID groupInstanceID : Bytes)
    (generation : Int32) (order : OffsetOrder) (offsets : OffsetMap) : Bytes :=
  writeCompactString group
    ++ (writeInt32 generation
    ++ (writeCompactString memberID
    ++ ((if ver ≥ 7 then writeGroupInstanceID groupInstanceID else [])
    ++ (writeTopics (writeCommitPart ver) (commitEntries order offsets)
    ++ writeEmptyTagSection))))

/-- The partitions of a fetch by topic. -/
def fetchEntries (parts : List PartKey) : List (TopicEntries Int32) :=
  let topics := group (·.topic) parts
  (firstKeys (·.topic) parts).map fun t => ⟨t, ((topics.lookup t).getD []).map (·.part)⟩

def encodeOffsetFetchRequestFlex (ver : Int16) (group : Bytes) (parts : List PartKey)
    (requireStable : Bool) : Bytes :=
  writeCompactString group
    ++ (writeTopics writeInt32 (fetchEntries parts)
    ++ ((if ver ≥ 7 then writeInt8 (if requireStable then 1 else 0) else [])
    ++ writeEmptyTagSection))

structure CommittedOffset where
  topic : Bytes
  partition : Int32
  offset : Int64
  errorCode : Int16 := 0
  deriving DecidableEq

abbrev CommittedOffset.partKey (co : CommittedOffset) : PartKey := ⟨co.topic, co.partition⟩

/-- A partition of the answer to a fetch. -/
def readCommittedOffset (topic : Bytes) : Read CommittedOffset := do
  let part ← readInt32
  let off ← readInt64
  let _leaderEpoch ← readInt32
  let _meta ← readCompactNullableString
  let errCode ← readInt16
  skipTagSection
  return { topic := topic, partition := part, offset := off, errorCode := errCode }

/-- The body of `decodeOffsetFetchResponseFlex`. -/
def readOffsetFetchResponse : Read (List CommittedOffset) := do
  let _throttleTimeMs ← readInt32
  let ts ← readTopics readCompactString skipTagSection readCommittedOffset
  let _errorCode ← readInt16
  skipTagSection
  return ts.flatMap (·.parts)

def decodeOffsetFetchResponseFlex (body : Bytes) : Except Error (List CommittedOffset) :=
  Prod.fst <$> readOffsetFetchResponse (fromBytes body)

/-! ## Several groups -/

/-- A group of a batched fetch: without partitions it asks for all topics. -/
def writeFetchGroup (group : Bytes) (parts : List PartKey) : Bytes :=
  writeCompactString group
    ++ ((if parts = [] then writeUvarint 0 else writeTopics writeInt32 (fetchEntries parts))
    ++ writeEmptyTagSection)

/-- `EncodeOffsetFetchMultiGroupRequest`, which asks for offsets that may be unstable. -/
def encodeOffsetFetchMultiGroupRequest (order : MapOrder Bytes)
    (partitionsByGroup : AList fun _ : Bytes => List PartKey) : Bytes :=
  writeCompactArrayLen partitionsByGroup.keys.length
    ++ (((order.keys partitionsByGroup).flatMap fun g =>
      writeFetchGroup g ((partitionsByGroup.lookup g).getD []))
    ++ (writeInt8 0 ++ writeEmptyTagSection))

/-- A group of the answer to a batched fetch, with its error code. -/
structure FetchedGroup where
  group : Bytes
  offsets : List CommittedOffset
  errorCode : Int16 := 0
  deriving DecidableEq

def readFetchedGroup : Read FetchedGroup := do
  let group ← readCompactString
  let ts ← readTopics readCompactString skipTagSection readCommittedOffset
  let errorCode ← readInt16
  skipTagSection
  return ⟨group, ts.flatMap (·.parts), errorCode⟩

def readOffsetFetchGroups : Read (List FetchedGroup) := do
  let _throttleTimeMs ← readInt32
  let nGroups ← readUvarint
  let groups ← readN readFetchedGroup (nGroups - 1)
  skipTagSection
  return groups

/-- The groups of an answer to a batched fetch. -/
def decodeOffsetFetchGroups (body : Bytes) : Except Error (List FetchedGroup) :=
  Prod.fst <$> readOffsetFetchGroups (fromBytes body)

/-- `DecodeOffsetFetchMultiGroupResponse`, which drops the error codes of the groups. -/
def decodeOffsetFetchMultiGroupResponse (body : Bytes) :
    Except Error (AList fun _ : Bytes => List CommittedOffset) :=
  index (·.group) (·.offsets) <$> decodeOffsetFetchGroups body

/-! ## What the requests list -/

/-- The partitions of a request, one after the other. -/
def commitPairs (ts : List (TopicEntries (Int32 × Int64))) : List (PartKey × Int64) :=
  ts.flatMap fun t => t.parts.map fun p => (⟨t.topic, p.1⟩, p.2)

/-- The sizes of a commit are what the reader's length prefixes can hold. -/
structure OffsetMap.Fits (m : OffsetMap) : Prop where
  count : m.keys.length + 1 < 2 ^ 29
  topic : ∀ t ∈ m, t.length + 1 < 2 ^ 29
  parts : ∀ t parts, m.lookup t = some parts → parts.keys.length + 1 < 2 ^ 29

/-- The grouped entries fit the wire in every order of the map. -/
theorem topicsFit_commitEntries (h : offsets.Fits) (order : OffsetOrder) :
    TopicsFit (commitEntries order offsets) := by
  refine ⟨?_, fun t ht => ?_, fun t ht => ?_⟩
  · rw [commitEntries, length_map, MapOrder.keys, (order.topics.perm _).length_eq]
    exact h.count
  · obtain ⟨topic, htopic, rfl⟩ := mem_map.1 ht
    exact h.topic topic (order.topics.mem_keys.1 htopic)
  · obtain ⟨topic, htopic, rfl⟩ := mem_map.1 ht
    obtain ⟨parts, hparts⟩ := Option.isSome_iff_exists.1
      (AList.lookup_isSome.2 (order.topics.mem_keys.1 htopic))
    rw [length_map, MapOrder.keys, ((order.parts topic).perm _).length_eq, hparts]
    exact h.parts topic parts hparts

/-- The pairs sent are the entries of the map. -/
theorem mem_commitPairs :
    (k, off) ∈ commitPairs (commitEntries order offsets) ↔ offsets.offset k = some off := by
  have hlookup : ∀ {ν : Type} {m : AList fun _ : Int32 => ν} {p : Int32} {v v' : ν}, p ∈ m →
      (m.lookup p).getD v' = v → m.lookup p = some v := by
    intro ν m p v v' hp hv
    obtain ⟨w, hw⟩ := Option.isSome_iff_exists.1 (AList.lookup_isSome.2 hp)
    rw [hw, Option.getD_some] at hv
    rw [hw, hv]
  rw [commitPairs, commitEntries, flatMap_map]
  constructor
  · intro hmem
    obtain ⟨topic, htopic, hmem⟩ := mem_flatMap.1 hmem
    obtain ⟨p, hp, heq⟩ := mem_map.1 hmem
    obtain ⟨part, hpart, rfl⟩ := mem_map.1 hp
    cases heq
    obtain ⟨parts, hparts⟩ := Option.isSome_iff_exists.1
      (AList.lookup_isSome.2 (order.topics.mem_keys.1 htopic))
    rw [hparts, MapOrder.mem_keys] at hpart
    rw [OffsetMap.offset, hparts]
    exact hlookup hpart rfl
  · intro hoff
    obtain ⟨parts, hparts, hoff⟩ := Option.bind_eq_some_iff.1 hoff
    have htopic : k.topic ∈ offsets := AList.lookup_isSome.1 (by rw [hparts]; rfl)
    have hpart : k.part ∈ parts := AList.lookup_isSome.1 (by rw [hoff]; rfl)
    refine mem_flatMap.2 ⟨k.topic, order.topics.mem_keys.2 htopic, ?_⟩
    refine mem_map.2 ⟨(k.part, off), mem_map.2 ⟨k.part, ?_, ?_⟩, rfl⟩
    · rw [hparts]
      exact (order.parts k.topic).mem_keys.2 hpart
    · rw [hparts, Option.getD_some, hoff, Option.getD_some]

/-- Reading the pairs back as a map gives the map that was encoded. -/
theorem lookup_index_commitPairs :
    (index Prod.fst Prod.snd (commitPairs (commitEntries order offsets))).lookup k =
      offsets.offset k := by
  refine lookup_index_eq fun off => ?_
  rw [← mem_commitPairs]
  constructor
  · rintro ⟨⟨k', off'⟩, hmem, rfl, rfl⟩
    exact hmem
  · intro hmem
    exact ⟨(k, off), hmem, rfl, rfl⟩

/-- The partitions asked for are grouped by topic; none is lost or repeated. -/
theorem fetchEntries_perm (parts : List PartKey) :
    ((fetchEntries parts).flatMap fun t => t.parts.map (PartKey.mk t.topic)).Perm parts := by
  have hentries : ((fetchEntries parts).flatMap fun t => t.parts.map (PartKey.mk t.topic)) =
      (firstKeys (·.topic) parts).flatMap fun t => parts.filter (·.topic = t) := by
    unfold fetchEntries
    simp only [getD_lookup_group]
    rw [flatMap_map]
    refine flatMap_congr fun t _ => ?_
    rw [map_map]
    refine (map_congr_left fun k hk => ?_).trans (map_id _)
    obtain ⟨-, rfl⟩ := mem_filter.1 hk |>.imp_right of_decide_eq_true
    rfl
  rw [hentries]
  exact flatMap_filter_perm nodup_firstKeys fun k hk =>
    mem_firstKeys.2 (mem_map_of_mem hk)

end GoKafka
