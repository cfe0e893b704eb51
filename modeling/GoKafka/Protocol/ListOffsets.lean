import GoKafka.Lib.Assoc
import GoKafka.Record
import GoKafka.Wire.Flex

/-!
# Listing offsets on the wire

The request of `internal/protocol/offsets.go` that asks for the offsets of partitions by timestamp,
and the answer to it. The version is fixed below the flexible ones, so that the legacy layout is the
one in use. A request can be written unless the name of a topic is too long
(`encodeListOffsetsRequest_ok_iff`); an answer lists whatever the broker puts into it.
-/

namespace GoKafka

open Assoc Reading

/-! ## The program -/

/-- `protocol.ListOffsetsPartition`: the timestamp is -2 for the earliest offset and -1 for the
latest. -/
structure ListOffsetsPartition where
  topic : Bytes
  partition : Int32
  timestamp : Int64
  deriving DecidableEq

/-- `protocol.PartitionOffset`: an entry of an answer. -/
structure ListedOffset where
  topic : Bytes
  partition : Int32
  offset : Int64
  errorCode : Int16 := 0
  deriving DecidableEq

abbrev ListOffsetsPartition.partKey (p : ListOffsetsPartition) : PartKey := ⟨p.topic, p.partition⟩
abbrev ListedOffset.partKey (o : ListedOffset) : PartKey := ⟨o.topic, o.partition⟩

def verListOffsets : Int16 := 3

/-- The partitions of a request by topic. -/
def listEntries (parts : List ListOffsetsPartition) : List (TopicEntries ListOffsetsPartition) :=
  let topics := group (·.topic) parts
  (firstKeys (·.topic) parts).map fun t => ⟨t, (topics.lookup t).getD []⟩

/-- A partition of a request. -/
def writeListPart (p : ListOffsetsPartition) : Bytes :=
  writeInt32 p.partition ++ writeInt64 p.timestamp

/-- A topic of a legacy request. -/
def writeListTopic (t : TopicEntries ListOffsetsPartition) : Except Error Bytes := do
  let name ← writeString t.topic
  return name ++ (writeInt32 (Int32.ofNat t.parts.length) ++ t.parts.flatMap writeListPart)

def encodeListOffsetsRequestLegacy (parts : List ListOffsetsPartition) (isolation : Int8) :
    Except Error Bytes := do
  let topics ← (listEntries parts).mapM writeListTopic
  return writeInt32 (-1)
    ++ ((if verListOffsets ≥ 2 then writeInt8 isolation else [])
    ++ (writeInt32 (Int32.ofNat topics.length) ++ topics.flatten))

/-- `encodeListOffsetsRequestFlex`, whose topics end without tagged fields. -/
def encodeListOffsetsRequestFlex (parts : List ListOffsetsPartition) (isolation : Int8) : Bytes :=
  writeInt32 (-1)
    ++ (writeInt8 isolation
    ++ (writeCompactArrayLen (listEntries parts).length
    ++ (((listEntries parts).flatMap fun t => writeCompactString t.topic
      ++ (writeCompactArrayLen t.parts.length
      ++ t.parts.flatMap fun p => writeListPart p ++ writeEmptyTagSection))
    ++ writeEmptyTagSection)))

def encodeListOffsetsRequest (parts : List ListOffsetsPartition) (isolation : Int8) :
    Except Error Bytes :=
  if verListOffsets ≥ 6 then .ok (encodeListOffsetsRequestFlex parts isolation)
  else encodeListOffsetsRequestLegacy parts isolation

/-- A partition of an answer. -/
def readListedOffset (topic : Bytes) : Read ListedOffset := do
  let part ← readInt32
  let errCode ← readInt16
  let _ts ← readInt64
  let off ← readInt64
  return { topic := topic, partition := part, offset := off, errorCode := errCode }

/-- A topic of a legacy answer. -/
def readListedTopic : Read (List ListedOffset) := do
  let topic ← readString
  let nParts ← readInt32
  readN (readListedOffset topic) nParts.toInt.toNat

/-- The body of `decodeListOffsetsResponseLegacy`. -/
def readListOffsetsLegacy : Read (List ListedOffset) := do
  let _throttleTimeMs ← readInt32
  let nTopics ← readInt32
  let ts ← readN readListedTopic nTopics.toInt.toNat
  return ts.flatten

/-- The body of `decodeListOffsetsResponseFlex`, whose topics end without tagged fields. -/
def readListOffsetsFlex : Read (List ListedOffset) := do
  let _throttleTimeMs ← readInt32
  let ts ← readTopics readCompactString (pure ()) fun topic => do
    let o ← readListedOffset topic
    skipTagSection
    return o
  skipTagSection
  return ts.flatMap (·.parts)

def decodeListOffsetsResponse (body : Bytes) : Except Error (List ListedOffset) :=
  Prod.fst <$> (if verListOffsets ≥ 6 then readListOffsetsFlex else readListOffsetsLegacy)
    (fromBytes body)

/-! ## Requests and answers -/

theorem encodeListOffsetsRequest_ok_iff {parts : List ListOffsetsPartition} {isolation : Int8} :
    (∃ body, encodeListOffsetsRequest parts isolation = .ok body) ↔
      ∀ p ∈ parts, p.topic.length ≤ maxInt16 := by
  have htopics : ∀ topic, (∃ t ∈ listEntries parts, t.topic = topic) ↔
      topic ∈ parts.map (·.topic) := by
    intro topic
    rw [← mem_firstKeys, listEntries]
    simp
  constructor
  · rintro ⟨body, hbody⟩ p hp
    obtain ⟨topics, hmap, -⟩ := bind_eq_ok.1 hbody
    obtain ⟨t, ht, htopic⟩ := (htopics p.topic).2 (List.mem_map_of_mem hp)
    obtain ⟨w, -, hw⟩ := forall₂_exists_left (forall₂_of_mapM_ok hmap).flip ht
    obtain ⟨name, hname, -⟩ := bind_eq_ok.1 hw
    rw [writeString] at hname
    split_ifs at hname with hlong
    rw [← htopic]
    exact Nat.le_of_not_lt hlong
  · intro hfit
    have hwrite : ∀ t ∈ listEntries parts, writeListTopic t =
        .ok (stringBytes t.topic ++ (writeInt32 (Int32.ofNat t.parts.length) ++
          t.parts.flatMap writeListPart)) := by
      intro t ht
      obtain ⟨p, hp, hp'⟩ := List.mem_map.1 ((htopics t.topic).1 ⟨t, ht, rfl⟩)
      rw [writeListTopic, writeString_eq (hp' ▸ hfit p hp)]
      rfl
    exact ⟨_, bind_eq_ok.2 ⟨_, mapM_eq_ok hwrite, rfl⟩⟩

theorem isRetriable_of_encodeListOffsetsRequest_error
    (h : encodeListOffsetsRequest parts isolation = .error e) : isRetriable e = false := by
  have hlegacy : encodeListOffsetsRequestLegacy parts isolation = .error e := h
  rw [encodeListOffsetsRequestLegacy] at hlegacy
  cases htopics : (listEntries parts).mapM writeListTopic with
  | ok topics =>
    rw [htopics] at hlegacy
    cases hlegacy
  | error e' =>
    rw [htopics] at hlegacy
    cases hlegacy
    obtain ⟨t, -, ht⟩ := exists_of_mapM_error htopics
    rw [writeListTopic, writeString] at ht
    split_ifs at ht
    · cases ht
      rfl
    · cases ht

/-- A partition of an answer as a broker writes it. -/
def writeListedOffset (o : ListedOffset) : Bytes :=
  writeInt32 o.partition ++ (writeInt16 o.errorCode ++ (writeInt64 (-1) ++ writeInt64 o.offset))

/-- An answer of a broker, with a topic for each of its entries. -/
def writeListOffsetsResponse (offs : List ListedOffset) : Bytes :=
  writeInt32 0 ++ (writeInt32 (Int32.ofNat offs.length) ++ offs.flatMap fun o =>
    stringBytes o.topic ++ (writeInt32 1 ++ writeListedOffset o))

end GoKafka
