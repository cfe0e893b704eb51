import GoKafka.Broker.Cluster
import GoKafka.Wire.Flex

/-!
# Topics on the wire

The requests of `internal/protocol/groups.go` that create and delete topics, and the answer to a
Metadata request (`internal/protocol/metadata.go`). The request that creates topics is the legacy
one, whose strings have 16-bit lengths: a longer name ends in a panic (`writeString`).
-/

namespace GoKafka

open Assoc Reading

/-! ## Creating and deleting -/

structure TopicCreate where
  partitions : Int32
  replicationFactor : Int16 := 1
  configs : AList fun _ : Bytes => Bytes := ∅

/-- The orders of the loops over the topics of a request and over the configs of a topic. -/
structure TopicOrder where
  topics : MapOrder Bytes := ⟨id, Assoc.perm_id⟩
  configs : Bytes → MapOrder Bytes := fun _ => ⟨id, Assoc.perm_id⟩

/-- The entries of a map, in the order a loop visits them. -/
def orderedEntries {ν : Type} (order : MapOrder Bytes) (zero : ν) (m : AList fun _ : Bytes => ν) :
    List (Bytes × ν) :=
  (order.keys m).map fun k => (k, (m.lookup k).getD zero)

/-- A config of a topic. -/
def writeConfig (kv : Bytes × Bytes) : Except Error Bytes := do
  let k ← writeString kv.1
  let v ← writeString kv.2
  return k ++ v

/-- A topic of `encodeCreateTopicsRequestLegacy`. -/
def writeTopicCreate (order : TopicOrder) (t : Bytes × TopicCreate) : Except Error Bytes := do
  let name ← writeString t.1
  let configs ← (orderedEntries (order.configs t.1) [] t.2.configs).mapM writeConfig
  return name
    ++ (writeInt32 t.2.partitions
    ++ (writeInt16 t.2.replicationFactor
    ++ (writeInt32 0 -- assignments
    ++ (writeInt32 (Int32.ofNat t.2.configs.keys.length)
    ++ configs.flatten))))

def encodeCreateTopicsRequestLegacy (order : TopicOrder)
    (topics : AList fun _ : Bytes => TopicCreate) : Except Error Bytes := do
  let entries ← (orderedEntries order.topics { partitions := 0 } topics).mapM
    (writeTopicCreate order)
  return writeInt32 (Int32.ofNat topics.keys.length)
    ++ (entries.flatten
    ++ (writeInt32 5000 -- timeout_ms
    ++ writeInt8 0)) -- validate_only

/-- A topic of `EncodeDeleteTopicsRequest`: its name and a zero id. -/
def writeTopicDelete (name : Bytes) : Bytes :=
  writeCompactNullableString (some name)
    ++ (writeUUID (Vector.replicate 16 0)
    ++ writeEmptyTagSection)

def encodeDeleteTopicsRequest (version : Int16) (topics : List Bytes) : Bytes :=
  writeCompactArrayLen topics.length
    ++ (topics.flatMap (if version ≥ 6 then writeTopicDelete else writeCompactString)
    ++ (writeInt32 5000 -- timeout_ms
    ++ writeEmptyTagSection))

/-! ## Metadata -/

def readCompactInt32Array : Read (List Int32) := do
  let n ← readUvarint
  readN readInt32 (n - 1)

/-- A broker of a metadata answer. -/
def readBroker : Read Broker := do
  let nodeID ← readInt32
  let _host ← readCompactString
  let _port ← readInt32
  let _rack ← readCompactNullableString
  skipTagSection
  return { nodeID := nodeID }

/-- A partition of a metadata answer. -/
def readPartitionMeta (version : Int16) : Read PartitionMeta := do
  let _errorCode ← readInt16
  let partID ← readInt32
  let leader ← readInt32
  let leaderEpoch ← if version ≥ 7 then readInt32 else pure (-1)
  let _replicas ← readCompactInt32Array
  let _isr ← readCompactInt32Array
  let _offline ← readCompactInt32Array
  skipTagSection
  return { partition := partID, leader := leader, leaderEpoch := leaderEpoch }

/-- A topic of a metadata answer. -/
def readTopicMeta (version : Int16) : Read TopicMeta := do
  let _errorCode ← readInt16
  let name ← if version ≥ 12 then readCompactNullableString else readCompactString
  let topicID ← if version ≥ 10 then readUUID else pure (Vector.replicate 16 0)
  let _isInternal ← readInt8
  let nParts ← readUvarint
  let partitions ← readN (readPartitionMeta version) (nParts - 1)
  if version ≥ 8 then let _authorizedOperations ← readInt32
  skipTagSection
  return { name := name, topicID := topicID, partitions := partitions }

/-- The body of `decodeMetadataResponseFlex`. -/
def readMetadataResponse (version : Int16) : Read MetadataResponse := do
  let _throttleTimeMs ← readInt32
  let nBrokers ← readUvarint
  let brokers ← readN readBroker (nBrokers - 1)
  let _clusterID ← readCompactNullableString
  let _controller ← readInt32
  let nTopics ← readUvarint
  let topics ← readN (readTopicMeta version) (nTopics - 1)
  if version ≥ 8 ∧ version ≤ 10 then let _authorizedOperations ← readInt32
  if version ≥ 13 then let _errorCode ← readInt16
  skipTagSection
  return { brokers := brokers, topics := topics }

def decodeMetadataResponseFlex (version : Int16) (body : Bytes) : Except Error MetadataResponse :=
  Prod.fst <$> readMetadataResponse version (fromBytes body)

/-! ## The request that creates topics -/

section Entries

variable {ν : Type} {m : AList fun _ : Bytes => ν}

theorem lookup_of_mem_orderedEntries (h : kv ∈ orderedEntries order zero m) :
    m.lookup kv.1 = some kv.2 := by
  obtain ⟨k, hk, rfl⟩ := List.mem_map.1 h
  obtain ⟨v, hv⟩ := Option.isSome_iff_exists.1 (AList.lookup_isSome.2 (order.mem_keys.1 hk))
  rw [hv, Option.getD_some]

theorem length_orderedEntries : (orderedEntries order zero m).length = m.keys.length := by
  rw [orderedEntries, List.length_map, MapOrder.keys, (order.perm _).length_eq]

/-- The entry that a loop finds under a key is the map's. -/
theorem find?_orderedEntries :
    ((orderedEntries order zero m).find? (·.1 = k)).map Prod.snd = m.lookup k := by
  cases hfind : (orderedEntries order zero m).find? (·.1 = k) with
  | none =>
    symm
    refine AList.lookup_eq_none.2 fun hmem => ?_
    have hnone := List.find?_eq_none.1 hfind (k, (m.lookup k).getD zero)
      (List.mem_map.2 ⟨k, order.mem_keys.2 hmem, rfl⟩)
    exact hnone (decide_eq_true rfl)
  | some kv =>
    have hk : kv.1 = k := by simpa using List.find?_some hfind
    rw [← hk, lookup_of_mem_orderedEntries (List.mem_of_find?_eq_some hfind)]
    rfl

end Entries

/-- A topic of a request whose strings fit. -/
def topicCreateBytes (order : TopicOrder) (t : Bytes × TopicCreate) : Bytes :=
  stringBytes t.1 ++ (writeInt32 t.2.partitions ++ (writeInt16 t.2.replicationFactor
    ++ (writeInt32 0 ++ (writeInt32 (Int32.ofNat t.2.configs.keys.length)
    ++ (orderedEntries (order.configs t.1) [] t.2.configs).flatMap fun kv =>
      stringBytes kv.1 ++ stringBytes kv.2))))

/-- The sizes of a request that creates topics are what its length fields can hold; a partition
count is what the length prefix of a metadata answer can hold. -/
structure CreateFits (topics : AList fun _ : Bytes => TopicCreate) : Prop where
  count : topics.keys.length < 2 ^ 31
  names : ∀ name ∈ topics, name.length ≤ maxInt16
  partitions : ∀ name cfg, topics.lookup name = some cfg → cfg.partitions.toInt + 1 < 2 ^ 29
  configCount : ∀ name cfg, topics.lookup name = some cfg → cfg.configs.keys.length < 2 ^ 31
  configs : ∀ name cfg, topics.lookup name = some cfg → ∀ k v, cfg.configs.lookup k = some v →
    k.length ≤ maxInt16 ∧ v.length ≤ maxInt16

theorem encodeCreateTopicsRequestLegacy_eq (h : CreateFits topics) :
    encodeCreateTopicsRequestLegacy order topics =
      .ok (writeInt32 (Int32.ofNat topics.keys.length)
        ++ ((orderedEntries order.topics { partitions := 0 } topics).flatMap
            (topicCreateBytes order)
        ++ (writeInt32 5000 ++ writeInt8 0))) := by
  have htopic : ∀ t ∈ orderedEntries order.topics { partitions := 0 } topics,
      writeTopicCreate order t = .ok (topicCreateBytes order t) := by
    intro t ht
    have hlookup := lookup_of_mem_orderedEntries ht
    have hconfigs : (orderedEntries (order.configs t.1) [] t.2.configs).mapM writeConfig =
        .ok ((orderedEntries (order.configs t.1) [] t.2.configs).map fun kv =>
          stringBytes kv.1 ++ stringBytes kv.2) := by
      refine mapM_eq_ok fun kv hkv => ?_
      obtain ⟨hk, hv⟩ := h.configs _ _ hlookup _ _ (lookup_of_mem_orderedEntries hkv)
      exact bind_eq_ok.2 ⟨_, writeString_eq hk, bind_eq_ok.2 ⟨_, writeString_eq hv, rfl⟩⟩
    refine bind_eq_ok.2 ⟨_, writeString_eq (h.names _ ?_), bind_eq_ok.2 ⟨_, hconfigs, ?_⟩⟩
    · exact AList.lookup_isSome.1 (by rw [hlookup]; rfl)
    · rfl
  refine bind_eq_ok.2 ⟨_, mapM_eq_ok htopic, ?_⟩
  rfl

end GoKafka
