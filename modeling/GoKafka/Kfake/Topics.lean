import GoKafka.Kfake.Broker
import GoKafka.Protocol.Topics

/-!
# The mock broker's topics

`kfake/admin.go` and `handleMetadata` of `kfake/apis.go`: topics are created (`handleCreateTopics`)
and deleted (`handleDeleteTopics`), and listed with their partitions (`handleMetadata`).

The catalogue refines a map from names to partition counts, which is given by the history of each
name alone (`topicAfter`). `catalogue_listed` says that a client that asks for metadata after any
sequence of requests is shown this map.
-/

namespace GoKafka.Kfake

open Assoc Reading List

/-! ## The program -/

def TopicBroker.deleteTopic (b : TopicBroker) (name : Bytes) : TopicBroker :=
  { b with
    topics := b.topics.erase name
    named := by
      intro name' ts h
      by_cases hname : name' = name
      · subst hname
        rw [AList.lookup_erase] at h
        cases h
      · rw [AList.lookup_erase_ne hname] at h
        exact b.named name' ts h }

def errTopicAlreadyExists : Int16 := 36

/-- An assignment of a topic that is created, which is ignored. -/
def readAssignment : Read (List Int32) := do
  let _partitionIndex ← readInt32
  let nb ← readInt32
  readN readInt32 nb.toInt.toNat

/-- A config of a topic that is created, which is ignored. -/
def readConfig : Read (Bytes × Bytes) := do
  let k ← readString
  let v ← readString
  return (k, v)

/-- The name and the number of partitions of a topic that is created. -/
def readTopicCreate : Read (Bytes × Int32) := do
  let name ← readString
  let parts ← readInt32
  let _replicationFactor ← readInt16
  let na ← readInt32
  let _assignments ← readN readAssignment na.toInt.toNat
  let nc ← readInt32
  let _configs ← readN readConfig nc.toInt.toNat
  return (name, parts)

/-- A topic that was read is created. -/
def TopicBroker.create (t : Bytes × Int32) (b : TopicBroker) : (Bytes × Int16) × TopicBroker :=
  let (created, b) := b.createTopic t.1 t.2
  ((t.1, if created then 0 else errTopicAlreadyExists), b)

/-- The parsing of `handleCreateTopics`, which creates each topic when it has read it. -/
def createHandler : Handler Error TopicBroker UInt8 (List (Bytes × Int16)) := do
  let n ← Handler.read readInt32
  if n < 0 then Handler.read (throw (.panic "runtime error: makeslice: cap out of range"))
  else
    handleN (do
      let t ← Handler.read readTopicCreate
      Handler.update (TopicBroker.create t)) n.toInt.toNat

/-- A topic of the answer of `handleCreateTopics`. -/
def writeCreateResult (r : Bytes × Int16) : Except Error Bytes := do
  let name ← writeString r.1
  return name ++ (writeInt16 r.2 ++ writeInt16 (-1)) -- error_message

def handleCreateTopics (b : TopicBroker) (body : Bytes) : Except Error Bytes × TopicBroker :=
  match createHandler (fromBytes body) b with
  | (.error e, b) => (.error e, b)
  | (.ok (results, _), b) =>
    (do
      let entries ← results.mapM writeCreateResult
      return writeInt32 0 ++ (writeInt32 (Int32.ofNat results.length) ++ entries.flatten), b)

/-- The parsing of `handleDeleteTopics`. -/
def readDeleteTopics : Read (List Bytes) := do
  let n ← readUvarint
  readN (do
    let name ← readCompactNullableString
    let _topicID ← readUUID
    skipTags
    return name) (n - 1)

/-- The answer of `handleDeleteTopics`: error code 0 for every name. -/
def writeDeleteResponse (names : List Bytes) : Bytes :=
  writeInt32 0
    ++ (writeCompactArrayLen names.length
    ++ (names.flatMap (fun name =>
      writeCompactString name ++ (writeInt16 0 ++ writeEmptyTagSection))
    ++ writeEmptyTagSection))

def handleDeleteTopics (b : TopicBroker) (body : Bytes) : Except Error Bytes × TopicBroker :=
  match readDeleteTopics (fromBytes body) with
  | .error e => (.error e, b)
  | .ok (names, _) => (.ok (writeDeleteResponse names), names.foldl TopicBroker.deleteTopic b)

/-- A partition in the answer of `handleMetadata`: the broker leads it and is its only replica. -/
def writePartitionMeta (nodeID : Int32) (p : Nat) : Bytes :=
  writeInt16 0 -- error_code
    ++ (writeInt32 (Int32.ofNat p)
    ++ (writeInt32 nodeID -- leader_id
    ++ (writeInt32 0 -- leader_epoch
    ++ ((writeCompactArrayLen 1 ++ writeInt32 nodeID) -- replicas
    ++ ((writeCompactArrayLen 1 ++ writeInt32 nodeID) -- isr
    ++ (writeCompactArrayLen 0 -- offline
    ++ writeEmptyTagSection))))))

/-- A topic in the answer of `handleMetadata`. -/
def writeTopicMeta (nodeID : Int32) (t : TopicState) : Bytes :=
  writeInt16 0 -- error_code
    ++ (writeCompactNullableString (some t.name)
    ++ (writeUUID t.id
    ++ (writeInt8 0 -- is_internal
    ++ (writeCompactArrayLen t.partitions.length
    ++ ((List.range t.partitions.length).flatMap (writePartitionMeta nodeID)
    ++ (writeInt32 0 -- topic_authorized_operations
    ++ writeEmptyTagSection))))))

/-- The topics of the store in the order a loop visits them. -/
def TopicBroker.states (b : TopicBroker) (order : MapOrder Bytes) : List TopicState :=
  (order.keys b.topics).filterMap b.topics.lookup

/-- The text `kfake-cluster`. -/
def clusterID : Bytes := [107, 102, 97, 107, 101, 45, 99, 108, 117, 115, 116, 101, 114]

/-- `handleMetadata`; it ignores the request. -/
def handleMetadata (order : MapOrder Bytes) (b : TopicBroker) : Bytes :=
  writeInt32 0 -- throttle_time_ms
    ++ (writeCompactArrayLen 1
    ++ ((writeInt32 b.nodeID ++ (writeCompactString b.host ++ (writeInt32 b.port
      ++ (writeCompactNullableString none ++ writeEmptyTagSection)))) -- the broker itself
    ++ (writeCompactNullableString (some clusterID)
    ++ (writeInt32 b.nodeID -- controller_id
    ++ (writeCompactArrayLen b.topics.keys.length
    ++ ((b.states order).flatMap (writeTopicMeta b.nodeID)
    ++ writeEmptyTagSection))))))

/-! ## What the client reads -/

/-- A topic as the client has it. -/
def TopicState.meta (nodeID : Int32) (t : TopicState) : TopicMeta where
  name := t.name
  topicID := t.id
  partitions := (List.range t.partitions.length).map fun p => ⟨Int32.ofNat p, nodeID, 0⟩

theorem consumes_readCompactInt32Array {vs : List Int32} (h : vs.length + 1 < 2 ^ 29) :
    Consumes readCompactInt32Array
      (writeCompactArrayLen vs.length ++ vs.flatMap writeInt32) vs := by
  refine (consumes_readUvarint_arrayLen h).bind ?_
  exact Consumes.readN fun v _ => consumes_readInt32 v

theorem consumes_readPartitionMeta :
    Consumes (readPartitionMeta 12) (writePartitionMeta nodeID p) ⟨Int32.ofNat p, nodeID, 0⟩ := by
  have hself : Consumes readCompactInt32Array (writeCompactArrayLen 1 ++ writeInt32 nodeID)
      [nodeID] := by
    simpa using @consumes_readCompactInt32Array [nodeID] (by simp)
  have hnone : Consumes readCompactInt32Array (writeCompactArrayLen 0) [] := by
    simpa using @consumes_readCompactInt32Array [] (by simp)
  exact (consumes_readInt16).bind <| (consumes_readInt32 _).bind <| (consumes_readInt32 _).bind <|
    (consumes_readInt32 0).bind <| hself.bind <| hself.bind <| hnone.bind <|
    consumes_skipTagSection_empty.map fun _ => (⟨Int32.ofNat p, nodeID, 0⟩ : PartitionMeta)

theorem consumes_readTopicMeta (hname : t.name.length + 1 < 2 ^ 29)
    (hparts : t.partitions.length + 1 < 2 ^ 29) :
    Consumes (readTopicMeta 12) (writeTopicMeta nodeID t) (t.meta nodeID) := by
  have hloop : Consumes (readN (readPartitionMeta 12) t.partitions.length)
      ((List.range t.partitions.length).flatMap (writePartitionMeta nodeID))
      (t.meta nodeID).partitions := by
    have hread := @Consumes.readN_map _ _ _ (readPartitionMeta 12) _ (writePartitionMeta nodeID)
      (fun p => ⟨Int32.ofNat p, nodeID, 0⟩) (List.range t.partitions.length)
      fun p _ => consumes_readPartitionMeta
    rwa [length_range] at hread
  refine (consumes_readInt16).bind ((consumes_readCompactNullableString hname).bind ?_)
  refine (consumes_readUUID).bind ((consumes_readInt8).bind ?_)
  refine (consumes_readUvarint_arrayLen hparts).bind ?_
  exact hloop.bind ((consumes_readInt32 0).bind (consumes_skipTagSection_empty.map _))

theorem TopicBroker.map_name_states (b : TopicBroker) :
    (b.states order).map (·.name) = order.keys b.topics := by
  have hname : ∀ name ∈ order.keys b.topics, (b.topics.lookup name).map (·.name) = some name := by
    intro name hmem
    obtain ⟨ts, hts⟩ := Option.isSome_iff_exists.1 (AList.lookup_isSome.2 (order.mem_keys.1 hmem))
    rw [hts, Option.map_some, b.named name ts hts]
  rw [states, map_filterMap, filterMap_congr hname, filterMap_some]

theorem TopicBroker.length_states (b : TopicBroker) :
    (b.states order).length = b.topics.keys.length := by
  rw [← length_map (f := TopicState.name), map_name_states, MapOrder.keys,
    (order.perm _).length_eq]

variable {b : TopicBroker}

theorem TopicBroker.mem_states : ts ∈ b.states order ↔ b.topics.lookup ts.name = some ts := by
  rw [states, mem_filterMap]
  constructor
  · rintro ⟨name, -, hlookup⟩
    rwa [b.named name ts hlookup]
  · intro hlookup
    exact ⟨ts.name, order.mem_keys.2 (AList.lookup_isSome.1 (by rw [hlookup]; rfl)), hlookup⟩

/-- The answer of `handleMetadata` is decoded to the topics of the store. -/
theorem decodeMetadataResponseFlex_handleMetadata (hcount : b.topics.keys.length + 1 < 2 ^ 29)
    (hfit : ∀ ts ∈ b.states order, ts.name.length + 1 < 2 ^ 29 ∧
      ts.partitions.length + 1 < 2 ^ 29) :
    decodeMetadataResponseFlex 12 (handleMetadata order b) =
      .ok { brokers := [⟨b.nodeID⟩], topics := (b.states order).map (·.meta b.nodeID) } := by
  have hbroker : Consumes readBroker (writeInt32 b.nodeID ++ (writeCompactString b.host
      ++ (writeInt32 b.port ++ (writeCompactNullableString none ++ writeEmptyTagSection))))
      ⟨b.nodeID⟩ :=
    (consumes_readInt32 _).bind <| (consumes_readCompactString b.host_length).bind <|
      (consumes_readInt32 _).bind <| consumes_readCompactNullableString_null.bind <|
      consumes_skipTagSection_empty.map _
  have hbrokers : Consumes (readN readBroker (1 + 1 - 1)) (writeInt32 b.nodeID
      ++ (writeCompactString b.host ++ (writeInt32 b.port
        ++ (writeCompactNullableString none ++ writeEmptyTagSection)))) [⟨b.nodeID⟩] := by
    have hread := hbroker.map fun broker => [broker]
    exact hread
  have htopics : Consumes (readN (readTopicMeta 12) b.topics.keys.length)
      ((b.states order).flatMap (writeTopicMeta b.nodeID))
      ((b.states order).map (·.meta b.nodeID)) := by
    rw [← b.length_states]
    exact Consumes.readN_map fun ts hts =>
      consumes_readTopicMeta (hfit ts hts).1 (hfit ts hts).2
  have hread : Consumes (readMetadataResponse 12) (handleMetadata order b)
      { brokers := [⟨b.nodeID⟩], topics := (b.states order).map (·.meta b.nodeID) } := by
    refine (consumes_readInt32 0).bind ?_
    refine (consumes_readUvarint_arrayLen (by decide)).bind (hbrokers.bind ?_)
    refine (consumes_readCompactNullableString (by decide)).bind ((consumes_readInt32 _).bind ?_)
    refine (consumes_readUvarint_arrayLen hcount).bind ?_
    exact htopics.bind (consumes_skipTagSection_empty.map _)
  exact hread.run

/-! ## Creating -/

/-- The number of partitions of a topic. -/
def TopicBroker.count (b : TopicBroker) (name : Bytes) : Option Nat :=
  (b.topics.lookup name).map (·.partitions.length)

/-- How many partitions a topic is created with: at least one. -/
def partitionCount (n : Int32) : Nat := max n.toInt.toNat 1

theorem toNat_partitions : (if n ≤ 0 then 1 else n).toInt.toNat = partitionCount n := by
  rw [partitionCount]
  split_ifs with hle
  · have hneg : n.toInt ≤ 0 := Int32.le_iff_toInt_le.1 hle
    rw [Int.toNat_of_nonpos hneg]
    rfl
  · have hpos : 0 < n.toInt := Int32.lt_iff_toInt_lt.1 (Int32.not_le.1 hle)
    omega

theorem TopicBroker.createTopic_of_mem (h : name ∈ b.topics) : b.createTopic name n = (false, b) :=
  if_pos h

theorem TopicBroker.topics_createTopic (h : name ∉ b.topics) :
    ∃ id, (b.createTopic name n).2.topics =
      b.topics.insert name ⟨name, id, List.replicate (partitionCount n) {}⟩ := by
  rw [createTopic, if_neg h, ← toNat_partitions]
  exact ⟨_, rfl⟩

theorem TopicBroker.count_createTopic :
    (b.createTopic name n).2.count name' =
      (b.count name').or (if name' = name then some (partitionCount n) else none) := by
  by_cases hmem : name ∈ b.topics
  · rw [createTopic_of_mem hmem]
    split_ifs with hname
    · obtain ⟨ts, hts⟩ := Option.isSome_iff_exists.1 (AList.lookup_isSome.2 hmem)
      rw [count, hname, hts]
      rfl
    · rw [Option.or_none]
  · obtain ⟨id, htopics⟩ := topics_createTopic hmem
    rw [count, count, htopics]
    split_ifs with hname
    · rw [hname, AList.lookup_insert, AList.lookup_eq_none.2 hmem]
      simp
    · rw [AList.lookup_insert_ne hname, Option.or_none]

theorem TopicBroker.count_deleteTopic :
    (b.deleteTopic name).count name' = if name' = name then none else b.count name' := by
  rw [count, deleteTopic]
  split_ifs with hname
  · rw [hname, AList.lookup_erase]
    rfl
  · rw [AList.lookup_erase_ne hname, count]

theorem TopicBroker.count_deleteTopics (names : List Bytes) :
    (names.foldl deleteTopic b).count name = if name ∈ names then none else b.count name := by
  induction names generalizing b with
  | nil => rfl
  | cons name' names ih =>
    rw [foldl_cons, ih, count_deleteTopic]
    by_cases hname : name ∈ names
    · rw [if_pos hname, if_pos (mem_cons_of_mem _ hname)]
    · rw [if_neg hname]
      simp only [mem_cons, hname, or_false]

/-- The step of a topic that is created. -/
def createStep (t : Bytes × TopicCreate) (b : TopicBroker) : (Bytes × Int16) × TopicBroker :=
  b.create (t.1, t.2.partitions)

theorem TopicBroker.count_createSteps (b : TopicBroker) :
    (runAll createStep ts b).2.count name = (b.count name).or
      (((ts.find? (·.1 = name)).map Prod.snd).map fun cfg => partitionCount cfg.partitions) := by
  induction ts generalizing b with
  | nil => rw [runAll, List.find?_nil, Option.map_none, Option.map_none, Option.or_none]
  | cons t ts ih =>
    have hstep : (createStep t b).2 = (b.createTopic t.1 t.2.partitions).2 := rfl
    refine (ih (createStep t b).2).trans ?_
    rw [hstep, count_createTopic]
    by_cases hname : name = t.1
    · simp [hname]
    · simp [hname, Ne.symm hname]

theorem createSteps_of_mem (h : ∀ t ∈ ts, t.1 ∈ b.topics) : (runAll createStep ts b).2 = b := by
  induction ts with
  | nil => rfl
  | cons t ts ih =>
    obtain ⟨ht, hts⟩ := forall_mem_cons.1 h
    have hstep : (createStep t b).2 = b := by
      rw [createStep, TopicBroker.create, TopicBroker.createTopic_of_mem ht]
    show (runAll createStep ts (createStep t b).2).2 = b
    rw [hstep, ih hts]

theorem map_fst_createSteps (b : TopicBroker) :
    (runAll createStep ts b).1.map Prod.fst = ts.map Prod.fst := by
  induction ts generalizing b with
  | nil => rfl
  | cons t ts ih => exact congrArg (t.1 :: ·) (ih (createStep t b).2)

theorem consumes_readTopicCreate (hname : t.1.length ≤ maxInt16)
    (hcount : t.2.configs.keys.length < 2 ^ 31)
    (hconfigs : ∀ k v, t.2.configs.lookup k = some v → k.length ≤ maxInt16 ∧ v.length ≤ maxInt16) :
    Consumes readTopicCreate (topicCreateBytes order t) (t.1, t.2.partitions) := by
  have hconfig : ∀ kv ∈ orderedEntries (order.configs t.1) [] t.2.configs,
      Consumes readConfig (stringBytes kv.1 ++ stringBytes kv.2) kv := by
    intro kv hkv
    obtain ⟨hk, hv⟩ := hconfigs _ _ (lookup_of_mem_orderedEntries hkv)
    exact (consumes_readString_stringBytes hk).bind
      ((consumes_readString_stringBytes hv).map fun v => (kv.1, v))
  have hloop := Consumes.readN hconfig
  rw [length_orderedEntries, ← toNat_ofNat_int32 hcount] at hloop
  have hnone : Consumes (readN readAssignment (0 : Int32).toInt.toNat) [] [] := Consumes.pure []
  exact (consumes_readString_stringBytes hname).bind <| (consumes_readInt32 _).bind <|
    (consumes_readInt16).bind <| (consumes_readInt32 0).bind <| hnone.bind <|
    (consumes_readInt32 _).bind <| hloop.map fun _ => (t.1, t.2.partitions)

theorem handleCreateTopics_encode (h : CreateFits topics) :
    ∃ body answer, encodeCreateTopicsRequestLegacy order topics = .ok body ∧
      handleCreateTopics b body = (.ok answer,
        (runAll createStep (orderedEntries order.topics { partitions := 0 } topics) b).2) := by
  have hlength : (orderedEntries order.topics { partitions := 0 } topics).length =
      topics.keys.length := length_orderedEntries
  have hentry : ∀ t ∈ orderedEntries order.topics { partitions := 0 } topics,
      topics.lookup t.1 = some t.2 := fun t => lookup_of_mem_orderedEntries
  generalize hts : orderedEntries order.topics { partitions := 0 } topics = ts at hlength hentry ⊢
  have hname : ∀ t ∈ ts, t.1.length ≤ maxInt16 := fun t ht =>
    h.names _ (AList.lookup_isSome.1 (by rw [hentry t ht]; rfl))
  have htopic : ∀ t ∈ ts, ∀ b, Handles (do
      let t ← Handler.read readTopicCreate
      Handler.update (TopicBroker.create t)) (topicCreateBytes order t) b
      (createStep t b).1 (createStep t b).2 := by
    intro t ht b
    rw [← append_nil (topicCreateBytes order t)]
    exact ((consumes_readTopicCreate (hname t ht) (h.configCount _ _ (hentry t ht))
      (h.configs _ _ (hentry t ht))).handles b).bind (Handles.update _ b)
  have hread : Handles createHandler
      (writeInt32 (Int32.ofNat topics.keys.length) ++ ts.flatMap (topicCreateBytes order)) b
      (runAll createStep ts b).1 (runAll createStep ts b).2 := by
    refine ((consumes_readInt32 _).handles b).bind ?_
    have hpos : ¬ Int32.ofNat topics.keys.length < 0 := by
      rw [Int32.lt_iff_toInt_lt, Int32.toInt_ofNat_of_lt h.count]
      exact Int.not_lt.2 (Int.natCast_nonneg _)
    rw [if_neg hpos, toNat_ofNat_int32 h.count, ← hlength]
    exact Handles.handleN htopic b
  have hresults : ∀ r ∈ (runAll createStep ts b).1, r.1.length ≤ maxInt16 := by
    intro r hr
    have hmem := mem_map_of_mem (f := Prod.fst) hr
    rw [map_fst_createSteps] at hmem
    obtain ⟨t, ht, heq⟩ := mem_map.1 hmem
    exact heq ▸ hname t ht
  obtain ⟨entries, hentries⟩ : ∃ entries,
      (runAll createStep ts b).1.mapM writeCreateResult = .ok entries :=
    ⟨_, mapM_eq_ok fun r hr => bind_eq_ok.2 ⟨_, writeString_eq (hresults r hr), rfl⟩⟩
  refine ⟨_, writeInt32 0 ++ (writeInt32 (Int32.ofNat (runAll createStep ts b).1.length)
    ++ entries.flatten), hts ▸ encodeCreateTopicsRequestLegacy_eq h, ?_⟩
  rw [handleCreateTopics, hread (fromBytes _) _ (Cursor.valid_start _)
    (append_assoc _ _ _).symm]
  dsimp only
  rw [hentries]
  rfl

/-! ## Any sequence of requests -/

/-- A request of the client that creates or deletes topics. -/
inductive TopicCall where
  | create (order : TopicOrder) (topics : AList fun _ : Bytes => TopicCreate)
  | delete (names : List Bytes)

/-- What the client sends and the broker does. -/
def TopicCall.send : TopicCall → TopicBroker → Except Error Bytes × TopicBroker
  | .create order topics, b =>
    match encodeCreateTopicsRequestLegacy order topics with
    | .error e => (.error e, b)
    | .ok body => handleCreateTopics b body
  | .delete names, b => handleDeleteTopics b (encodeDeleteTopicsRequest 6 names)

/-- The sizes of a request are what the length fields can hold. -/
def TopicCall.Fits : TopicCall → Prop
  | .create _ topics => CreateFits topics
  | .delete names => names.length + 1 < 2 ^ 29 ∧ ∀ name ∈ names, name.length + 1 < 2 ^ 29

/-- What a request does to the topic of a name: the partition count it was created with, if it
exists. -/
def TopicCall.apply (name : Bytes) (topic : Option Int32) : TopicCall → Option Int32
  | .create _ topics => topic.or ((topics.lookup name).map (·.partitions))
  | .delete names => if name ∈ names then none else topic

/-- The topic of a name after a sequence of requests. -/
def topicAfter (name : Bytes) (calls : List TopicCall) : Option Int32 :=
  calls.foldl (TopicCall.apply name) none

/-- The broker keeps its address. -/
theorem nodeID_createSteps (b : TopicBroker) : (runAll createStep ts b).2.nodeID = b.nodeID := by
  induction ts generalizing b with
  | nil => rfl
  | cons t ts ih =>
    refine (ih (createStep t b).2).trans ?_
    show (b.createTopic t.1 t.2.partitions).2.nodeID = b.nodeID
    rw [TopicBroker.createTopic]
    split <;> rfl

theorem nodeID_deleteTopics (names : List Bytes) (b : TopicBroker) :
    (names.foldl TopicBroker.deleteTopic b).nodeID = b.nodeID := by
  induction names generalizing b with
  | nil => rfl
  | cons name names ih => exact ih (b.deleteTopic name)

theorem handleDeleteTopics_encode (hcount : names.length + 1 < 2 ^ 29)
    (hnames : ∀ name ∈ names, name.length + 1 < 2 ^ 29) (b : TopicBroker) :
    handleDeleteTopics b (encodeDeleteTopicsRequest 6 names) =
      (.ok (writeDeleteResponse names), names.foldl TopicBroker.deleteTopic b) := by
  have hname : ∀ name ∈ names, Consumes (do
      let name ← readCompactNullableString
      let _topicID ← readUUID
      skipTags
      return name) (writeTopicDelete name) name := by
    intro name hmem
    refine (consumes_readCompactNullableString (hnames name hmem)).bind ?_
    exact (consumes_readUUID).bind (consumes_skipTags_empty.map fun _ => name)
  have hread : Consumes readDeleteTopics
      (writeCompactArrayLen names.length ++ names.flatMap writeTopicDelete) names := by
    refine (consumes_readUvarint_arrayLen hcount).bind ?_
    exact Consumes.readN hname
  have hbody : (fromBytes (encodeDeleteTopicsRequest 6 names)).rest =
      (writeCompactArrayLen names.length ++ names.flatMap writeTopicDelete)
        ++ (writeInt32 5000 ++ writeEmptyTagSection) := by
    show encodeDeleteTopicsRequest 6 names = _
    rw [encodeDeleteTopicsRequest, if_pos (by decide), append_assoc]
  rw [handleDeleteTopics, hread (fromBytes _) _ (Cursor.valid_start _) hbody]

/-- A request of the client is answered and does to every name what it says. -/
theorem TopicCall.send_count {call : TopicCall} (h : call.Fits) {topic : Bytes → Option Int32}
    (hb : ∀ name, b.count name = (topic name).map partitionCount) :
    ∃ answer b', call.send b = (.ok answer, b') ∧ b'.nodeID = b.nodeID ∧
      ∀ name, b'.count name = (call.apply name (topic name)).map partitionCount := by
  cases call with
  | create order topics =>
    obtain ⟨body, answer, hbody, hanswer⟩ := handleCreateTopics_encode h
    have hsend : (TopicCall.create order topics).send b = handleCreateTopics b body := by
      rw [TopicCall.send, hbody]
    refine ⟨answer, _, hsend.trans hanswer, nodeID_createSteps b, fun name => ?_⟩
    · rw [TopicBroker.count_createSteps, find?_orderedEntries, hb, TopicCall.apply]
      cases topic name with
      | some n => rfl
      | none => rw [Option.map_none, Option.none_or, Option.none_or, Option.map_map]; rfl
  | delete names =>
    have hanswer := handleDeleteTopics_encode h.1 h.2 b
    refine ⟨_, _, hanswer, nodeID_deleteTopics names b, fun name => ?_⟩
    rw [TopicBroker.count_deleteTopics, hb, TopicCall.apply]
    split_ifs <;> rfl

/-- The answers to a sequence of requests and the broker after it. -/
def runTopicCalls (calls : List TopicCall) (b : TopicBroker) :
    List (Except Error Bytes) × TopicBroker :=
  runAll TopicCall.send calls b

/-- A sequence of requests is answered and does to every name what the requests say. -/
theorem runTopicCalls_count (h : ∀ call ∈ calls, call.Fits) {topic : Bytes → Option Int32}
    (hb : ∀ name, b.count name = (topic name).map partitionCount) :
    (∀ answer ∈ (runTopicCalls calls b).1, answer.isOk) ∧
      (runTopicCalls calls b).2.nodeID = b.nodeID ∧
      ∀ name, (runTopicCalls calls b).2.count name =
        (calls.foldl (TopicCall.apply name) (topic name)).map partitionCount := by
  induction calls generalizing b topic with
  | nil => exact ⟨nofun, rfl, hb⟩
  | cons call calls ih =>
    obtain ⟨hcall, hcalls⟩ := forall_mem_cons.1 h
    obtain ⟨answer, b', hsend, hnode, hb'⟩ := TopicCall.send_count hcall hb
    obtain ⟨hanswers, hnode', hcount⟩ := ih hcalls hb'
    have hrun : runTopicCalls (call :: calls) b =
        (.ok answer :: (runTopicCalls calls b').1, (runTopicCalls calls b').2) := by
      rw [runTopicCalls, runAll, hsend]
      rfl
    rw [hrun]
    exact ⟨forall_mem_cons.2 ⟨rfl, hanswers⟩, hnode'.trans hnode, hcount⟩

/-- A topic that exists was created by one of the requests. -/
theorem created_of_topicAfter (h : topicAfter name calls = some n) :
    ∃ order topics cfg, TopicCall.create order topics ∈ calls ∧
      topics.lookup name = some cfg ∧ cfg.partitions = n := by
  induction calls using List.reverseRecOn with
  | nil => cases h
  | append_singleton calls call ih =>
    -- an earlier request, or this one
    have hearlier : topicAfter name calls = some n → ∃ order topics cfg,
        TopicCall.create order topics ∈ calls ++ [call] ∧
          topics.lookup name = some cfg ∧ cfg.partitions = n := by
      intro h
      obtain ⟨order, topics, cfg, hmem, hrest⟩ := ih h
      exact ⟨order, topics, cfg, mem_append_left _ hmem, hrest⟩
    rw [topicAfter, foldl_append, foldl_cons, foldl_nil] at h
    cases call with
    | create order topics =>
      rw [TopicCall.apply, Option.or_eq_some_iff] at h
      rcases h with h | ⟨-, h⟩
      · exact hearlier h
      · obtain ⟨cfg, hcfg, hn⟩ := Option.map_eq_some_iff.1 h
        exact ⟨order, topics, cfg, mem_append_right _ (mem_singleton_self _), hcfg, hn⟩
    | delete names =>
      rw [TopicCall.apply] at h
      split_ifs at h
      exact hearlier h

/-- After any sequence of requests, a client that asks for metadata is shown every topic that was
created and not deleted since, once, with its partitions in order and led by the broker, and nothing
else. A request that creates topics that exist changes nothing. -/
theorem catalogue_listed {b₀ : TopicBroker} (hempty : b₀.topics = ∅) {calls : List TopicCall}
    (hcalls : ∀ call ∈ calls, call.Fits)
    (hcount : ∀ names : List Bytes, names.Nodup → (∀ name ∈ names, (topicAfter name calls).isSome) →
      names.length + 1 < 2 ^ 29) (order : MapOrder Bytes) :
    (∀ answer ∈ (runTopicCalls calls b₀).1, answer.isOk) ∧
    (∃ md, decodeMetadataResponseFlex 12 (handleMetadata order (runTopicCalls calls b₀).2) =
        .ok md ∧
      (md.topics.map (·.name)).Nodup ∧
      (∀ name, name ∈ md.topics.map (·.name) ↔ (topicAfter name calls).isSome) ∧
      ∀ t ∈ md.topics, ∃ n, topicAfter t.name calls = some n ∧
        t.partitions = (List.range (max n.toInt.toNat 1)).map fun p =>
          ⟨Int32.ofNat p, b₀.nodeID, 0⟩) ∧
    ∀ order topics, CreateFits topics → (∀ name ∈ topics, (topicAfter name calls).isSome) →
      (TopicCall.send (.create order topics) (runTopicCalls calls b₀).2).2 =
        (runTopicCalls calls b₀).2 := by
  have hnone :
      ∀ name, b₀.count name = ((fun _ => none) name : Option Int32).map partitionCount := by
    intro name
    rw [TopicBroker.count, hempty]
    rfl
  obtain ⟨hanswers, hnode, hcounts⟩ := runTopicCalls_count hcalls hnone
  generalize (runTopicCalls calls b₀).2 = b at hnode hcounts ⊢
  have hmem : ∀ name, name ∈ b.topics ↔ (topicAfter name calls).isSome := by
    intro name
    rw [← AList.lookup_isSome, topicAfter, ← Option.isSome_map (f := partitionCount), ← hcounts,
      TopicBroker.count, Option.isSome_map]
  -- what the requests say about a topic of the store
  have hstate : ∀ ts ∈ b.states order, ∃ n, topicAfter ts.name calls = some n ∧
      ts.partitions.length = partitionCount n := by
    intro ts hts
    have hlength := hcounts ts.name
    rw [TopicBroker.count, TopicBroker.mem_states.1 hts] at hlength
    obtain ⟨n, hn, heq⟩ := Option.map_eq_some_iff.1 hlength.symm
    exact ⟨n, hn, heq.symm⟩
  have hfit : ∀ ts ∈ b.states order,
      ts.name.length + 1 < 2 ^ 29 ∧ ts.partitions.length + 1 < 2 ^ 29 := by
    intro ts hts
    obtain ⟨n, hn, hlength⟩ := hstate ts hts
    obtain ⟨order', topics, cfg, hcreate, hcfg, rfl⟩ := created_of_topicAfter hn
    have hfits : CreateFits topics := hcalls _ hcreate
    have hname := hfits.names _ (AList.lookup_isSome.1 (by rw [hcfg]; rfl))
    have hparts := hfits.partitions _ _ hcfg
    rw [hlength, partitionCount]
    rw [maxInt16] at hname
    omega
  have hlength : b.topics.keys.length + 1 < 2 ^ 29 :=
    hcount b.topics.keys b.topics.keys_nodup fun name hname =>
      (hmem name).1 (AList.mem_keys.2 hname)
  have hnames : ((b.states order).map (·.meta b.nodeID)).map (·.name) = order.keys b.topics := by
    rw [map_map]
    exact b.map_name_states
  refine ⟨hanswers, ⟨_, decodeMetadataResponseFlex_handleMetadata hlength hfit, ?_, ?_, ?_⟩,
    ?_⟩
  · rw [hnames]
    exact order.nodup_keys b.topics
  · intro name
    rw [hnames, order.mem_keys, hmem]
  · intro t ht
    obtain ⟨ts, hts, rfl⟩ := mem_map.1 ht
    obtain ⟨n, hn, hparts⟩ := hstate ts hts
    refine ⟨n, hn, ?_⟩
    rw [TopicState.meta, hparts, hnode]
    rfl
  · intro order' topics hfits hexist
    obtain ⟨body, answer, hbody, hanswer⟩ := handleCreateTopics_encode hfits
    rw [TopicCall.send, hbody]
    dsimp only
    rw [hanswer]
    refine createSteps_of_mem fun t ht => (hmem t.1).2 (hexist t.1 ?_)
    exact AList.lookup_isSome.1 (by rw [lookup_of_mem_orderedEntries ht]; rfl)

/-! ## A topic that is created twice -/

/-- A request that creates topic `t`. -/
def createT (n : Int32) : TopicCall :=
  .create {} ((∅ : AList fun _ : Bytes => TopicCreate).insert [116] { partitions := n })

theorem createT_fits (h : n.toInt + 1 < 2 ^ 29) : (createT n).Fits := by
  have hlookup : ∀ {name cfg}, AList.lookup name
      ((∅ : AList fun _ : Bytes => TopicCreate).insert [116] { partitions := n }) = some cfg →
      name = [116] ∧ cfg = { partitions := n } := by
    intro name cfg hcfg
    by_cases hname : name = [116]
    · subst hname
      cases hcfg
      exact ⟨rfl, rfl⟩
    · rw [AList.lookup_insert_ne hname] at hcfg
      cases hcfg
  refine ⟨by simp, fun name hname => ?_, fun name cfg hcfg => ?_, fun name cfg hcfg => ?_,
    fun name cfg hcfg k v hkv => ?_⟩
  · obtain ⟨cfg, hcfg⟩ := Option.isSome_iff_exists.1 (AList.lookup_isSome.2 hname)
    rw [(hlookup hcfg).1]
    decide
  · rwa [(hlookup hcfg).2]
  · rw [(hlookup hcfg).2]
    exact Nat.two_pow_pos 31
  · rw [(hlookup hcfg).2] at hkv
    cases hkv

/-- Topic `t` is created with -1 and then with 5 partitions: it has partition 0. -/
theorem catalogue_listed_twice :
    ∃ md, decodeMetadataResponseFlex 12 (handleMetadata ⟨id, fun _ => .refl _⟩
        (runTopicCalls [createT (-1), createT 5] newTopicBroker).2) = .ok md ∧
      (md.topics.map (·.name)).Nodup ∧
      (∀ name, name ∈ md.topics.map (·.name) ↔
        (topicAfter name [createT (-1), createT 5]).isSome) ∧
      ∀ t ∈ md.topics, ∃ n, topicAfter t.name [createT (-1), createT 5] = some n ∧
        t.partitions = (List.range (max n.toInt.toNat 1)).map fun p => ⟨Int32.ofNat p, 0, 0⟩ := by
  have hfits : ∀ call ∈ [createT (-1), createT 5], call.Fits := by
    simp only [forall_mem_cons, not_mem_nil, false_implies, implies_true, and_true]
    exact ⟨createT_fits (by decide), createT_fits (by decide)⟩
  refine (catalogue_listed rfl hfits (fun names hnodup hnames => ?_) _).2.1
  have hone : names ⊆ [[116]] := by
    intro name hname
    obtain ⟨n, hn⟩ := Option.isSome_iff_exists.1 (hnames name hname)
    obtain ⟨order, topics, cfg, hmem, hcfg, -⟩ := created_of_topicAfter hn
    have hin : name ∈ topics := AList.lookup_isSome.1 (by rw [hcfg]; rfl)
    simp only [mem_cons, createT, TopicCall.create.injEq, not_mem_nil, or_false] at hmem
    rcases hmem with ⟨-, rfl⟩ | ⟨-, rfl⟩
    · exact mem_singleton.2 (((AList.mem_insert _).1 hin).resolve_right (AList.notMem_empty _))
    · exact mem_singleton.2 (((AList.mem_insert _).1 hin).resolve_right (AList.notMem_empty _))
  have hle := (subperm_of_subset hnodup hone).length_le
  rw [length_singleton] at hle
  omega

end GoKafka.Kfake
