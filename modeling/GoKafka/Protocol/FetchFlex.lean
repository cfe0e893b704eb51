import GoKafka.Consumer.Poll
import GoKafka.Wire.Flex

/-!
# Fetch requests and answers in the flexible versions

`encodeFetchRequestFlex` and `decodeFetchResponseFlex` in `internal/protocol/fetch.go`: the bytes of
the requests that a round of `Poll` sends, and the reading of the sections (`FetchedPartition`) that
it decodes. `decodeFetchResponseFlex_write` connects the two levels: what the decoder of the bytes
returns for an answer is what `decodeFetchResponse` returns for its sections. The functions are only
called from version 12 on, so of their checks of the version the one for 13 is left.
-/

namespace GoKafka

open Reading Assoc List

/-! ## Requests -/

/-- A partition of a fetch request. -/
def writeFetchPartition (p : FetchPartition) : Bytes :=
  writeInt32 p.partition
    ++ (writeInt32 p.leaderEpoch
    ++ (writeInt64 p.offset
    ++ (writeInt32 (-1) -- last_fetched_epoch
    ++ (writeInt64 (-1) -- log_start_offset
    ++ (writeInt32 (if p.maxBytes ≤ 0 then 1048576 else p.maxBytes)
    ++ writeEmptyTagSection)))))

/-- The partitions of a request by topic. -/
def groupFetches (partitions : List FetchPartition) : List (TopicEntries FetchPartition) :=
  let topics := group (·.topic) partitions
  (firstKeys (·.topic) partitions).map fun t => ⟨t, (topics.lookup t).getD []⟩

def encodeFetchRequestFlex (ver : Int16) (partitions : List FetchPartition)
    (maxWaitMs minBytes maxBytes : Int32) (isolationLevel : Int8) : Bytes :=
  let topics := groupFetches partitions
  writeInt32 (-1)
    ++ (writeInt32 maxWaitMs
    ++ (writeInt32 minBytes
    ++ (writeInt32 maxBytes
    ++ (writeInt8 isolationLevel
    ++ (writeInt32 0 -- session_id
    ++ (writeInt32 (-1) -- session_epoch
    ++ ((writeCompactArrayLen topics.length ++ topics.flatMap fun t =>
        (if ver ≥ 13 then writeUUID ((t.parts.head?.map (·.topicID)).getD (Vector.replicate 16 0))
          else writeCompactString t.topic)
        ++ (writeCompactArrayLen t.parts.length ++ (t.parts.flatMap writeFetchPartition
        ++ writeEmptyTagSection)))
    ++ (writeCompactArrayLen 0 -- forgotten_topics_data
    ++ (writeCompactString [] -- rack_id
    ++ writeEmptyTagSection)))))))))

/-! ## Answers -/

def readAbortedTransactionsFlex : Read (List AbortedTxn) := do
  let n ← readUvarint
  if n ≤ 1 then return []
  else
    readN (do
      let pid ← readInt64
      let fo ← readInt64
      skipTagSection
      return { producerID := pid, firstOffset := fo }) (n - 1)

/-- The error codes of a partition that end the decoding. -/
def checkFetchError (errCode : Int16) : Except Error Unit :=
  if errCode = 27 then .error .rebalanceInProgress
  else if errCode = 6 ∨ errCode = 74 ∨ errCode = 75 then .error .leaderEpochChanged
  else if errCode = 100 then .error .unknownTopicID
  else if errCode ≠ 0 then
    .error (.other ("protocol: fetch partition error " ++ toString errCode.toInt))
  else .ok ()

section Decode

variable (C : Codecs)

/-- A partition of a fetch answer. -/
def readFetchedPartition (topic : Bytes) : Read (List FetchedRecord) := do
  let part ← readInt32
  let errCode ← readInt16
  let _ ← checkFetchError errCode
  let _highWatermark ← readInt64
  let _lastStableOffset ← readInt64
  let _logStartOffset ← readInt64
  let aborted ← readAbortedTransactionsFlex
  let _preferredReadReplica ← readInt32
  let records ← readCompactBytes
  let recs ← decodeRecordBatch C topic part records.bytes aborted
  skipTagSection
  return recs

/-- The topic of a fetch answer: by its id from version 13 on. -/
def readFetchedTopic (ver : Int16) (resolveTopic : UUID → Option Bytes) : Read Bytes := do
  if ver ≥ 13 then
    let tid ← readUUID
    match resolveTopic tid with
    | some name => return name
    | none => throw .unknownTopicID
  else readCompactString

/-- The body of `decodeFetchResponseFlex`. -/
def readFetchResponse (ver : Int16) (resolveTopic : UUID → Option Bytes) :
    Read (List FetchedRecord) := do
  let _throttleTimeMs ← readInt32
  let _errorCode ← readInt16
  let _sessionID ← readInt32
  let ts ← readTopics (readFetchedTopic ver resolveTopic) skipTagSection (readFetchedPartition C)
  skipTagSection
  return ts.flatMap (·.parts.flatten)

/-- `DecodeFetchResponse` from version 12 on. -/
def decodeFetchResponseFlex (ver : Int16) (body : Bytes) (resolveTopic : UUID → Option Bytes) :
    Except Error (List FetchedRecord) :=
  Prod.fst <$> readFetchResponse C ver resolveTopic (fromBytes body)

end Decode

/-! ## Version 12 -/

theorem groupFetches_eq :
    groupFetches partitions = (firstKeys (·.topic) partitions).map fun t =>
      ⟨t, partitions.filter (·.topic = t)⟩ := by
  unfold groupFetches
  simp [getD_lookup_group]

/-- What stands behind the topics of a request. -/
def fetchTail : Bytes :=
  writeCompactArrayLen 0 ++ (writeCompactString [] ++ writeEmptyTagSection)

/-- A section of an answer without an error, as a broker writes it: no transaction was aborted. -/
structure PlainSection where
  partition : Int32
  highWatermark : Int64
  records : NilBytes

/-- The section as `Poll` sees it. -/
def PlainSection.fetched (topic : Bytes) (p : PlainSection) : FetchedPartition where
  topic := topic
  partition := p.partition
  records := p.records.bytes

/-- The section on the wire. -/
def PlainSection.write (p : PlainSection) : Bytes :=
  writeInt32 p.partition
    ++ (writeInt16 0 -- error_code
    ++ (writeInt64 p.highWatermark
    ++ (writeInt64 p.highWatermark -- last_stable_offset
    ++ (writeInt64 0 -- log_start_offset
    ++ (writeCompactArrayLen 0 -- aborted_transactions
    ++ (writeInt32 (-1) -- preferred_read_replica
    ++ (writeCompactBytes p.records
    ++ writeEmptyTagSection)))))))

section Version12

variable {C : Codecs}

theorem consumes_readAbortedTransactionsFlex_nil :
    Consumes readAbortedTransactionsFlex (writeCompactArrayLen 0) [] := by
  have h := (consumes_readUvarint_arrayLen (n := 0) (by decide)).bind
    (f := fun n => if n ≤ 1 then pure [] else readN (do
      let pid ← readInt64
      let fo ← readInt64
      skipTagSection
      return ({ producerID := pid, firstOffset := fo } : AbortedTxn)) (n - 1)) (Consumes.pure [])
  rwa [append_nil] at h

theorem consumes_except {α : Type} {x : Except Error α} {v : α} (h : x = .ok v) :
    Consumes (liftM x : Read α) [] v := by
  subst h
  exact Consumes.pure v

theorem consumes_readFetchedPartition {p : PlainSection}
    (hsize : p.records.bytes.length + 1 < 2 ^ 29)
    (hdec : decodeFetchPartition C (p.fetched topic) = .ok recs) :
    Consumes (readFetchedPartition C topic) p.write recs := by
  refine (consumes_readInt32 _).bind ((consumes_readInt16).bind ?_)
  have hcheck : Consumes (liftM (checkFetchError 0) : Read Unit) [] () := consumes_except rfl
  refine hcheck.bind ?_
  refine (consumes_readInt64).bind ?_
  refine (consumes_readInt64).bind ((consumes_readInt64).bind ?_)
  refine consumes_readAbortedTransactionsFlex_nil.bind ((consumes_readInt32 _).bind ?_)
  refine (consumes_readCompactBytes hsize).bind ?_
  exact (consumes_except hdec).bind (consumes_skipTagSection_empty.map _)

/-- An answer of sections without errors. -/
def writeFetchResponse (ts : List (TopicEntries PlainSection)) : Bytes :=
  writeInt32 0 -- throttle_time_ms
    ++ (writeInt16 0 -- error_code
    ++ (writeInt32 0 -- session_id
    ++ (writeTopics PlainSection.write ts
    ++ writeEmptyTagSection)))

/-- The sections of an answer. -/
def fetchedSections (ts : List (TopicEntries PlainSection)) : List FetchedPartition :=
  ts.flatMap fun t => t.parts.map (PlainSection.fetched t.topic)

/-- The records of a section that decodes. -/
def sectionRecords (C : Codecs) (p : FetchedPartition) : List FetchedRecord :=
  (decodeFetchPartition C p).toOption.getD []

theorem decodeFetchResponse_ok (h : decodeFetchResponse C ps = .ok out) :
    (∀ p ∈ ps, decodeFetchPartition C p = .ok (sectionRecords C p)) ∧
      out = ps.flatMap (sectionRecords C) := by
  induction ps generalizing out with
  | nil =>
    cases h
    exact ⟨nofun, rfl⟩
  | cons p ps ih =>
    rw [decodeFetchResponse] at h
    rcases hp : decodeFetchPartition C p with e | recs
    · rw [hp] at h
      cases h
    rcases hps : decodeFetchResponse C ps with e | out'
    · rw [hp, hps] at h
      cases h
    rw [hp, hps] at h
    cases h
    have ⟨hmem, hout⟩ := ih hps
    have hrecs : sectionRecords C p = recs := by rw [sectionRecords, hp]; rfl
    refine ⟨forall_mem_cons.2 ⟨hrecs ▸ hp, hmem⟩, ?_⟩
    rw [flatMap_cons, hrecs, hout]

theorem decodeFetchResponse_eq (h : ∀ p ∈ ps, decodeFetchPartition C p = .ok (sectionRecords C p)) :
    decodeFetchResponse C ps = .ok (ps.flatMap (sectionRecords C)) := by
  induction ps with
  | nil => rfl
  | cons p ps ih =>
    have ⟨hp, hps⟩ := forall_mem_cons.1 h
    rw [decodeFetchResponse, hp, ih hps]
    rfl

/-- An answer is decoded to what its sections decode to. -/
theorem decodeFetchResponseFlex_write (hfit : TopicsFit ts)
    (hsize : ∀ t ∈ ts, ∀ p ∈ t.parts, p.records.bytes.length + 1 < 2 ^ 29)
    (hdec : decodeFetchResponse C (fetchedSections ts) = .ok out)
    (resolveTopic : UUID → Option Bytes) :
    decodeFetchResponseFlex C 12 (writeFetchResponse ts) resolveTopic = .ok out := by
  have ⟨hmem, hout⟩ := decodeFetchResponse_ok hdec
  let recs (topic : Bytes) (p : PlainSection) := sectionRecords C (p.fetched topic)
  have hpart : ∀ t ∈ ts, ∀ p ∈ t.parts,
      Consumes (readFetchedPartition C t.topic) p.write (recs t.topic p) := fun t ht p hp =>
    consumes_readFetchedPartition (hsize t ht p hp)
      (hmem _ (mem_flatMap.2 ⟨t, ht, mem_map_of_mem hp⟩))
  have hflat : (ts.map fun t => (⟨t.topic, t.parts.map (recs t.topic)⟩ :
      TopicEntries (List FetchedRecord))).flatMap (·.parts.flatten) = out := by
    rw [hout, fetchedSections, flatMap_assoc]
    simp only [flatMap_def, map_map]
    rfl
  have hread : Consumes (readFetchResponse C 12 resolveTopic) (writeFetchResponse ts) out := by
    refine (consumes_readInt32 0).bind ((consumes_readInt16).bind ?_)
    refine (consumes_readInt32 0).bind ?_
    rw [← hflat]
    exact (consumes_readTopics consumes_skipTagSection_empty hfit hpart).bind
      (consumes_skipTagSection_empty.map _)
  exact hread.run

end Version12

end GoKafka
