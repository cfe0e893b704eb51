import GoKafka.Broker.Cluster
import GoKafka.Protocol.PartitionLog
import GoKafka.Wire.Flex

/-!
# Answers to ShareFetch

`DecodeShareFetchResponse` in `internal/protocol/share_fetch.go`. A broker answers a share consumer
with whole record batches and, for each partition, with the ranges of offsets that this member has
acquired (`ShareAnswer`). The decoder gives the records in a range its delivery count, and returns
all records of the batches, those of no range among them (`decodeShareFetchResponse_unacquired`): a
record that another member has acquired, or none, is handed out.
`decodeShareFetchResponse_acquired_iff` says of which answers of a broker that is not so.
-/

namespace GoKafka

open Reading List

/-! ## The program -/

/-- `wire.UUID.String`. -/
def UUID.text (u : UUID) : Bytes :=
  let digit (n : Nat) : UInt8 := UInt8.ofNat (if n < 10 then 48 + n else 87 + n)
  (u.toList.zipIdx.map fun (b, i) =>
    (if i ∈ [4, 6, 8, 10] then [45] else []) ++
      [digit (b.toNat / 16), digit (b.toNat % 16)]).flatten

/-- An entry of `acquired_records`. -/
structure AcquiredRange where
  first : Int64
  last : Int64
  count : Int16
  deriving DecidableEq

/-- An offset is in a range. -/
def AcquiredRange.Has (a : AcquiredRange) (offset : Int64) : Prop :=
  a.first ≤ offset ∧ offset ≤ a.last

instance AcquiredRange.decidableHas (a : AcquiredRange) (offset : Int64) :
    Decidable (a.Has offset) :=
  inferInstanceAs (Decidable (_ ∧ _))

/-- A record after the loop has looked at a range. -/
def AcquiredRange.mark (a : AcquiredRange) (r : FetchedRecord) : FetchedRecord :=
  if a.Has r.offset then { r with deliveryCount := a.count } else r

/-- The loop over the ranges, which marks the records. -/
def readAcquired : Nat → List FetchedRecord → Read (List FetchedRecord)
  | 0, recs => return recs
  | n + 1, recs => do
    let first ← readInt64
    let last ← readInt64
    let count ← readInt16
    skipTagSection
    readAcquired n (recs.map (AcquiredRange.mark ⟨first, last, count⟩))

variable (C : Codecs)

/-- `decodeRecordBatch` without a list of aborted transactions, if there are records. -/
def decodeShareRecords (topic : Bytes) (part : Int32) (records : NilBytes) :
    Except Error (List FetchedRecord) :=
  if 0 < records.bytes.length then decodeRecordBatch C topic part records.bytes [] else .ok []

/-- The loop over the partitions of a topic. -/
def readSharePartition (topic : Bytes) : Read (List FetchedRecord) := do
  let part ← readInt32
  let errCode ← readInt16
  let _errMessage ← readCompactNullableString
  let _ackErrCode ← readInt16
  let _ackErrMessage ← readCompactNullableString
  let _leaderID ← readInt32
  let _leaderEpoch ← readInt32
  skipTagSection
  let records ← readCompactBytes
  if errCode ≠ 0 then
    throw (.other ("protocol: share fetch partition " ++ topic.text ++ "-" ++
      toString part.toInt ++ " error " ++ toString errCode.toInt))
  else
    let recs ← decodeShareRecords C topic part records
    let nAcq ← readUvarint
    let recs ← readAcquired (nAcq - 1) recs
    skipTagSection
    return recs

/-- The loop over the topics. A topic whose id is not known goes by the id. -/
def readShareTopic (topicName : UUID → Option Bytes) : Read (List FetchedRecord) := do
  let tid ← readUUID
  let nParts ← readUvarint
  let parts ← readN (readSharePartition C ((topicName tid).getD (UUID.text tid))) (nParts - 1)
  skipTagSection
  return parts.flatten

/-- The loop over the node endpoints. -/
def readNodeEndpoint : Read Unit := do
  let _nodeID ← readInt32
  let _host ← readCompactString
  let _port ← readInt32
  let _rack ← readCompactNullableString
  skipTagSection

structure ShareFetchResponse where
  acquisitionLockTimeoutMs : Int32
  records : List FetchedRecord
  deriving DecidableEq

/-- The fields of an answer. -/
def readShareFetchResponse (topicName : UUID → Option Bytes) : Read ShareFetchResponse := do
  let _throttle ← readInt32
  let topErr ← readInt16
  let _errMessage ← readCompactNullableString
  let lockMs ← readInt32
  if topErr ≠ 0 then throw (.api "share fetch" topErr)
  else
    let nTopics ← readUvarint
    let topics ← readN (readShareTopic C topicName) (nTopics - 1)
    let nEnd ← readUvarint
    let _endpoints ← readN readNodeEndpoint (nEnd - 1)
    skipTagSection
    return ⟨lockMs, topics.flatten⟩

def decodeShareFetchResponse (topicName : UUID → Option Bytes) (body : Bytes) :
    Except Error ShareFetchResponse :=
  Prod.fst <$> readShareFetchResponse C topicName (fromBytes body)

/-! ## Marks -/

section Marks

variable {a : AcquiredRange} {acquired : List AcquiredRange} {r : FetchedRecord}

/-- A record after the loop over the ranges. -/
def markAll (acquired : List AcquiredRange) (r : FetchedRecord) : FetchedRecord :=
  acquired.foldl (fun r a => a.mark r) r

@[simp] theorem AcquiredRange.offset_mark : (a.mark r).offset = r.offset := by
  unfold mark
  split <;> rfl

@[simp] theorem offset_markAll : (markAll acquired r).offset = r.offset := by
  induction acquired generalizing r with
  | nil => rfl
  | cons a acquired ih => exact ih.trans AcquiredRange.offset_mark

theorem partKey_markAll : (markAll acquired r).topic = r.topic ∧
    (markAll acquired r).partition = r.partition := by
  induction acquired generalizing r with
  | nil => exact ⟨rfl, rfl⟩
  | cons a acquired ih =>
    obtain ⟨htopic, hpart⟩ := ih (r := a.mark r)
    rw [markAll, foldl_cons, ← markAll, htopic, hpart, AcquiredRange.mark]
    split <;> exact ⟨rfl, rfl⟩

/-- A record in a range has the delivery count of the last range it is in. -/
theorem deliveryCount_markAll (h : ∃ a ∈ acquired, a.Has r.offset) :
    ∃ a ∈ acquired, a.Has r.offset ∧ (markAll acquired r).deliveryCount = a.count := by
  induction acquired using List.reverseRecOn with
  | nil =>
    obtain ⟨a, ha, -⟩ := h
    cases ha
  | append_singleton acquired a ih =>
    have hall : markAll (acquired ++ [a]) r = a.mark (markAll acquired r) := foldl_concat ..
    by_cases hlast : a.Has r.offset
    · refine ⟨a, mem_append_right _ (mem_singleton_self a), hlast, ?_⟩
      rw [hall, AcquiredRange.mark, offset_markAll, if_pos hlast]
    · obtain ⟨a', ha', hhas⟩ := h
      have hbefore : a' ∈ acquired := by
        refine (mem_append.1 ha').resolve_right fun ha' => hlast ?_
        rwa [mem_singleton.1 ha'] at hhas
      obtain ⟨b, hb, hhas, hcount⟩ := ih ⟨a', hbefore, hhas⟩
      refine ⟨b, mem_append_left _ hb, hhas, ?_⟩
      rw [hall, AcquiredRange.mark, offset_markAll, if_neg hlast]
      exact hcount

end Marks

/-! ## The answer of a broker -/

/-- What a broker answers for a partition: record batches, and the ranges this member has acquired,
beside fields that the decoder skips. -/
structure ShareSection (C : Codecs) where
  topic : Bytes
  partition : Int32
  ackErrorCode : Int16 := 0
  leaderID : Int32 := -1
  leaderEpoch : Int32 := -1
  batches : List (LogBatch C topic partition)
  acquired : List AcquiredRange
  fits : (blob batches).length + 1 < 2 ^ 29 ∧ acquired.length + 1 < 2 ^ 29

/-- What a broker answers for a topic. -/
structure ShareTopic (C : Codecs) where
  id : UUID
  sections : List (ShareSection C)
  fits : sections.length + 1 < 2 ^ 29

/-- An answer of a broker without an error: each partition at most once. -/
structure ShareAnswer (C : Codecs) where
  throttleMs : Int32 := 0
  lockMs : Int32 := 0
  topics : List (ShareTopic C)
  fits : topics.length + 1 < 2 ^ 29
  once : ((topics.flatMap (·.sections)).map fun s => (s.topic, s.partition)).Nodup

/-- A range on the wire. -/
def AcquiredRange.bytes (a : AcquiredRange) : Bytes :=
  writeInt64 a.first ++ (writeInt64 a.last ++ (writeInt16 a.count ++ writeEmptyTagSection))

/-- A partition on the wire. -/
def ShareSection.bytes {C : Codecs} (s : ShareSection C) : Bytes :=
  writeInt32 s.partition ++ (writeInt16 0 ++ (writeCompactNullableString none ++
    (writeInt16 s.ackErrorCode ++ (writeCompactNullableString none ++ (writeInt32 s.leaderID ++
      (writeInt32 s.leaderEpoch ++ (writeEmptyTagSection ++
        (writeCompactBytes (some (blob s.batches)) ++ (writeCompactArrayLen s.acquired.length ++
          (s.acquired.flatMap (·.bytes) ++ writeEmptyTagSection))))))))))

/-- A topic on the wire. -/
def ShareTopic.bytes {C : Codecs} (t : ShareTopic C) : Bytes :=
  writeUUID t.id ++ (writeCompactArrayLen t.sections.length ++
    (t.sections.flatMap (·.bytes) ++ writeEmptyTagSection))

/-- An answer on the wire, without node endpoints. -/
def ShareAnswer.bytes {C : Codecs} (answer : ShareAnswer C) : Bytes :=
  writeInt32 answer.throttleMs ++ (writeInt16 0 ++ (writeCompactNullableString none ++
    (writeInt32 answer.lockMs ++ (writeCompactArrayLen answer.topics.length ++
      (answer.topics.flatMap (·.bytes) ++ (writeCompactArrayLen 0 ++ writeEmptyTagSection))))))

/-- The sections of an answer. -/
def ShareAnswer.sections {C : Codecs} (answer : ShareAnswer C) : List (ShareSection C) :=
  answer.topics.flatMap (·.sections)

/-- The client knows the topics by the names of their batches. -/
def ShareAnswer.Named {C : Codecs} (answer : ShareAnswer C) (topicName : UUID → Option Bytes) :
    Prop :=
  ∀ t ∈ answer.topics, ∀ s ∈ t.sections, (topicName t.id).getD (UUID.text t.id) = s.topic

variable {C}

/-- The offsets that a batch holds for a consumer: those of its records, or the last one of a
control batch. -/
def LogBatch.offsets {topic : Bytes} {part : Int32} (b : LogBatch C topic part) : List Int64 :=
  if b.info.isControl then [b.info.lastOffset] else b.info.records.map (·.offset)

/-- The records of a batch, where no transaction is known to be aborted. -/
def LogBatch.delivered {topic : Bytes} {part : Int32} (b : LogBatch C topic part) :
    List FetchedRecord :=
  (deliverBatch topic part b.info ∅).1

theorem map_offset_delivered {topic : Bytes} {part : Int32} (b : LogBatch C topic part) :
    b.delivered.map (·.offset) = b.offsets := by
  rw [LogBatch.delivered, LogBatch.offsets, deliverBatch]
  split_ifs with hcontrol htxn
  · rfl
  · simp at htxn
  · rfl

theorem partition_delivered {topic : Bytes} {part : Int32} {b : LogBatch C topic part}
    {r : FetchedRecord} (h : r ∈ b.delivered) : r.topic = topic ∧ r.partition = part := by
  refine LogBatch.Yields.partition (b := b) ?_
  rw [LogBatch.delivered, deliverBatch] at h
  split_ifs at h
  · exact .inr (mem_singleton.1 h)
  · exact .inr (mem_singleton.1 h)
  · exact .inl h

theorem decodeShareRecords_blob {topic : Bytes} {part : Int32}
    (batches : List (LogBatch C topic part)) :
    decodeShareRecords C topic part (some (blob batches)) =
      .ok (batches.flatMap (·.delivered)) := by
  have hall : deliverAll topic part (batches.map (·.info)) [] ∅ =
      batches.flatMap (·.delivered) := by
    induction batches with
    | nil => rfl
    | cons b batches ih =>
      have hpids : (deliverBatch topic part b.info ∅).2 = ∅ := by
        rw [deliverBatch]
        split_ifs <;> simp
      rw [map_cons, deliverAll, flatMap_cons, ← ih]
      simp only [markAborted, hpids]
      rfl
  rw [decodeShareRecords]
  split_ifs with hlen
  · exact (decodeRecordBatch_blob batches).trans (congrArg Except.ok hall)
  · have hempty : blob batches = [] := List.eq_nil_of_length_eq_zero (Nat.eq_zero_of_not_pos hlen)
    have hdecode := (decodeRecordBatch_blob (C := C) batches).trans (congrArg Except.ok hall)
    rw [hempty, decodeRecordBatch, decodeRecordBatchLoop] at hdecode
    exact hdecode

/-- The records that a partition's section comes to. -/
def ShareSection.returned (s : ShareSection C) : List FetchedRecord :=
  (s.batches.flatMap (·.delivered)).map (markAll s.acquired)

theorem consumes_readAcquired (acquired : List AcquiredRange) (recs : List FetchedRecord) :
    Consumes (readAcquired acquired.length recs) (acquired.flatMap (·.bytes))
      (recs.map (markAll acquired)) := by
  induction acquired generalizing recs with
  | nil =>
    have hnil : recs.map (markAll []) = recs := map_id recs
    rw [hnil]
    exact Consumes.pure _
  | cons a acquired ih =>
    have hmarks : recs.map (markAll (a :: acquired)) =
        (recs.map a.mark).map (markAll acquired) := by
      rw [map_map]
      rfl
    rw [hmarks]
    refine (consumes_readInt64).bind ?_
    refine (consumes_readInt64).bind ?_
    refine (consumes_readInt16).bind ?_
    exact consumes_skipTagSection_empty.bind (ih (recs.map a.mark))

theorem consumes_readSharePartition (s : ShareSection C) :
    Consumes (readSharePartition C s.topic) s.bytes s.returned := by
  refine (consumes_readInt32 _).bind ((consumes_readInt16).bind ?_)
  refine consumes_readCompactNullableString_null.bind ((consumes_readInt16).bind ?_)
  refine consumes_readCompactNullableString_null.bind ((consumes_readInt32 _).bind ?_)
  refine (consumes_readInt32 _).bind (consumes_skipTagSection_empty.bind ?_)
  have hfits : (NilBytes.bytes (some (blob s.batches))).length + 1 < 2 ^ 29 := s.fits.1
  refine (consumes_readCompactBytes hfits).bind ?_
  have hdecode : Consumes (liftM (decodeShareRecords C s.topic s.partition
      (some (blob s.batches))) : Read (List FetchedRecord)) []
      (s.batches.flatMap (·.delivered)) := fun c r hc hr => by
    rw [decodeShareRecords_blob]
    rfl
  refine hdecode.bind ?_
  refine (consumes_readUvarint_arrayLen s.fits.2).bind ?_
  refine (consumes_readAcquired s.acquired _).bind ?_
  exact consumes_skipTagSection_empty.map _

theorem consumes_readShareTopic {topicName : UUID → Option Bytes} {t : ShareTopic C}
    (hnames : ∀ s ∈ t.sections, (topicName t.id).getD (UUID.text t.id) = s.topic) :
    Consumes (readShareTopic C topicName) t.bytes (t.sections.flatMap (·.returned)) := by
  refine (consumes_readUUID).bind ?_
  refine (consumes_readUvarint_arrayLen t.fits).bind ?_
  have hpart : ∀ s ∈ t.sections, Consumes
      (readSharePartition C ((topicName t.id).getD (UUID.text t.id))) s.bytes s.returned := by
    intro s hs
    rw [hnames s hs]
    exact consumes_readSharePartition s
  refine (Consumes.readN_map hpart).bind ?_
  rw [← List.flatMap_def]
  exact consumes_skipTagSection_empty.map _

/-- A decoder gets from the answer the records of its batches, marked. -/
theorem decodeShareFetchResponse_bytes {topicName : UUID → Option Bytes} {answer : ShareAnswer C}
    (hnames : answer.Named topicName) : decodeShareFetchResponse C topicName answer.bytes =
      .ok ⟨answer.lockMs, answer.sections.flatMap (·.returned)⟩ := by
  have hall : Consumes (readShareFetchResponse C topicName) answer.bytes
      ⟨answer.lockMs, answer.sections.flatMap (·.returned)⟩ := by
    refine (consumes_readInt32 _).bind ((consumes_readInt16).bind ?_)
    refine consumes_readCompactNullableString_null.bind ((consumes_readInt32 _).bind ?_)
    refine (consumes_readUvarint_arrayLen answer.fits).bind ?_
    have htopic : ∀ t ∈ answer.topics, Consumes (readShareTopic C topicName) t.bytes
        (t.sections.flatMap (·.returned)) := fun t ht => consumes_readShareTopic (hnames t ht)
    refine (Consumes.readN_map htopic).bind ?_
    refine (consumes_readUvarint_arrayLen (n := 0) (by decide)).bind ?_
    have hflat : answer.sections.flatMap (·.returned) =
        (answer.topics.map fun t => t.sections.flatMap (·.returned)).flatten := by
      rw [ShareAnswer.sections, flatMap_assoc, ← List.flatMap_def]
    rw [hflat]
    exact (Consumes.pure []).bind (consumes_skipTagSection_empty.map _)
  have hrun := hall (fromBytes answer.bytes) [] (Cursor.valid_start _) (append_nil _).symm
  rw [decodeShareFetchResponse, hrun]
  rfl

/-- The decoder returns for an answer of a broker only records in a range of their partition, with
its delivery count, exactly if all offsets of the batches sent for a partition are in a range that
was sent for it. -/
theorem decodeShareFetchResponse_acquired_iff {C : Codecs} {topicName : UUID → Option Bytes}
    {answer : ShareAnswer C} (hnames : answer.Named topicName) :
    ∃ resp, decodeShareFetchResponse C topicName answer.bytes = .ok resp ∧
      ((∀ r ∈ resp.records, ∃ s ∈ answer.sections, s.topic = r.topic ∧ s.partition = r.partition ∧
          ∃ a ∈ s.acquired, a.Has r.offset ∧ r.deliveryCount = a.count) ↔
        ∀ s ∈ answer.sections, ∀ b ∈ s.batches, ∀ offset ∈ b.offsets,
          ∃ a ∈ s.acquired, a.Has offset) := by
  refine ⟨_, decodeShareFetchResponse_bytes hnames, fun hall s hs b hb offset hoffset => ?_,
    fun hall r hr => ?_⟩
  · rw [← map_offset_delivered] at hoffset
    obtain ⟨r, hr, rfl⟩ := mem_map.1 hoffset
    obtain ⟨htopic, hpart⟩ := partition_delivered hr
    have hmem : markAll s.acquired r ∈ answer.sections.flatMap (·.returned) :=
      mem_flatMap.2 ⟨s, hs, mem_map_of_mem (mem_flatMap.2 ⟨b, hb, hr⟩)⟩
    obtain ⟨s', hs', htopic', hpart', a, ha, hhas, -⟩ := hall _ hmem
    rw [partKey_markAll.1, htopic] at htopic'
    rw [partKey_markAll.2, hpart] at hpart'
    -- the partition is answered for once
    obtain rfl := inj_on_of_nodup_map answer.once hs' hs (Prod.ext htopic' hpart')
    rw [offset_markAll] at hhas
    exact ⟨a, ha, hhas⟩
  · obtain ⟨s, hs, hr⟩ := mem_flatMap.1 hr
    obtain ⟨r₀, hr₀, rfl⟩ := mem_map.1 hr
    obtain ⟨b, hb, hr₀⟩ := mem_flatMap.1 hr₀
    obtain ⟨htopic, hpart⟩ := partition_delivered hr₀
    rw [partKey_markAll.1, partKey_markAll.2, offset_markAll]
    refine ⟨s, hs, htopic.symm, hpart.symm, deliveryCount_markAll (hall s hs b hb _ ?_)⟩
    rw [← map_offset_delivered]
    exact mem_map_of_mem hr₀

/-- Batches of partition 0 of topic `t`, each with one record: offsets 7 and 8. -/
def sharedBatch (offset : Int64) : LogBatch shortCodecs [116] 0 :=
  @LogBatch.oneRecord shortCodecs [116] 0 0 rfl rfl (-1) offset

def sharedBatches : List (LogBatch shortCodecs [116] 0) := [sharedBatch 7, sharedBatch 8]

/-- The record at an offset. -/
def sharedRecord (offset : Int64) : FetchedRecord := readBackRecord [116] 0 offset 0 [] [] [] 0 0

theorem length_sharedBatches :
    (blob sharedBatches).length = 2 * (61 + (emptyRecords [0]).length) := by
  have hraw : ∀ offset, (sharedBatch offset).raw.length = 61 + (emptyRecords [0]).length :=
    fun offset => BatchHeader.length_frame _ _
  rw [sharedBatches, blob, flatMap_cons, flatMap_singleton, length_append, hraw, hraw]
  omega

theorem sharedBatches_fit : (blob sharedBatches).length + 1 < 2 ^ 29 := by
  have hlen : (emptyRecords [0]).length = 7 := by decide +kernel
  rw [length_sharedBatches, hlen]
  decide

theorem length_singleton_fits {α : Type} (x : α) : [x].length + 1 < 2 ^ 29 :=
  show 1 + 1 < 2 ^ 29 by decide

/-- A broker's answer that has both batches. -/
def sharedAnswer (acquired : List AcquiredRange) (hacquired : acquired.length + 1 < 2 ^ 29) :
    ShareAnswer shortCodecs where
  topics :=
    [{ id := Vector.replicate 16 1
       sections := [{ topic := [116], partition := 0, batches := sharedBatches, acquired := acquired
                      fits := ⟨sharedBatches_fit, hacquired⟩ }]
       fits := length_singleton_fits _ }]
  fits := length_singleton_fits _
  once := nodup_singleton _

theorem sharedAnswer_named {acquired : List AcquiredRange}
    {hacquired : acquired.length + 1 < 2 ^ 29} :
    (sharedAnswer acquired hacquired).Named fun _ => some [116] := by
  intro t ht s hs
  obtain rfl := mem_singleton.1 ht
  obtain rfl := mem_singleton.1 hs
  rfl

theorem decodeShareFetchResponse_sharedAnswer {acquired : List AcquiredRange}
    (h : acquired.length + 1 < 2 ^ 29) :
    decodeShareFetchResponse shortCodecs (fun _ => some [116]) (sharedAnswer acquired h).bytes =
      .ok ⟨0, [markAll acquired (sharedRecord 7), markAll acquired (sharedRecord 8)]⟩ :=
  decodeShareFetchResponse_bytes sharedAnswer_named

/-- Two ranges overlap at offset 8, and the count of the second stands. -/
theorem decodeShareFetchResponse_acquired_iff_two :
    ∃ resp, decodeShareFetchResponse shortCodecs (fun _ => some [116])
        (sharedAnswer [⟨7, 8, 1⟩, ⟨8, 9, 2⟩] (by decide)).bytes = .ok resp ∧
      resp.records = [{ sharedRecord 7 with deliveryCount := 1 },
        { sharedRecord 8 with deliveryCount := 2 }] ∧
      ∀ r ∈ resp.records,
        ∃ s ∈ (sharedAnswer [⟨7, 8, 1⟩, ⟨8, 9, 2⟩] (by decide)).sections,
          s.topic = r.topic ∧ s.partition = r.partition ∧
            ∃ a ∈ s.acquired, a.Has r.offset ∧ r.deliveryCount = a.count := by
  obtain ⟨resp, hdecode, hiff⟩ := decodeShareFetchResponse_acquired_iff
    (@sharedAnswer_named [⟨7, 8, 1⟩, ⟨8, 9, 2⟩] (by decide))
  have hresp := Except.ok.inj
    (hdecode.symm.trans (@decodeShareFetchResponse_sharedAnswer [⟨7, 8, 1⟩, ⟨8, 9, 2⟩] (by decide)))
  refine ⟨resp, hdecode, by rw [hresp]; rfl, hiff.2 fun s hs b hb offset hoffset => ?_⟩
  obtain rfl := mem_singleton.1 hs
  rcases mem_pair.1 hb with rfl | rfl <;> obtain rfl := mem_singleton.1 hoffset <;> decide

/-- Only offset 7 was acquired, and the record at offset 8 is returned too. -/
theorem decodeShareFetchResponse_unacquired :
    decodeShareFetchResponse shortCodecs (fun _ => some [116])
        (sharedAnswer [⟨7, 7, 1⟩] (length_singleton_fits _)).bytes =
      .ok ⟨0, [{ sharedRecord 7 with deliveryCount := 1 }, sharedRecord 8]⟩ ∧
    ¬ (⟨7, 7, 1⟩ : AcquiredRange).Has (sharedRecord 8).offset :=
  ⟨decodeShareFetchResponse_sharedAnswer _, by decide⟩

end GoKafka
