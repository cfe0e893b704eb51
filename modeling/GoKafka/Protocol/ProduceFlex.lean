import GoKafka.Protocol.Produce
import GoKafka.Protocol.BatchRoundTrip
import GoKafka.Wire.Flex

/-!
# Produce requests and answers in the flexible versions

`encodeProduceRequestFlex` and `decodeProduceResponseFlex` in `internal/protocol/produce.go`: the
bytes around the batches of `encodeProduceRequest`. The request lists its topics and partitions in
the order of the batches (`encodeProduceRequest_flatten`), so that what is known of the batches
(`RequestFor`) is known of the request. Without compression every request is encoded
(`encodeProduceRequest_plain`).
-/

namespace GoKafka

open Reading Assoc List

/-- `protocol.ProduceSettings` with the fields that only the request around the batches has. -/
structure ProduceRequestSettings extends ProduceSettings where
  acks : Int16 := -1
  timeoutMs : Int32 := 30000
  transactionalID : Bytes := []
  deriving DecidableEq

/-! ## Requests -/

/-- A partition of a produce request. -/
def writeProducePart (b : PartitionBatch) : Bytes :=
  writeInt32 b.partition ++ (writeCompactBytes (some b.raw) ++ writeEmptyTagSection)

/-- The transactional id of a produce request, or null. -/
def writeTransactionalID (settings : ProduceRequestSettings) : Bytes :=
  if settings.transactional ∧ settings.transactionalID ≠ [] then
    writeCompactString settings.transactionalID
  else writeCompactNullableString none

/-- What stands before the topics of a produce request. -/
def writeProduceHeader (settings : ProduceRequestSettings) : Bytes :=
  writeTransactionalID settings
    ++ (writeInt16 settings.acks
    ++ writeInt32 (if settings.timeoutMs ≤ 0 then 30000 else settings.timeoutMs))

section Encode

variable (C : Codecs) (clock : PartKey → Nat → Time) (settings : ProduceRequestSettings)

/-- The batches of a request by topic, as the loops of `encodeProduceRequestFlex` encode them. -/
def encodeProduceTopics : List TopicParts → SeqCursor →
    Except Error (List (TopicEntries PartitionBatch)) × SeqCursor
  | [], cur => (.ok [], cur)
  | tg :: tgs, cur =>
    match encodeGroups C clock 9 settings.toProduceSettings
        ((groupByPartition tg.parts).map fun pg => (tg.topic, pg)) cur with
    | (.error e, cur) => (.error e, cur)
    | (.ok bs, cur) =>
      match encodeProduceTopics tgs cur with
      | (.error e, cur) => (.error e, cur)
      | (.ok ts, cur) => (.ok (⟨tg.topic, bs⟩ :: ts), cur)

/-- `EncodeProduceRequest` from version 9 on. -/
def encodeProduceRequestFlex (records : List ProduceRecord) (cur : SeqCursor) :
    Except Error Bytes × SeqCursor :=
  match encodeProduceTopics C clock settings (groupByTopic records) cur with
  | (.error e, cur) => (.error e, cur)
  | (.ok ts, cur) => (.ok (writeProduceHeader settings ++ (writeTopics writeProducePart ts
      ++ writeEmptyTagSection)), cur)

end Encode

/-! ## Answers -/

/-- The loop over the errors of a batch's records. -/
def readRecordError : Read Unit := do
  let _batchIndex ← readInt32
  let _message ← readCompactNullableString

/-- A partition of a produce answer. -/
def readProduceResult (topic : Bytes) : Read ProduceResult := do
  let part ← readInt32
  let errCode ← readInt16
  let offset ← readInt64
  let _logAppendTimeMs ← readInt64
  let _logStartOffset ← readInt64
  let nRecErrs ← readUvarint
  let _ ← readN readRecordError (nRecErrs - 1)
  let _errorMessage ← readCompactNullableString
  skipTagSection
  return { topic := topic, partition := part, offset := offset, errorCode := errCode }

/-- The body of `decodeProduceResponseFlex`. -/
def readProduceResponse : Read (List ProduceResult) := do
  let ts ← readTopics readCompactString skipTagSection readProduceResult
  let _throttleTimeMs ← readInt32
  skipTagSection
  return ts.flatMap (·.parts)

def decodeProduceResponseFlex (body : Bytes) : Except Error (List ProduceResult) :=
  Prod.fst <$> readProduceResponse (fromBytes body)

/-! ## The batches of a request -/

section Batches

variable {C : Codecs} {clock : PartKey → Nat → Time} {settings : ProduceRequestSettings}

theorem encodeGroups_append {settings : ProduceSettings} :
    encodeGroups C clock apiVersion settings (gs ++ gs') cur =
      match encodeGroups C clock apiVersion settings gs cur with
      | (.error e, cur) => (.error e, cur)
      | (.ok bs, cur) =>
        match encodeGroups C clock apiVersion settings gs' cur with
        | (.error e, cur) => (.error e, cur)
        | (.ok bs', cur) => (.ok (bs ++ bs'), cur) := by
  induction gs generalizing cur with
  | nil =>
    simp only [nil_append, encodeGroups]
    rcases encodeGroups C clock apiVersion settings gs' cur with ⟨e | bs', cur'⟩ <;> rfl
  | cons g gs ih =>
    simp only [cons_append, encodeGroups]
    rcases encodeGroup C clock apiVersion settings g cur with ⟨e | b, cur'⟩
    · rfl
    simp only [ih]
    rcases encodeGroups C clock apiVersion settings gs cur' with ⟨e | bs, cur''⟩
    · rfl
    simp only
    rcases encodeGroups C clock apiVersion settings gs' cur'' with ⟨e | bs', cur'''⟩ <;> rfl

/-- The topics of a request hold the batches of `encodeProduceRequest`, in its order. -/
theorem encodeProduceRequest_flatten :
    encodeProduceRequest C clock 9 settings.toProduceSettings records cur =
      match encodeProduceTopics C clock settings (groupByTopic records) cur with
      | (.error e, cur) => (.error e, cur)
      | (.ok ts, cur) => (.ok (ts.flatMap (·.parts)), cur) := by
  unfold encodeProduceRequest requestGroups
  induction groupByTopic records generalizing cur with
  | nil => rfl
  | cons tg tgs ih =>
    simp only [flatMap_cons, encodeGroups_append, encodeProduceTopics]
    rcases encodeGroups C clock 9 settings.toProduceSettings
      ((groupByPartition tg.parts).map fun pg => (tg.topic, pg)) cur with ⟨e | bs, cur'⟩
    · rfl
    simp only [ih]
    rcases encodeProduceTopics C clock settings tgs cur' with ⟨e | ts, cur''⟩ <;> rfl

/-- A loop that succeeds makes a batch of each group, under the group's topic. -/
theorem encodeGroups_topics {settings : ProduceSettings}
    (h : (encodeGroups C clock apiVersion settings gs cur).1 = .ok bs) :
    bs.map (·.topic) = gs.map (·.1) := by
  fun_induction encodeGroups C clock apiVersion settings gs cur generalizing bs with
  | case1 =>
    cases h
    rfl
  | case2 | case3 => cases h
  | case4 g gs cur b cur' henc _ _ hencs ih =>
    cases h
    have hb : b.topic = g.1 := by
      revert henc
      fun_cases encodeGroup C clock apiVersion settings g cur with
      | case1 | case2 => rintro ⟨⟩
      | case3 => rintro ⟨⟩; rfl
    exact congrArg₂ List.cons hb (ih (congrArg Prod.fst hencs))

/-- The topics of a request: each has batches, and they are its own. -/
structure HasBatches (t : TopicEntries PartitionBatch) : Prop where
  nonempty : t.parts ≠ []
  topic : ∀ b ∈ t.parts, b.topic = t.topic

theorem encodeProduceTopics_ok (hne : ∀ tg ∈ tgs, tg.parts ≠ [])
    (h : (encodeProduceTopics C clock settings tgs cur).1 = .ok ts) : ∀ t ∈ ts, HasBatches t := by
  fun_induction encodeProduceTopics C clock settings tgs cur generalizing ts with
  | case1 =>
    cases h
    exact nofun
  | case2 | case3 => cases h
  | case4 tg tgs _ bs _ henc _ _ hencs ih =>
    cases h
    have htopics := encodeGroups_topics (congrArg Prod.fst henc)
    rw [map_map] at htopics
    refine forall_mem_cons.2 ⟨⟨?_, fun b hb => ?_⟩,
      ih (fun tg' htg' => hne tg' (mem_cons_of_mem _ htg')) (congrArg Prod.fst hencs)⟩
    · -- the topic's first record has a partition, and the partition a group
      intro hnil
      obtain ⟨r, hr⟩ := exists_mem_of_ne_nil _ (hne tg mem_cons_self)
      have hmem : r.partition ∈ firstKeys (·.partition) tg.parts :=
        mem_firstKeys.2 (mem_map_of_mem hr)
      have hlen := congrArg List.length htopics
      simp only [show bs = [] from hnil, groupByPartition_eq, length_map] at hlen
      exact ne_nil_of_mem hmem (length_eq_zero_iff.1 hlen.symm)
    · have htopic : b.topic ∈ bs.map (·.topic) := mem_map_of_mem hb
      rw [htopics] at htopic
      obtain ⟨pg, -, hpg⟩ := mem_map.1 htopic
      exact hpg.symm

theorem groupByTopic_ne_nil : ∀ tg ∈ groupByTopic records, tg.parts ≠ [] := by
  intro tg htg
  rw [groupByTopic_eq] at htg
  obtain ⟨t, ht, rfl⟩ := mem_map.1 htg
  obtain ⟨r, hr, rfl⟩ := mem_map.1 (mem_firstKeys.1 ht)
  exact ne_nil_of_mem (mem_filter.2 ⟨hr, decide_eq_true rfl⟩)

/-- Without compression a batch of some records is always encoded. -/
theorem encodeRecordBatch_plain {baseSequence : Int32} {clock : Nat → Time}
    {settings : ProduceSettings} (hplain : settings.compression = 0) (hne : records ≠ []) :
    encodeRecordBatch C clock records settings baseSequence =
      .ok ((encodedHeader clock records settings baseSequence
        (if settings.transactional then 0x10 else 0)).frame
          (encodeRecordsPayload (clock (records.length + 1)) records)) := by
  refine encodeRecordBatch_eq baseSequence hne ?_
  rw [compressPayload, if_neg (not_not_intro hplain)]
  rfl

/-- Without compression every request is encoded. -/
theorem encodeProduceRequest_plain (hplain : settings.compression = 0)
    (records : List ProduceRecord) (cur : SeqCursor) :
    ∃ bs, (encodeProduceRequest C clock 9 settings.toProduceSettings records cur).1 = .ok bs := by
  have hne : ∀ g ∈ requestGroups records, g.2.records ≠ [] := by
    intro g hg
    have ⟨hmem, hrecords⟩ := mem_requestGroups.1 hg
    obtain ⟨r, hr, hkey⟩ := mem_map.1 hmem
    rw [hrecords]
    exact ne_nil_of_mem (mem_filter.2 ⟨hr, decide_eq_true hkey⟩)
  unfold encodeProduceRequest
  generalize requestGroups records = gs at hne ⊢
  induction gs generalizing cur with
  | nil => exact ⟨[], rfl⟩
  | cons g gs ih =>
    have ⟨hg, hgs⟩ := forall_mem_cons.1 hne
    have hgroup : ∃ b, (encodeGroup C clock 9 settings.toProduceSettings g cur).1 = .ok b := by
      unfold encodeGroup
      simp only [encodeRecordBatch_plain hplain hg]
      exact ⟨_, rfl⟩
    obtain ⟨b, hb⟩ := hgroup
    obtain ⟨bs, hbs⟩ := ih (encodeGroup C clock 9 settings.toProduceSettings g cur).2 hgs
    unfold encodeGroups
    rcases henc : encodeGroup C clock 9 settings.toProduceSettings g cur with ⟨e | b', cur'⟩
    · rw [henc] at hb
      cases hb
    rw [henc] at hbs
    rcases hencs : encodeGroups C clock 9 settings.toProduceSettings gs cur' with ⟨e | bs', cur''⟩
    · rw [hencs] at hbs
      cases hbs
    exact ⟨b' :: bs', by simp only [hencs]⟩

end Batches

end GoKafka
