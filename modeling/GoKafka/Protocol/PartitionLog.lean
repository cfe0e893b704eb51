import GoKafka.Protocol.BatchRoundTrip
import GoKafka.Lib.Frontier

/-!
# Partition logs

A partition log as a consumer meets it: batches, each with the bytes the broker stores and the info
`decodeOneRecordBatch` makes of them (`LogBatch`). A Fetch response carries the concatenation of
the bytes of consecutive batches (`blob`). `decodeRecordBatch_blob` takes the bytes out of the
picture: decoding a blob is the fold `deliverAll` over the infos, with the aborted list as a cursor
(`markAborted_fst`, `mem_markAborted`) and the set of marked producers as its state.
-/

namespace GoKafka

/-- Offsets are ordered as signed numbers. -/
instance linearOrderInt64 : LinearOrder Int64 where
  le_refl := Int64.le_refl
  le_trans _ _ _ := Int64.le_trans
  lt_iff_le_not_ge _ _ := by grind
  le_antisymm _ _ := Int64.le_antisymm
  le_total := Int64.le_total
  toDecidableLE := inferInstance
  toDecidableEq := inferInstance
  toDecidableLT := inferInstance

open Frontier Reading List

/-- A batch of a partition log: its bytes, which carry their own length, and what they decode to. -/
structure LogBatch (C : Codecs) (topic : Bytes) (part : Int32) where
  raw : Bytes
  info : RecordBatchInfo
  framed : Framed raw
  decodes : decodeOneRecordBatch C topic part raw = .ok (some info)

variable {C : Codecs} {topic : Bytes} {part : Int32}

/-- The record bytes of a Fetch response that covers the batches. -/
def blob (batches : List (LogBatch C topic part)) : Bytes := batches.flatMap (·.raw)

/-- What the decoder's loop does with a list of decoded batches. -/
def deliverAll (topic : Bytes) (part : Int32) :
    List RecordBatchInfo → List AbortedTxn → Finset Int64 → List FetchedRecord
  | [], _, _ => []
  | info :: infos, aborted, pids =>
    let marked := markAborted info.baseOffset aborted pids
    let delivered := deliverBatch topic part info marked.2
    delivered.1 ++ deliverAll topic part infos marked.1 delivered.2

/-- The decoder's loop on the bytes of log batches. -/
theorem decodeRecordBatchLoop_blob (batches : List (LogBatch C topic part)) (pids : Finset Int64) :
    decodeRecordBatchLoop C topic part (blob batches) aborted pids =
      .ok (deliverAll topic part (batches.map (·.info)) aborted pids) := by
  induction batches generalizing aborted pids with
  | nil => exact decodeRecordBatchLoop_nil
  | cons b batches ih =>
    have hblob : blob (b :: batches) = b.raw ++ blob batches := rfl
    rw [hblob, decodeRecordBatchLoop_append b.framed b.decodes]
    simp only [ih]
    rfl

/-- Decoding a blob is the fold over its batches' infos. -/
theorem decodeRecordBatch_blob (batches : List (LogBatch C topic part)) :
    decodeRecordBatch C topic part (blob batches) aborted =
      .ok (deliverAll topic part (batches.map (·.info)) aborted ∅) :=
  decodeRecordBatchLoop_blob batches ∅

/-- A batch moves the cursor of the aborted list past its base offset. -/
theorem markAborted_fst (pids : Finset Int64) :
    (markAborted baseOffset aborted pids).1 = beyond AbortedTxn.firstOffset baseOffset aborted := by
  induction aborted generalizing pids with
  | nil => rfl
  | cons e aborted ih =>
    rw [markAborted]
    split_ifs with he
    · rw [ih, beyond_cons_of_le he]
    · rw [beyond_cons_of_lt (lt_of_not_ge he)]

theorem mem_markAborted : p ∈ (markAborted baseOffset aborted pids).2 ↔
      p ∈ pids ∨ ∃ e ∈ upTo AbortedTxn.firstOffset baseOffset aborted, e.producerID = p := by
  induction aborted generalizing pids with
  | nil => simp [markAborted]
  | cons e aborted ih =>
    rw [markAborted]
    split_ifs with he
    · rw [ih, upTo_cons_of_le he, Finset.mem_insert]
      simp only [mem_cons, exists_eq_or_imp, or_assoc]
      rw [or_left_comm, eq_comm]
    · rw [upTo_cons_of_lt (lt_of_not_ge he)]
      simp

/-! ## The records of a batch -/

/-- A decoded record is a data record of the partition it was decoded for. -/
def FetchedRecord.DataOf (topic : Bytes) (part : Int32) (r : FetchedRecord) : Prop :=
  r.topic = topic ∧ r.partition = part ∧ r.control = false

/-- A round of the header loop breaks off, or it reads a key and a value. -/
theorem parseHeaders_succ (h : parseHeaders (n + 1) b = .ok (headers, b')) :
    headers = [] ∨ ∃ k c v c' rest,
      readField b = .ok (some k, c) ∧ readField c = .ok (some v, c') ∧
        parseHeaders n c' = .ok (rest, b') ∧ headers = (k, v) :: rest := by
  obtain ⟨k, c, hk, h⟩ := bind_ok h
  cases k with
  | none =>
    cases h
    exact .inl rfl
  | some k =>
    obtain ⟨v, c', hv, h⟩ := bind_ok h
    cases v with
    | none =>
      cases h
      exact .inl rfl
    | some v =>
      obtain ⟨rest, c'', hrest, h⟩ := bind_ok h
      cases h
      exact .inr ⟨k, c, v, c', rest, hk, hv, hrest, rfl⟩

theorem parseRecord_some
    (h : parseRecord topic part baseOffset baseTimestamp b = .ok (some r, b')) :
    ∃ attributes b₁ tsDelta b₂ offsetDelta b₃ b₄ b₅ nHdrs b₆,
      readInt8 b = .ok (attributes, b₁) ∧ readVarint b₁ = .ok (tsDelta, b₂) ∧
      readVarint b₂ = .ok (offsetDelta, b₃) ∧ readField b₃ = .ok (some r.key, b₄) ∧
      readField b₄ = .ok (some r.value, b₅) ∧ readVarint b₅ = .ok (nHdrs, b₆) ∧
      parseHeaders nHdrs.toInt.toNat b₆ = .ok (r.headers, b') ∧ r.DataOf topic part := by
  obtain ⟨_, b₁, h₁, h⟩ := bind_ok h
  obtain ⟨_, b₂, h₂, h⟩ := bind_ok h
  obtain ⟨_, b₃, h₃, h⟩ := bind_ok h
  obtain ⟨key, b₄, h₄, h⟩ := bind_ok h
  cases key with
  | none => cases h
  | some key =>
    obtain ⟨value, b₅, h₅, h⟩ := bind_ok h
    cases value with
    | none => cases h
    | some value =>
      obtain ⟨_, b₆, h₆, h⟩ := bind_ok h
      obtain ⟨_, b₇, h₇, h⟩ := bind_ok h
      cases h
      exact ⟨_, b₁, _, b₂, _, b₃, b₄, b₅, _, b₆, h₁, h₂, h₃, h₄, h₅, h₆, h₇, rfl, rfl, rfl⟩

/-- The records of a decoded batch come from its payload. -/
theorem readRecordBatch_records (h : readRecordBatch C topic part batch c = .ok (some info, c')) :
    ∃ attributes baseOffset firstTimestamp numRecords bytes,
      decodeRecords C topic part attributes baseOffset firstTimestamp numRecords bytes =
        .ok info.records := by
  obtain ⟨baseOffset, _, -, h⟩ := bind_ok h
  obtain ⟨_, _, -, h⟩ := bind_ok h
  obtain ⟨_, _, -, h⟩ := bind_ok h
  obtain ⟨magic, _, -, h⟩ := bind_ok h
  split_ifs at h with hmagic
  · cases h
  obtain ⟨crc, _, -, h⟩ := bind_ok h
  dsimp only at h
  split_ifs at h with hcrc
  · cases h
  obtain ⟨attributes, _, -, h⟩ := bind_ok h
  obtain ⟨_, _, -, h⟩ := bind_ok h
  obtain ⟨firstTimestamp, _, -, h⟩ := bind_ok h
  obtain ⟨_, _, -, h⟩ := bind_ok h
  obtain ⟨_, _, -, h⟩ := bind_ok h
  obtain ⟨_, _, -, h⟩ := bind_ok h
  obtain ⟨_, _, -, h⟩ := bind_ok h
  obtain ⟨numRecords, _, -, h⟩ := bind_ok h
  obtain ⟨b, _, -, h⟩ := bind_ok h
  obtain ⟨recs, d, hrecs, h⟩ := bind_ok h
  cases h
  refine ⟨attributes, baseOffset, firstTimestamp, numRecords, b.rest, ?_⟩
  cases hdec : decodeRecords C topic part attributes baseOffset firstTimestamp numRecords
      b.rest with
  | error e => rw [hdec] at hrecs; cases hrecs
  | ok recs' => rw [hdec] at hrecs; cases hrecs; rfl

section Forall

variable {P : FetchedRecord → Prop}
  (hP : ∀ baseOffset baseTimestamp b b' r,
    parseRecord topic part baseOffset baseTimestamp b = .ok (some r, b') → P r)
include hP

/-- What holds of every record parsed holds of all records of a payload. -/
theorem parseRecordsLoop_forall
    (h : parseRecordsLoop topic part baseOffset baseTimestamp b = .ok recs) : ∀ r ∈ recs, P r := by
  fun_induction parseRecordsLoop topic part baseOffset baseTimestamp b generalizing recs with
  | case1 | case3 | case4 =>
    cases h
    simp
  | case2 | case5 => cases h
  | case6 b hrest length b₁ hlen hpos hfit rec b₂ hrec ih =>
    cases hloop : parseRecordsLoop topic part baseOffset baseTimestamp
        ⟨b₁.data, b₁.pos + length.toInt.toNat⟩ with
    | error e => rw [hloop] at h; cases h
    | ok rest =>
      rw [hloop] at h
      cases h
      intro r hr
      rcases mem_append.1 hr with hr | hr
      · cases rec with
        | none => cases hr
        | some r' =>
          obtain rfl := mem_singleton.1 hr
          exact hP _ _ _ _ _ hrec
      · exact ih hloop r hr

theorem decodeRecords_forall
    (h : decodeRecords C topic part attributes baseOffset firstTimestamp numRecords bytes =
      .ok recs) : ∀ r ∈ recs, P r := by
  rw [decodeRecords] at h
  split_ifs at h with hctl
  · cases h
    simp
  · cases hraw : (if (attributes &&& 0x7).toInt8 ≠ 0 then
        decompress C (attributes &&& 0x7).toInt8 bytes else .ok bytes) with
    | error e => simp only [hraw] at h; cases h
    | ok raw =>
      simp only [hraw] at h
      exact parseRecordsLoop_forall hP h

theorem decodeOneRecordBatch_forall (h : decodeOneRecordBatch C topic part raw = .ok (some info)) :
    ∀ r ∈ info.records, P r := by
  rw [decodeOneRecordBatch] at h
  split_ifs at h with hlen
  · cases h
  cases hread : readRecordBatch C topic part raw (fromBytes raw) with
  | error e => rw [hread] at h; cases h
  | ok res =>
    rw [hread] at h
    obtain ⟨info', c⟩ := res
    obtain rfl : info' = some info := Except.ok.inj h
    obtain ⟨_, _, _, _, _, hrecs⟩ := readRecordBatch_records hread
    exact decodeRecords_forall hP hrecs

end Forall

/-- The records of a log batch are data records of its partition. -/
theorem LogBatch.records_dataOf (b : LogBatch C topic part) :
    ∀ r ∈ b.info.records, r.DataOf topic part :=
  decodeOneRecordBatch_forall (fun _ _ _ _ _ h =>
    have ⟨_, _, _, _, _, _, _, _, _, _, _, _, _, _, _, _, _, hdata⟩ := parseRecord_some h
    hdata) b.decodes

/-! ## What a blob delivers -/

/-- What a batch contributes to the decoder's output: its records, or one control entry. -/
def Delivers (topic : Bytes) (part : Int32) (info : RecordBatchInfo)
    (out : List FetchedRecord) : Prop :=
  out = [controlMarker topic part info.lastOffset] ∨ out = info.records

/-- Whatever the aborted list, every batch contributes its records or a control entry, in order. -/
theorem deliverAll_segments (infos : List RecordBatchInfo) (aborted : List AbortedTxn)
    (pids : Finset Int64) :
    ∃ outs, List.Forall₂ (Delivers topic part) infos outs ∧
      deliverAll topic part infos aborted pids = outs.flatten := by
  induction infos generalizing aborted pids with
  | nil => exact ⟨[], .nil, rfl⟩
  | cons info infos ih =>
    let marked := markAborted info.baseOffset aborted pids
    let delivered := deliverBatch topic part info marked.2
    obtain ⟨outs, houts, hflat⟩ := ih marked.1 delivered.2
    refine ⟨delivered.1 :: outs, .cons ?_ houts, ?_⟩
    · simp only [Delivers, delivered, deliverBatch]
      split_ifs
      · exact .inl rfl
      · exact .inl rfl
      · exact .inr rfl
    · rw [deliverAll, flatten_cons, ← hflat]

/-- A partition's log: batches one after the other, each with its records in offset order between
its base and its last offset, and no offset at the end of the number range. -/
structure PartitionLog (C : Codecs) (topic : Bytes) (part : Int32) where
  batches : List (LogBatch C topic part)
  ordered : batches.Pairwise (·.info.lastOffset < ·.info.baseOffset)
  range : ∀ b ∈ batches, b.info.baseOffset ≤ b.info.lastOffset ∧
    ∀ r ∈ b.info.records, b.info.baseOffset ≤ r.offset ∧ r.offset ≤ b.info.lastOffset
  increasing : ∀ b ∈ batches, b.info.records.Pairwise (·.offset < ·.offset)
  bounded : ∀ b ∈ batches, b.info.lastOffset < Int64.maxValue

/-- What a broker sends for a Fetch at an offset: whole batches, from the one that contains the
offset on. -/
def PartitionLog.answer (log : PartitionLog C topic part) (offset : Int64) (count : Nat) :
    List (LogBatch C topic part) :=
  (log.batches.dropWhile (·.info.lastOffset < offset)).take count

/-- An entry a consumer gets of a batch: one of its records, or the control entry in their place. -/
def LogBatch.Yields (b : LogBatch C topic part) (r : FetchedRecord) : Prop :=
  r ∈ b.info.records ∨ r = controlMarker topic part b.info.lastOffset

variable {log : PartitionLog C topic part} {b : LogBatch C topic part}

/-- What a batch delivers lies in its offsets and in order. -/
theorem PartitionLog.delivers (hb : b ∈ log.batches) (h : Delivers topic part b.info out) :
    out.Pairwise (·.offset < ·.offset) ∧ ∀ r ∈ out, b.Yields r ∧
      b.info.baseOffset ≤ r.offset ∧ r.offset ≤ b.info.lastOffset := by
  obtain ⟨hle, hrange⟩ := log.range b hb
  rcases h with rfl | rfl
  · refine ⟨pairwise_singleton _ _, fun r hr => ?_⟩
    obtain rfl := mem_singleton.1 hr
    exact ⟨.inr rfl, hle, le_rfl⟩
  · exact ⟨log.increasing b hb, fun r hr => ⟨.inl hr, hrange r hr⟩⟩

/-- What consecutive batches deliver is in order, and each entry comes from one of them. -/
theorem PartitionLog.delivers_all {batches : List (LogBatch C topic part)}
    (hsub : batches.Sublist log.batches)
    (h : List.Forall₂ (Delivers topic part) (batches.map (·.info)) outs) :
    outs.flatten.Pairwise (·.offset < ·.offset) ∧ ∀ r ∈ outs.flatten, ∃ b ∈ batches, b.Yields r ∧
      b.info.baseOffset ≤ r.offset ∧ r.offset ≤ b.info.lastOffset := by
  induction batches generalizing outs with
  | nil =>
    cases h
    simp
  | cons b batches ih =>
    cases h with
    | cons hout hrest =>
      have hb : b ∈ log.batches := hsub.subset mem_cons_self
      have hsub' := sublist_of_cons_sublist hsub
      obtain ⟨hinc, hmem⟩ := PartitionLog.delivers hb hout
      obtain ⟨hincs, hmems⟩ := ih hsub' hrest
      have hafter := (pairwise_cons.1 (log.ordered.sublist hsub)).1
      refine ⟨pairwise_append.2 ⟨hinc, hincs, ?_⟩, ?_⟩
      · intro r hr r' hr'
        obtain ⟨b', hb', -, hlow, -⟩ := hmems r' hr'
        exact ((hmem r hr).2.2.trans_lt (hafter b' hb')).trans_le hlow
      · intro r hr
        rcases mem_append.1 hr with hr | hr
        · exact ⟨b, mem_cons_self, hmem r hr⟩
        · obtain ⟨b', hb', hyields⟩ := hmems r hr
          exact ⟨b', mem_cons_of_mem _ hb', hyields⟩

theorem PartitionLog.le_lastOffset_of_mem_answer {count : Nat} (hb : b ∈ log.answer offset count) :
    offset ≤ b.info.lastOffset := by
  have hdrop := mem_of_mem_take hb
  have hinc : log.batches.Pairwise (·.info.lastOffset ≤ ·.info.lastOffset) :=
    log.ordered.imp_of_mem fun _ h₂ hlt => hlt.le.trans (log.range _ h₂).1
  revert hdrop
  generalize log.batches = batches at hinc
  intro hdrop
  induction batches with
  | nil => cases hdrop
  | cons c batches ih =>
    obtain ⟨hc, hinc⟩ := pairwise_cons.1 hinc
    rw [dropWhile_cons] at hdrop
    split_ifs at hdrop with hlt
    · exact ih hinc hdrop
    · have hle : offset ≤ c.info.lastOffset := by simpa using hlt
      rcases mem_cons.1 hdrop with rfl | hmem
      · exact hle
      · exact hle.trans (hc b hmem)

/-- What a consumer decodes from an answer: entries in offset order, each from a batch of the log
that reaches the offset. -/
theorem PartitionLog.decode_answer (log : PartitionLog C topic part) (count : Nat) :
    ∃ out, decodeRecordBatch C topic part (blob (log.answer offset count)) aborted = .ok out ∧
      out.Pairwise (·.offset < ·.offset) ∧
      ∀ r ∈ out, ∃ b ∈ log.batches, offset ≤ b.info.lastOffset ∧ b.Yields r ∧
        r.offset ≤ b.info.lastOffset := by
  have hsub : (log.answer offset count).Sublist log.batches :=
    (take_sublist _ _).trans (dropWhile_sublist _)
  obtain ⟨outs, houts, hflat⟩ := @deliverAll_segments topic part
    ((log.answer offset count).map (·.info)) aborted ∅
  obtain ⟨hinc, hmem⟩ := PartitionLog.delivers_all hsub houts
  refine ⟨outs.flatten, by rw [decodeRecordBatch_blob, hflat], hinc, fun r hr => ?_⟩
  obtain ⟨b, hb, hyields, -, hhigh⟩ := hmem r hr
  exact ⟨b, hsub.subset hb, PartitionLog.le_lastOffset_of_mem_answer hb, hyields, hhigh⟩

/-- An entry of a batch belongs to its partition. -/
theorem LogBatch.Yields.partition (h : b.Yields r) : r.topic = topic ∧ r.partition = part := by
  rcases h with hr | rfl
  · obtain ⟨htopic, hpart, -⟩ := b.records_dataOf r hr
    exact ⟨htopic, hpart⟩
  · exact ⟨rfl, rfl⟩

/-! ## Batches from a header -/

/-- The log batch of a frame whose records are known. -/
def LogBatch.ofFrame (h : BatchHeader) (payload : Bytes) (recs : List FetchedRecord)
    (hlen : 4 ≤ payload.length ∧ 49 + payload.length < 2 ^ 32)
    (hrecs : decodeRecords C topic part h.attributes h.baseOffset h.firstTimestamp h.numRecords
      payload = .ok recs) : LogBatch C topic part where
  raw := h.frame payload
  info := h.info recs
  framed := h.framed_frame hlen.2
  decodes := by
    rw [decodeOneRecordBatch_frame C topic part h hlen.1, hrecs]
    rfl

/-- The payload of records without key, value and headers, at offsets above the base offset. -/
def emptyRecords (deltas : List Int64) : Bytes :=
  deltas.flatMap fun delta => frameRecord (appendRecordBody [] [] [] delta 0)

/-- An uncompressed data batch of empty records holds them at their offsets. -/
theorem decodeRecords_emptyRecords (hctl : attributes &&& 0x20 = 0)
    (hcodec : (attributes &&& 0x7).toInt8 = 0)
    (hdeltas : ∀ delta ∈ deltas, VarintRange delta ∧ recordBodyLen [] [] [] delta 0 < 2 ^ 28) :
    decodeRecords C topic part attributes baseOffset firstTimestamp numRecords
        (emptyRecords deltas) =
      .ok (deltas.map fun delta =>
        readBackRecord topic part baseOffset firstTimestamp [] [] [] delta 0) := by
  have hparse := @parseRecordsLoop_frames topic part baseOffset firstTimestamp
    (deltas.map fun delta => (appendRecordBody [] [] [] delta 0,
      readBackRecord topic part baseOffset firstTimestamp [] [] [] delta 0))
    (fromBytes (emptyRecords deltas)) (Cursor.valid_start _) (by
      intro it hit
      obtain ⟨delta, hdelta, rfl⟩ := mem_map.1 hit
      obtain ⟨hrange, hsize⟩ := hdeltas delta hdelta
      have hread := @consumes_parseRecord topic part baseOffset firstTimestamp [] [] [] delta 0
        hrange (by decide) hsize (by decide)
      rw [← length_appendRecordBody] at hsize
      exact ⟨hread, by simp [appendRecordBody, writeInt8], hsize⟩)
    (by simp [emptyRecords, Cursor.rest, fromBytes, flatMap_map])
  rw [map_map] at hparse
  rw [decodeRecords, if_neg (not_not_intro hctl)]
  simp only [hcodec]
  exact hparse

/-- The header of a batch of one record. -/
def oneRecordHeader (attributes : Int16) (producerID baseOffset : Int64) : BatchHeader where
  baseOffset := baseOffset
  leaderEpoch := 0
  attributes := attributes
  lastOffsetDelta := 0
  firstTimestamp := 0
  maxTimestamp := 0
  producerID := producerID
  producerEpoch := 0
  baseSequence := 0
  numRecords := 1

theorem emptyRecords_length :
    4 ≤ (emptyRecords [0]).length ∧ 49 + (emptyRecords [0]).length < 2 ^ 32 := by
  decide +kernel

theorem emptyRecords_deltas :
    ∀ delta ∈ ([0] : List Int64), VarintRange delta ∧ recordBodyLen [] [] [] delta 0 < 2 ^ 28 := by
  intro delta hdelta
  obtain rfl := mem_singleton.1 hdelta
  decide +kernel

/-- A batch of one record without key, value and headers. -/
def LogBatch.oneRecord (C : Codecs) (topic : Bytes) (part : Int32) {attributes : Int16}
    (hctl : attributes &&& 0x20 = 0) (hcodec : (attributes &&& 0x7).toInt8 = 0)
    (producerID baseOffset : Int64) : LogBatch C topic part :=
  .ofFrame (oneRecordHeader attributes producerID baseOffset) (emptyRecords [0])
    [readBackRecord topic part baseOffset 0 [] [] [] 0 0] emptyRecords_length
    (decodeRecords_emptyRecords hctl hcodec emptyRecords_deltas)

theorem LogBatch.oneRecord_info (hctl : attributes &&& 0x20 = 0)
    (hcodec : (attributes &&& 0x7).toInt8 = 0) :
    (LogBatch.oneRecord C topic part hctl hcodec producerID baseOffset).info =
      { baseOffset := baseOffset, lastOffset := baseOffset, producerID := producerID
        isControl := false, isTransactional := attributes &&& 0x10 ≠ 0
        records := [readBackRecord topic part baseOffset 0 [] [] [] 0 0] } := by
  have hlast : baseOffset + (0 : Int32).toInt64 = baseOffset := by simp
  simp only [LogBatch.oneRecord, LogBatch.ofFrame, BatchHeader.info, oneRecordHeader, hlast, hctl]
  congr 1

/-- A control batch. -/
def LogBatch.control (C : Codecs) (topic : Bytes) (part : Int32)
    (producerID baseOffset : Int64) : LogBatch C topic part :=
  .ofFrame (oneRecordHeader 0x30 producerID baseOffset) (emptyRecords [0]) [] emptyRecords_length
    (if_pos (show (0x30 : Int16) &&& 0x20 ≠ 0 by decide))

theorem LogBatch.control_info :
    (LogBatch.control C topic part producerID baseOffset).info =
      { baseOffset := baseOffset, lastOffset := baseOffset, producerID := producerID
        isControl := true, isTransactional := true, records := [] } := by
  have hlast : baseOffset + (0 : Int32).toInt64 = baseOffset := by simp
  simp only [LogBatch.control, LogBatch.ofFrame, BatchHeader.info, oneRecordHeader, hlast]
  congr 1
  · exact decide_eq_true (show (0x30 : Int16) &&& 0x20 ≠ 0 by decide)
  · exact decide_eq_true (show (0x30 : Int16) &&& 0x10 ≠ 0 by decide)

end GoKafka
