import GoKafka.Protocol.PartitionLog
import GoKafka.Lib.Assoc

/-!
# How far a blob takes a consumer

A consumer goes on behind the largest offset `decodeRecordBatch` returned. Batches are complete
here, with any header and payload (`WireBatch`): compaction keeps a batch's base offset and last
offset delta when it removes records, all of them included.

The decoder emits an entry at the last offset of a batch when it replaces the batch by a control
entry. Otherwise it emits the records that are left, and a batch without any is so short that
`decodeOneRecordBatch` takes it for an incomplete one. `decodeRecordBatch_largest_iff` is the exact
condition on the last batch under which the consumer gets past it.
-/

namespace GoKafka

open Assoc List

/-- A complete batch: its checksum and its length are right. -/
structure WireBatch where
  header : BatchHeader
  payload : Bytes
  fits : 49 + payload.length < 2 ^ 32

namespace WireBatch

variable (b : WireBatch)

def raw : Bytes := b.header.frame b.payload

def baseOffset : Int64 := b.header.baseOffset

def lastOffset : Int64 := b.header.baseOffset + b.header.lastOffsetDelta.toInt64

theorem framed_raw : Framed b.raw := b.header.framed_frame b.fits

/-- The bytes of batches one after the other. -/
def blob (batches : List WireBatch) : Bytes := batches.flatMap raw

variable (C : Codecs) (topic : Bytes) (part : Int32)

/-- What the decoder makes of a batch; a batch under 65 bytes is left out. -/
def info? : Option RecordBatchInfo :=
  match decodeOneRecordBatch C topic part b.raw with
  | .ok info => info
  | .error _ => none

/-- The offsets of a batch: the records that are left lie between its base and its last offset. -/
def InRange : Prop :=
  b.baseOffset ≤ b.lastOffset ∧ ∀ info, b.info? C topic part = some info → ∀ r ∈ info.records,
    b.baseOffset ≤ r.offset ∧ r.offset ≤ b.lastOffset

end WireBatch

/-! ## The decoder on complete batches -/

section Decoder

variable {C : Codecs} {topic : Bytes} {part : Int32}

/-- The entries of the aborted list that are left, and the marked producers, after some batches. -/
def marksAfter (topic : Bytes) (part : Int32) (infos : List RecordBatchInfo)
    (marks : List AbortedTxn × Finset Int64) : List AbortedTxn × Finset Int64 :=
  infos.foldl (fun marks info =>
    let marked := markAborted info.baseOffset marks.1 marks.2
    (marked.1, (deliverBatch topic part info marked.2).2)) marks

theorem deliverAll_append : deliverAll topic part (infos ++ infos') aborted pids =
      deliverAll topic part infos aborted pids ++
        deliverAll topic part infos' (marksAfter topic part infos (aborted, pids)).1
          (marksAfter topic part infos (aborted, pids)).2 := by
  induction infos generalizing aborted pids with
  | nil => rfl
  | cons info infos ih =>
    rw [cons_append, deliverAll, deliverAll, ih, append_assoc]
    rfl

/-- A complete batch is left out when it is short, and otherwise has the offsets of its header. -/
theorem WireBatch.decodeOneRecordBatch_raw {b : WireBatch}
    (h : decodeOneRecordBatch C topic part b.raw = .ok info) :
    b.payload.length < 4 ∧ info = none ∨
      4 ≤ b.payload.length ∧ ∃ recs, info = some (b.header.info recs) := by
  rcases Nat.lt_or_ge b.payload.length 4 with hshort | hlong
  · have hlen := b.header.length_frame b.payload
    rw [decodeOneRecordBatch, WireBatch.raw, if_pos (by omega)] at h
    cases h
    exact .inl ⟨hshort, rfl⟩
  · rw [WireBatch.raw, decodeOneRecordBatch_frame C topic part b.header hlong] at h
    cases hrecs : decodeRecords C topic part b.header.attributes b.header.baseOffset
        b.header.firstTimestamp b.header.numRecords b.payload with
    | error e =>
      rw [hrecs] at h
      cases h
    | ok recs =>
      rw [hrecs] at h
      cases h
      exact .inr ⟨hlong, recs, rfl⟩

/-- The decoder on complete batches, when it succeeds. -/
theorem decodeRecordBatchLoop_wire
    (h : decodeRecordBatchLoop C topic part (WireBatch.blob batches) aborted pids = .ok out) :
    (∀ b ∈ batches, decodeOneRecordBatch C topic part b.raw = .ok (b.info? C topic part)) ∧
      out = deliverAll topic part (batches.filterMap (·.info? C topic part)) aborted pids := by
  induction batches generalizing aborted pids out with
  | nil =>
    rw [WireBatch.blob, flatMap_nil, decodeRecordBatchLoop_nil] at h
    cases h
    exact ⟨nofun, rfl⟩
  | cons b batches ih =>
    have hblob : WireBatch.blob (b :: batches) = b.raw ++ WireBatch.blob batches := rfl
    rw [hblob, decodeRecordBatchLoop_framed b.framed_raw] at h
    cases hdec : decodeOneRecordBatch C topic part b.raw with
    | error e =>
      rw [hdec] at h
      cases h
    | ok info =>
      have hinfo : b.info? C topic part = info := by rw [WireBatch.info?, hdec]
      rw [hdec] at h
      cases info with
      | none =>
        obtain ⟨hall, hout⟩ := ih h
        refine ⟨forall_mem_cons.2 ⟨hdec.trans (congrArg _ hinfo.symm), hall⟩, ?_⟩
        rw [filterMap_cons, hinfo]
        exact hout
      | some info =>
        obtain ⟨rest, hrest, h⟩ := bind_eq_ok.1 h
        cases h
        obtain ⟨hall, hout⟩ := ih hrest
        refine ⟨forall_mem_cons.2 ⟨hdec.trans (congrArg _ hinfo.symm), hall⟩, ?_⟩
        rw [filterMap_cons, hinfo, hout]
        rfl

theorem WireBatch.info?_eq_some {b : WireBatch} (h : b.info? C topic part = some info) :
    65 ≤ b.raw.length ∧ ∃ recs, info = b.header.info recs := by
  have hlen : b.raw.length = 61 + b.payload.length := b.header.length_frame b.payload
  unfold WireBatch.info? at h
  split at h
  · next info' hdec =>
    rcases b.decodeOneRecordBatch_raw hdec with ⟨-, rfl⟩ | ⟨hlong, recs, hinfo⟩
    · cases h
    · exact ⟨by omega, recs, Option.some.inj (h.symm.trans hinfo)⟩
  · cases h

/-- An entry lies at or before the last offset of one of the batches. -/
theorem offset_le_of_mem_deliverAll {batches : List WireBatch}
    (hrange : ∀ b ∈ batches, b.InRange C topic part)
    (hr : r ∈ deliverAll topic part (batches.filterMap (·.info? C topic part)) aborted pids) :
    ∃ b ∈ batches, r.offset ≤ b.lastOffset := by
  obtain ⟨outs, houts, hflat⟩ := @deliverAll_segments topic part
    (batches.filterMap (·.info? C topic part)) aborted pids
  rw [hflat] at hr
  obtain ⟨out, hout, hin⟩ := mem_flatten.1 hr
  obtain ⟨info, hinfo, hdelivers⟩ := forall₂_exists_left houts hout
  obtain ⟨b, hb, hsome⟩ := mem_filterMap.1 hinfo
  obtain ⟨-, recs, rfl⟩ := WireBatch.info?_eq_some hsome
  refine ⟨b, hb, ?_⟩
  rcases hdelivers with rfl | rfl
  · obtain rfl := mem_singleton.1 hin
    exact le_rfl
  · exact ((hrange b hb).2 _ hsome r hin).2

/-- The producers that are marked when the decoder comes to a batch behind others. -/
def markedAt (C : Codecs) (topic : Bytes) (part : Int32) (before : List WireBatch)
    (aborted : List AbortedTxn) (b : WireBatch) : Finset Int64 :=
  let marks := marksAfter topic part (before.filterMap (·.info? C topic part)) (aborted, ∅)
  (markAborted b.baseOffset marks.1 marks.2).2

/-- The decoder emits an entry at the last offset of a batch: it is not too short, and it is a
control batch, or of a producer that is marked, or a record is left at that offset. -/
def WireBatch.Reached (C : Codecs) (topic : Bytes) (part : Int32) (marked : Finset Int64)
    (b : WireBatch) : Prop :=
  65 ≤ b.raw.length ∧ (b.header.attributes &&& 0x20 ≠ 0 ∨
    b.header.attributes &&& 0x10 ≠ 0 ∧ b.header.producerID ∈ marked ∨
    ∃ info, b.info? C topic part = some info ∧ ∃ r ∈ info.records, r.offset = b.lastOffset)

theorem WireBatch.reached_iff {b : WireBatch} (h : b.info? C topic part = some info) :
    b.Reached C topic part marked ↔
      ∃ r ∈ (deliverBatch topic part info marked).1, r.offset = b.lastOffset := by
  obtain ⟨hlen, recs, rfl⟩ := WireBatch.info?_eq_some h
  have hmarker : ∃ r ∈ [controlMarker topic part (b.header.info recs).lastOffset],
      r.offset = b.lastOffset := ⟨_, mem_singleton_self _, rfl⟩
  have hcontrol : (b.header.info recs).isControl = true ↔ b.header.attributes &&& 0x20 ≠ 0 :=
    decide_eq_true_iff
  have htxn : ((b.header.info recs).isTransactional && (b.header.info recs).producerID ∈ marked) =
      true ↔ b.header.attributes &&& 0x10 ≠ 0 ∧ b.header.producerID ∈ marked := by
    rw [Bool.and_eq_true, decide_eq_true_iff]
    exact and_congr_left' decide_eq_true_iff
  unfold WireBatch.Reached deliverBatch
  rw [and_iff_right hlen, ← hcontrol, ← htxn]
  split_ifs with hif hif'
  · exact iff_of_true (.inl hif) hmarker
  · exact iff_of_true (.inr (.inl hif')) hmarker
  · rw [or_iff_right hif, or_iff_right hif']
    exact ⟨fun ⟨_, hsome, hr⟩ => Option.some.inj (h.symm.trans hsome) ▸ hr, fun hr => ⟨_, h, hr⟩⟩

/-- The largest offset of a list of entries. -/
def Largest (out : List FetchedRecord) (o : Int64) : Prop :=
  (∃ r ∈ out, r.offset = o) ∧ ∀ r ∈ out, r.offset ≤ o

/-- Decoding complete batches in offset order brings the consumer to the last offset of the last one
if and only if the decoder emits an entry there. -/
theorem decodeRecordBatch_largest_iff (C : Codecs) (topic : Bytes) (part : Int32)
    {before : List WireBatch} {last : WireBatch}
    (hordered : ∀ b ∈ before, b.lastOffset < last.baseOffset)
    (hrange : ∀ b ∈ before ++ [last], b.InRange C topic part) {aborted : List AbortedTxn}
    {out : List FetchedRecord}
    (hok : decodeRecordBatch C topic part (WireBatch.blob (before ++ [last])) aborted = .ok out) :
    Largest out last.lastOffset ↔
      last.Reached C topic part (markedAt C topic part before aborted last) := by
  obtain ⟨hdec, rfl⟩ := decodeRecordBatchLoop_wire hok
  have hlast := hrange last (mem_append_right _ (mem_singleton_self last))
  have hle {b : WireBatch} (hb : b ∈ before) : b.lastOffset < last.lastOffset :=
    lt_of_lt_of_le (hordered b hb) hlast.1
  have hbound : ∀ r ∈ deliverAll topic part
      ((before ++ [last]).filterMap (·.info? C topic part)) aborted ∅,
        r.offset ≤ last.lastOffset := by
    intro r hr
    obtain ⟨b, hb, hoff⟩ := offset_le_of_mem_deliverAll hrange hr
    rcases mem_append.1 hb with hb | hb
    · exact hoff.trans (hle hb).le
    · exact mem_singleton.1 hb ▸ hoff
  have hbefore : ∀ r ∈ deliverAll topic part (before.filterMap (·.info? C topic part)) aborted ∅,
      r.offset ≠ last.lastOffset := by
    intro r hr
    obtain ⟨b, hb, hoff⟩ := offset_le_of_mem_deliverAll
      (fun b hb => hrange b (mem_append_left _ hb)) hr
    exact (lt_of_le_of_lt hoff (hle hb)).ne
  unfold Largest
  rw [and_iff_left hbound, filterMap_append, deliverAll_append]
  simp only [mem_append, or_and_right, exists_or]
  rw [or_iff_right fun ⟨r, hr, heq⟩ => hbefore r hr heq, filterMap_cons]
  cases hinfo : last.info? C topic part with
  | none =>
    -- the batch was left out, which a complete one is for its length only
    refine iff_of_false (fun ⟨r, hr, _⟩ => not_mem_nil hr) fun hreached => ?_
    have hshort := hdec last (mem_append_right _ (mem_singleton_self last))
    rw [hinfo] at hshort
    have hlen : last.raw.length = 61 + last.payload.length :=
      last.header.length_frame last.payload
    rcases last.decodeOneRecordBatch_raw hshort with ⟨hlt, -⟩ | ⟨-, recs, hsome⟩
    · have := hreached.1
      omega
    · cases hsome
  | some info =>
    obtain ⟨-, recs, rfl⟩ := WireBatch.info?_eq_some hinfo
    rw [WireBatch.reached_iff hinfo, filterMap_nil, deliverAll, deliverAll, append_nil]
    rfl

end Decoder

/-! ## Compacted batches -/

/-- The header of a batch at offset 7 that a producer without an id wrote. -/
def headerAt7 (lastOffsetDelta numRecords : Int32) : BatchHeader :=
  { baseOffset := 7, leaderEpoch := 0, attributes := 0, lastOffsetDelta := lastOffsetDelta
    firstTimestamp := 0, maxTimestamp := 0, producerID := -1, producerEpoch := -1
    baseSequence := -1, numRecords := numRecords }

/-- A batch of which no record is left. -/
def emptied : WireBatch := ⟨headerAt7 0 0, [], by decide⟩

/-- A batch of which the first record is left. -/
def firstLeft (lastOffsetDelta : Int32) : WireBatch :=
  ⟨headerAt7 lastOffsetDelta 1, appendRecord [] [1] [] 0 0, by decide +kernel⟩

/-- The record that is left. -/
def recordAt7 : FetchedRecord := readBackRecord [116] 0 7 0 [] [1] [] 0 0

theorem decodeOneRecordBatch_firstLeft :
    decodeOneRecordBatch shortCodecs [116] 0 (firstLeft lastOffsetDelta).raw =
      .ok (some ((headerAt7 lastOffsetDelta 1).info [recordAt7])) := by
  have hrecs : decodeRecords shortCodecs [116] 0 0 7 0 1 (appendRecord [] [1] [] 0 0) =
      .ok [recordAt7] := by
    decide +kernel
  have hlen : 4 ≤ (appendRecord [] [1] [] 0 0).length := by decide +kernel
  exact (decodeOneRecordBatch_frame shortCodecs [116] 0 (headerAt7 lastOffsetDelta 1) hlen).trans
    (congrArg (Except.map _) hrecs)

theorem decodeRecordBatch_firstLeft :
    decodeRecordBatch shortCodecs [116] 0 (WireBatch.blob [firstLeft lastOffsetDelta]) [] =
      .ok [recordAt7] := by
  rw [decodeRecordBatch, WireBatch.blob, flatMap_cons, decodeRecordBatchLoop_append
    (WireBatch.framed_raw _) decodeOneRecordBatch_firstLeft]
  simp [decodeRecordBatchLoop_nil, deliverBatch, BatchHeader.info, headerAt7]

/-- A batch from offset 9 to 10 of producer 4, of which the first record is left. -/
def txnLeft : WireBatch :=
  ⟨{ headerAt7 1 1 with baseOffset := 9, attributes := 0x10, producerID := 4 },
    appendRecord [] [1] [] 0 0, by decide +kernel⟩

theorem decodeOneRecordBatch_txnLeft : decodeOneRecordBatch shortCodecs [116] 0 txnLeft.raw =
    .ok (some (txnLeft.header.info [readBackRecord [116] 0 9 0 [] [1] [] 0 0])) := by
  have hrecs : decodeRecords shortCodecs [116] 0 0x10 9 0 1 txnLeft.payload =
      .ok [readBackRecord [116] 0 9 0 [] [1] [] 0 0] := by
    decide +kernel
  exact (decodeOneRecordBatch_frame shortCodecs [116] 0 txnLeft.header (by decide +kernel)).trans
    (congrArg (Except.map _) hrecs)

/-- Of two batches whose last records were removed, the second is of an aborted transaction: the
decoder emits an entry at its last offset in place of the record. -/
theorem decodeRecordBatch_largest_iff_ten :
    let out := [recordAt7, controlMarker [116] 0 10]
    decodeRecordBatch shortCodecs [116] 0 (WireBatch.blob [firstLeft 1, txnLeft]) [⟨4, 9⟩] =
      .ok out ∧
    (Largest out txnLeft.lastOffset ↔ txnLeft.Reached shortCodecs [116] 0
      (markedAt shortCodecs [116] 0 [firstLeft 1] [⟨4, 9⟩] txnLeft)) := by
  intro out
  have hok : decodeRecordBatch shortCodecs [116] 0 (WireBatch.blob [firstLeft 1, txnLeft])
      [⟨4, 9⟩] = .ok out := by
    rw [decodeRecordBatch, WireBatch.blob, flatMap_cons, decodeRecordBatchLoop_append
      (WireBatch.framed_raw _) decodeOneRecordBatch_firstLeft]
    simp only [flatMap_cons, decodeRecordBatchLoop_append (WireBatch.framed_raw _)
      decodeOneRecordBatch_txnLeft, flatMap_nil, decodeRecordBatchLoop_nil]
    decide +kernel
  refine ⟨hok, @decodeRecordBatch_largest_iff shortCodecs [116] 0 [firstLeft 1] txnLeft
    (forall_mem_singleton.2 (by decide)) ?_ _ _ hok⟩
  refine forall_mem_cons.2 ⟨⟨by decide, ?_⟩, forall_mem_singleton.2 ⟨by decide, ?_⟩⟩
  · intro info hinfo
    rw [WireBatch.info?, decodeOneRecordBatch_firstLeft] at hinfo
    cases hinfo
    exact forall_mem_singleton.2 (by decide)
  · intro info hinfo
    rw [WireBatch.info?, decodeOneRecordBatch_txnLeft] at hinfo
    cases hinfo
    exact forall_mem_singleton.2 (by decide)

/-- Nothing is emitted for an empty batch, and only the record that is left for one whose last
record was removed: a consumer stays at offset 7, or at offset 8 of a batch that ends with 8. -/
theorem decodeRecordBatch_stops_short :
    decodeRecordBatch shortCodecs [116] 0 (WireBatch.blob [emptied]) [] = .ok [] ∧
    ¬ Largest [] emptied.lastOffset ∧
    decodeRecordBatch shortCodecs [116] 0 (WireBatch.blob [firstLeft 1]) [] = .ok [recordAt7] ∧
    ¬ Largest [recordAt7] (firstLeft 1).lastOffset := by
  refine ⟨?_, fun h => ?_, decodeRecordBatch_firstLeft, fun h => ?_⟩
  · have hshort : decodeOneRecordBatch shortCodecs [116] 0 emptied.raw = .ok none := by
      rw [decodeOneRecordBatch, if_pos (by decide +kernel)]
    rw [decodeRecordBatch, WireBatch.blob, flatMap_cons, decodeRecordBatchLoop_framed
      emptied.framed_raw]
    exact decodeRecordBatchLoop_nil
  · obtain ⟨r, hr, -⟩ := h.1
    exact not_mem_nil hr
  · obtain ⟨r, hr, hoff⟩ := h.1
    obtain rfl := mem_singleton.1 hr
    exact absurd hoff (by decide)

end GoKafka
