import GoKafka.Protocol.RecordBatch

/-!
# The record-batch round trip

What `encodeRecordBatch` writes, `decodeRecordBatch` reads back. The encoder computes a record's
length with one function and writes its bytes with another; `length_appendRecordBody` is the
agreement of the two. The decoder re-derives every boundary from the bytes, so each piece of the
format has a `Consumes` lemma: a field (`consumes_writeField`), the headers
(`consumes_writeHeaders`), a record (`consumes_body`), and then the records section
(`parseRecordsLoop_frames`). `BatchHeader.frame` is the batch with its length and checksum in
place: `decodeOneRecordBatch_frame` decodes it at any header, and `encodeRecordBatch_eq` says that
the encoder's patched body is such a frame.
-/

namespace GoKafka

open Reading BigEndian List

/-! ## Lengths -/

@[simp] theorem length_writeVarint : (writeVarint v).length = varintLen v :=
  Varint.length_encode _

theorem varintLen_pos (v : Int64) : 0 < varintLen v := Varint.size_pos _

theorem length_appendHeader :
    (appendHeader h).length = varintLen (lenInt h.1.bytes) + h.1.bytes.length
      + (varintLen (lenInt h.2.bytes) + h.2.bytes.length) := by
  simp only [appendHeader, length_append, length_writeVarint]
  omega

theorem length_appendRecordBody (key value : Bytes) (headers : List WireHeader)
    (offsetDelta timestampDelta : Int64) :
    (appendRecordBody key value headers offsetDelta timestampDelta).length =
      recordBodyLen key value headers offsetDelta timestampDelta := by
  have hh : (headers.flatMap appendHeader).length =
      (headers.map fun h => varintLen (lenInt h.1.bytes) + h.1.bytes.length
        + (varintLen (lenInt h.2.bytes) + h.2.bytes.length)).sum := by
    rw [length_flatMap]
    exact congrArg List.sum (map_congr_left fun h _ => length_appendHeader)
  simp only [appendRecordBody, recordBodyLen, length_append, length_writeInt8, length_writeVarint]
  omega

variable {topic : Bytes} {part : Int32} {baseOffset baseTimestamp : Int64} {value payload : Bytes}
  {records rest : List ProduceRecord} {first : ProduceRecord} {C : Codecs}
  {settings : ProduceSettings}

/-- A record's fields are shorter than the record. -/
theorem field_lt_recordBodyLen
    (h : recordBodyLen key value headers offsetDelta timestampDelta < n) :
    key.length < n ∧ value.length < n ∧
      ∀ p ∈ headers, p.1.bytes.length < n ∧ p.2.bytes.length < n := by
  unfold recordBodyLen at h
  refine ⟨by omega, by omega, fun p hp => ?_⟩
  have hmem := single_le_sum (fun _ _ => Nat.zero_le _) _
    (mem_map_of_mem (f := fun h : WireHeader => varintLen (lenInt h.1.bytes)
      + h.1.bytes.length + (varintLen (lenInt h.2.bytes) + h.2.bytes.length)) hp)
  constructor <;> omega

/-! ## Records -/

/-- The reading of a byte string: `parseRecords` returns nil for an empty one. -/
def readBack (b : Bytes) : NilBytes := if b = [] then none else some b

theorem toInt_lenInt {α : Type} {b : List α} (h : b.length < 2 ^ 28) :
    (lenInt b).toInt = b.length :=
  Int64.toInt_ofNat_of_lt (by omega)

theorem varintRange_lenInt {α : Type} {b : List α} (h : b.length < 2 ^ 28) :
    VarintRange (lenInt b) := by
  unfold VarintRange
  rw [toInt_lenInt h]
  omega

theorem consumes_readField (h : b.length < 2 ^ 28) :
    Consumes readField (writeVarint (lenInt b) ++ b) (some (readBack b)) := by
  refine (consumes_readVarint (varintRange_lenInt h)).bind ?_
  have hn := toInt_lenInt h
  have hgt : lenInt b > 0 ↔ b ≠ [] := by
    rw [gt_iff_lt, Int64.lt_iff_toInt_lt, Int64.toInt_zero, ← length_pos_iff]
    omega
  intro c r hc hr
  by_cases hb : b = []
  · subst hb
    rfl
  · rw [if_pos (hgt.2 hb)]
    have hlen : ¬ ((lenInt b).toInt > c.rest.length) := by
      rw [hr, length_append]
      omega
    show (if (lenInt b).toInt > c.rest.length then _ else _ : Read _) c = _
    rw [if_neg hlen, hn]
    show Except.ok (some (some (c.rest.take b.length)), c.advance b.length) = _
    rw [hr, take_left, readBack, if_neg hb]

/-- A key, a value or one half of a header as a producer writes it: a length and that many bytes,
or -1 for null. -/
def writeField : NilBytes → Bytes
  | none => writeVarint (-1)
  | some bytes => writeVarint (lenInt bytes) ++ bytes

/-- The fields of one record of a section. -/
structure RecordLayout where
  attributes : Int8 := 0
  tsDelta : Int64 := 0
  offsetDelta : Int64 := 0
  key : NilBytes := none
  value : NilBytes := none
  headers : List WireHeader := []

namespace RecordLayout

/-- The bytes of a record before its key. -/
def front (r : RecordLayout) : Bytes :=
  writeInt8 r.attributes ++ (writeVarint r.tsDelta ++ writeVarint r.offsetDelta)

/-- The bytes of a record after its length. -/
def body (r : RecordLayout) : Bytes :=
  r.front ++ (writeField r.key ++ (writeField r.value ++ (writeVarint (lenInt r.headers)
    ++ r.headers.flatMap fun h => writeField h.1 ++ writeField h.2)))

/-- Every number of the record is in the range of `ReadVarint`. -/
structure Fits (r : RecordLayout) : Prop where
  tsDelta : VarintRange r.tsDelta
  offsetDelta : VarintRange r.offsetDelta
  key : r.key.bytes.length < 2 ^ 28
  value : r.value.bytes.length < 2 ^ 28
  headers : ∀ h ∈ r.headers, h.1.bytes.length < 2 ^ 28 ∧ h.2.bytes.length < 2 ^ 28
  count : r.headers.length < 2 ^ 28
  size : r.body.length < 2 ^ 28

end RecordLayout

theorem consumes_writeField {field : NilBytes} (h : field.bytes.length < 2 ^ 28) :
    Consumes readField (writeField field) (some (readBack field.bytes)) := by
  cases field with
  | none =>
    rw [writeField, ← append_nil (writeVarint (-1))]
    exact (consumes_readVarint (by decide)).bind (Consumes.pure (some none))
  | some bytes => exact consumes_readField h

theorem consumes_writeHeaders {headers : List WireHeader}
    (h : ∀ p ∈ headers, p.1.bytes.length < 2 ^ 28 ∧ p.2.bytes.length < 2 ^ 28) :
    Consumes (parseHeaders headers.length)
      (headers.flatMap fun p => writeField p.1 ++ writeField p.2)
      (headers.map fun p => (readBack p.1.bytes, readBack p.2.bytes)) := by
  induction headers with
  | nil => exact Consumes.pure []
  | cons p headers ih =>
    obtain ⟨hp, hrest⟩ := forall_mem_cons.1 h
    rw [flatMap_cons, append_assoc]
    refine (consumes_writeField hp.1).bind ?_
    refine (consumes_writeField hp.2).bind ?_
    exact (ih hrest).map _

/-- The record `parseRecords` makes of what `appendRecord` wrote. -/
def readBackRecord (topic : Bytes) (part : Int32) (baseOffset baseTimestamp : Int64)
    (key value : Bytes) (headers : List WireHeader) (offsetDelta timestampDelta : Int64) :
    FetchedRecord :=
  { topic := topic, partition := part, offset := baseOffset + offsetDelta
    key := readBack key, value := readBack value
    headers := headers.map fun p => (readBack p.1.bytes, readBack p.2.bytes)
    timestamp := baseTimestamp + timestampDelta }

/-- A record is read back, whatever its offsets and timestamps. -/
theorem consumes_body {r : RecordLayout} (h : r.Fits) :
    Consumes (parseRecord topic part baseOffset baseTimestamp) r.body
      (some (readBackRecord topic part baseOffset baseTimestamp r.key.bytes r.value.bytes r.headers
        r.offsetDelta r.tsDelta)) := by
  rw [RecordLayout.body, RecordLayout.front, append_assoc, append_assoc]
  refine (consumes_readInt8).bind ?_
  refine (consumes_readVarint h.tsDelta).bind ?_
  refine (consumes_readVarint h.offsetDelta).bind ?_
  refine (consumes_writeField h.key).bind ?_
  refine (consumes_writeField h.value).bind ?_
  refine (consumes_readVarint (varintRange_lenInt h.count)).bind ?_
  rw [toInt_lenInt h.count, Int.toNat_natCast]
  exact (consumes_writeHeaders h.headers).map _

/-- The layout of what the encoder writes: a nil field is an empty byte string. -/
def encodedLayout (key value : Bytes) (headers : List WireHeader)
    (offsetDelta timestampDelta : Int64) : RecordLayout :=
  { tsDelta := timestampDelta, offsetDelta := offsetDelta, key := some key, value := some value
    headers := headers.map fun p => (some p.1.bytes, some p.2.bytes) }

theorem appendRecordBody_eq : appendRecordBody key value headers offsetDelta timestampDelta =
    (encodedLayout key value headers offsetDelta timestampDelta).body := by
  have hheader : appendHeader =
      fun p => writeField (some p.1.bytes) ++ writeField (some p.2.bytes) := by
    funext p
    simp [appendHeader, writeField]
  simp [appendRecordBody, encodedLayout, RecordLayout.body, RecordLayout.front, writeField,
    flatMap_map, hheader, lenInt]

/-- What the encoder writes is read back when its size, its header count and its deltas are in the
range of `ReadVarint`. -/
theorem consumes_parseRecord {key : Bytes} {headers : List WireHeader}
    {offsetDelta timestampDelta : Int64} (hoff : VarintRange offsetDelta)
    (hts : VarintRange timestampDelta)
    (hsize : recordBodyLen key value headers offsetDelta timestampDelta < 2 ^ 28)
    (hhdr : headers.length < 2 ^ 28) :
    Consumes (parseRecord topic part baseOffset baseTimestamp)
      (appendRecordBody key value headers offsetDelta timestampDelta)
      (some (readBackRecord topic part baseOffset baseTimestamp key value headers offsetDelta
        timestampDelta)) := by
  obtain ⟨hkey, hvalue, hhs⟩ := field_lt_recordBodyLen hsize
  rw [← length_appendRecordBody, appendRecordBody_eq] at hsize
  have hfits : (encodedLayout key value headers offsetDelta timestampDelta).Fits :=
    ⟨hts, hoff, hkey, hvalue, forall_mem_map.2 hhs, by rwa [encodedLayout, length_map], hsize⟩
  have hread := @consumes_body topic part baseOffset baseTimestamp _ hfits
  rw [readBackRecord, encodedLayout, map_map] at hread
  rw [appendRecordBody_eq]
  exact hread

/-- A record is refused when one of its deltas is out of that range. -/
theorem parseRecord_large (h : ¬ (VarintRange timestampDelta ∧ VarintRange offsetDelta))
    (hb : b.Valid)
    (hr : b.rest = appendRecordBody key value headers offsetDelta timestampDelta ++ r) :
    parseRecord topic part baseOffset baseTimestamp b = .error .uvarintOverflow := by
  simp only [appendRecordBody, append_assoc] at hr
  obtain ⟨b₁, hb₁, hr₁, e₁⟩ := (consumes_readInt8).run_bind hb hr
  rw [parseRecord, e₁]
  by_cases hts : VarintRange timestampDelta
  · obtain ⟨b₂, -, hr₂, e₂⟩ := (consumes_readVarint hts).run_bind hb₁ hr₁
    rw [e₂]
    show (readVarint b₂ >>= _) = _
    rw [readVarint_large (fun hoff => h ⟨hts, hoff⟩) hr₂]
    rfl
  · show (readVarint b₁ >>= _) = _
    rw [readVarint_large hts hr₁]
    rfl

/-- The lengths at which `parseRecords` stops: not positive, or past the end of the buffer. -/
def Stops (length : Int64) (b : Buffer) : Prop :=
  length ≤ 0 ∨ b.data.length < b.pos + length.toInt.toNat

/-- One round of `parseRecords` after its length: a record, and the rest from where the length
says. -/
theorem parseRecordsLoop_round {length : Int64} (hrest : b.rest ≠ [])
    (hlen : readVarint b = .ok (length, b₁)) (hgo : ¬ Stops length b₁) :
    parseRecordsLoop topic part baseOffset baseTimestamp b = (do
      let (rec, _) ← parseRecord topic part baseOffset baseTimestamp b₁
      let recs ← parseRecordsLoop topic part baseOffset baseTimestamp
        (b₁.advance length.toInt.toNat)
      return rec.toList ++ recs) := by
  obtain ⟨hpos, hfit⟩ := not_or.1 hgo
  rw [parseRecordsLoop, dif_neg hrest]
  split
  · next e he => rw [hlen] at he; cases he
  · next he =>
    rw [hlen] at he
    cases he
    rw [dif_neg hpos, if_neg hfit]
    cases parseRecord topic part baseOffset baseTimestamp b₁ <;> rfl

/-- A record body with its length prefix. -/
def frameRecord (body : Bytes) : Bytes := writeVarint (lenInt body) ++ body

/-- The round of `parseRecords` that reads a framed record. -/
theorem parseRecordsLoop_frame {body : Bytes} {b : Buffer} (hb : b.Valid) (hpos : 0 < body.length)
    (hlt : body.length < 2 ^ 28) (hr : b.rest = frameRecord body ++ r) :
    ∃ b₁ : Buffer, b₁.Valid ∧ b₁.rest = body ++ r ∧
      parseRecordsLoop topic part baseOffset baseTimestamp b = (do
        let (rec, _) ← parseRecord topic part baseOffset baseTimestamp b₁
        let recs ← parseRecordsLoop topic part baseOffset baseTimestamp (b₁.advance body.length)
        return rec.toList ++ recs) := by
  rw [frameRecord, append_assoc] at hr
  have hb₁ := Cursor.valid_advance hb hr
  have hr₁ := Cursor.rest_advance hr
  have hne : b.rest ≠ [] := by
    rw [hr]
    simp [← length_pos_iff, varintLen_pos]
  have hint := toInt_lenInt hlt
  have hfit := Cursor.pos_add_le hb₁ hr₁
  have hnat : (lenInt body).toInt.toNat = body.length := by rw [hint, Int.toNat_natCast]
  have hgo : ¬ Stops (lenInt body) (b.advance (writeVarint (lenInt body)).length) := by
    rw [Stops, hnat, Int64.le_iff_toInt_le, Int64.toInt_zero]
    omega
  refine ⟨_, hb₁, hr₁, ?_⟩
  rw [parseRecordsLoop_round hne (consumes_readVarint (varintRange_lenInt hlt) b _ hb hr) hgo, hnat]

/-- `parseRecords` reads back a sequence of framed records, each of which `parseRecord` reads. -/
theorem parseRecordsLoop_frames {items : List (Bytes × FetchedRecord)} {b : Buffer} (hb : b.Valid)
    (hitems : ∀ it ∈ items,
      Consumes (parseRecord topic part baseOffset baseTimestamp) it.1 (some it.2) ∧
        0 < it.1.length ∧ it.1.length < 2 ^ 28)
    (hr : b.rest = items.flatMap fun it => frameRecord it.1) :
    parseRecordsLoop topic part baseOffset baseTimestamp b = .ok (items.map (·.2)) := by
  -- by induction on the records: each round consumes one frame and leaves the rest
  induction items generalizing b with
  | nil =>
    have hnil : b.rest = [] := hr
    rw [parseRecordsLoop, dif_pos hnil]
    rfl
  | cons it items ih =>
    obtain ⟨hread, hpos, hlt⟩ := hitems it (by simp)
    obtain ⟨b₁, hb₁, hr₁, hround⟩ := parseRecordsLoop_frame hb hpos hlt hr
    rw [hround, hread _ _ hb₁ hr₁]
    rw [ih (Cursor.valid_advance hb₁ hr₁) (fun q hq => hitems q (by simp [hq]))
      (Cursor.rest_advance hr₁)]
    rfl

/-- `appendRecord` frames the body. -/
theorem appendRecord_eq :
    appendRecord key value headers offsetDelta timestampDelta =
      frameRecord (appendRecordBody key value headers offsetDelta timestampDelta) := by
  rw [appendRecord, frameRecord, lenInt, length_appendRecordBody]

theorem length_headers_lt (key value : Bytes) (headers : List WireHeader)
    (offsetDelta timestampDelta : Int64) :
    headers.length < recordBodyLen key value headers offsetDelta timestampDelta := by
  have hsum := length_le_sum_of_one_le (headers.map fun h : WireHeader =>
    varintLen (lenInt h.1.bytes) + h.1.bytes.length
      + (varintLen (lenInt h.2.bytes) + h.2.bytes.length)) fun n hn => by
    obtain ⟨h, -, rfl⟩ := mem_map.1 hn
    have := varintLen_pos (lenInt h.1.bytes)
    omega
  rw [length_map] at hsum
  unfold recordBodyLen
  omega

/-- A record whose length is an `int` is read back just in case it is short and its deltas are in
the range of `ReadVarint`. -/
theorem parseRecords_appendRecord_iff
    (hint : recordBodyLen key value headers offsetDelta timestampDelta < 2 ^ 63) :
    parseRecords topic part (appendRecord key value headers offsetDelta timestampDelta) baseOffset
        baseTimestamp n =
      .ok [readBackRecord topic part baseOffset baseTimestamp key value headers offsetDelta
        timestampDelta] ↔
    recordBodyLen key value headers offsetDelta timestampDelta < 2 ^ 28 ∧
      VarintRange timestampDelta ∧ VarintRange offsetDelta := by
  have hlen := length_appendRecordBody key value headers offsetDelta timestampDelta
  have hhdr := length_headers_lt key value headers offsetDelta timestampDelta
  rw [parseRecords, appendRecord_eq]
  have hb : (fromBytes (frameRecord (appendRecordBody key value headers offsetDelta
    timestampDelta))).Valid := Cursor.valid_start _
  have hr : (fromBytes (frameRecord (appendRecordBody key value headers offsetDelta
    timestampDelta))).rest = frameRecord _ ++ [] := (append_nil _).symm
  generalize fromBytes _ = b at hb hr ⊢
  constructor
  · intro h
    have hsize : recordBodyLen key value headers offsetDelta timestampDelta < 2 ^ 28 := by
      by_contra hlong
      have hrange : ¬ VarintRange
          (lenInt (appendRecordBody key value headers offsetDelta timestampDelta)) := by
        rw [VarintRange, lenInt, hlen, Int64.toInt_ofNat_of_lt hint]
        omega
      rw [frameRecord, append_assoc] at hr
      rw [parseRecordsLoop] at h
      split at h
      · cases h
      · rw [readVarint_large hrange hr] at h
        cases h
    refine ⟨hsize, ?_⟩
    by_contra hdeltas
    obtain ⟨b₁, hb₁, hr₁, hround⟩ := @parseRecordsLoop_frame topic part baseOffset baseTimestamp
      _ _ b hb (by omega) (by omega) hr
    rw [hround, parseRecord_large hdeltas hb₁ hr₁] at h
    cases h
  · rintro ⟨hsize, hts, hoff⟩
    refine @parseRecordsLoop_frames topic part baseOffset baseTimestamp [(_, _)] b hb ?_
      (by simpa using hr)
    simpa [hlen, hsize] using ⟨consumes_parseRecord hoff hts hsize (by omega), by omega⟩

/-- What the varints of a record's writer are read back as: all of the protocol's numbers, but only
in the range of the reader. -/
theorem varints_read_back_iff {key : Bytes} {headers : List WireHeader}
    {offsetDelta timestampDelta : Int64} (u : UInt32) (v : Int32)
    (hint : recordBodyLen key value headers offsetDelta timestampDelta < 2 ^ 63) (n : Int32) :
    (Consumes readUvarint (writeUvarint u.toNat) u.toNat ↔ u.toNat < 2 ^ 29) ∧
    (Consumes readVarint (writeVarint v.toInt64) v.toInt64 ↔
      -2 ^ 28 ≤ v.toInt ∧ v.toInt < 2 ^ 28) ∧
    (parseRecords topic part (appendRecord key value headers offsetDelta timestampDelta) baseOffset
        baseTimestamp n =
      .ok [readBackRecord topic part baseOffset baseTimestamp key value headers offsetDelta
        timestampDelta] ↔
      recordBodyLen key value headers offsetDelta timestampDelta < 2 ^ 28 ∧
        VarintRange timestampDelta ∧ VarintRange offsetDelta) := by
  refine ⟨consumes_readUvarint_iff, ?_, parseRecords_appendRecord_iff hint⟩
  rw [consumes_readVarint_iff, VarintRange, Int32.toInt_toInt64]

/-- The timestamp of a record a day after the first is read back. -/
theorem varints_read_back_day : recordBodyLen [] [] [] 1 86400000 < 2 ^ 28 ∧
    parseRecords [] 0 (appendRecord [] [] [] 1 86400000) 0 0 1 =
      .ok [readBackRecord [] 0 0 0 [] [] [] 1 86400000] := by
  have hsize : recordBodyLen [] [] [] 1 86400000 < 2 ^ 28 := by decide +kernel
  exact ⟨hsize, (varints_read_back_iff 0 0 (by omega) 1).2.2.2 ⟨hsize, by decide, by decide⟩⟩

/-- That of a record four days after the first is not, nor are the bounds. -/
theorem varints_four_days : ¬ Consumes readUvarint (writeUvarint (2 ^ 29)) (2 ^ 29) ∧
    ¬ Consumes readVarint (writeVarint (2 ^ 28)) (2 ^ 28) ∧
    parseRecords [] 0 (appendRecord [] [] [] 1 345600000) 0 0 1 ≠
      .ok [readBackRecord [] 0 0 0 [] [] [] 1 345600000] := by
  refine ⟨mt consumes_readUvarint_iff.1 (by decide), mt consumes_readVarint_iff.1 (by decide),
    fun h => ?_⟩
  have hint : recordBodyLen [] [] [] 1 345600000 < 2 ^ 63 := by decide +kernel
  have hdelta := ((parseRecords_appendRecord_iff hint).1 h).2.1
  revert hdelta
  decide

/-! ## Batches -/

/-- The fields of a batch header that the decoder reads, apart from the length, the magic byte and
the checksum. -/
structure BatchHeader where
  baseOffset : Int64
  leaderEpoch : Int32
  attributes : Int16
  lastOffsetDelta : Int32
  firstTimestamp : Int64
  maxTimestamp : Int64
  producerID : Int64
  producerEpoch : Int16
  baseSequence : Int32
  numRecords : Int32

/-- The part of a batch the checksum covers: from the attributes on. -/
def BatchHeader.body (h : BatchHeader) (payload : Bytes) : Bytes :=
  writeInt16 h.attributes ++ (writeInt32 h.lastOffsetDelta ++ (writeInt64 h.firstTimestamp
    ++ (writeInt64 h.maxTimestamp ++ (writeInt64 h.producerID ++ (writeInt16 h.producerEpoch
    ++ (writeInt32 h.baseSequence ++ (writeInt32 h.numRecords ++ payload)))))))

/-- A batch with its length and checksum in place. -/
def BatchHeader.frame (h : BatchHeader) (payload : Bytes) : Bytes :=
  writeInt64 h.baseOffset ++ (writeInt32 (Int32.ofNat (49 + payload.length))
    ++ (writeInt32 h.leaderEpoch ++ (writeInt8 2 ++ (writeInt32 (crc32c (h.body payload)).toInt32
    ++ h.body payload))))

/-- The info the decoder makes of a header and its records. -/
def BatchHeader.info (h : BatchHeader) (records : List FetchedRecord) : RecordBatchInfo :=
  { baseOffset := h.baseOffset
    lastOffset := h.baseOffset + h.lastOffsetDelta.toInt64
    producerID := h.producerID
    isControl := h.attributes &&& 0x20 ≠ 0
    isTransactional := h.attributes &&& 0x10 ≠ 0
    records := records }

theorem BatchHeader.length_body (h : BatchHeader) :
    (h.body payload).length = 40 + payload.length := by
  simp only [BatchHeader.body, length_append, length_writeInt16, length_writeInt32,
    length_writeInt64]
  omega

theorem BatchHeader.length_frame (h : BatchHeader) (payload : Bytes) :
    (h.frame payload).length = 61 + payload.length := by
  simp only [BatchHeader.frame, length_append, length_writeInt8, length_writeInt32,
    length_writeInt64, BatchHeader.length_body]
  omega

theorem BatchHeader.drop_frame (h : BatchHeader) : (h.frame payload).drop 21 = h.body payload := by
  have hpre : h.frame payload = (writeInt64 h.baseOffset
      ++ writeInt32 (Int32.ofNat (49 + payload.length)) ++ writeInt32 h.leaderEpoch ++ writeInt8 2
      ++ writeInt32 (crc32c (h.body payload)).toInt32) ++ h.body payload := by
    simp [BatchHeader.frame]
  rw [hpre]
  exact drop_left' (by simp)

/-- A frame decodes to its header and the records of its payload. -/
theorem decodeOneRecordBatch_frame (C : Codecs) (topic : Bytes) (part : Int32) (h : BatchHeader)
    (hlen : 4 ≤ payload.length) :
    decodeOneRecordBatch C topic part (h.frame payload) =
      (decodeRecords C topic part h.attributes h.baseOffset h.firstTimestamp h.numRecords
        payload).map fun recs => some (h.info recs) := by
  have hl := h.length_frame payload
  rw [decodeOneRecordBatch, if_neg (by omega)]
  have hc : (fromBytes (h.frame payload)).Valid := Cursor.valid_start _
  have hr : (fromBytes (h.frame payload)).rest = h.frame payload := rfl
  -- every header field is consumed in turn, and the payload is what is left
  obtain ⟨c₁, hc₁, hr₁, e₁⟩ := (consumes_readInt64).run_bind hc hr
  obtain ⟨c₂, hc₂, hr₂, e₂⟩ := (consumes_readInt32 _).run_bind hc₁ hr₁
  obtain ⟨c₃, hc₃, hr₃, e₃⟩ := (consumes_readInt32 _).run_bind hc₂ hr₂
  obtain ⟨c₄, hc₄, hr₄, e₄⟩ := (consumes_readInt8).run_bind hc₃ hr₃
  obtain ⟨c₅, hc₅, hr₅, e₅⟩ := (consumes_readInt32 _).run_bind hc₄ hr₄
  obtain ⟨c₆, hc₆, hr₆, e₆⟩ := (consumes_readInt16).run_bind hc₅ hr₅
  obtain ⟨c₇, hc₇, hr₇, e₇⟩ := (consumes_readInt32 _).run_bind hc₆ hr₆
  obtain ⟨c₈, hc₈, hr₈, e₈⟩ := (consumes_readInt64).run_bind hc₇ hr₇
  obtain ⟨c₉, hc₉, hr₉, e₉⟩ := (consumes_readInt64).run_bind hc₈ hr₈
  obtain ⟨d₁, hd₁, hs₁, f₁⟩ := (consumes_readInt64).run_bind hc₉ hr₉
  obtain ⟨d₂, hd₂, hs₂, f₂⟩ := (consumes_readInt16).run_bind hd₁ hs₁
  obtain ⟨d₃, hd₃, hs₃, f₃⟩ := (consumes_readInt32 _).run_bind hd₂ hs₂
  obtain ⟨d₄, hd₄, hs₄, f₄⟩ := (consumes_readInt32 _).run_bind hd₃ hs₃
  have hcrc : ¬ crc32c ((h.frame payload).drop 21) ≠
      (crc32c (h.body payload)).toInt32.toUInt32 := by
    rw [h.drop_frame]
    simp
  rw [readRecordBatch, e₁, e₂, e₃, e₄, if_neg (by decide), e₅, if_neg hcrc, e₆, e₇, e₈, e₉, f₁,
    f₂, f₃, f₄]
  have hget : ∀ {δ : Type} (f : Buffer → Read δ), (get >>= f) d₄ = f d₄ d₄ := fun _ => rfl
  rw [hget, hs₄]
  cases decodeRecords C topic part h.attributes h.baseOffset h.firstTimestamp h.numRecords
      payload with
  | error e => rfl
  | ok recs => rfl

/-- The header the encoder writes. -/
def encodedHeader (clock : Nat → Time) (records : List ProduceRecord) (settings : ProduceSettings)
    (baseSequence : Int32) (attributes : Int16) : BatchHeader :=
  let firstMs := (clock 0).millisOr ((records.head?.map (·.timestamp)).getD ⟨0, 0⟩)
  { baseOffset := 0
    leaderEpoch := -1
    attributes := attributes
    lastOffsetDelta := Int32.ofNat (records.length - 1)
    firstTimestamp := firstMs
    maxTimestamp := (records.mapIdx fun i r => (clock (i + 1)).millisOr r.timestamp).foldl
      (fun m t => if t > m then t else m) firstMs
    producerID := if settings.sequenced then settings.producerID else -1
    producerEpoch := if settings.sequenced then settings.producerEpoch else -1
    baseSequence := if settings.sequenced then baseSequence else -1
    numRecords := Int32.ofNat records.length }

theorem writeInt32_toInt32 (v : UInt32) : writeInt32 v.toInt32 = beBytes 4 v.toNat := by
  simp [writeInt32]

/-- Patching the second of three byte strings. -/
theorem putUint32_mid (ha : a.length = i) (hb : b.length = 4) :
    putUint32 (a ++ (b ++ c)) i v = a ++ (writeInt32 v.toInt32 ++ c) := by
  subst ha
  rw [putUint32, take_left, writeInt32_toInt32, ← drop_drop, drop_left, drop_left' hb, append_assoc]

/-- A batch before the length and the checksum are patched in. -/
def BatchHeader.unpatched (h : BatchHeader) (payload : Bytes) : Bytes :=
  writeInt64 h.baseOffset ++ (writeInt32 0 ++ (writeInt32 h.leaderEpoch ++ (writeInt8 2
    ++ (writeInt32 0 ++ h.body payload))))

theorem BatchHeader.length_unpatched (h : BatchHeader) :
    (h.unpatched payload).length = 61 + payload.length := by
  simp only [BatchHeader.unpatched, length_append, length_writeInt8, length_writeInt32,
    length_writeInt64, BatchHeader.length_body]
  omega

/-- Patching the length, then the checksum of what follows it, gives the frame. -/
theorem BatchHeader.patch_unpatched (h : BatchHeader) (payload : Bytes) :
    let body := putUint32 (h.unpatched payload) 8
      (Int32.ofNat ((h.unpatched payload).length - 12)).toUInt32
    putUint32 body 17 (crc32c (body.drop 21)) = h.frame payload := by
  intro body
  have hbody : body = (writeInt64 h.baseOffset ++ (writeInt32 (Int32.ofNat (49 + payload.length))
      ++ (writeInt32 h.leaderEpoch ++ writeInt8 2))) ++ (writeInt32 0 ++ h.body payload) := by
    have hlen : (h.unpatched payload).length - 12 = 49 + payload.length := by
      rw [h.length_unpatched]
      omega
    show putUint32 _ 8 _ = _
    rw [hlen, BatchHeader.unpatched, putUint32_mid length_writeInt64 length_writeInt32]
    simp
  have hdrop : body.drop 21 = h.body payload := by
    rw [hbody, ← append_assoc]
    exact drop_left' (by simp)
  rw [hdrop, hbody, putUint32_mid (by simp) length_writeInt32, BatchHeader.frame]
  simp

theorem encodeRecordBatch_eq (baseSequence : Int32) (hne : records ≠ [])
    (hpay : compressPayload C settings
      (encodeRecordsPayload (clock (records.length + 1)) records) = .ok (payload, attributes)) :
    encodeRecordBatch C clock records settings baseSequence =
      .ok ((encodedHeader clock records settings baseSequence attributes).frame payload) := by
  obtain ⟨first, rest, rfl⟩ := exists_cons_of_ne_nil hne
  rw [← BatchHeader.patch_unpatched, encodeRecordBatch, hpay]
  cases hseq : settings.sequenced <;>
    simp [BatchHeader.unpatched, BatchHeader.body, encodedHeader, hseq, Bind.bind, Except.bind,
      pure, Except.pure]

/-! ## Blobs of batches -/

/-- The length field of a batch counts the bytes behind it. -/
def Framed (batch : Bytes) : Prop :=
  12 ≤ batch.length ∧ 12 + beNat ((batch.drop 8).take 4) = batch.length

theorem BatchHeader.framed_frame (h : BatchHeader) (hlen : 49 + payload.length < 2 ^ 32) :
    Framed (h.frame payload) := by
  have hfield : ((h.frame payload).drop 8).take 4 =
      writeInt32 (Int32.ofNat (49 + payload.length)) := by
    rw [BatchHeader.frame, drop_left' length_writeInt64, take_left' length_writeInt32]
  refine ⟨by rw [h.length_frame]; omega, ?_⟩
  rw [hfield, h.length_frame, writeInt32, beNat_beBytes]
  have : (Int32.ofNat (49 + payload.length)).toUInt32.toNat = 49 + payload.length := by
    rw [Int32.toUInt32_ofNat', UInt32.toNat_ofNat']
    omega
  omega

/-- One round of `decodeRecordBatch` on a blob that starts with a framed batch. -/
theorem decodeRecordBatchLoop_framed (hframed : Framed batch) :
    decodeRecordBatchLoop C topic part (batch ++ data) aborted pids =
      match decodeOneRecordBatch C topic part batch with
      | .error e => .error e
      | .ok none => decodeRecordBatchLoop C topic part data aborted pids
      | .ok (some info) => do
        let marked := markAborted info.baseOffset aborted pids
        let delivered := deliverBatch topic part info marked.2
        let rest ← decodeRecordBatchLoop C topic part data marked.1 delivered.2
        return delivered.1 ++ rest := by
  obtain ⟨h12, htotal⟩ := hframed
  have hfield : ((batch ++ data).drop 8).take 4 = (batch.drop 8).take 4 := by
    rw [drop_append_of_le_length (by omega), take_append_of_le_length]
    rw [length_drop]
    omega
  rw [decodeRecordBatchLoop, if_neg (by rw [length_append]; omega)]
  simp only [hfield, htotal]
  rewrite [if_neg (by rw [length_append]; omega), take_left, drop_left]
  rfl

theorem decodeRecordBatchLoop_append (hframed : Framed batch)
    (hdec : decodeOneRecordBatch C topic part batch = .ok (some info)) :
    decodeRecordBatchLoop C topic part (batch ++ data) aborted pids = (do
      let marked := markAborted info.baseOffset aborted pids
      let delivered := deliverBatch topic part info marked.2
      let rest ← decodeRecordBatchLoop C topic part data marked.1 delivered.2
      return delivered.1 ++ rest) := by
  rw [decodeRecordBatchLoop_framed hframed, hdec]

/-- A blob too short for a length field holds no record. -/
theorem decodeRecordBatchLoop_nil :
    decodeRecordBatchLoop C topic part [] aborted pids = .ok [] := by
  rw [decodeRecordBatchLoop, if_pos (by simp)]

/-! ## The round trip -/

/-- The record that comes back for the `i`-th record of a batch. -/
def fetchedBack (topic : Bytes) (part : Int32) (i : Nat) (r : ProduceRecord) : FetchedRecord :=
  { topic := topic, partition := part, offset := Int64.ofNat i
    key := readBack r.key.bytes, value := readBack r.value.bytes
    headers := r.headers.map fun p => (readBack p.1.bytes, readBack p.2.bytes)
    timestamp := r.timestamp.unixMilli }

/-- The records `ReadVarint` can read back: their count, their header counts, their sizes and their
timestamps' distances from the first are in its range, and no timestamp is zero. -/
structure Readable (records : List ProduceRecord) : Prop where
  nonempty : records ≠ []
  timestamps : ∀ r ∈ records, r.timestamp.isZero = false
  count : records.length < 2 ^ 28
  headers : ∀ r ∈ records, r.headers.length < 2 ^ 28
  deltas : ∀ first ∈ records.head?, ∀ r ∈ records,
    VarintRange (r.timestamp.unixMilli - first.timestamp.unixMilli)
  sizes : ∀ first ∈ records.head?, ∀ (i : Nat) (h : i < records.length),
    recordBodyLen records[i].key.bytes records[i].value.bytes records[i].headers (Int64.ofNat i)
      (records[i].timestamp.unixMilli - first.timestamp.unixMilli) < 2 ^ 28

/-- The codec undoes itself on a payload and leaves at least four bytes. -/
def CodecUndoes (C : Codecs) (settings : ProduceSettings) (raw : Bytes) : Prop :=
  settings.compression ≠ 0 → ∃ out,
    compress C settings.compression settings.compressionLevel raw = .ok out ∧
      decompress C settings.compression out = .ok raw ∧ 4 ≤ out.length

/-- Only the four codecs of the protocol compress. -/
theorem codec_of_compress (h : compress C codec level raw = .ok out) (hne : codec ≠ 0) :
    codec = 1 ∨ codec = 2 ∨ codec = 3 ∨ codec = 4 := by
  unfold compress at h
  split_ifs at h with h₀ h₁ h₂ h₃ h₄
  · exact absurd h₀ hne
  · exact .inl h₁
  · exact .inr (.inl h₂)
  · exact .inr (.inr (.inl h₃))
  · exact .inr (.inr (.inr h₄))

/-- The attribute word with a codec in its low bits, or none. -/
theorem attributes_bits (transactional : Bool) {codec : Int8}
    (hcodec : codec = 0 ∨ codec = 1 ∨ codec = 2 ∨ codec = 3 ∨ codec = 4) :
    ((if transactional then 0x10 else 0) ||| codec.toInt16) &&& 0x20 = 0 ∧
      (((if transactional then 0x10 else 0) ||| codec.toInt16) &&& 0x7).toInt8 = codec := by
  rcases hcodec with rfl | rfl | rfl | rfl | rfl <;> cases transactional <;> decide

/-- The attributes say how to get the records back, and never say control batch. -/
theorem compressPayload_spec (hcodec : CodecUndoes C settings raw) (hraw : 4 ≤ raw.length) :
    ∃ payload attributes, compressPayload C settings raw = .ok (payload, attributes) ∧
      4 ≤ payload.length ∧ attributes &&& 0x20 = 0 ∧
      (if (attributes &&& 0x7).toInt8 ≠ 0 then decompress C (attributes &&& 0x7).toInt8 payload
        else .ok payload) = .ok raw := by
  have hplain := @attributes_bits settings.transactional 0 (.inl rfl)
  rw [show (0 : Int8).toInt16 = 0 from rfl, Int16.or_zero] at hplain
  by_cases hc : settings.compression = 0
  · refine ⟨raw, _, ?_, hraw, hplain.1, if_neg (not_not_intro hplain.2)⟩
    rw [compressPayload, if_neg (not_not_intro hc)]
    rfl
  · obtain ⟨out, hout, hundo, h4⟩ := hcodec hc
    by_cases hlt : out.length < raw.length
    · obtain ⟨hctl, hbits⟩ := attributes_bits settings.transactional
        (.inr (codec_of_compress hout hc))
      refine ⟨out, _, ?_, h4, hctl, ?_⟩
      · simp only [compressPayload, if_pos hc, hout, Bind.bind, Except.bind, if_pos hlt]
        rfl
      · rw [hbits, if_pos hc, hundo]
    · refine ⟨raw, _, ?_, hraw, hplain.1, if_neg (not_not_intro hplain.2)⟩
      simp only [compressPayload, if_pos hc, hout, Bind.bind, Except.bind, if_neg hlt]
      rfl

theorem encodeRecordsPayload_eq :
    encodeRecordsPayload now (first :: rest) =
      ((first :: rest).mapIdx fun i r => frameRecord (appendRecordBody r.key.bytes r.value.bytes
        r.headers (Int64.ofNat i)
        (now.millisOr r.timestamp - now.millisOr first.timestamp))).flatten := by
  rw [encodeRecordsPayload]
  simp only [List.head?_cons, Option.map_some, Option.getD_some, appendRecord, frameRecord,
    lenInt, length_appendRecordBody]

/-- A payload that `ReadVarint` can read back: the counts, the sizes and the timestamps' distances
from the first, as they are written at the time `now`, are in its range. -/
structure Parsable (now : Time) (records : List ProduceRecord) : Prop where
  count : records.length < 2 ^ 28
  headers : ∀ r ∈ records, r.headers.length < 2 ^ 28
  deltas : ∀ first ∈ records.head?, ∀ r ∈ records,
    VarintRange (now.millisOr r.timestamp - now.millisOr first.timestamp)
  sizes : ∀ first ∈ records.head?, ∀ (i : Nat) (h : i < records.length),
    recordBodyLen records[i].key.bytes records[i].value.bytes records[i].headers (Int64.ofNat i)
      (now.millisOr records[i].timestamp - now.millisOr first.timestamp) < 2 ^ 28

theorem length_le_encodeRecordsPayload :
    records.length ≤ (encodeRecordsPayload now records).length := by
  rw [encodeRecordsPayload, length_flatten]
  refine Nat.le_trans (Nat.le_of_eq (by simp)) (length_le_sum_of_one_le _ fun n hn => ?_)
  obtain ⟨body, hbody, rfl⟩ := mem_map.1 hn
  obtain ⟨i, hi, rfl⟩ := mem_mapIdx.1 hbody
  rw [appendRecord, length_append, length_writeVarint]
  exact Nat.le_add_right_of_le (varintLen_pos _)

theorem parsable_of_length (hlen : (encodeRecordsPayload now (first :: rest)).length < 2 ^ 28)
    (hdeltas : ∀ r ∈ first :: rest,
      VarintRange (now.millisOr r.timestamp - now.millisOr first.timestamp)) :
    Parsable now (first :: rest) := by
  have hcount := (length_le_encodeRecordsPayload).trans_lt hlen
  rw [encodeRecordsPayload_eq] at hlen
  have hsize : ∀ (i : Nat) (h : i < (first :: rest).length),
      recordBodyLen (first :: rest)[i].key.bytes (first :: rest)[i].value.bytes
        (first :: rest)[i].headers (Int64.ofNat i)
        (now.millisOr (first :: rest)[i].timestamp - now.millisOr first.timestamp) < 2 ^ 28 := by
    intro i hi
    have hle := (sublist_flatten_of_mem (mem_mapIdx.2 ⟨i, hi, rfl⟩)).length_le.trans_lt hlen
    rw [frameRecord, length_append, length_appendRecordBody] at hle
    exact (Nat.le_add_left _ _).trans_lt hle
  refine ⟨hcount, fun r hr => ?_, fun first' hfirst' r hr => ?_, fun first' hfirst' i hi => ?_⟩
  · obtain ⟨i, hi, rfl⟩ := getElem_of_mem hr
    exact (length_headers_lt _ _ _ _ _).trans (hsize i hi)
  · cases hfirst'
    exact hdeltas r hr
  · cases hfirst'
    exact hsize i hi

/-- A payload reads back, whatever base offset and first timestamp its batch has. -/
theorem parseRecords_payload (h : Parsable now (first :: rest)) (topic : Bytes) (part : Int32)
    (baseOffset baseTimestamp : Int64) (numRecords : Int32) :
    parseRecords topic part (encodeRecordsPayload now (first :: rest)) baseOffset baseTimestamp
        numRecords =
      .ok ((first :: rest).mapIdx fun i r => readBackRecord topic part baseOffset baseTimestamp
        r.key.bytes r.value.bytes r.headers (Int64.ofNat i)
        (now.millisOr r.timestamp - now.millisOr first.timestamp)) := by
  let delta : ProduceRecord → Int64 := fun r =>
    now.millisOr r.timestamp - now.millisOr first.timestamp
  let items := (first :: rest).mapIdx fun i r =>
    (appendRecordBody r.key.bytes r.value.bytes r.headers (Int64.ofNat i) (delta r),
      readBackRecord topic part baseOffset baseTimestamp r.key.bytes r.value.bytes r.headers
        (Int64.ofNat i) (delta r))
  have hread : ∀ it ∈ items,
      Consumes (parseRecord topic part baseOffset baseTimestamp) it.1 (some it.2) ∧
        0 < it.1.length ∧ it.1.length < 2 ^ 28 := by
    intro it hit
    obtain ⟨i, hi, rfl⟩ := mem_mapIdx.1 hit
    have hsize := h.sizes first rfl i hi
    have hidx : VarintRange (Int64.ofNat i) := by
      have hcount := h.count
      unfold VarintRange
      rw [Int64.toInt_ofNat_of_lt (by omega)]
      omega
    refine ⟨consumes_parseRecord hidx (h.deltas first rfl _ (getElem_mem hi)) hsize
      (h.headers _ (getElem_mem hi)), ?_, ?_⟩
    · simp only [length_appendRecordBody, recordBodyLen]
      omega
    · rw [length_appendRecordBody]
      exact hsize
  have hbytes : encodeRecordsPayload now (first :: rest) = items.flatMap fun it =>
      frameRecord it.1 := by
    rw [encodeRecordsPayload_eq, flatMap_def]
    exact congrArg List.flatten (ext_getElem (by simp [items]) fun i _ _ => by
      simp only [items, delta, getElem_map, getElem_mapIdx])
  have hparse := parseRecordsLoop_frames (b := fromBytes (encodeRecordsPayload now (first :: rest)))
    (Cursor.valid_start _) hread hbytes
  rw [parseRecords, hparse]
  refine congrArg Except.ok (ext_getElem (by simp [items]) fun i h₁ h₂ => ?_)
  simp only [items, getElem_map, getElem_mapIdx, delta]

theorem Readable.millisOr (h : Readable records) (now : Time) (hr : r ∈ records) :
    now.millisOr r.timestamp = r.timestamp.unixMilli := by
  simp [Time.millisOr, h.timestamps r hr]

/-- Without zero timestamps the time of the encoding does not matter. -/
theorem Readable.parsable (h : Readable records) (now : Time) : Parsable now records where
  count := h.count
  headers := h.headers
  deltas first hfirst r hr := by
    rw [h.millisOr now hr, h.millisOr now (mem_of_mem_head? hfirst)]
    exact h.deltas first hfirst r hr
  sizes first hfirst i hi := by
    rw [h.millisOr now (getElem_mem hi), h.millisOr now (mem_of_mem_head? hfirst)]
    exact h.sizes first hfirst i hi

/-- Every payload of records is long enough for the header check. -/
theorem four_le_encodeRecordsPayload {now : Time} (hne : records ≠ []) :
    4 ≤ (encodeRecordsPayload now records).length := by
  obtain ⟨first, rest, rfl⟩ := exists_cons_of_ne_nil hne
  simp only [encodeRecordsPayload, mapIdx_cons, flatten_cons, length_append,
    appendRecord, length_appendRecordBody, recordBodyLen]
  have hkey := varintLen_pos (lenInt first.key.bytes)
  have hvalue := varintLen_pos (lenInt first.value.bytes)
  have hhdrs := varintLen_pos (lenInt first.headers)
  omega

/-- A batch with a parsable payload reads back, whatever timestamps its records have. -/
theorem decodeRecordBatch_encoded {clock : Nat → Time} {baseSequence : Int32} {now : Time}
    (hnow : clock ((first :: rest).length + 1) = now) (h : Parsable now (first :: rest))
    (hcodec : CodecUndoes C settings (encodeRecordsPayload now (first :: rest)))
    (hlen : ∀ batch, encodeRecordBatch C clock (first :: rest) settings baseSequence = .ok batch →
      batch.length < 2 ^ 32 + 12) (topic : Bytes) (part : Int32) :
    ∃ batch, encodeRecordBatch C clock (first :: rest) settings baseSequence = .ok batch ∧
      decodeRecordBatch C topic part batch [] =
        .ok ((first :: rest).mapIdx fun i r => readBackRecord topic part 0
          ((clock 0).millisOr first.timestamp) r.key.bytes r.value.bytes r.headers (Int64.ofNat i)
          (now.millisOr r.timestamp - now.millisOr first.timestamp)) := by
  subst hnow
  generalize hrecs : (first :: rest).mapIdx _ = recs
  obtain ⟨payload, attributes, hpay, h4, hctl, hraw⟩ :=
    compressPayload_spec hcodec (four_le_encodeRecordsPayload (cons_ne_nil first rest))
  have henc := encodeRecordBatch_eq baseSequence (cons_ne_nil first rest) hpay
  refine ⟨_, henc, ?_⟩
  have hbatch := hlen _ henc
  rw [BatchHeader.length_frame] at hbatch
  have hrecs : decodeRecords C topic part attributes 0 ((clock 0).millisOr first.timestamp)
      (Int32.ofNat (first :: rest).length) payload = .ok recs := by
    rw [decodeRecords, if_neg (not_not_intro hctl)]
    simp only [hraw]
    exact (parseRecords_payload h topic part _ _ (Int32.ofNat (first :: rest).length)).trans
      (congrArg _ hrecs)
  have hone := (decodeOneRecordBatch_frame C topic part
    (encodedHeader clock (first :: rest) settings baseSequence attributes) h4).trans
      (congrArg (Except.map _) hrecs)
  have hdeliver : deliverBatch topic part ((encodedHeader clock (first :: rest) settings
      baseSequence attributes).info recs) ∅ = (recs, ∅) := by
    have hctl' : (encodedHeader clock (first :: rest) settings baseSequence
        attributes).attributes &&& 0x20 = 0 := hctl
    simp [deliverBatch, BatchHeader.info, hctl']
  rw [← append_nil (BatchHeader.frame _ _), decodeRecordBatch,
    decodeRecordBatchLoop_append (BatchHeader.framed_frame _ (by omega)) hone,
    markAborted]
  simp only [hdeliver, decodeRecordBatchLoop_nil]
  exact congrArg Except.ok (append_nil _)

/-- What `encodeRecordBatch` writes, `decodeRecordBatch` reads back: every record in order, at its
index, with its timestamp in milliseconds, its key, its value and its headers. -/
theorem decodeRecordBatch_encodeRecordBatch (C : Codecs) (clock : Nat → Time)
    (records : List ProduceRecord) (settings : ProduceSettings) (baseSequence : Int32)
    (topic : Bytes) (part : Int32) (h : Readable records)
    (hcodec : CodecUndoes C settings
      (encodeRecordsPayload (clock (records.length + 1)) records))
    (hlen : ∀ batch, encodeRecordBatch C clock records settings baseSequence = .ok batch →
      batch.length < 2 ^ 32 + 12) :
    ∃ batch, encodeRecordBatch C clock records settings baseSequence = .ok batch ∧
      decodeRecordBatch C topic part batch [] =
        .ok (records.mapIdx (fetchedBack topic part)) := by
  obtain ⟨first, rest, rfl⟩ := exists_cons_of_ne_nil h.nonempty
  obtain ⟨batch, henc, hdec⟩ := decodeRecordBatch_encoded rfl (h.parsable _) hcodec hlen topic part
  refine ⟨batch, henc, hdec.trans (congrArg Except.ok ?_)⟩
  refine ext_getElem (by simp) fun i h₁ h₂ => ?_
  have hi : i < (first :: rest).length := by simpa using h₁
  have hfirst : first ∈ first :: rest := mem_cons_self
  simp only [getElem_mapIdx, readBackRecord, fetchedBack, h.millisOr _ hfirst,
    h.millisOr _ (getElem_mem hi)]
  congr 1 <;> grind

/-- Codecs whose gzip drops a payload's last byte, which is zero when the last record has no
header, and whose other codecs store. -/
def shortCodecs : Codecs where
  gzip b _ := .ok b.dropLast
  gunzip b := .ok (b ++ [0])
  snappyEncode := .ok
  snappyDecode := .ok
  lz4Encode := .ok
  lz4Decode := .ok
  zstdEncode := .ok
  zstdDecode := .ok

/-- Two records, the second without key and a second later. -/
def twoRecords : List ProduceRecord :=
  [⟨[116], 0, some [107], some [118], [(some [104], none)], ⟨1, 0⟩⟩,
    ⟨[116], 0, none, some [119], [], ⟨2, 0⟩⟩]

theorem decodeRecordBatch_encodeRecordBatch_two :
    ∃ batch, encodeRecordBatch shortCodecs (fun _ => ⟨9, 0⟩) twoRecords
        { compression := 1, transactional := true, producerID := 7, sequenced := true } 5 =
          .ok batch ∧
      decodeRecordBatch shortCodecs [116] 0 batch [] =
        .ok (twoRecords.mapIdx (fetchedBack [116] 0)) := by
  refine decodeRecordBatch_encodeRecordBatch shortCodecs _ twoRecords _ 5 [116] 0 ?_ ?_ ?_
  · exact {
      nonempty := by decide
      timestamps := by decide
      count := by decide
      headers := by decide
      deltas := by decide +kernel
      sizes := by decide +kernel }
  · intro _
    exact ⟨_, rfl, by decide +kernel, by decide +kernel⟩
  · intro batch h
    have hbytes := congrArg (Except.map List.length) h
    rw [show Except.map List.length (encodeRecordBatch shortCodecs _ twoRecords _ 5) = .ok 81 by
      decide +kernel] at hbytes
    have : 81 = batch.length := Except.ok.inj hbytes
    omega

/-! ## Batches past the length field -/

/-- A payload of 2³² bytes makes the length field wrap around to the header's own 49 bytes, so the
decoder goes on with the payload as if it were the next batch. -/
theorem decodeRecordBatchLoop_frame_wrap (h : BatchHeader) (hlen : payload.length = 2 ^ 32) :
    decodeRecordBatchLoop C topic part (h.frame payload) aborted pids =
      decodeRecordBatchLoop C topic part payload aborted pids := by
  have hframe := h.length_frame payload
  have hfield : beNat (((h.frame payload).drop 8).take 4) = 49 := by
    rw [BatchHeader.frame, drop_left' length_writeInt64, take_left' length_writeInt32, hlen]
    decide +kernel
  have hdrop : (h.frame payload).drop 61 = payload := by
    have hbody : h.body payload = (writeInt16 h.attributes ++ writeInt32 h.lastOffsetDelta
        ++ writeInt64 h.firstTimestamp ++ writeInt64 h.maxTimestamp ++ writeInt64 h.producerID
        ++ writeInt16 h.producerEpoch ++ writeInt32 h.baseSequence ++ writeInt32 h.numRecords)
        ++ payload := by
      simp [BatchHeader.body]
    rw [show 61 = 21 + 40 from rfl, ← drop_drop, h.drop_frame, hbody]
    exact drop_left' (by simp)
  have hnone : decodeOneRecordBatch C topic part ((h.frame payload).take 61) = .ok none := by
    rw [decodeOneRecordBatch, if_pos]
    rw [length_take]
    omega
  rw [decodeRecordBatchLoop, if_neg (by omega)]
  simp only [hfield]
  rw [if_neg (by omega), hnone, hdrop]

/-- A batch of another format version stops the decoder. -/
theorem decodeRecordBatchLoop_magic {tail : Bytes} (hmagic : magic ≠ 2)
    (h65 : 53 ≤ len.toUInt32.toNat) (hlen : len.toUInt32.toNat ≤ 5 + tail.length) :
    decodeRecordBatchLoop C topic part (writeInt64 base ++ (writeInt32 len ++ (writeInt32 epoch
      ++ (writeInt8 magic ++ tail)))) aborted pids = .error (.unsupportedMagic magic) := by
  set data := writeInt64 base ++ (writeInt32 len ++ (writeInt32 epoch
    ++ (writeInt8 magic ++ tail))) with hdata
  have hl : data.length = 17 + tail.length := by
    simp only [hdata, length_append, length_writeInt64, length_writeInt32, length_writeInt8]
    omega
  have hfield : beNat ((data.drop 8).take 4) = len.toUInt32.toNat := by
    have hlt := len.toUInt32.toNat_lt
    rw [drop_left' length_writeInt64, take_left' length_writeInt32, writeInt32,
      beNat_beBytes]
    omega
  obtain ⟨n, hn⟩ := Nat.exists_eq_add_of_le h65
  have hbatch : data.take (12 + len.toUInt32.toNat) = writeInt64 base ++ (writeInt32 len
      ++ (writeInt32 epoch ++ (writeInt8 magic ++ tail.take (48 + n)))) := by
    have hsum : 12 + len.toUInt32.toNat = (writeInt64 base).length + ((writeInt32 len).length
        + ((writeInt32 epoch).length + ((writeInt8 magic).length + (48 + n)))) := by
      simp only [length_writeInt64, length_writeInt32, length_writeInt8]
      omega
    simp only [hsum, hdata, take_length_add_append]
  have hc : (fromBytes (data.take (12 + len.toUInt32.toNat))).Valid := Cursor.valid_start _
  have hr : (fromBytes (data.take (12 + len.toUInt32.toNat))).rest = _ := hbatch
  obtain ⟨c₁, hc₁, hr₁, e₁⟩ := (consumes_readInt64).run_bind hc hr
  obtain ⟨c₂, hc₂, hr₂, e₂⟩ := (consumes_readInt32 _).run_bind hc₁ hr₁
  obtain ⟨c₃, hc₃, hr₃, e₃⟩ := (consumes_readInt32 _).run_bind hc₂ hr₂
  obtain ⟨c₄, hc₄, hr₄, e₄⟩ := (consumes_readInt8).run_bind hc₃ hr₃
  have herr : decodeOneRecordBatch C topic part (data.take (12 + len.toUInt32.toNat)) =
      .error (.unsupportedMagic magic) := by
    rw [decodeOneRecordBatch, if_neg (by rw [length_take]; omega), readRecordBatch, e₁, e₂,
      e₃, e₄, if_pos hmagic]
    rfl
  rw [decodeRecordBatchLoop, if_neg (by omega)]
  simp only [hfield]
  rw [if_neg (by omega), herr]

/-- Three empty records and 25 records with the same value. -/
def oversized (value : Bytes) : List ProduceRecord :=
  List.replicate 3 ⟨[], 0, none, none, [], ⟨1, 0⟩⟩
    ++ List.replicate 25 ⟨[], 0, none, some value, [], ⟨1, 0⟩⟩

/-- The indices of a small batch take one byte. -/
theorem varintLen_index : ∀ i < 28, varintLen (Int64.ofNat i) = 1 := by decide +kernel

/-- The sizes of the two kinds of records, whatever their index. -/
theorem recordBodyLen_oversized (hvalue : value.length = 171798676) (hi : i < 28) :
    recordBodyLen [] [] [] (Int64.ofNat i) 0 = 6 ∧
      recordBodyLen [] value [] (Int64.ofNat i) 0 = 171798686 := by
  have hidx := varintLen_index i hi
  have hempty : varintLen (Int64.ofNat 0) = 1 := varintLen_index 0 (by omega)
  have hzero : varintLen 0 = 1 := hempty
  have hlen : varintLen (Int64.ofNat 171798676) = 5 := by decide +kernel
  constructor <;>
    simp only [recordBodyLen, hidx, hlen, hvalue, lenInt, length_nil, map_nil,
      sum_nil, hempty, hzero, Nat.reduceAdd]

theorem mem_oversized (hr : r ∈ oversized value) :
    r.timestamp = ⟨1, 0⟩ ∧ r.headers = [] ∧ r.key = none ∧
      (r.value.bytes = [] ∨ r.value.bytes = value) := by
  rcases mem_append.1 hr with hr | hr
  · obtain rfl := eq_of_mem_replicate hr
    exact ⟨rfl, rfl, rfl, .inl rfl⟩
  · obtain rfl := eq_of_mem_replicate hr
    exact ⟨rfl, rfl, rfl, .inr rfl⟩

/-- The records are within every limit of `ReadVarint`. -/
theorem readable_oversized (hvalue : value.length = 171798676) : Readable (oversized value) := by
  have hcount : (oversized value).length = 28 := by
    rw [oversized, length_append, length_replicate, length_replicate]
  have hdelta : ∀ first ∈ (oversized value).head?, ∀ r ∈ oversized value,
      r.timestamp.unixMilli - first.timestamp.unixMilli = 0 := by
    intro first hfirst r hr
    rw [(mem_oversized hr).1, (mem_oversized (mem_of_mem_head? hfirst)).1]
    rfl
  refine ⟨?_, ?_, by omega, ?_, ?_, ?_⟩
  · rw [← length_pos_iff]
    omega
  · intro r hr
    rw [(mem_oversized hr).1]
    rfl
  · intro r hr
    rw [(mem_oversized hr).2.1]
    exact Nat.two_pow_pos 28
  · intro first hfirst r hr
    rw [hdelta first hfirst r hr]
    decide
  · intro first hfirst i hi
    obtain ⟨_, hhdrs, hkey, hval⟩ := mem_oversized (getElem_mem hi)
    obtain ⟨hsmall, hbig⟩ := recordBodyLen_oversized hvalue (hcount ▸ hi)
    rw [hdelta first hfirst _ (getElem_mem hi), hhdrs, hkey]
    rcases hval with hval | hval
    · rw [hval]
      exact Nat.lt_of_le_of_lt hsmall.le (by omega)
    · rw [hval]
      exact Nat.lt_of_le_of_lt hbig.le (by omega)

/-- The payload is 2³² bytes long, and its first three records read as a batch header of magic 0. -/
theorem encodeRecordsPayload_oversized (hvalue : value.length = 171798676) :
    ∃ tail : Bytes, tail.length = 2 ^ 32 - 17 ∧
      encodeRecordsPayload now (oversized value) = writeInt64 0x0C0000000000000C
        ++ (writeInt32 512 ++ (writeInt32 3072 ++ (writeInt8 0 ++ tail))) := by
  let e : ProduceRecord := ⟨[], 0, none, none, [], ⟨1, 0⟩⟩
  let b : ProduceRecord := ⟨[], 0, none, some value, [], ⟨1, 0⟩⟩
  let big := ((List.replicate 25 b).mapIdx fun i _ =>
    frameRecord (appendRecordBody [] value [] (Int64.ofNat (i + 3)) 0)).flatten
  have hbig : big.length = 25 * 171798691 := by
    have hmap : ((List.replicate 25 b).mapIdx fun i _ => frameRecord (appendRecordBody [] value []
        (Int64.ofNat (i + 3)) 0)).map List.length = List.replicate 25 171798691 := by
      refine ext_getElem (by simp) fun i h₁ h₂ => ?_
      have hi : i + 3 < 28 := by
        rw [length_replicate] at h₂
        omega
      rw [getElem_map, getElem_mapIdx, getElem_replicate, frameRecord,
        length_append, length_writeVarint, lenInt, length_appendRecordBody,
        (recordBodyLen_oversized hvalue hi).2]
      decide +kernel
    rw [length_flatten, hmap, sum_replicate_nat]
  refine ⟨[4, 0, 0, 0] ++ big, by rw [length_append, hbig]; rfl, ?_⟩
  have hcons : oversized value = e :: e :: e :: List.replicate 25 b := rfl
  have htail : ((List.replicate 25 b).mapIdx fun i r => frameRecord (appendRecordBody r.key.bytes
      r.value.bytes r.headers (Int64.ofNat (i + 1 + 1 + 1))
      (now.millisOr r.timestamp - now.millisOr e.timestamp))).flatten = big := by
    refine congrArg List.flatten (ext_getElem (by simp) fun i h₁ h₂ => ?_)
    simp only [getElem_mapIdx, getElem_replicate, b, e, Int64.sub_self]
    rfl
  have hhead : frameRecord (appendRecordBody [] [] [] 0 0)
      ++ (frameRecord (appendRecordBody [] [] [] 1 0)
      ++ frameRecord (appendRecordBody [] [] [] 2 0)) =
      writeInt64 0x0C0000000000000C ++ (writeInt32 512 ++ (writeInt32 3072 ++ (writeInt8 0
        ++ [4, 0, 0, 0]))) := by decide +kernel
  rw [hcons, encodeRecordsPayload_eq]
  simp only [mapIdx_cons, flatten_cons, htail, Int64.sub_self]
  have happ := congrArg (· ++ big) hhead
  simp only [append_assoc] at happ
  exact happ

/-- A batch of 28 records within every varint limit that does not come back: its length field has
wrapped around. -/
theorem oversized_not_readBack :
    let records := oversized (List.replicate 171798676 0)
    Readable records ∧
      CodecUndoes shortCodecs {} (encodeRecordsPayload ⟨9, 0⟩ records) ∧
      ∃ batch, encodeRecordBatch shortCodecs (fun _ => ⟨9, 0⟩) records {} 0 = .ok batch ∧
        decodeRecordBatch shortCodecs [] 0 batch [] = .error (.unsupportedMagic 0) := by
  intro records
  have hvalue : (List.replicate 171798676 (0 : UInt8)).length = 171798676 :=
    length_replicate
  have hread : Readable records := readable_oversized hvalue
  obtain ⟨tail, htail, hpay⟩ := encodeRecordsPayload_oversized hvalue
  have hlen : (encodeRecordsPayload ⟨9, 0⟩ records).length = 2 ^ 32 := by
    rw [hpay]
    simp only [length_append, length_writeInt64, length_writeInt32, length_writeInt8, htail]
    rfl
  refine ⟨hread, fun hne => absurd rfl hne, _, encodeRecordBatch_eq 0 hread.nonempty rfl, ?_⟩
  rw [decodeRecordBatch, decodeRecordBatchLoop_frame_wrap _ hlen, hpay]
  exact decodeRecordBatchLoop_magic (by decide) (by decide) (by rw [htail]; decide)

end GoKafka
