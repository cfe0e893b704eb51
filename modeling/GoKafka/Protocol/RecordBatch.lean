import GoKafka.Wire.Buffer
import GoKafka.Record

/-!
# Record batches

The v2 record-batch format, as `internal/protocol/produce.go` writes it (`encodeRecordBatch`) and
`internal/protocol/fetch.go` reads it (`decodeOneRecordBatch`, `parseRecords`, and
`decodeRecordBatch`, which walks a partition's blob of batches and drops what a read_committed
consumer must not see). The compression codecs are parameters, `Codecs`; the checksum is computed.

`parseRecords` recurses on the bytes left: a record's length is positive, so every round moves the
position (`readVarint_pos_le`).
-/

namespace GoKafka

open Reading BigEndian

/-! ## Checksum and codecs -/

/-- One round of the reflected CRC over a bit. -/
def crcShift (poly crc : UInt32) : UInt32 :=
  if crc &&& 1 = 1 then (crc >>> 1) ^^^ poly else crc >>> 1

/-- The entry of `crc32.MakeTable(poly)` at a byte. -/
def crcTable (poly : UInt32) (i : UInt8) : UInt32 := (crcShift poly)^[8] i.toUInt32

/-- `crc32.Checksum(data, castagnoliTable)`. -/
def crc32c (data : Bytes) : UInt32 :=
  ~~~ data.foldl (fun crc b => crcTable 0x82f63b78 (crc.toUInt8 ^^^ b) ^^^ (crc >>> 8)) (~~~ 0)

/-- The compression codecs of `internal/compress`. -/
structure Codecs where
  gzip : Bytes → Int → Except Error Bytes
  gunzip : Bytes → Except Error Bytes
  snappyEncode : Bytes → Except Error Bytes
  snappyDecode : Bytes → Except Error Bytes
  lz4Encode : Bytes → Except Error Bytes
  lz4Decode : Bytes → Except Error Bytes
  zstdEncode : Bytes → Except Error Bytes
  zstdDecode : Bytes → Except Error Bytes

def compress (C : Codecs) (codec : Int8) (level : Int) (b : Bytes) : Except Error Bytes :=
  if codec = 0 then .ok b
  else if codec = 1 then C.gzip b level
  else if codec = 2 then C.snappyEncode b
  else if codec = 3 then C.lz4Encode b
  else if codec = 4 then C.zstdEncode b
  else .error (.unknownCodec codec)

def decompress (C : Codecs) (codec : Int8) (b : Bytes) : Except Error Bytes :=
  if codec = 0 then .ok b
  else if codec = 1 then C.gunzip b
  else if codec = 2 then C.snappyDecode b
  else if codec = 3 then C.lz4Decode b
  else if codec = 4 then C.zstdDecode b
  else .error (.unknownCodec codec)

/-! ## Encoding -/

structure ProduceRecord where
  topic : Bytes
  partition : Int32
  key : NilBytes
  value : NilBytes
  headers : List WireHeader
  timestamp : Time
  deriving DecidableEq

/-- `protocol.ProduceSettings`, the fields the batch encoder reads. `sequenced` says that
`NextSequence` is not nil. -/
structure ProduceSettings where
  compression : Int8 := 0
  compressionLevel : Int := 0
  transactional : Bool := false
  producerID : Int64 := 0
  producerEpoch : Int16 := 0
  sequenced : Bool := false
  deriving DecidableEq

def varintLen (v : Int64) : Nat := Varint.size (Varint.zigzag v).toNat

/-- The length of a byte string as the Go `int` the encoder passes on. -/
abbrev lenInt {α : Type} (b : List α) : Int64 := Int64.ofNat b.length

def recordBodyLen (key value : Bytes) (headers : List WireHeader)
    (offsetDelta timestampDelta : Int64) : Nat :=
  1 + varintLen timestampDelta + varintLen offsetDelta
    + (varintLen (lenInt key) + key.length)
    + (varintLen (lenInt value) + value.length)
    + varintLen (lenInt headers)
    + (headers.map fun h => varintLen (lenInt h.1.bytes) + h.1.bytes.length
        + (varintLen (lenInt h.2.bytes) + h.2.bytes.length)).sum

/-- The two length-prefixed strings of a header, in `appendRecord`'s loop. -/
def appendHeader (h : WireHeader) : Bytes :=
  writeVarint (lenInt h.1.bytes) ++ h.1.bytes ++ writeVarint (lenInt h.2.bytes) ++ h.2.bytes

/-- What `appendRecord` writes after the length prefix. -/
def appendRecordBody (key value : Bytes) (headers : List WireHeader)
    (offsetDelta timestampDelta : Int64) : Bytes :=
  writeInt8 0 ++ writeVarint timestampDelta ++ writeVarint offsetDelta
    ++ writeVarint (lenInt key) ++ key
    ++ writeVarint (lenInt value) ++ value
    ++ writeVarint (lenInt headers) ++ headers.flatMap appendHeader

def appendRecord (key value : Bytes) (headers : List WireHeader)
    (offsetDelta timestampDelta : Int64) : Bytes :=
  writeVarint (Int64.ofNat (recordBodyLen key value headers offsetDelta timestampDelta))
    ++ appendRecordBody key value headers offsetDelta timestampDelta

/-- The milliseconds the encoder uses for a timestamp: the clock's when it is zero. -/
def Time.millisOr (now : Time) (t : Time) : Int64 := if t.isZero then now.unixMilli else t.unixMilli

/-- `encodeRecordsPayload`; `now` is its one reading of the clock. -/
def encodeRecordsPayload (now : Time) (records : List ProduceRecord) : Bytes :=
  let firstMs := now.millisOr ((records.head?.map (·.timestamp)).getD ⟨0, 0⟩)
  (records.mapIdx fun i pr =>
    appendRecord pr.key.bytes pr.value.bytes pr.headers (Int64.ofNat i)
      (now.millisOr pr.timestamp - firstMs)).flatten

/-- `binary.BigEndian.PutUint32(b[i:i+4], v)`. -/
def putUint32 (b : Bytes) (i : Nat) (v : UInt32) : Bytes :=
  b.take i ++ beBytes 4 v.toNat ++ b.drop (i + 4)

/-- The attributes of a batch and the payload it carries: the compressed one if it is shorter. -/
def compressPayload (C : Codecs) (settings : ProduceSettings) (recordsPayload : Bytes) :
    Except Error (Bytes × Int16) := do
  let attributes : Int16 := if settings.transactional then 0x10 else 0
  if settings.compression ≠ 0 then
    let compressed ← compress C settings.compression settings.compressionLevel recordsPayload
    if compressed.length < recordsPayload.length then
      return (compressed, attributes ||| settings.compression.toInt16)
    else return (recordsPayload, attributes)
  else return (recordsPayload, attributes)

/-- `encodeRecordBatch`. `clock` gives the successive readings of `time.Now`: the first record's,
each record's in the loop for the maximum, and the payload encoder's. -/
def encodeRecordBatch (C : Codecs) (clock : Nat → Time) (records : List ProduceRecord)
    (settings : ProduceSettings) (baseSequence : Int32) : Except Error Bytes := do
  match records with
  | [] => throw .emptyRecordBatch
  | first :: _ =>
    let firstMs := (clock 0).millisOr first.timestamp
    let maxMs := (records.mapIdx fun i r => (clock (i + 1)).millisOr r.timestamp).foldl
      (fun m t => if t > m then t else m) firstMs
    let recordsPayload := encodeRecordsPayload (clock (records.length + 1)) records
    let (recordsPayload, attributes) ← compressPayload C settings recordsPayload
    let lastOffsetDelta := Int32.ofNat (records.length - 1)
    let (producerID, producerEpoch, baseSeq) :=
      if settings.sequenced then (settings.producerID, settings.producerEpoch, baseSequence)
      else (-1, -1, -1)
    let body := writeInt64 0
      ++ writeInt32 0 -- the batch length, patched below
      ++ writeInt32 (-1)
      ++ writeInt8 2
      ++ writeInt32 0 -- the checksum, patched below
      ++ writeInt16 attributes
      ++ writeInt32 lastOffsetDelta
      ++ writeInt64 firstMs
      ++ writeInt64 maxMs
      ++ writeInt64 producerID
      ++ writeInt16 producerEpoch
      ++ writeInt32 baseSeq
      ++ writeInt32 (Int32.ofNat records.length)
      ++ recordsPayload
    let body := putUint32 body 8 (Int32.ofNat (body.length - 12)).toUInt32
    pure (putUint32 body 17 (crc32c (body.drop 21)))

/-! ## Decoding -/

structure FetchedRecord where
  topic : Bytes
  partition : Int32
  offset : Int64
  key : NilBytes := none
  value : NilBytes := none
  headers : List WireHeader := []
  timestamp : Int64 := 0
  control : Bool := false
  deliveryCount : Int16 := 0
  deriving DecidableEq

/-- A length-prefixed field of a record: no result when the length runs past the buffer, a nil
slice when it is not positive. -/
def readField : Read (Option NilBytes) := do
  let n ← readVarint
  if n > 0 then
    let b ← get
    if n.toInt > b.rest.length then return none
    else
      set (b.advance n.toInt.toNat)
      return some (some (b.rest.take n.toInt.toNat))
  else return some none

/-- The header loop of `parseRecords`, which an oversized length breaks off. -/
def parseHeaders : Nat → Read (List WireHeader)
  | 0 => return []
  | n + 1 => do
    match ← readField with
    | none => return []
    | some k =>
      match ← readField with
      | none => return []
      | some v => return (k, v) :: (← parseHeaders n)

/-- One record of `parseRecords`, after its length. No result is the `continue` of a key or value
that runs past the buffer. -/
def parseRecord (topic : Bytes) (part : Int32) (baseOffset baseTimestamp : Int64) :
    Read (Option FetchedRecord) := do
  let _ ← readInt8
  let tsDelta ← readVarint
  let offsetDelta ← readVarint
  match ← readField with
  | none => return none
  | some key =>
    match ← readField with
    | none => return none
    | some value =>
      let nHdrs ← readVarint
      let headers ← parseHeaders nHdrs.toInt.toNat
      return some { topic := topic, partition := part, offset := baseOffset + offsetDelta,
                    key := key, value := value, headers := headers,
                    timestamp := baseTimestamp + tsDelta }

theorem readVarint_pos_le (h : readVarint b = .ok (v, b')) : b'.data = b.data ∧ b.pos ≤ b'.pos := by
  have hrun : readVarint b =
      (readUvarint b).bind fun p => .ok (Varint.unzigzag (UInt64.ofNat p.1), p.2) := rfl
  rw [hrun] at h
  cases hu : readUvarint b with
  | error e => rw [hu] at h; cases h
  | ok p =>
    rw [hu] at h
    cases h
    have ⟨hdata, hlt, _⟩ := readUvarintLoop_advances hu
    exact ⟨hdata, hlt.le⟩

/-- The record loop of `parseRecords`. -/
def parseRecordsLoop (topic : Bytes) (part : Int32) (baseOffset baseTimestamp : Int64)
    (b : Buffer) : Except Error (List FetchedRecord) :=
  if _hrest : b.rest = [] then .ok []
  else
    match _hlen : readVarint b with
    | .error e => .error e
    | .ok (length, b₁) =>
      if _hpos : length ≤ 0 then .ok []
      else if b₁.pos + length.toInt.toNat > b₁.data.length then .ok []
      else
        -- whatever the fields consumed, the next record starts where this one's length says
        match parseRecord topic part baseOffset baseTimestamp b₁ with
        | .error e => .error e
        | .ok (rec, _) => do
          let recs ← parseRecordsLoop topic part baseOffset baseTimestamp
            ⟨b₁.data, b₁.pos + length.toInt.toNat⟩
          return rec.toList ++ recs
termination_by b.data.length - b.pos
decreasing_by
  have ⟨hd, hle⟩ := readVarint_pos_le _hlen
  have hl : b.rest.length ≠ 0 := by simpa using _hrest
  rw [Cursor.length_rest] at hl
  rw [Int64.le_iff_toInt_le, Int64.toInt_zero] at _hpos
  simp only [hd]
  omega

/-- `parseRecords`. The record count only sizes an allocation. -/
def parseRecords (topic : Bytes) (part : Int32) (data : Bytes)
    (baseOffset baseTimestamp : Int64) (_numRecords : Int32) :
    Except Error (List FetchedRecord) :=
  parseRecordsLoop topic part baseOffset baseTimestamp (fromBytes data)

structure RecordBatchInfo where
  baseOffset : Int64
  lastOffset : Int64
  producerID : Int64
  isControl : Bool
  isTransactional : Bool
  records : List FetchedRecord
  deriving DecidableEq

/-- The records of a batch, from what follows its header. The payload of a control batch is not
looked at. -/
def decodeRecords (C : Codecs) (topic : Bytes) (part : Int32) (attributes : Int16)
    (baseOffset firstTimestamp : Int64) (numRecords : Int32) (recordsBytes : Bytes) :
    Except Error (List FetchedRecord) :=
  if attributes &&& 0x20 ≠ 0 then .ok []
  else do
    let codec := (attributes &&& 0x7).toInt8
    let recordsBytes ← (if codec ≠ 0 then decompress C codec recordsBytes else .ok recordsBytes)
    parseRecords topic part recordsBytes baseOffset firstTimestamp numRecords

/-- `decodeOneRecordBatch` after its length check. -/
def readRecordBatch (C : Codecs) (topic : Bytes) (part : Int32) (batch : Bytes) :
    Read (Option RecordBatchInfo) := do
  let baseOffset ← readInt64
  let _batchLength ← readInt32
  let _partitionLeaderEpoch ← readInt32
  let magic ← readInt8
  if magic ≠ 2 then throw (.unsupportedMagic magic)
  else
    let crc ← readInt32
    let computed := crc32c (batch.drop 21)
    if computed ≠ crc.toUInt32 then throw (.crcMismatch computed crc.toUInt32)
    else
      let attributes ← readInt16
      let lastOffsetDelta ← readInt32
      let firstTimestamp ← readInt64
      let _maxTimestamp ← readInt64
      let producerID ← readInt64
      let _producerEpoch ← readInt16
      let _baseSequence ← readInt32
      let numRecords ← readInt32
      let recs ← decodeRecords C topic part attributes baseOffset firstTimestamp numRecords
        (← get).rest
      return some
        { baseOffset := baseOffset
          lastOffset := baseOffset + lastOffsetDelta.toInt64
          producerID := producerID
          isControl := attributes &&& 0x20 ≠ 0
          isTransactional := attributes &&& 0x10 ≠ 0
          records := recs }

/-- `decodeOneRecordBatch`; no result is the nil info of a batch too short for its header. -/
def decodeOneRecordBatch (C : Codecs) (topic : Bytes) (part : Int32) (batch : Bytes) :
    Except Error (Option RecordBatchInfo) :=
  if batch.length < 65 then .ok none
  else Prod.fst <$> readRecordBatch C topic part batch (fromBytes batch)

/-- `abortedTxn`: one entry of a Fetch response's aborted-transactions list. -/
structure AbortedTxn where
  producerID : Int64
  firstOffset : Int64
  deriving DecidableEq

/-- The inner loop of `decodeRecordBatch`: the entries at the front of the list whose first offset
is at or before the batch are taken, and their producers marked. -/
def markAborted (baseOffset : Int64) :
    List AbortedTxn → Finset Int64 → List AbortedTxn × Finset Int64
  | [], pids => ([], pids)
  | e :: rest, pids =>
    if e.firstOffset ≤ baseOffset then markAborted baseOffset rest (insert e.producerID pids)
    else (e :: rest, pids)

/-- The entry that carries a batch's last offset in place of its records. -/
def controlMarker (topic : Bytes) (part : Int32) (offset : Int64) : FetchedRecord :=
  { topic := topic, partition := part, offset := offset, control := true }

/-- The switch of `decodeRecordBatch`: what a batch contributes, and the producers still marked
after it. -/
def deliverBatch (topic : Bytes) (part : Int32) (info : RecordBatchInfo) (pids : Finset Int64) :
    List FetchedRecord × Finset Int64 :=
  if info.isControl then
    ([controlMarker topic part info.lastOffset], pids.erase info.producerID)
  else if info.isTransactional && info.producerID ∈ pids then
    ([controlMarker topic part info.lastOffset], pids)
  else (info.records, pids)

/-- The loop of `decodeRecordBatch`. `aborted` is the part of the list from the index `ai` on and
`pids` the keys of `abortedPIDs`. -/
def decodeRecordBatchLoop (C : Codecs) (topic : Bytes) (part : Int32) (data : Bytes)
    (aborted : List AbortedTxn) (pids : Finset Int64) : Except Error (List FetchedRecord) :=
  if data.length < 12 then .ok []
  else
    let total := 12 + beNat ((data.drop 8).take 4)
    if total > data.length then .ok []
    else
      match decodeOneRecordBatch C topic part (data.take total) with
      | .error e => .error e
      | .ok none => decodeRecordBatchLoop C topic part (data.drop total) aborted pids
      | .ok (some info) => do
        let (aborted, pids) := markAborted info.baseOffset aborted pids
        let (out, pids) := deliverBatch topic part info pids
        let rest ← decodeRecordBatchLoop C topic part (data.drop total) aborted pids
        return out ++ rest
termination_by data.length
decreasing_by all_goals simp only [List.length_drop]; omega

def decodeRecordBatch (C : Codecs) (topic : Bytes) (part : Int32) (data : Bytes)
    (aborted : List AbortedTxn) : Except Error (List FetchedRecord) :=
  decodeRecordBatchLoop C topic part data aborted ∅

end GoKafka
