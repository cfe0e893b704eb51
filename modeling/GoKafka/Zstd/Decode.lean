import GoKafka.Zstd.Execute

/-!
# `zstd.Decode`

The model of the decoder's `Reader` (`reader.go`, `block.go`, `literals.go`) and of `Decode`
(`decode.go`), which reads all of it up to a limit. A frame is a header and some blocks; a block is
raw bytes, one byte repeated, or literals and sequences. The parts that no frame of `Encode` uses
(literals in a Huffman code, tables written into the block, the checksum) are parameters,
`Unmodelled`: every result here holds for any functions in their place.

The input is the bytes not read yet. A `zstdError` is its text, since `Decode` drops the offset.
-/

namespace GoKafka.Zstd

open BitString

/-- `huffmanTable` and `huffmanTableBits`. -/
structure Huffman where
  table : List Nat
  bits : Nat

/-- The parts of the decoder that no frame of `Encode` uses. -/
structure Unmodelled where
  /-- `readHuffLiterals(data, off, hdr)`: the new offset, the literals and the Huffman table. -/
  readHuffLiterals : Bytes → Nat → UInt8 → Huffman → Except ReadError (Nat × Bytes × Huffman)
  /-- `readFSE(data, off, maxSym, maxBits)`: the table's bits, its entries and the new offset. -/
  readFSE : Bytes → Nat → Nat → Nat → Except ReadError (Nat × List FseEntry × Nat)
  /-- The low 32 bits of the `xxhash64` of the bytes. -/
  digest : Bytes → Nat

/-- The fields of `Reader` that a block or a frame leaves to the next; `checksum` is the bytes the
sum is of. -/
structure Reader where
  input : Bytes
  sawFrameHeader : Bool
  hasChecksum : Bool
  readOneFrame : Bool
  frameSizeUnknown : Bool
  remainingFrameSize : Nat
  buffer : Bytes
  rep : Offsets
  huffman : Huffman
  window : Window
  tables : SeqTables
  checksum : Bytes

def newReader (input : Bytes) : Reader :=
  ⟨input, false, false, false, false, 0, [], ⟨0, 0, 0⟩, ⟨[], 0⟩, ⟨0, []⟩,
    ⟨⟨[], 0⟩, ⟨[], 0⟩, ⟨[], 0⟩⟩, []⟩

/-- `io.ReadFull`: `n` bytes and what is left. -/
def readFull (input : Bytes) (n : Nat) : Except ReadError (Bytes × Bytes) :=
  if n ≤ input.length then .ok (input.take n, input.drop n)
  else if input = [] then .error .eof
  else .error makeEOFError

/-- `io.ReadFull` whose error goes through `wrapNonEOFError`. -/
def readFullNonEOF (input : Bytes) (n : Nat) : Except ReadError (Bytes × Bytes) :=
  if n ≤ input.length then .ok (input.take n, input.drop n) else .error makeEOFError

/-! ## Literals -/

/-- `Reader.readRawRLELiterals`: the new offset and the literals. -/
def readRawRLELiterals (data : Bytes) (off : Nat) (hdr : UInt8) :
    Except ReadError (Nat × Bytes) := do
  let raw := hdr.toNat % 4 = 0
  let size : Nat × Nat ← match (hdr.toNat >>> 2) % 4 with
    | 1 =>
      if off ≥ data.length then .error makeEOFError
      else .ok (hdr.toNat >>> 4 + (data.getD off 0).toNat <<< 4, off + 1)
    | 3 =>
      if off + 1 ≥ data.length then .error makeEOFError
      else
        .ok (hdr.toNat >>> 4 + (data.getD off 0).toNat <<< 4 +
          (data.getD (off + 1) 0).toNat <<< 12, off + 2)
    | _ => .ok (hdr.toNat >>> 3, off)
  let (regeneratedSize, off) := size
  if regeneratedSize > 128 * 1024 then throw (.zstd "literal size too large")
  if raw then
    if off + regeneratedSize > data.length then throw (.zstd "raw literal size too large")
    return (off + regeneratedSize, (data.drop off).take regeneratedSize)
  else
    if off ≥ data.length then throw (.zstd "RLE literal missing")
    return (off + 1, List.replicate regeneratedSize (data.getD off 0))

/-- `Reader.readLiterals`, from the start of the block. -/
def readLiterals (U : Unmodelled) (data : Bytes) (huffman : Huffman) :
    Except ReadError (Nat × Bytes × Huffman) :=
  match data with
  | [] => .error makeEOFError
  | hdr :: _ =>
    if hdr.toNat % 4 = 0 ∨ hdr.toNat % 4 = 1 then do
      let (off, litbuf) ← readRawRLELiterals data 1 hdr
      return (off, litbuf, huffman)
    else U.readHuffLiterals data 1 hdr huffman

/-! ## The tables of the sequences -/

/-- `seqCodeInfoData`; `toBaseline` by the function it applies to each code. -/
structure SeqCodeInfo where
  predef : SeqTable
  maxSym : Nat
  maxBits : Nat
  base : Nat → Except ReadError (Nat × Nat)

/-- `seqCodeInfo`. -/
def literalInfo : SeqCodeInfo := ⟨predefLiteral, 35, 9, literalBase⟩

@[inherit_doc literalInfo]
def offsetInfo : SeqCodeInfo := ⟨predefOffset, 31, 8, offsetBase⟩

@[inherit_doc literalInfo]
def matchInfo : SeqCodeInfo := ⟨predefMatch, 52, 9, matchBase⟩

/-- `Reader.setSeqTable`: the table to use and the new offset. -/
def setSeqTable (U : Unmodelled) (info : SeqCodeInfo) (data : Bytes) (off mode : Nat)
    (previous : SeqTable) : Except ReadError (SeqTable × Nat) :=
  match mode with
  | 0 => .ok (info.predef, off)
  | 1 =>
    match data[off]? with
    | none => .error makeEOFError
    | some rle => do return (⟨[← toBaseline info.base ⟨rle.toNat, 0, 0⟩], 0⟩, off + 1)
  | 2 => do
    let (tableBits, entries, roff) ← U.readFSE data off info.maxSym info.maxBits
    return (⟨← entries.mapM (toBaseline info.base), tableBits⟩, roff)
  | _ =>
    if previous.table = [] then .error (.zstd "missing repeat sequence FSE table")
    else .ok (previous, off)

/-- The number of sequences from its first byte on, as `initSeqs` reads it, and the new offset. -/
def readSeqCount (data : Bytes) (off : Nat) (seqHdr : UInt8) : Except ReadError (Nat × Nat) :=
  if seqHdr.toNat < 128 then .ok (seqHdr.toNat, off)
  else if seqHdr.toNat < 255 then
    if off ≥ data.length then .error makeEOFError
    else .ok ((seqHdr.toNat - 128) <<< 8 + (data.getD off 0).toNat, off + 1)
  else if off + 1 ≥ data.length then .error makeEOFError
  else .ok ((data.getD off 0).toNat + (data.getD (off + 1) 0).toNat <<< 8 + 0x7f00, off + 2)

/-- The three calls of `setSeqTable` in `initSeqs`. -/
def setSeqTables (U : Unmodelled) (data : Bytes) (off mode : Nat) (tables : SeqTables) :
    Except ReadError (SeqTables × Nat) := do
  let (seqLiteral, off) ← setSeqTable U literalInfo data off ((mode >>> 6) % 4) tables.seqLiteral
  let (seqOffset, off) ← setSeqTable U offsetInfo data off ((mode >>> 4) % 4) tables.seqOffset
  let (seqMatch, off) ← setSeqTable U matchInfo data off ((mode >>> 2) % 4) tables.seqMatch
  return (⟨seqLiteral, seqOffset, seqMatch⟩, off)

/-- `Reader.initSeqs`: the number of sequences, the new offset and the tables. -/
def initSeqs (U : Unmodelled) (data : Bytes) (off : Nat) (tables : SeqTables) :
    Except ReadError (Nat × Nat × SeqTables) :=
  match data[off]? with
  | none => .error makeEOFError
  | some seqHdr =>
    if seqHdr = 0 then .ok (0, off + 1, tables)
    else do
      let (seqCount, off) ← readSeqCount data (off + 1) seqHdr
      match data[off]? with
      | none => .error makeEOFError
      | some symMode =>
        if symMode.toNat % 4 ≠ 0 then .error (.zstd "invalid symbol compression mode")
        else
          let (tables, off) ← setSeqTables U data (off + 1) symMode.toNat tables
          return (seqCount, off, tables)

/-! ## Blocks and frames -/

/-- `Reader.compressedBlock`, on the block's bytes. -/
def compressedBlock (U : Unmodelled) (r : Reader) (data : Bytes) : Except ReadError Reader := do
  let (off, litbuf, huffman) ← readLiterals U data r.huffman
  let (seqCount, off, tables) ← initSeqs U data off r.tables
  let r := { r with huffman := huffman, tables := tables }
  if seqCount = 0 then
    if off < data.length then throw (.zstd "extraneous data after no sequences")
    return { r with buffer := litbuf }
  else
    let (buffer, rep) ← execSeqs tables r.window r.rep data off litbuf seqCount
    return { r with buffer := buffer, rep := rep }

/-- The block of `readBlock`, by its type. -/
def readBlockBody (U : Unmodelled) (r : Reader) (blockType blockSize : Nat) :
    Except ReadError Reader :=
  match blockType with
  | 0 => do
    let (buffer, input) ← readFullNonEOF r.input blockSize
    return { r with buffer := buffer, input := input }
  | 1 => do
    let (v, input) ← readFullNonEOF r.input 1
    return { r with buffer := List.replicate blockSize (v.headD 0), input := input }
  | 2 => do
    let (data, input) ← readFullNonEOF r.input blockSize
    compressedBlock U { r with input := input } data
  | _ => .error (.zstd "invalid block type")

/-- `%#x`. -/
def hexText (v : Nat) : String := "0x" ++ String.ofList (Nat.toDigits 16 v)

/-- The end of `readBlock`: the sizes, the window and the checksum. -/
def finishBlock (U : Unmodelled) (lastBlock : Bool) (r : Reader) : Except ReadError Reader := do
  if ¬ r.frameSizeUnknown ∧ r.buffer.length > r.remainingFrameSize then
    throw (.zstd "too many uncompressed bytes in frame")
  let r :=
    if r.frameSizeUnknown then r
    else { r with remainingFrameSize := r.remainingFrameSize - r.buffer.length }
  let r := if r.hasChecksum then { r with checksum := r.checksum ++ r.buffer } else r
  if ¬ lastBlock then return { r with window := r.window.save r.buffer }
  else
    if ¬ r.frameSizeUnknown ∧ r.remainingFrameSize ≠ 0 then
      throw (.zstd "not enough uncompressed bytes for frame")
    if r.hasChecksum then
      let (sum, input) ← readFullNonEOF r.input 4
      if leNat sum ≠ U.digest r.checksum then
        throw (.zstd ("invalid checksum: got " ++ hexText (U.digest r.checksum) ++ " want " ++
          hexText (leNat sum)))
      return { r with input := input, sawFrameHeader := false }
    else return { r with sawFrameHeader := false }

def readBlock (U : Unmodelled) (r : Reader) : Except ReadError Reader := do
  let (scratch, input) ← readFullNonEOF r.input 3
  let header := leNat scratch
  let blockSize := header >>> 3
  if blockSize > 128 * 1024 ∨ (r.window.size > 0 ∧ blockSize > r.window.size) then
    throw (.zstd "block size too large")
  let r ← readBlockBody U { r with input := input } ((header >>> 1) % 4) blockSize
  finishBlock U (header.testBit 0) r

/-- `Reader.skipFrame`: the input is a `bytes.Reader`, which can seek. -/
def skipFrame (input : Bytes) : Except ReadError Bytes := do
  let (scratch, input) ← readFullNonEOF input 4
  if leNat scratch > input.length then throw makeEOFError
  return input.drop (leNat scratch)

/-- `Reader.readFrameHeader` from the descriptor on. -/
def readDescriptor (r : Reader) : Except ReadError Reader := do
  let (scratch, input) ← readFullNonEOF r.input 1
  let descriptor := (scratch.headD 0).toNat
  let singleSegment := descriptor.testBit 5
  let fcsFieldSize := if descriptor >>> 6 = 0 ∧ ¬ singleSegment then 0 else 2 ^ (descriptor >>> 6)
  let windowDescriptorSize := if singleSegment then 0 else 1
  if descriptor.testBit 3 then throw (.zstd "reserved bit set in frame header descriptor")
  let dictionaryIdSize := if descriptor % 4 = 0 then 0 else 2 ^ (descriptor % 4 - 1)
  let (scratch, input) ←
    readFullNonEOF input (windowDescriptorSize + dictionaryIdSize + fcsFieldSize)
  let windowDescriptor := (scratch.headD 0).toNat
  let windowBase := 2 ^ (windowDescriptor / 8 + 10)
  let dictionaryId := (scratch.drop windowDescriptorSize).take dictionaryIdSize
  if dictionaryId.any (· ≠ 0) then throw (.zstd "dictionaries are not supported")
  let fb := scratch.drop (windowDescriptorSize + dictionaryIdSize)
  let contentSize := if fcsFieldSize = 2 then 256 + leNat fb else leNat fb
  let windowSize :=
    if singleSegment then contentSize else windowBase + windowBase / 8 * (windowDescriptor % 8)
  return {
    r with
    input := input
    hasChecksum := descriptor.testBit 2
    checksum := if descriptor.testBit 2 then [] else r.checksum
    frameSizeUnknown := decide (fcsFieldSize = 0)
    remainingFrameSize := contentSize
    sawFrameHeader := true
    readOneFrame := true
    rep := recentOffsets
    huffman := { r.huffman with bits := 0 }
    window := ⟨min windowSize (8 * 1024 * 1024), []⟩
    tables := ⟨{ r.tables.seqLiteral with table := [] }, { r.tables.seqOffset with table := [] },
      { r.tables.seqMatch with table := [] }⟩ }

/-- `Reader.readFrameHeader`, with the frames it skips. Each takes eight bytes or more, so
`input.length` rounds are enough. -/
def readFrameHeader : Nat → Reader → Except ReadError Reader
  | 0, _ => .error makeEOFError
  | rounds + 1, r =>
    match readFull r.input 4 with
    | .error e => .error (if e = .eof ∧ ¬ r.readOneFrame then makeEOFError else e)
    | .ok (scratch, input) =>
      let magic := leNat scratch
      if magic ≠ 0xfd2fb528 then
        if magic ≥ 0x184d2a50 ∧ magic ≤ 0x184d2a5f then do
          readFrameHeader rounds { r with input := ← skipFrame input, readOneFrame := true }
        else .error (.zstd "invalid magic number")
      else readDescriptor { r with input := input }

def refill (U : Unmodelled) (r : Reader) : Except ReadError Reader := do
  let r ← if r.sawFrameHeader then pure r else readFrameHeader (r.input.length + 1) r
  readBlock U r

/-- `io.ReadAll` on the reader under an `io.LimitReader` of `limit` bytes: block after block until
the input ends or the limit is reached. Each block takes three bytes or more, so `input.length`
rounds are enough. -/
def readAll (U : Unmodelled) : Nat → Reader → Int → Except ReadError Bytes
  | 0, _, _ => .error makeEOFError
  | rounds + 1, r, limit =>
    if limit ≤ 0 then .ok []
    else
      match refill U r with
      | .error .eof => .ok []
      | .error e => .error e
      | .ok r => do
        let chunk := r.buffer.take limit.toNat
        return chunk ++ (← readAll U rounds r (limit - chunk.length))

def isFrame (data : Bytes) : Bool := 4 ≤ data.length ∧ leNat (data.take 4) = 0xfd2fb528

def decode (U : Unmodelled) (src : Bytes) (maxSize : Int64) : Except Error Bytes :=
  if src.length = 0 then .error (.codec "zstd: corrupt input")
  else if ¬ isFrame src then .error (.codec "zstd: corrupt input")
  else
    match readAll U (src.length + 1) (newReader src) (maxSize + 1).toInt with
    | .error .eof => .error (.transport "EOF")
    | .error (.zstd msg) => .error (.codec ("zstd: corrupt input: " ++ msg))
    | .error .indexOutOfRange => .error (.panic "runtime error: index out of range")
    | .ok out =>
      if out.length > maxSize.toInt then
        .error (.codec ("zstd: decompressed size exceeds limit " ++ toString maxSize.toInt))
      else .ok out

end GoKafka.Zstd
