import GoKafka.Zstd.Sequences

/-!
# `zstd.Encode`

The model of `encode.go` over the sequences of a block. A block goes out compressed if that makes
it shorter, and as it is otherwise. A string of at most 128 KiB is one frame with one block.
A longer one is cut into chunks, and `encodeLarge` writes a frame header for every chunk, but marks
only the last chunk's block as the last of its frame.

`appendRawLiteralsHeader` writes the number of literals with the format bits `0x10` and `0x30` for
32 literals or more, where the decoder has them two places lower.
-/

namespace GoKafka.Zstd

open BitString

def maxBlockSize : Nat := 128 * 1024

def appendRawLiteralsHeader (out : Bytes) (litLen : Nat) : Bytes :=
  if litLen < 32 then out ++ [UInt8.ofNat (litLen <<< 3)]
  else if litLen < 4096 then
    out ++ [UInt8.ofNat ((litLen <<< 4) &&& 0xf0 ||| 0x10), UInt8.ofNat (litLen >>> 4)]
  else
    out ++ [UInt8.ofNat ((litLen <<< 4) &&& 0xf0 ||| 0x30), UInt8.ofNat (litLen >>> 4),
      UInt8.ofNat (litLen >>> 12)]

/-- The header of a block and the block: `blockType` is 0 for raw bytes, 2 for a compressed block.
The functions of the source each have this code of their own. -/
def blockWith (last : Bool) (blockType : Nat) (body : Bytes) : Bytes :=
  leBytes 3 (last.toNat ||| blockType <<< 1 ||| body.length <<< 3) ++ body

def encodeRawBlock (src : Bytes) (last : Bool) : Bytes := blockWith last 0 src

/-- `encodeCompressedBlock`; none is its false. -/
def encodeCompressedBlock (encs : Encoders) (src : Bytes) : Option Bytes :=
  let (literals, sequences) := buildSequences src
  if sequences = [] then none
  else
    let blockBody := appendRawLiteralsHeader [] literals.length ++ literals
    some (blockWith true 2 (encodeSequences encs blockBody sequences))

def setBlockLast (block : Bytes) (last : Bool) : Bytes :=
  block.modify 0 fun b => if last then b ||| 1 else b &&& ~~~1

def encodeFrameHeader (contentSize : Nat) : Bytes :=
  [0x28, 0xb5, 0x2f, 0xfd] ++
    if contentSize < 256 then [0x20, UInt8.ofNat contentSize]
    else if contentSize < 256 + 65535 then 0x60 :: leBytes 2 (contentSize - 256)
    else if contentSize < 2 ^ 32 then 0xa0 :: leBytes 4 contentSize
    else 0xe0 :: leBytes 8 contentSize

def appendFrame (dst src block : Bytes) : Bytes := dst ++ encodeFrameHeader src.length ++ block

def encodeRawFrame (src : Bytes) : Bytes := appendFrame [] src (blockWith true 0 src)

def encodeEmptyFrame : Bytes := [0x28, 0xb5, 0x2f, 0xfd, 0x20, 0x00, 0x01, 0x00, 0x00]

/-- The loop of `encodeLarge`: every round takes a chunk, so `src.length` rounds are enough. -/
def encodeLargeLoop (encs : Encoders) : Nat → Bytes → Bytes → Bytes
  | 0, out, _ => out
  | rounds + 1, out, src =>
    if src = [] then out
    else
      let chunk := src.take maxBlockSize
      let src := src.drop maxBlockSize
      let last := decide (src = [])
      let raw := encodeRawBlock chunk last
      let block :=
        match encodeCompressedBlock encs chunk with
        | none => raw
        | some block =>
          if block.length ≥ chunk.length then raw
          else if last then block
          else setBlockLast block false
      encodeLargeLoop encs rounds (appendFrame out chunk block) src

def encodeLarge (encs : Encoders) (src : Bytes) : Bytes := encodeLargeLoop encs src.length [] src

def encode (src : Bytes) : Except Error Bytes :=
  match initPredefinedEncoders with
  | .error msg => .error (.panic msg)
  | .ok encs =>
    if src.length = 0 then .ok encodeEmptyFrame
    else if src.length > maxBlockSize then .ok (encodeLarge encs src)
    else
      match encodeCompressedBlock encs src with
      | none => .ok (encodeRawFrame src)
      | some block =>
        if block.length ≥ src.length then .ok (encodeRawFrame src)
        else .ok (appendFrame [] src block)

end GoKafka.Zstd
