import GoKafka.Zstd.Encode
import GoKafka.Zstd.Decode

/-!
# Reading a frame

What the decoder makes of the parts the encoder writes: the header of a frame and of a block, the
end of the last block, and the end of the input. `decode_frame` puts them together for a frame of
one block, whatever the block's type.
-/

namespace GoKafka.Zstd

open BitString

variable {r : Reader} {rest : Bytes}

theorem readFullNonEOF_append (bs rest : Bytes) :
    readFullNonEOF (bs ++ rest) bs.length = .ok (bs, rest) := by
  rw [readFullNonEOF, if_pos (by simp), List.take_left, List.drop_left]

/-- The reader after the header of a frame of `n` bytes in one segment. -/
def Reader.atFrame (r : Reader) (n : Nat) (input : Bytes) : Reader :=
  { r with
    input := input
    sawFrameHeader := true
    hasChecksum := false
    readOneFrame := true
    frameSizeUnknown := false
    remainingFrameSize := n
    rep := recentOffsets
    huffman := { r.huffman with bits := 0 }
    window := ⟨min n (8 * 1024 * 1024), []⟩
    tables := ⟨{ r.tables.seqLiteral with table := [] }, { r.tables.seqOffset with table := [] },
      { r.tables.seqMatch with table := [] }⟩ }

/-- A descriptor of a single segment without checksum or dictionary is followed by the size. -/
theorem readDescriptor_single (hk : k < 4) (hsize : size.length = 2 ^ k)
    (hr : r.input = UInt8.ofNat (0x20 + 0x40 * k) :: (size ++ rest)) :
    readDescriptor r =
      .ok (r.atFrame (if k = 1 then 256 + leNat size else leNat size) rest) := by
  have hbits : ∀ k < 4, let d := (UInt8.ofNat (0x20 + 0x40 * k)).toNat
      d.testBit 5 = true ∧ d.testBit 3 = false ∧ d.testBit 2 = false ∧ d % 4 = 0 ∧ d >>> 6 = k := by
    decide
  obtain ⟨h5, h3, h2, hdict, hfcs⟩ := hbits k hk
  generalize UInt8.ofNat (0x20 + 0x40 * k) = d at hr h5 h3 h2 hdict hfcs
  have hread := readFullNonEOF_append [d] (size ++ rest)
  have hfield := readFullNonEOF_append size rest
  have htwo : 2 ^ k = 2 ↔ k = 1 := by
    rw [Nat.pow_eq_self_iff Nat.one_lt_two]
  rw [hsize] at hfield
  rw [List.singleton_append, List.length_singleton] at hread
  rw [readDescriptor, hr, hread]
  simp [bind, Except.bind, pure, Except.pure, h5, h3, h2, hdict, hfcs, hfield, htwo, Reader.atFrame]

theorem encodeFrameHeader_eq (hn : n < 2 ^ 64) : ∃ k size, k < 4 ∧ size.length = 2 ^ k ∧
      (if k = 1 then 256 + leNat size else leNat size) = n ∧
      encodeFrameHeader n =
        [0x28, 0xb5, 0x2f, 0xfd] ++ UInt8.ofNat (0x20 + 0x40 * k) :: size := by
  rw [encodeFrameHeader]
  split
  · refine ⟨0, leBytes 1 n, by decide, rfl, ?_, rfl⟩
    rw [if_neg (by decide), leNat_leBytes, Nat.mod_eq_of_lt (by omega)]
  split
  · refine ⟨1, leBytes 2 (n - 256), by decide, rfl, ?_, rfl⟩
    rw [if_pos rfl, leNat_leBytes, Nat.mod_eq_of_lt (by omega)]
    omega
  split
  · refine ⟨2, leBytes 4 n, by decide, rfl, ?_, rfl⟩
    rw [if_neg (by decide), leNat_leBytes, Nat.mod_eq_of_lt (by omega)]
  · refine ⟨3, leBytes 8 n, by decide, rfl, ?_, rfl⟩
    rw [if_neg (by decide), leNat_leBytes, Nat.mod_eq_of_lt (by omega)]

theorem readFrameHeader_encode {n : Nat} (hn : n < 2 ^ 64) (rounds : Nat)
    (hr : r.input = encodeFrameHeader n ++ rest) :
    readFrameHeader (rounds + 1) r = .ok (r.atFrame n rest) := by
  obtain ⟨k, size, hk, hsize, rfl, hheader⟩ := encodeFrameHeader_eq hn
  rw [hheader] at hr
  have hread : readFull r.input 4 =
      .ok ([0x28, 0xb5, 0x2f, 0xfd], UInt8.ofNat (0x20 + 0x40 * k) :: (size ++ rest)) := by
    rw [hr]
    rfl
  rw [readFrameHeader, hread]
  dsimp only
  rw [readDescriptor_single hk hsize rfl]
  rfl

/-- The three numbers of a block's header. -/
theorem blockHeader_bits {last : Bool} (ht : blockType < 4) :
    let header := last.toNat ||| blockType <<< 1 ||| size <<< 3
    header = last.toNat + 2 * blockType + 8 * size := by
  have hlast : last.toNat < 2 ^ 1 := by cases last <;> decide
  have hlow : last.toNat ||| blockType <<< 1 = last.toNat + 2 * blockType := by
    rw [Nat.or_comm, ← Nat.shiftLeft_add_eq_or_of_lt hlast]
    omega
  rw [Nat.or_comm, ← Nat.shiftLeft_add_eq_or_of_lt (by omega)]
  omega

/-- The reader takes a block's header off the input. -/
theorem readBlock_blockWith (ht : blockType < 4) (hbody : body.length ≤ 128 * 1024)
    (hwindow : body.length ≤ r.window.size) (hr : r.input = blockWith last blockType body ++ rest) :
    readBlock U r =
      (readBlockBody U { r with input := body ++ rest } blockType body.length >>=
        finishBlock U last) := by
  have hlast : last.toNat < 2 := by cases last <;> decide
  rw [blockWith, blockHeader_bits ht] at hr
  generalize hheader : last.toNat + 2 * blockType + 8 * body.length = header at hr
  have hread : readFullNonEOF r.input 3 = .ok (leBytes 3 header, body ++ rest) := by
    have hfirst := readFullNonEOF_append (leBytes 3 header) (body ++ rest)
    rwa [length_leBytes, ← List.append_assoc, ← hr] at hfirst
  have hle : leNat (leBytes 3 header) = header := by
    rw [leNat_leBytes, Nat.mod_eq_of_lt (by omega)]
  have hsize : header >>> 3 = body.length := by
    omega
  have htype : (header >>> 1) % 4 = blockType := by
    omega
  have hbit : header.testBit 0 = last := by
    rw [Nat.testBit_zero, ← hheader]
    cases last <;> simp <;> omega
  have hfits : ¬ (body.length > 128 * 1024 ∨
      r.window.size > 0 ∧ body.length > r.window.size) := by omega
  rw [readBlock, hread]
  simp only [bind, Except.bind, hle, hsize, htype, hbit, if_neg hfits]

/-- The end of the last block, when the frame's size is right. -/
theorem finishBlock_last (hunknown : r.frameSizeUnknown = false) (hsum : r.hasChecksum = false)
    (hsize : r.buffer.length = r.remainingFrameSize) :
    finishBlock U true r = .ok { r with remainingFrameSize := 0, sawFrameHeader := false } := by
  simp [finishBlock, hunknown, hsum, hsize, pure, Except.pure]

/-- At the end of the input, after a frame, there is no more to read. -/
theorem readAll_end {rounds : Nat} (hinput : r.input = []) (hdone : r.sawFrameHeader = false)
    (hone : r.readOneFrame = true) : readAll U (rounds + 1) r limit = .ok [] := by
  rw [readAll]
  split
  · rfl
  · have hread : readFull r.input 4 = .error .eof := by
      rw [hinput]
      rfl
    have hrefill : refill U r = .error .eof := by
      rw [refill, hdone]
      simp [readFrameHeader, hread, hone, bind, Except.bind]
    rw [hrefill]

/-- A block that is read within the limit stands in front of what follows it. -/
theorem readAll_block {rounds : Nat} {limit : Int} (hrefill : refill U r = .ok r')
    (hlimit : r'.buffer.length < limit) :
    readAll U (rounds + 1) r limit =
      (readAll U rounds r' (limit - r'.buffer.length)).map (r'.buffer ++ ·) := by
  have htake : r'.buffer.take limit.toNat = r'.buffer := List.take_of_length_le (by omega)
  rw [readAll, if_neg (by omega), hrefill]
  dsimp only
  rw [htake]
  cases readAll U rounds r' (limit - r'.buffer.length) <;> rfl

/-- Every frame starts with the magic number. -/
theorem isFrame_encodeFrameHeader : isFrame (encodeFrameHeader n ++ block) = true := by
  rw [isFrame, encodeFrameHeader]
  simp [leNat]

/-- What `Decode` makes of what is read from a frame. -/
theorem decode_of_readAll {maxSize : Int64}
    (hread : readAll U ((encodeFrameHeader n ++ block).length + 1)
      (newReader (encodeFrameHeader n ++ block)) (maxSize + 1).toInt = .ok out)
    (hmax : out.length ≤ maxSize.toInt) :
    decode U (encodeFrameHeader n ++ block) maxSize = .ok out := by
  have hne : (encodeFrameHeader n ++ block).length ≠ 0 := by simp [encodeFrameHeader]
  rw [decode, if_neg hne, if_neg (not_not_intro isFrame_encodeFrameHeader), hread]
  exact if_neg (by omega)

/-- The first block of a frame. -/
theorem refill_encodeFrameHeader (hn : n < 2 ^ 64) :
    refill U (newReader (encodeFrameHeader n ++ block)) =
      readBlock U ((newReader (encodeFrameHeader n ++ block)).atFrame n block) := by
  have hheader := @readFrameHeader_encode (newReader (encodeFrameHeader n ++ block)) block n hn
    (encodeFrameHeader n ++ block).length rfl
  have hinput : (newReader (encodeFrameHeader n ++ block)).input = encodeFrameHeader n ++ block :=
    rfl
  rw [refill, hinput, hheader]
  rfl

/-- A frame whose one block decompresses to `out` is decoded. -/
theorem decode_frame {maxSize : Int64} (hn : n < 2 ^ 64)
    (hblock : readBlock U ((newReader (encodeFrameHeader n ++ block)).atFrame n block) = .ok r')
    (hout : r'.buffer = out) (hinput : r'.input = []) (hdone : r'.sawFrameHeader = false)
    (hone : r'.readOneFrame = true) (hmax : out.length ≤ maxSize.toInt)
    (hlimit : (maxSize + 1).toInt = maxSize.toInt + 1) :
    decode U (encodeFrameHeader n ++ block) maxSize = .ok out := by
  subst hout
  refine decode_of_readAll ?_ hmax
  have hlen : ∃ m, (encodeFrameHeader n ++ block).length = m + 1 :=
    Nat.exists_eq_succ_of_ne_zero (by simp [encodeFrameHeader])
  obtain ⟨m, hm⟩ := hlen
  rw [readAll_block ((refill_encodeFrameHeader hn).trans hblock) (by omega), hm,
    readAll_end hinput hdone hone]
  exact congrArg Except.ok (List.append_nil _)

end GoKafka.Zstd
