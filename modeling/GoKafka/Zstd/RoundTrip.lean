import GoKafka.Zstd.Frame

/-!
# The round trip of `zstd.Encode` and `zstd.Decode`

A raw block is read back as it is. A compressed block is read back when its header gives the number
of its literals right, which it does below 32, and when the bits of its sequences are all written
(`Narrow`). A second block is never read back, and nothing is under a limit that overflows.
-/

namespace GoKafka.Zstd

open BitString List

variable {U : Unmodelled} {r : Reader} {rest : Bytes}


/-! ## The blocks of `Encode` -/

variable {src : Bytes} {maxSize : Int64}

/-- Raw bytes are read back. -/
theorem decode_rawFrame (hlen : src.length ≤ maxBlockSize) (hmax : src.length ≤ maxSize.toInt)
    (hlimit : (maxSize + 1).toInt = maxSize.toInt + 1) :
    decode U (encodeRawFrame src) maxSize = .ok src := by
  rw [maxBlockSize] at hlen
  have hblock : readBlock U ((newReader (encodeRawFrame src)).atFrame src.length
      (blockWith true 0 src)) = .ok { (newReader (encodeRawFrame src)).atFrame src.length [] with
        buffer := src, remainingFrameSize := 0, sawFrameHeader := false } := by
    rw [readBlock_blockWith (by decide) hlen (by simp [Reader.atFrame]; omega)
      (append_nil _).symm, readBlockBody, readFullNonEOF_append src []]
    exact finishBlock_last rfl rfl rfl
  exact decode_frame (by omega) hblock rfl rfl rfl rfl hmax hlimit

/-- Fewer than 32 literals are read back. -/
theorem readLiterals_append (hlen : literals.length < 32) (more : Bytes) (huffman : Huffman) :
    readLiterals U (appendRawLiteralsHeader [] literals.length ++ literals ++ more) huffman =
      .ok (literals.length + 1, literals, huffman) := by
  have hbits : ∀ n < 32, let h := (UInt8.ofNat (n <<< 3)).toNat
      h % 4 = 0 ∧ ((h >>> 2) % 4 = 0 ∨ (h >>> 2) % 4 = 2) ∧ h >>> 3 = n := by decide
  obtain ⟨hraw, hformat, hsize⟩ := hbits literals.length hlen
  rw [appendRawLiteralsHeader, if_pos hlen]
  generalize UInt8.ofNat (literals.length <<< 3) = hdr at hraw hformat hsize
  have hdata : [] ++ [hdr] ++ literals ++ more = hdr :: (literals ++ more) := by simp
  have hread : readRawRLELiterals (hdr :: (literals ++ more)) 1 hdr =
      .ok (literals.length + 1, literals) := by
    have hformat' : (hdr.toNat >>> 2) % 4 ≠ 1 ∧ (hdr.toNat >>> 2) % 4 ≠ 3 := by omega
    have hfits : ¬ 1 + literals.length > (hdr :: (literals ++ more)).length := by
      simp
      omega
    rw [readRawRLELiterals]
    split
    · next h => exact absurd h hformat'.1
    · next h => exact absurd h hformat'.2
    · simp only [hsize, bind, Except.bind, hraw, if_neg hfits, if_true, pure, Except.pure,
        drop_succ_cons, drop_zero, take_left]
      rw [if_neg (by omega), Nat.add_comm]
  rw [hdata, readLiterals, if_pos (.inl hraw), hread]
  rfl

/-- From 32 literals on, the first byte of the header has the format bits of the short one. -/
theorem appendRawLiteralsHeader_long (h : 32 ≤ n) : ∃ hdr more,
    appendRawLiteralsHeader [] n = hdr :: more ∧ hdr.toNat % 16 = 0 := by
  have hlow : ∀ flag, flag % 2 ^ 4 = 0 →
      (UInt8.ofNat ((n <<< 4) &&& 0xf0 ||| flag)).toNat % 16 = 0 := by
    intro flag hflag
    have hmod : ((n <<< 4) &&& 0xf0 ||| flag) % 2 ^ 4 = 0 := by
      rw [Nat.or_mod_two_pow, Nat.and_mod_two_pow, hflag, Nat.shiftLeft_eq, Nat.mul_mod_left]
      simp
    rw [UInt8.toNat_ofNat']
    omega
  rw [appendRawLiteralsHeader, if_neg (by omega)]
  split
  · exact ⟨_, _, rfl, hlow 0x10 rfl⟩
  · exact ⟨_, _, rfl, hlow 0x30 rfl⟩

/-- The literals of a block are read back, up to where they end, only if they are fewer than 32. -/
theorem readLiterals_append_iff (literals more : Bytes) (huffman : Huffman) :
    readLiterals U (appendRawLiteralsHeader [] literals.length ++ literals ++ more) huffman =
        .ok ((appendRawLiteralsHeader [] literals.length ++ literals).length, literals, huffman) ↔
      literals.length < 32 := by
  constructor
  · intro h
    by_contra hlong
    obtain ⟨hdr, rest, happend, hlow⟩ :=
      appendRawLiteralsHeader_long (Nat.le_of_not_lt hlong)
    have hbyte := hdr.toNat_lt
    have hformat : (hdr.toNat >>> 2) % 4 = 0 := by
      omega
    rw [happend, cons_append, cons_append, readLiterals, if_pos (by omega)] at h
    obtain ⟨⟨off, litbuf⟩, hread, h⟩ := bind_eq_ok.1 h
    cases h
    simp only [readRawRLELiterals, hformat, bind, Except.bind, pure, Except.pure] at hread
    split_ifs at hread
    · -- so the size is in this byte, and less than 32
      have hsize : _ = literals := (Prod.mk.inj (Except.ok.inj hread)).2
      rw [← hsize, length_take, Nat.shiftRight_eq_div_pow] at hlong
      omega
    · omega
  · intro hlen
    have hheader : (appendRawLiteralsHeader [] literals.length).length = 1 := by
      rw [appendRawLiteralsHeader, if_pos hlen]
      rfl
    rw [readLiterals_append hlen, length_append, hheader, Nat.add_comm]

/-- Of 32 literals the decoder reads two, the first of them the header's second byte. -/
theorem readRawRLELiterals_thirtyTwo :
    let data := appendRawLiteralsHeader [] 32 ++ List.replicate 32 7
    readRawRLELiterals data 1 (data.headD 0) = .ok (3, [2, 7]) := by
  decide +kernel

theorem initSeqs_append (hpos : 0 < n) (hn : n < 0x7f00 + 65536) (base stream : Bytes)
    (tables : SeqTables) :
    initSeqs U (base ++ sequenceCount n ++ [0] ++ stream) base.length tables =
      .ok (n, (base ++ sequenceCount n ++ [0]).length, predefTables) := by
  have hget : ∀ (bs : Bytes) (i : Nat), (base ++ bs).getD (base.length + i) 0 = bs.getD i 0 :=
    fun bs i => by rw [getD_append_right _ _ _ _ (by omega), Nat.add_sub_cancel_left]
  -- the first byte is not 0, and the number read from it on is `n`
  obtain ⟨hdr, more, hcount, hhdr, hread⟩ : ∃ hdr more, sequenceCount n = hdr :: more ∧ hdr ≠ 0 ∧
      ∀ after, readSeqCount (base ++ (hdr :: more) ++ after) (base.length + 1) hdr =
        .ok (n, base.length + 1 + more.length) := by
    rw [sequenceCount]
    split
    · next h =>
      have hnat : (UInt8.ofNat n).toNat = n := by
        rw [UInt8.toNat_ofNat', Nat.mod_eq_of_lt (by omega)]
      refine ⟨_, [], rfl, fun h0 => ?_, fun after => ?_⟩
      · rw [h0] at hnat
        exact absurd hnat (by simp; omega)
      · rw [readSeqCount, hnat, if_pos h]
        rfl
    split
    · have hnat : ((128 : UInt8) + UInt8.ofNat (n >>> 8)).toNat = 128 + n / 256 := by
        simp
        omega
      refine ⟨_, [UInt8.ofNat n], rfl, fun h0 => ?_, fun after => ?_⟩
      · rw [h0] at hnat
        exact absurd hnat (by simp; omega)
      · rw [readSeqCount, hnat, if_neg (by omega), if_pos (by omega), if_neg (by simp),
          append_assoc, hget, cons_append, getD_cons_succ, singleton_append,
          getD_cons_zero, Nat.shiftLeft_eq, UInt8.toNat_ofNat']
        simp
        omega
    · refine ⟨_, [_, _], rfl, by decide, fun after => ?_⟩
      rw [readSeqCount, if_neg (by decide), if_neg (by decide), append_assoc, hget, Nat.add_assoc
        base.length, hget, cons_append, getD_cons_succ, getD_cons_succ, cons_append, getD_cons_zero,
        getD_cons_succ, singleton_append, getD_cons_zero]
      simp
      omega
  have hfirst : (base ++ (hdr :: more) ++ [0] ++ stream)[base.length]? = some hdr := by simp
  have hend : base.length + 1 + more.length = (base ++ hdr :: more).length := by
    rw [length_append, length_cons]
    omega
  have hmode : (base ++ (hdr :: more) ++ [0] ++ stream)[base.length + 1 + more.length]? =
      some 0 := by
    rw [hend, append_assoc (base ++ hdr :: more), List.getElem?_append_right (Nat.le_refl _),
      Nat.sub_self]
    rfl
  have hread' := hread ([0] ++ stream)
  rw [← append_assoc] at hread'
  have hlen : (base ++ (hdr :: more) ++ [0]).length = base.length + 1 + more.length + 1 := by
    rw [length_append, ← hend, length_singleton]
  rw [hcount, initSeqs, hfirst, hlen]
  simp only [if_neg hhdr, hread', bind, Except.bind, hmode]
  rfl

/-- Every sequence stands for three bytes or more. -/
theorem Parses.length_sequences {prev : Nat} (h : Parses src prev recent sequences literals)
    (hprev : prev ≤ src.length) : prev + 3 * sequences.length ≤ src.length := by
  induction h with
  | rest => simpa using hprev
  | seq hle hrepeats hmin _ _ ih =>
    have hrest := ih hrepeats.le_length
    rw [zstdMinMatch] at hmin
    rw [length_cons]
    omega

/-- The body of the compressed block of `src`. -/
def blockBody (src : Bytes) : Bytes :=
  encodeSequences predefinedEncoders
    (appendRawLiteralsHeader [] (buildSequences src).1.length ++ (buildSequences src).1)
    (buildSequences src).2

theorem encodeCompressedBlock_eq : encodeCompressedBlock predefinedEncoders src =
      if (buildSequences src).2 = [] then none else some (blockWith true 2 (blockBody src)) := rfl

theorem compressedBlock_encode (hlen : src.length ≤ maxBlockSize)
    (hne : (buildSequences src).2 ≠ []) (hliterals : (buildSequences src).1.length < 32)
    (hnarrow : Narrow (buildSequences src).2) (hrep : r.rep = recentOffsets) :
    ∃ huffman tables rep, compressedBlock U r (blockBody src) =
      .ok { r with huffman := huffman, tables := tables, buffer := src, rep := rep } := by
  have hparses := parses_buildSequences src
  rw [blockBody]
  generalize (buildSequences src).1 = literals at hliterals hparses ⊢
  generalize (buildSequences src).2 = sequences at hne hnarrow hparses ⊢
  rw [maxBlockSize] at hlen
  obtain ⟨stream, k, hbody, hk, hstream⟩ := encodeSequences_stream hne (hparses.coded hlen) hnarrow
  have hcount := hparses.length_sequences (Nat.zero_le _)
  have hpos : 0 < sequences.length := length_pos_iff.2 hne
  have hlits := readLiterals_append (U := U) hliterals
    (sequenceCount sequences.length ++ [0] ++ stream) r.huffman
  have hinit := initSeqs_append (U := U) hpos (by omega)
    (appendRawLiteralsHeader [] literals.length ++ literals) stream r.tables
  obtain ⟨rep, hexec⟩ := execSeqs_parses hparses hlen hne hk hstream r.window
    (appendRawLiteralsHeader [] literals.length ++ literals ++ sequenceCount sequences.length ++
      [0])
  have hbase : (appendRawLiteralsHeader [] literals.length ++ literals).length =
      literals.length + 1 := by
    rw [appendRawLiteralsHeader, if_pos hliterals]
    simp
  simp only [← append_assoc] at hlits
  rw [hbase] at hinit
  refine ⟨r.huffman, predefTables, rep, ?_⟩
  rw [hbody, compressedBlock, hlits]
  simp only [bind, Except.bind, hinit, if_neg (Nat.ne_of_gt hpos), hrep, hexec, pure, Except.pure]

/-- A compressed frame with few literals and narrow sequences is read back. -/
theorem decode_compressedFrame (hlen : src.length ≤ maxBlockSize)
    (hblock : encodeCompressedBlock predefinedEncoders src = some block)
    (hshort : block.length < src.length) (hliterals : (buildSequences src).1.length < 32)
    (hnarrow : Narrow (buildSequences src).2) (hmax : src.length ≤ maxSize.toInt)
    (hlimit : (maxSize + 1).toInt = maxSize.toInt + 1) :
    decode U (appendFrame [] src block) maxSize = .ok src := by
  have hne : (buildSequences src).2 ≠ [] := by
    intro hnil
    rw [encodeCompressedBlock_eq, if_pos hnil] at hblock
    cases hblock
  rw [encodeCompressedBlock_eq, if_neg hne] at hblock
  obtain rfl := Option.some.inj hblock
  have hbody : (blockBody src).length ≤ src.length := by
    rw [blockWith, length_append] at hshort
    omega
  rw [maxBlockSize] at hlen
  generalize hr : (newReader (encodeFrameHeader src.length ++
    blockWith true 2 (blockBody src))).atFrame src.length [] = r
  obtain ⟨huffman, tables, rep, hdecoded⟩ := @compressedBlock_encode U r src hlen hne hliterals
    hnarrow (hr ▸ rfl)
  have hread : readBlock U ((newReader (encodeFrameHeader src.length ++
      blockWith true 2 (blockBody src))).atFrame src.length (blockWith true 2 (blockBody src))) =
      .ok { r with
        huffman := huffman, tables := tables, buffer := src, rep := rep,
        remainingFrameSize := 0, sawFrameHeader := false } := by
    rw [readBlock_blockWith (by decide) (by omega) (by simp [Reader.atFrame]; omega)
      (append_nil _).symm, readBlockBody, readFullNonEOF_append (blockBody src) []]
    have hdecoded' : compressedBlock U { (newReader (encodeFrameHeader src.length ++
        blockWith true 2 (blockBody src))).atFrame src.length (blockWith true 2 (blockBody src))
        with input := [] } (blockBody src) = _ := hr ▸ hdecoded
    subst hr
    simp only [bind, Except.bind, hdecoded']
    exact finishBlock_last rfl rfl rfl
  exact decode_frame (by omega) hread rfl (hr ▸ rfl) rfl (hr ▸ rfl) hmax hlimit

/-! ## More than one block

`encodeLarge` does not mark a chunk's block as the last of its frame, and the decoder takes the
header of the next chunk's frame for one more block. -/

/-- The header of a frame is no block: its magic number stands for too large a size. -/
theorem readBlock_encodeFrameHeader (hr : r.input = encodeFrameHeader n ++ rest) :
    readBlock U r = .error (.zstd "block size too large") := by
  have hread : readFullNonEOF r.input 3 =
      .ok ([0x28, 0xb5, 0x2f], (encodeFrameHeader n ++ rest).drop 3) := by
    rw [hr, readFullNonEOF]
    rfl
  rw [readBlock, hread]
  rfl

/-- A compressed block leaves the input and the frame it is of as they are. -/
theorem compressedBlock_keeps (h : compressedBlock U r data = .ok r') :
    r'.input = r.input ∧ r'.sawFrameHeader = r.sawFrameHeader := by
  obtain ⟨⟨off, litbuf, huffman⟩, -, h⟩ := bind_eq_ok.1 h
  obtain ⟨⟨seqCount, off, tables⟩, -, h⟩ := bind_eq_ok.1 h
  dsimp only at h
  split at h
  · split at h
    · cases h
    · cases h
      exact ⟨rfl, rfl⟩
  · obtain ⟨⟨buffer, rep⟩, -, h⟩ := bind_eq_ok.1 h
    cases h
    exact ⟨rfl, rfl⟩

theorem finishBlock_more_keeps (h : finishBlock U false r = .ok r') :
    r'.input = r.input ∧ r'.sawFrameHeader = r.sawFrameHeader := by
  rw [finishBlock] at h
  split at h
  · cases h
  · cases h
    constructor <;> split <;> split <;> rfl

/-- After a block that is not the last, the reader stands behind it in the same frame. -/
theorem readBlock_more (ht : blockType = 0 ∨ blockType = 2) (hbody : body.length ≤ 128 * 1024)
    (hwindow : body.length ≤ r.window.size) (hr : r.input = blockWith false blockType body ++ rest)
    (h : readBlock U r = .ok r') : r'.input = rest ∧ r'.sawFrameHeader = r.sawFrameHeader := by
  rw [readBlock_blockWith (by omega) hbody hwindow hr] at h
  obtain ⟨r₁, hread, hfinish⟩ := bind_eq_ok.1 h
  obtain ⟨hinput, hsaw⟩ := finishBlock_more_keeps hfinish
  rw [hinput, hsaw]
  obtain rfl | rfl := ht
  · rw [readBlockBody, readFullNonEOF_append] at hread
    cases hread
    exact ⟨rfl, rfl⟩
  · rw [readBlockBody, readFullNonEOF_append] at hread
    exact compressedBlock_keeps hread

theorem setBlockLast_blockWith :
    setBlockLast (blockWith true 2 body) false = blockWith false 2 body := by
  have hclear : ∀ n < 128, UInt8.ofNat (2 * n + 1) &&& ~~~1 = UInt8.ofNat (2 * n) := by decide
  rw [blockWith, blockWith, blockHeader_bits (by decide), blockHeader_bits (by decide),
    Bool.toNat_true, Bool.toNat_false]
  generalize hm : 2 + 4 * body.length = m
  have hodd : 1 + 2 * 2 + 8 * body.length = 2 * m + 1 := by omega
  have heven : 0 + 2 * 2 + 8 * body.length = 2 * m := by omega
  rw [hodd, heven]
  have hfirst : UInt8.ofNat (2 * m + 1) &&& ~~~1 = UInt8.ofNat (2 * m) := by
    have hmod := hclear (m % 128) (Nat.mod_lt _ (by decide))
    have hlow : 2 * (m % 128) + 1 = (2 * m + 1) % 2 ^ 8 ∧ 2 * (m % 128) = 2 * m % 2 ^ 8 := by omega
    rwa [hlow.1, hlow.2, UInt8.ofNat_mod_size, UInt8.ofNat_mod_size] at hmod
  have hhigh : (2 * m + 1) >>> 8 = (2 * m) >>> 8 := by
    omega
  rw [leBytes, hhigh, leBytes.eq_2 (2 * m) 2, ← hfirst]
  rfl

theorem encodeLargeLoop_append {rounds : Nat} :
    ∀ out src, encodeLargeLoop encs rounds out src =
      out ++ encodeLargeLoop encs rounds [] src := by
  induction rounds with
  | zero =>
    intro out src
    exact (append_nil out).symm
  | succ rounds ih =>
    intro out src
    simp only [encodeLargeLoop]
    split
    · exact (append_nil out).symm
    · rw [ih, ih (appendFrame [] _ _), appendFrame, appendFrame]
      simp

theorem encodeCompressedBlock_some (h : encodeCompressedBlock encs src = some block) :
    ∃ body, block = blockWith true 2 body := by
  rw [encodeCompressedBlock] at h
  dsimp only at h
  split at h
  · cases h
  · exact ⟨_, (Option.some.inj h).symm⟩

theorem encodeLarge_eq (hlen : maxBlockSize < src.length) :
    ∃ blockType body n more, (blockType = 0 ∨ blockType = 2) ∧ body.length ≤ maxBlockSize ∧
      encodeLarge encs src = encodeFrameHeader maxBlockSize ++
        (blockWith false blockType body ++ (encodeFrameHeader n ++ more)) := by
  obtain ⟨k, hk⟩ : ∃ k, src.length = k + 2 := ⟨src.length - 2, by rw [maxBlockSize] at hlen; omega⟩
  have hsrc : src ≠ [] := ne_nil_of_length_pos (by omega)
  have hrest : src.drop maxBlockSize ≠ [] := by
    rw [Ne, drop_eq_nil_iff]
    omega
  have hchunk : (src.take maxBlockSize).length = maxBlockSize := by
    rw [length_take]
    omega
  -- The frame of the next chunk follows in any case.
  obtain ⟨n, more, hmore⟩ : ∃ n more, encodeLargeLoop encs (k + 1) [] (src.drop maxBlockSize) =
      encodeFrameHeader n ++ more := by
    rw [encodeLargeLoop, if_neg hrest]
    rw [encodeLargeLoop_append, appendFrame]
    exact ⟨_, _, by rw [nil_append, append_assoc]⟩
  have hloop : ∀ block, encodeLargeLoop encs (k + 1) (appendFrame [] (src.take maxBlockSize) block)
      (src.drop maxBlockSize) =
      encodeFrameHeader maxBlockSize ++ (block ++ (encodeFrameHeader n ++ more)) := by
    intro block
    rw [encodeLargeLoop_append, hmore, appendFrame, hchunk]
    simp
  rw [encodeLarge, hk, encodeLargeLoop, if_neg hsrc]
  simp only [hrest, decide_false, Bool.false_eq_true, if_false]
  rw [hloop]
  split
  · exact ⟨0, _, n, more, .inl rfl, hchunk.le, rfl⟩
  · next block hblock =>
    obtain ⟨body, rfl⟩ := encodeCompressedBlock_some hblock
    split
    · exact ⟨0, _, n, more, .inl rfl, hchunk.le, rfl⟩
    · next hshort =>
      have hbody : body.length ≤ maxBlockSize := by
        rw [blockWith, length_append] at hshort
        omega
      exact ⟨2, body, n, more, .inr rfl, hbody, by rw [setBlockLast_blockWith]⟩

/-- The block is a chunk as it is, or compressed. -/
def HoldsChunk (encs : Encoders) (blockType : Nat) (body chunk : Bytes) : Prop :=
  body.length ≤ maxBlockSize ∧ (blockType = 0 ∧ body = chunk ∨
    blockType = 2 ∧ encodeCompressedBlock encs chunk = some (blockWith true 2 body))

/-- The blocks of a frame, of which the last is marked as such, with what they hold. -/
inductive Blocks (encs : Encoders) : Bytes → Bytes → Prop
  | last : HoldsChunk encs blockType body chunk →
    Blocks encs (blockWith true blockType body) chunk
  | more : HoldsChunk encs blockType body chunk → Blocks encs bs content →
    Blocks encs (blockWith false blockType body ++ bs) (chunk ++ content)

/-- Complete frames, with what they hold. -/
inductive CompleteFrames (encs : Encoders) : Bytes → Bytes → Prop
  | nil : CompleteFrames encs [] []
  | frame : Blocks encs bs content → CompleteFrames encs frames more →
    CompleteFrames encs (encodeFrameHeader content.length ++ (bs ++ frames)) (content ++ more)

/-- The fifth byte of a frame says how many more its header has. -/
theorem encodeFrameHeader_descriptor : ∃ d size,
    encodeFrameHeader n = [0x28, 0xb5, 0x2f, 0xfd, d] ++ size ∧
      size.length = 2 ^ (d.toNat / 64) := by
  rw [encodeFrameHeader]
  split_ifs
  · exact ⟨0x20, [UInt8.ofNat n], rfl, rfl⟩
  · exact ⟨0x60, leBytes 2 (n - 256), rfl, rfl⟩
  · exact ⟨0xa0, leBytes 4 n, rfl, rfl⟩
  · exact ⟨0xe0, leBytes 8 n, rfl, rfl⟩

theorem encodeFrameHeader_append (h : encodeFrameHeader m ++ x = encodeFrameHeader n ++ y) :
    x = y := by
  obtain ⟨d, size, hm, hsize⟩ := encodeFrameHeader_descriptor
  obtain ⟨d', size', hn, hsize'⟩ := encodeFrameHeader_descriptor
  rw [hm, hn, append_assoc, append_assoc] at h
  obtain ⟨hmagic, hbytes⟩ := append_inj h rfl
  obtain rfl : d = d' := by simpa using hmagic
  exact (append_inj hbytes (hsize.trans hsize'.symm)).2

/-- The number in the first three bytes of a block. -/
theorem leNat_blockWith (ht : blockType = 0 ∨ blockType = 2) (hbody : body.length ≤ maxBlockSize)
    (last : Bool) (x : Bytes) : leNat ((blockWith last blockType body ++ x).take 3) =
      last.toNat + 2 * blockType + 8 * body.length := by
  have hlast := last.toNat_le
  rw [maxBlockSize] at hbody
  rw [blockWith, append_assoc, take_left' (length_leBytes 3 _), leNat_leBytes,
    blockHeader_bits (by omega)]
  exact Nat.mod_eq_of_lt (by omega)

theorem HoldsChunk.type (h : HoldsChunk encs blockType body chunk) :
    blockType = 0 ∨ blockType = 2 :=
  h.2.imp And.left And.left

theorem HoldsChunk.leNat (h : HoldsChunk encs blockType body chunk) :
    leNat ((blockWith last blockType body ++ x).take 3) =
      last.toNat + 2 * blockType + 8 * body.length :=
  leNat_blockWith h.type h.1 last x

theorem Blocks.ne_encodeFrameHeader (h : Blocks encs bs content) :
    bs ++ x ≠ encodeFrameHeader n ++ y := by
  intro heq
  obtain ⟨d, size, hn, -⟩ := encodeFrameHeader_descriptor
  have hmagic : leNat ((bs ++ x).take 3) = 3126568 := by
    rw [heq, hn]
    simp [leNat]
  cases h with
  | last hchunk =>
    rw [hchunk.leNat, Bool.toNat_true] at hmagic
    omega
  | more hchunk _ =>
    have hlen := hchunk.1
    have ht := hchunk.type
    rw [maxBlockSize] at hlen
    rw [append_assoc, hchunk.leNat, Bool.toNat_false] at hmagic
    omega

/-- The block of a chunk that is not the last is not marked, and the header that follows it is no
block. -/
theorem not_completeFrames_encodeLarge (hlen : maxBlockSize < src.length) :
    ¬ CompleteFrames encs (encodeLarge encs src) src := by
  intro h
  obtain ⟨blockType, body, n, more, ht, hbody, hlarge⟩ := encodeLarge_eq hlen
  generalize encodeLarge encs src = bytes at h hlarge
  cases h with
  | nil => simp [encodeFrameHeader] at hlarge
  | frame hblocks _ =>
    have heq := encodeFrameHeader_append hlarge
    have hnum := leNat_blockWith ht hbody false (encodeFrameHeader n ++ more)
    rw [← heq] at hnum
    cases hblocks with
    | last hchunk =>
      rw [hchunk.leNat, Bool.toNat_true, Bool.toNat_false] at hnum
      omega
    | more hchunk hmore =>
      have ht' := hchunk.type
      rw [append_assoc, hchunk.leNat] at hnum
      rw [append_assoc] at heq
      refine hmore.ne_encodeFrameHeader (append_inj heq ?_).2
      simp only [blockWith, length_append, length_leBytes]
      omega

/-- The one block of a single chunk. -/
theorem blocks_encodeLarge (hsrc : src ≠ []) (hlen : src.length ≤ maxBlockSize) :
    ∃ bs, encodeLarge encs src = encodeFrameHeader src.length ++ (bs ++ []) ∧
      Blocks encs bs src := by
  obtain ⟨k, hk⟩ := Nat.exists_eq_succ_of_ne_zero (length_pos_of_ne_nil hsrc).ne'
  have hone : ∀ block, encodeLargeLoop encs k (appendFrame [] src block) [] =
      encodeFrameHeader src.length ++ (block ++ []) := by
    cases k <;> simp [encodeLargeLoop, appendFrame]
  have hraw : Blocks encs (blockWith true 0 src) src := .last ⟨hlen, .inl ⟨rfl, rfl⟩⟩
  rw [encodeLarge]
  nth_rewrite 1 [hk]
  rw [encodeLargeLoop, if_neg hsrc]
  simp only [drop_eq_nil_of_le hlen, take_of_length_le hlen, decide_true, if_true, hone]
  refine ⟨_, rfl, ?_⟩
  split
  · exact hraw
  · next block hblock =>
    obtain ⟨body, rfl⟩ := encodeCompressedBlock_some hblock
    split
    · exact hraw
    · next hshort =>
      rw [blockWith, length_append] at hshort
      exact .last ⟨by omega, .inr ⟨rfl, hblock⟩⟩

/-- Only a single chunk makes complete frames. -/
theorem completeFrames_encodeLarge_iff (encs : Encoders) (src : Bytes) :
    CompleteFrames encs (encodeLarge encs src) src ↔ src.length ≤ maxBlockSize := by
  refine ⟨fun h => not_lt.1 fun hlen => not_completeFrames_encodeLarge hlen h, fun hlen => ?_⟩
  by_cases hsrc : src = []
  · rw [hsrc]
    exact .nil
  · obtain ⟨bs, hlarge, hblocks⟩ := blocks_encodeLarge hsrc hlen
    rw [hlarge]
    simpa using CompleteFrames.frame hblocks .nil

/-- The frames of two chunks of zeros are not complete. -/
theorem encodeLarge_two_chunks : ¬ CompleteFrames predefinedEncoders
    (encodeLarge predefinedEncoders (replicate (maxBlockSize + 1) 0))
    (replicate (maxBlockSize + 1) 0) := by
  apply not_completeFrames_encodeLarge
  rw [length_replicate]
  exact Nat.lt_add_one _

/-- The limit of `Decode` overflows for the largest size. -/
theorem toInt_maxValue_add_one : (Int64.maxValue + 1).toInt ≤ 0 := by decide

theorem readAll_eq_ok {rounds : Nat} (h : readAll U (rounds + 1) r limit = .ok out) :
    out = [] ∧ (limit ≤ 0 ∨ refill U r = .error .eof) ∨
      0 < limit ∧ ∃ r' more, refill U r = .ok r' ∧ out = r'.buffer.take limit.toNat ++ more ∧
        readAll U rounds r' (limit - (r'.buffer.take limit.toNat).length) = .ok more := by
  rw [readAll] at h
  split at h
  · next hlimit =>
    cases h
    exact .inl ⟨rfl, .inl hlimit⟩
  · split at h
    · next heof =>
      cases h
      exact .inl ⟨rfl, .inr heof⟩
    · cases h
    · next r' hrefill =>
      obtain ⟨more, hmore, h⟩ := bind_eq_ok.1 h
      cases h
      exact .inr ⟨by omega, r', more, hrefill, rfl, hmore⟩

theorem decode_eq_ok (h : decode U src maxSize = .ok out) :
    readAll U (src.length + 1) (newReader src) (maxSize + 1).toInt = .ok out ∧
      out.length ≤ maxSize.toInt := by
  revert h
  fun_cases decode U src maxSize with
  | case7 _ _ out hread hsize =>
    intro h
    cases h
    exact ⟨hread, by omega⟩
  | _ => exact nofun

theorem decode_encodeLarge_ne (hlen : maxBlockSize < src.length) :
    decode U (encodeLarge encs src) maxSize ≠ .ok src := by
  intro hdecode
  obtain ⟨blockType, body, n, more, ht, hbody, hlarge⟩ := encodeLarge_eq hlen
  have hsrc : src ≠ [] := ne_nil_of_length_pos (by omega)
  rw [maxBlockSize] at hbody hlarge
  obtain ⟨hread, hmax⟩ := decode_eq_ok hdecode
  obtain ⟨hnil, -⟩ | ⟨hlimit, r', out, hrefill, hout, hmore⟩ := readAll_eq_ok hread
  · exact hsrc hnil
  rw [hlarge, refill_encodeFrameHeader (by decide)] at hrefill
  obtain ⟨hinput, hsaw⟩ :=
    readBlock_more ht hbody (by simpa [Reader.atFrame] using hbody) rfl hrefill
  have hnext : refill U r' = .error (.zstd "block size too large") := by
    rw [refill, hsaw]
    exact readBlock_encodeFrameHeader hinput
  have hbytes : (encodeLarge encs src).length ≠ 0 := by
    rw [hlarge]
    simp [encodeFrameHeader]
  obtain ⟨m, hm⟩ := Nat.exists_eq_succ_of_ne_zero hbytes
  rw [hm] at hmore
  obtain ⟨hnil, hend | heof⟩ | ⟨-, r'', more', hrefill', -⟩ := readAll_eq_ok hmore
  · -- The first block alone reached the limit, which is one more than `Decode` accepts.
    have hne : maxSize ≠ Int64.maxValue := by
      rintro rfl
      have hneg := toInt_maxValue_add_one
      omega
    have hadd := toInt_add_one hne
    rw [hout, hnil, append_nil] at hmax
    omega
  · rw [hnext] at heof
    cases heof
  · rw [hnext] at hrefill'
    cases hrefill'

/-! ## The round trip -/

/-- What is encoded is decoded again under the limit `maxSize`. -/
def RoundTrips (U : Unmodelled) (src : Bytes) (maxSize : Int64) : Prop :=
  ∃ bs, encode src = .ok bs ∧ decode U bs maxSize = .ok src

/-- `Encode` stores the bytes as they are: compressing them does not make them shorter. -/
def StoredRaw (src : Bytes) : Prop :=
  ∀ block, encodeCompressedBlock predefinedEncoders src = some block → src.length ≤ block.length

/-- The compressed block of the bytes can be read: its literals' number has one byte, and the extra
bits of its sequences fit their writes. -/
def Readable (src : Bytes) : Prop :=
  (buildSequences src).1.length < 32 ∧ Narrow (buildSequences src).2

/-- Under a limit that overflows nothing is read. -/
theorem decode_maxValue (h : decode U bs Int64.maxValue = .ok out) : out = [] := by
  have hneg := toInt_maxValue_add_one
  obtain ⟨hnil, -⟩ | ⟨hpos, -⟩ := readAll_eq_ok (decode_eq_ok h).1
  · exact hnil
  · omega

/-- Reading that ends before its limit goes the same way under a larger one. -/
theorem readAll_of_le {n : Nat} {limit limit' : Int} (h : readAll U n r limit = .ok out)
    (hout : out.length < limit) (hle : limit ≤ limit') : readAll U n r limit' = .ok out := by
  induction n generalizing r limit limit' out with
  | zero => cases h
  | succ n ih =>
    obtain ⟨rfl, hend | heof⟩ | ⟨-, r', more, hrefill, rfl, hmore⟩ := readAll_eq_ok h
    · rw [length_nil] at hout
      omega
    · rw [length_nil] at hout
      rw [readAll, if_neg (by omega), heof]
    · -- the block is shorter than the limit, so that it is not cut
      rw [length_append, length_take] at hout
      have hblock : r'.buffer.length < limit := by omega
      rw [take_of_length_le (by omega)] at hmore ⊢
      rw [readAll_block hrefill (by omega), ih hmore (by omega) (by omega)]
      rfl

/-- What is decoded under a limit is decoded under a larger one: a part is never returned. -/
theorem decode_of_le {U : Unmodelled} {src out : Bytes} {maxSize maxSize' : Int64}
    (h : decode U src maxSize = .ok out) (hle : maxSize ≤ maxSize')
    (hne : maxSize' ≠ Int64.maxValue) : decode U src maxSize' = .ok out := by
  obtain ⟨hread, hlen⟩ := decode_eq_ok h
  have hle' := Int64.le_iff_toInt_le.1 hle
  have hmax : maxSize ≠ Int64.maxValue := by
    rintro rfl
    exact hne (Int64.le_antisymm (Int64.le_maxValue _) hle)
  have hlimit := toInt_add_one hmax
  have hlimit' := toInt_add_one hne
  have hread' : readAll U (src.length + 1) (newReader src) (maxSize' + 1).toInt = .ok out :=
    readAll_of_le hread (by omega) (by omega)
  rw [decode] at h ⊢
  split_ifs at h ⊢
  rw [hread']
  exact if_neg (by omega)

theorem decode_of_le_raw :
    decode ⟨fun _ _ _ _ => .error .eof, fun _ _ _ _ => .error .eof, fun _ => 0⟩
      (encodeRawFrame [1, 2, 3]) 1000 = .ok [1, 2, 3] :=
  @decode_of_le _ _ _ 3 1000 (decode_rawFrame (by decide) (by decide) (by decide)) (by decide)
    (by decide)

theorem encode_eq : encode src =
      if src.length = 0 then .ok encodeEmptyFrame
      else if src.length > maxBlockSize then .ok (encodeLarge predefinedEncoders src)
      else
        match encodeCompressedBlock predefinedEncoders src with
        | none => .ok (encodeRawFrame src)
        | some block =>
          if block.length ≥ src.length then .ok (encodeRawFrame src)
          else .ok (appendFrame [] src block) := by
  have htables := initPredefinedEncoders_eq
  unfold encode
  generalize initPredefinedEncoders = tables at htables ⊢
  subst htables
  rfl

/-- The empty string is a frame with one empty block. -/
theorem roundTrips_nil (hmax : 0 ≤ maxSize.toInt) : RoundTrips U [] maxSize := by
  refine ⟨encodeEmptyFrame, encode_eq, ?_⟩
  by_cases hne : maxSize = Int64.maxValue
  · subst hne
    rfl
  · exact @decode_rawFrame U [] maxSize (Nat.zero_le _) hmax (toInt_add_one hne)

theorem roundTrips_of_storedRaw (hsrc : src ≠ []) (hlen : src.length ≤ maxBlockSize)
    (hmax : src.length ≤ maxSize.toInt) (hne : maxSize ≠ Int64.maxValue) (hraw : StoredRaw src) :
    RoundTrips U src maxSize := by
  refine ⟨encodeRawFrame src, ?_, decode_rawFrame hlen hmax (toInt_add_one hne)⟩
  rw [encode_eq, if_neg (by simpa using hsrc), if_neg (by omega)]
  split
  · rfl
  · next block hblock => rw [if_pos (hraw block hblock)]

theorem roundTrips_of_readable (hsrc : src ≠ []) (hlen : src.length ≤ maxBlockSize)
    (hmax : src.length ≤ maxSize.toInt) (hne : maxSize ≠ Int64.maxValue) (hread : Readable src) :
    RoundTrips U src maxSize := by
  by_cases hraw : StoredRaw src
  · exact roundTrips_of_storedRaw hsrc hlen hmax hne hraw
  · rw [StoredRaw] at hraw
    push Not at hraw
    obtain ⟨block, hblock, hshort⟩ := hraw
    refine ⟨appendFrame [] src block, ?_,
      decode_compressedFrame hlen hblock hshort hread.1 hread.2 hmax (toInt_add_one hne)⟩
    rw [encode_eq, if_neg (by simpa using hsrc), if_neg (by omega), hblock]
    exact if_neg (by omega)

/-- What the round trip needs of the bytes and of the limit. -/
def Supported (src : Bytes) (maxSize : Int64) : Prop :=
  src = [] ∨
    maxSize ≠ Int64.maxValue ∧ src.length ≤ maxBlockSize ∧ (StoredRaw src ∨ Readable src)

/-- What is supported round trips; a string that round trips is empty, or has at most one block and
a limit that does not overflow. -/
theorem roundTrips_of_supported {src : Bytes} {maxSize : Int64}
    (hmax : src.length ≤ maxSize.toInt) :
    (Supported src maxSize → RoundTrips U src maxSize) ∧
      (RoundTrips U src maxSize →
        src = [] ∨ maxSize ≠ Int64.maxValue ∧ src.length ≤ maxBlockSize) := by
  constructor
  · rintro (rfl | ⟨hne, hlen, hblock⟩)
    · exact roundTrips_nil (by simpa using hmax)
    · by_cases hsrc : src = []
      · subst hsrc
        exact roundTrips_nil (by simpa using hmax)
      · obtain hraw | hread := hblock
        · exact roundTrips_of_storedRaw hsrc hlen hmax hne hraw
        · exact roundTrips_of_readable hsrc hlen hmax hne hread
  · rintro ⟨bs, hencode, hdecode⟩
    refine or_iff_not_imp_left.2 fun hsrc => ⟨?_, ?_⟩
    · rintro rfl
      exact hsrc (decode_maxValue hdecode)
    · by_contra hlen
      rw [encode_eq, if_neg (by simpa using hsrc), if_pos (by omega)] at hencode
      cases hencode
      exact decode_encodeLarge_ne (by omega) hdecode

theorem roundTrips_repeated_byte :
    RoundTrips ⟨fun _ _ _ _ => .error .eof, fun _ _ _ _ => .error .eof, fun _ => 0⟩
      (List.replicate 40 7) 40 :=
  (roundTrips_of_supported (by decide)).1
    (.inr ⟨by decide, by decide, .inr (by unfold Readable; decide +kernel)⟩)

/-- The bytes from 0 to 31, twice: the decoder reads two of the 32 literals, and takes the next for
the sequences. -/
theorem decode_encode_range_twice :
    ∃ bs, encode ((List.range 32 ++ List.range 32).map UInt8.ofNat) = .ok bs ∧
      ∀ U, decode U bs 64 =
        .error (.codec "zstd: corrupt input: invalid symbol compression mode") := by
  refine ⟨encodeFrameHeader 64 ++ blockWith true 2 ([16, 2] ++ (List.range 32).map UInt8.ofNat ++
    [1, 0, 24, 184, 122, 2]), ?_, fun U => rfl⟩
  rw [encode_eq]
  decide +kernel

end GoKafka.Zstd
