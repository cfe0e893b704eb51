import GoKafka.Lib.BitString
import GoKafka.Errors

/-!
# The bit streams of `internal/compress/zstd`

`BitWriter` is the encoder's `bitWriter` (`bitwriter.go`): it collects fields from the lowest bit
up and moves full words to its output. `ReverseBitReader` is the decoder's `reverseBitReader`
(`bits.go`): it reads the same stream from its last byte, whose highest set bit marks the end, down
to its first. What stands in either is a bit string (`BitWriter.Holds`, `ReverseBitReader.Holds`),
and each operation is a lemma about it: adding a field puts its bits behind the string, and reading
one takes them off its end. Machine words are natural numbers, with the width where one can
overflow.
-/

namespace GoKafka.Zstd

open BitString List

/-- The errors of the decoder: `io.EOF`, a `zstdError` (by its text: `Decode` drops its offset),
and the panic of an index out of range. -/
inductive ReadError where
  | eof
  | zstd (msg : String)
  | indexOutOfRange
  deriving DecidableEq

def makeEOFError : ReadError := .zstd "unexpected EOF"

/-! ## Writing -/

/-- `bitMask16[bits&31]`. -/
def bitMask16 (bits : Nat) : Nat := 2 ^ min (bits % 32) 16 - 1

/-- `bitMask32[bits&31]`. -/
def bitMask32 (bits : Nat) : Nat := 2 ^ (bits % 32) - 1

/-- `bitWriter`: 64 bits of container, the number of bits in it, and the bytes flushed. -/
structure BitWriter where
  bitContainer : Nat
  nBits : Nat
  out : Bytes

namespace BitWriter

def reset (out : Bytes) : BitWriter := ⟨0, 0, out⟩

/-- What the three `addBits` methods share: `value`, shifted above the bits collected so far. -/
def addBits (w : BitWriter) (value bits : Nat) : BitWriter :=
  ⟨w.bitContainer ||| value <<< (w.nBits % 64) % 2 ^ 64, (w.nBits + bits) % 256, w.out⟩

def addBits16NC (w : BitWriter) (value bits : Nat) : BitWriter :=
  w.addBits (value &&& bitMask16 bits) bits

def addBits32NC (w : BitWriter) (value bits : Nat) : BitWriter :=
  w.addBits (value &&& bitMask32 bits) bits

def addBits16Clean (w : BitWriter) (value bits : Nat) : BitWriter := w.addBits value bits

def flush32 (w : BitWriter) : BitWriter :=
  if w.nBits < 32 then w
  else ⟨w.bitContainer >>> 32, w.nBits - 32, w.out ++ leBytes 4 w.bitContainer⟩

def flushAlign (w : BitWriter) : BitWriter :=
  ⟨0, 0, w.out ++ leBytes (((w.nBits + 7) % 256) >>> 3) w.bitContainer⟩

def close (w : BitWriter) : BitWriter := (w.addBits16Clean 1 1).flushAlign

/-- The writer has put `bits` behind the bytes `base` it started from. -/
structure Holds (w : BitWriter) (base : Bytes) (bits : List Bool) : Prop where
  written : ∃ s, w.out = base ++ s ∧ bytesBits s ++ bitsOf w.nBits w.bitContainer = bits
  fits : w.bitContainer < 2 ^ w.nBits

variable {w : BitWriter} {base : Bytes} {bits : List Bool}

theorem holds_reset (base : Bytes) : (reset base).Holds base [] :=
  ⟨⟨[], (List.append_nil base).symm, rfl⟩, Nat.one_pos⟩

variable (h : w.Holds base bits)
include h

/-- A field that fits the container is put behind the string. -/
theorem Holds.addBits (hvalue : value < 2 ^ n) (hroom : w.nBits + n ≤ 64) (hlt : w.nBits < 64) :
    (w.addBits value n).Holds base (bits ++ bitsOf n value) ∧
      (w.addBits value n).nBits = w.nBits + n := by
  have hn : (w.addBits value n).nBits = w.nBits + n :=
    Nat.mod_eq_of_lt (Nat.lt_of_le_of_lt hroom (by decide))
  have hshift : value <<< w.nBits < 2 ^ (w.nBits + n) := by
    rw [Nat.shiftLeft_eq, Nat.pow_add, Nat.mul_comm]
    exact Nat.mul_lt_mul_of_pos_left hvalue (Nat.two_pow_pos _)
  have hc : (w.addBits value n).bitContainer = w.bitContainer ||| value <<< w.nBits := by
    rw [BitWriter.addBits, Nat.mod_eq_of_lt hlt,
      Nat.mod_eq_of_lt (hshift.trans_le (Nat.pow_le_pow_right Nat.two_pos hroom))]
  refine ⟨⟨?_, ?_⟩, hn⟩
  · obtain ⟨s, hout, rfl⟩ := h.written
    refine ⟨s, hout, ?_⟩
    rw [hn, hc, bitsOf_or h.fits, append_assoc]
  · rw [hn, hc]
    exact Nat.or_lt_two_pow
      (h.fits.trans_le (Nat.pow_le_pow_right Nat.two_pos (Nat.le_add_right ..))) hshift

theorem Holds.addBits16NC (value : Nat) (hn : n ≤ 16) (hlt : w.nBits < 48) :
    (w.addBits16NC value n).Holds base (bits ++ bitsOf n value) ∧
      (w.addBits16NC value n).nBits = w.nBits + n := by
  have hmask : value &&& bitMask16 n = value % 2 ^ n := by
    rw [bitMask16, Nat.mod_eq_of_lt (by omega), min_eq_left hn, Nat.and_two_pow_sub_one_eq_mod]
  have hadd := h.addBits (Nat.mod_lt value (Nat.two_pow_pos n)) (by omega) (by omega)
  rwa [bitsOf_mod (Nat.le_refl n), ← hmask] at hadd

/-- Fewer than 32 bits are added whole: `bits & 31` keeps their number. -/
theorem Holds.addBits32NC (value : Nat) (hn : n < 32) (hlt : w.nBits ≤ 32) :
    (w.addBits32NC value n).Holds base (bits ++ bitsOf n value) ∧
      (w.addBits32NC value n).nBits = w.nBits + n := by
  have hmask : value &&& bitMask32 n = value % 2 ^ n := by
    rw [bitMask32, Nat.mod_eq_of_lt hn, Nat.and_two_pow_sub_one_eq_mod]
  have hadd := h.addBits (Nat.mod_lt value (Nat.two_pow_pos n)) (by omega) (by omega)
  rwa [bitsOf_mod (Nat.le_refl n), ← hmask] at hadd

/-- Flushing a word moves bits to the output, and leaves fewer than 32 behind. -/
theorem Holds.flush32 (hlt : w.nBits < 64) : w.flush32.Holds base bits ∧ w.flush32.nBits < 32 := by
  unfold BitWriter.flush32
  split
  · next hsmall => exact ⟨h, hsmall⟩
  · obtain ⟨s, hout, rfl⟩ := h.written
    have hsplit : w.nBits = 32 + (w.nBits - 32) := by omega
    refine ⟨⟨⟨s ++ leBytes 4 w.bitContainer, ?_, ?_⟩, ?_⟩, by dsimp only; omega⟩
    · rw [hout, append_assoc]
    · conv_rhs => rw [hsplit, bitsOf_add]
      rw [bytesBits_append, bytesBits_leBytes, append_assoc]
    · have hfits := h.fits
      rw [hsplit, Nat.pow_add] at hfits
      rw [Nat.shiftRight_eq_div_pow]
      exact Nat.div_lt_of_lt_mul hfits

/-- Closing the stream marks its end with a set bit and fills up the last byte. -/
theorem Holds.close (hlt : w.nBits < 63) : ∃ s k, w.close.out = base ++ s ∧ k < 8 ∧
      bytesBits s = bits ++ true :: List.replicate k false := by
  obtain ⟨hadd, hn⟩ := h.addBits (show 1 < 2 ^ 1 by decide) (by omega) (by omega)
  have hfits := hadd.fits
  obtain ⟨s, hout, hbits⟩ := hadd.written
  rw [hn] at hbits hfits
  set c := (w.addBits 1 1).bitContainer with hc
  have hbytes : ((w.nBits + 1 + 7) % 256) >>> 3 = (w.nBits + 8) / 8 := by
    omega
  refine ⟨s ++ leBytes ((w.nBits + 8) / 8) c, 8 * ((w.nBits + 8) / 8) - (w.nBits + 1), ?_, by omega,
    ?_⟩
  · rw [← append_assoc, ← hout, BitWriter.close, BitWriter.flushAlign, addBits16Clean, hn, hbytes]
  · have hlen : 8 * ((w.nBits + 8) / 8) =
        w.nBits + 1 + (8 * ((w.nBits + 8) / 8) - (w.nBits + 1)) := by omega
    rw [bytesBits_append, bytesBits_leBytes, hlen, bitsOf_of_lt hfits, ← append_assoc, hbits,
      append_assoc]
    simp only [Nat.add_sub_cancel_left]
    rfl

end BitWriter

/-! ## Reading -/

structure ReverseBitReader where
  data : Bytes
  off : Nat
  start : Nat
  bits : Nat
  cnt : Nat

/-- `Reader.makeReverseBitReader`; for a byte other than zero `7 - bits.LeadingZeros8` is the
place of its highest set bit. -/
def makeReverseBitReader (data : Bytes) (off start : Nat) : Except ReadError ReverseBitReader :=
  match data[off]? with
  | none => .error .indexOutOfRange
  | some streamStart =>
    if streamStart = 0 then .error (.zstd "zero byte at reverse bit stream start")
    else .ok ⟨data, off, start, streamStart.toNat, streamStart.toNat.log2⟩

namespace ReverseBitReader

/-- The loop of `reverseBitReader.fetch`, by the offset it counts down. -/
def fetchLoop (data : Bytes) (start b : Nat) : Nat → Nat → Nat → Option ReverseBitReader
  | 0, bits, cnt => if cnt < b then none else some ⟨data, 0, start, bits, cnt⟩
  | off + 1, bits, cnt =>
    if cnt < b then
      if off + 1 ≤ start then none
      else
        fetchLoop data start b off ((bits <<< 8 ||| (data.getD off 0).toNat) % 2 ^ 32) (cnt + 8)
    else some ⟨data, off + 1, start, bits, cnt⟩

/-- `reverseBitReader.fetch`; none is its false. -/
def fetch (rbr : ReverseBitReader) (b : Nat) : Option ReverseBitReader :=
  fetchLoop rbr.data rbr.start b rbr.off rbr.bits rbr.cnt

def val (rbr : ReverseBitReader) (b : Nat) : Except ReadError (Nat × ReverseBitReader) :=
  match rbr.fetch b with
  | none => .error makeEOFError
  | some rbr =>
    let cnt := rbr.cnt - b
    .ok (rbr.bits >>> cnt &&& (2 ^ b - 1), { rbr with cnt := cnt })

/-- The bits left to read are `bits`: those of the bytes before the offset, then those fetched. -/
structure Holds (rbr : ReverseBitReader) (bits : List Bool) : Prop where
  left : bytesBits ((rbr.data.take rbr.off).drop rbr.start) ++ bitsOf rbr.cnt rbr.bits = bits
  start_le : rbr.start ≤ rbr.off
  off_le : rbr.off ≤ rbr.data.length
  cnt_le : rbr.cnt ≤ 32

variable {rbr : ReverseBitReader} {bits : List Bool}

theorem Holds.cnt_eq_zero (h : rbr.Holds []) : rbr.cnt = 0 := by
  have hlen := congrArg List.length h.left
  rw [length_append, length_bitsOf, length_nil] at hlen
  omega

/-- The loop of `fetch` finds the bits asked for when they are there. -/
theorem Holds.fetchLoop {data : Bytes} {start : Nat} (hb : b ≤ 24) {off cnt : Nat}
    (h : Holds ⟨data, off, start, v, cnt⟩ bits) (hlen : b ≤ bits.length) :
    ∃ rbr, fetchLoop data start b off v cnt = some rbr ∧ rbr.Holds bits ∧ b ≤ rbr.cnt := by
  induction off generalizing v cnt with
  | zero =>
    have hleft := congrArg List.length h.left
    simp only [take_zero, drop_nil, bytesBits_nil, nil_append, length_bitsOf] at hleft
    have hcnt : ¬ cnt < b := by omega
    exact ⟨_, if_neg hcnt, h, Nat.le_of_not_lt hcnt⟩
  | succ off ih =>
    rw [ReverseBitReader.fetchLoop]
    by_cases hcnt : cnt < b
    · have hoff : off < data.length := h.off_le
      have hstart : ¬ off + 1 ≤ start := by
        intro hle
        have hleft := congrArg List.length h.left
        have hdrop : (data.take (off + 1)).drop start = [] :=
          drop_eq_nil_of_le ((length_take_le ..).trans hle)
        simp only [hdrop, bytesBits_nil, nil_append, length_bitsOf] at hleft
        omega
      rw [if_pos hcnt, if_neg hstart]
      refine ih ⟨?_, by dsimp only; omega, by dsimp only; omega, by dsimp only; omega⟩
      have hbyte : (data.take (off + 1)).drop start =
          (data.take off).drop start ++ [data.getD off 0] := by
        rw [take_succ_eq_append_getElem hoff, drop_append_of_le_length
          (by rw [length_take]; omega), getD_eq_getElem _ _ hoff]
      rw [← h.left, hbyte, bytesBits_append, append_assoc]
      dsimp only
      rw [bitsOf_mod (by omega), Nat.add_comm, Nat.or_comm,
        bitsOf_or (UInt8.toNat_lt (data.getD off 0)), bytesBits_cons, bytesBits_nil,
        append_nil]
    · rw [if_neg hcnt]
      exact ⟨_, rfl, h, Nat.le_of_not_lt hcnt⟩

/-- Reading a field takes it off the end of the string. -/
theorem Holds.val (h : rbr.Holds (bits ++ bitsOf b v)) (hb : b ≤ 24) (hv : v < 2 ^ b) :
    ∃ rbr', rbr.val b = .ok (v, rbr') ∧ rbr'.Holds bits := by
  obtain ⟨r, hfetch, hr, hcnt⟩ := h.fetchLoop hb (by simp)
  have hsplit : r.cnt = r.cnt - b + b := (Nat.sub_add_cancel hcnt).symm
  have hleft := hr.left
  rw [hsplit, bitsOf_add, ← append_assoc] at hleft
  obtain ⟨hbits, hfield⟩ := append_inj' hleft (by simp)
  have hval : r.bits >>> (r.cnt - b) &&& (2 ^ b - 1) = v := by
    rw [Nat.and_two_pow_sub_one_eq_mod]
    refine bitsOf_inj (Nat.mod_lt _ (Nat.two_pow_pos b)) hv ?_
    rw [bitsOf_mod (Nat.le_refl b), hfield]
  refine ⟨{ r with cnt := r.cnt - b }, ?_, hbits, hr.start_le, hr.off_le,
    (Nat.sub_le ..).trans hr.cnt_le⟩
  rw [ReverseBitReader.val, fetch, hfetch]
  simp [hval]

/-- The reader starts from the marked end of a stream, with the stream before it. -/
theorem holds_make {base s : Bytes} {k : Nat} (hk : k < 8)
    (hs : bytesBits s = bits ++ true :: List.replicate k false) :
    ∃ rbr, makeReverseBitReader (base ++ s) ((base ++ s).length - 1) base.length = .ok rbr ∧
      rbr.Holds bits := by
  have hlen := congrArg List.length hs
  rw [length_bytesBits, length_append, length_cons, length_replicate] at hlen
  have hne : s ≠ [] := by
    rintro rfl
    rw [length_nil] at hlen
    omega
  obtain ⟨s', c, rfl⟩ : ∃ s' c, s = s' ++ [c] := ⟨_, _, (dropLast_concat_getLast hne).symm⟩
  rw [length_append, length_singleton] at hlen
  -- the last byte holds the end of the string, the marker above it and the filling
  obtain ⟨low, rfl⟩ : ∃ low, bits = bytesBits s' ++ low := by
    rw [bytesBits_append] at hs
    rw [← take_append_drop (8 * s'.length) bits, append_assoc] at hs
    obtain ⟨hfirst, -⟩ := append_inj hs (by rw [length_bytesBits, length_take]; omega)
    exact ⟨bits.drop (8 * s'.length), by rw [hfirst, take_append_drop]⟩
  rw [length_append, length_bytesBits] at hlen
  rw [bytesBits_append, append_assoc, append_cancel_left_eq, bytesBits_cons,
    bytesBits_nil, append_nil, show 8 = low.length + (1 + k) by omega, bitsOf_add] at hs
  obtain ⟨hlow, hmark⟩ := append_inj hs (length_bitsOf ..)
  have hone : c.toNat >>> low.length = 1 := by
    refine bitsOf_inj ?_ (Nat.one_lt_two_pow (by omega)) (hmark.trans ?_)
    · rw [Nat.shiftRight_eq_div_pow, Nat.div_lt_iff_lt_mul (Nat.two_pow_pos _), ← Nat.pow_add,
        show 1 + k + low.length = 8 by omega]
      exact UInt8.toNat_lt c
    · exact (bitsOf_of_lt (show 1 < 2 ^ 1 by decide)).symm
  have hc : c.toNat ≠ 0 := by
    intro h0
    rw [h0, Nat.zero_shiftRight] at hone
    cases hone
  have hlog : c.toNat.log2 = low.length := by
    rw [Nat.shiftRight_eq_div_pow] at hone
    rw [Nat.log2_eq_iff hc]
    have hdiv := Nat.div_add_mod c.toNat (2 ^ low.length)
    rw [hone] at hdiv
    omega
  refine ⟨⟨base ++ (s' ++ [c]), base.length + s'.length, base.length, c.toNat, c.toNat.log2⟩, ?_,
    ?_, Nat.le_add_right .., by simp, ?_⟩
  · have hlast : (base ++ (s' ++ [c])).length - 1 = base.length + s'.length := by simp
    have hget : (base ++ (s' ++ [c]))[base.length + s'.length]? = some c := by simp
    have hc' : c ≠ 0 := fun h0 => hc (by rw [h0]; rfl)
    rw [makeReverseBitReader, hlast, hget]
    exact if_neg hc'
  · have hdrop : ((base ++ (s' ++ [c])).take (base.length + s'.length)).drop base.length = s' := by
      simp [take_append]
    rw [hdrop, hlog, hlow]
  · dsimp only
    omega

end ReverseBitReader

end GoKafka.Zstd
