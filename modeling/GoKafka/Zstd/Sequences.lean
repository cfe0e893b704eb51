import GoKafka.Zstd.Coder
import GoKafka.Zstd.Match

/-!
# The stream of the sequences

`encodeSequences` (`fse_enc.go`) writes a block's sequences as one bit stream, from the last
sequence to the first, because the decoder reads it from its end. For each sequence it emits the
low bits of the three states, then the extra bits of the three values, and at the end the states
themselves. `seqBits` is this stream as a bit string, without the words it is collected in, and
`encodeSequences_stream` says that the bytes written hold it.

The extra bits of a sequence other than the last are put together in one field, and `addBits32NC`
keeps only `bits & 31` of a field's bits, so the stream is right while they are fewer than 32
(`Narrow`).
-/

namespace GoKafka.Zstd

open BitString List

/-- The states of the three `cState`s. -/
structure CStates where
  ll : Nat
  of : Nat
  ml : Nat

/-- The states after the first `cState.init`. -/
def CStates.init (encs : Encoders) (s : Seq) : CStates :=
  ⟨encs.ll.initState s.llCode, encs.of.initState s.ofCode, encs.ml.initState s.mlCode⟩

/-- The states after the sequence `s`. -/
def CStates.next (c : CStates) (encs : Encoders) (s : Seq) : CStates :=
  ⟨encs.ll.nextState s.llCode c.ll, encs.of.nextState s.ofCode c.of,
    encs.ml.nextState s.mlCode c.ml⟩

def encodeSequenceStates (encs : Encoders) (s : Seq) (w : BitWriter) (c : CStates) :
    BitWriter × CStates :=
  let w := w.flush32
  let w := w.addBits16NC c.of (encs.of.nbBitsOut s.ofCode c.of % 256)
  let ofBits := (encs.of.transform s.ofCode).outBits % 32
  let extraBits := s.offset &&& bitMask32 ofBits
  let w := w.addBits16NC c.ml (encs.ml.nbBitsOut s.mlCode c.ml % 256)
  let mlBits := (encs.ml.transform s.mlCode).outBits % 32
  let extraBits := (extraBits <<< mlBits ||| s.matchLen &&& bitMask32 mlBits) % 2 ^ 64
  let w := w.addBits16NC c.ll (encs.ll.nbBitsOut s.llCode c.ll % 256)
  let llBits := (encs.ll.transform s.llCode).outBits % 32
  let extraBits := (extraBits <<< llBits ||| s.litLen &&& bitMask32 llBits) % 2 ^ 64
  let w := w.flush32
  (w.addBits32NC (extraBits % 2 ^ 32) (ofBits + mlBits + llBits), c.next encs s)

/-- What `encodeSequences` does with the last sequence. -/
def encodeLast (encs : Encoders) (s : Seq) (w : BitWriter) : BitWriter × CStates :=
  let w := w.flush32
  let w := w.addBits32NC s.litLen (encs.ll.transform s.llCode).outBits
  let w := w.addBits32NC s.matchLen (encs.ml.transform s.mlCode).outBits
  let w := w.flush32
  (w.addBits32NC s.offset (encs.of.transform s.ofCode).outBits, .init encs s)

/-- The loop of `encodeSequences`, from the last sequence to the first. The source has no stream
without sequences. -/
def encodeStates (encs : Encoders) (w : BitWriter) : List Seq → BitWriter × CStates
  | [] => (w, ⟨0, 0, 0⟩)
  | [s] => encodeLast encs s w
  | s :: rest =>
    let (w, c) := encodeStates encs w rest
    encodeSequenceStates encs s w c

/-- `cState.flush`. -/
def flushState (w : BitWriter) (state tableLog : Nat) : BitWriter :=
  w.flush32.addBits16NC state tableLog

/-- The number of sequences, as `encodeSequences` writes it. -/
def sequenceCount (n : Nat) : Bytes :=
  if n < 128 then [UInt8.ofNat n]
  else if n < 0x7f00 then [(128 : UInt8) + UInt8.ofNat (n >>> 8), UInt8.ofNat n]
  else [255, UInt8.ofNat (n - 0x7f00), UInt8.ofNat ((n - 0x7f00) >>> 8)]

def encodeSequences (encs : Encoders) (out : Bytes) (sequences : List Seq) : Bytes :=
  -- all predefined modes
  let out := out ++ sequenceCount sequences.length ++ [0]
  let (w, c) := encodeStates encs (.reset out) sequences
  let w := flushState w c.ml encs.ml.actualTableLog
  let w := flushState w c.of encs.of.actualTableLog
  let w := flushState w c.ll encs.ll.actualTableLog
  w.close.out

/-! ## The stream as a bit string -/

/-- The extra bits of the three values. -/
def Seq.extraBits (s : Seq) : List Bool :=
  bitsOf (literalCoder.outBits s.llCode) s.litLen ++
    (bitsOf (matchCoder.outBits s.mlCode) s.matchLen ++
      bitsOf (offsetCoder.outBits s.ofCode) s.offset)

/-- Their number. -/
def Seq.extraBitsN (s : Seq) : Nat :=
  offsetCoder.outBits s.ofCode + matchCoder.outBits s.mlCode + literalCoder.outBits s.llCode

/-- The bits of the states that coding `s` emits. -/
def CStates.emitted (c : CStates) (s : Seq) : List Bool :=
  bitsOf (offsetCoder.enc.nbBitsOut s.ofCode c.of) c.of ++
    (bitsOf (matchCoder.enc.nbBitsOut s.mlCode c.ml) c.ml ++
      bitsOf (literalCoder.enc.nbBitsOut s.llCode c.ll) c.ll)

/-- The states after the sequences, coded from the last to the first. -/
def seqStates : List Seq → CStates
  | [] => ⟨0, 0, 0⟩
  | [s] => .init predefinedEncoders s
  | s :: rest => (seqStates rest).next predefinedEncoders s

/-- The stream of the sequences, before the states at its end. -/
def seqBits : List Seq → List Bool
  | [] => []
  | [s] => s.extraBits
  | s :: rest => seqBits rest ++ ((seqStates rest).emitted s ++ s.extraBits)

/-- The states at the end of the stream. -/
def CStates.bits (c : CStates) : List Bool := bitsOf 6 c.ml ++ (bitsOf 5 c.of ++ bitsOf 6 c.ll)

/-- The numbers of a sequence are in the range of the codes. -/
structure Seq.Coded (s : Seq) : Prop where
  litLen_lt : s.litLen < 2 ^ 17
  matchLen_lt : s.matchLen < 2 ^ 17
  offset_pos : 0 < s.offset
  offset_lt : s.offset < 2 ^ 24

/-- Every sequence but the last has fewer than 32 extra bits. -/
def Narrow (sequences : List Seq) : Prop := ∀ s ∈ sequences.dropLast, s.extraBitsN < 32

instance (sequences : List Seq) : Decidable (Narrow sequences) :=
  inferInstanceAs (Decidable (∀ s ∈ sequences.dropLast, s.extraBitsN < 32))

/-- In the states `c` the decoder reads the codes of `s`. -/
structure CStates.Names (c : CStates) (s : Seq) : Prop where
  ll : literalCoder.enc.Names s.llCode c.ll
  of : offsetCoder.enc.Names s.ofCode c.of
  ml : matchCoder.enc.Names s.mlCode c.ml

namespace Seq.Coded

variable {s : Seq} {c : CStates}

theorem ll (h : s.Coded) : literalCoder.Codes s.llCode s.litLen s.litLen := codes_llCode h.litLen_lt

theorem ml (h : s.Coded) : matchCoder.Codes s.mlCode s.matchLen (s.matchLen + 3) :=
  codes_mlCode h.matchLen_lt

theorem of (h : s.Coded) : offsetCoder.Codes s.ofCode s.offset (offsetRead s.offset) :=
  codes_ofCode h.offset_pos h.offset_lt

theorem names_init (h : s.Coded) : (CStates.init predefinedEncoders s).Names s :=
  ⟨literalCoder.inverse.init _ h.ll.lt, offsetCoder.inverse.init _ h.of.lt,
    matchCoder.inverse.init _ h.ml.lt⟩

theorem names_next (h : s.Coded) (hc : c.Names s') : (c.next predefinedEncoders s).Names s :=
  ⟨((Coder.State.of_names hc.ll).next h.ll.lt).1, ((Coder.State.of_names hc.of).next h.of.lt).1,
    ((Coder.State.of_names hc.ml).next h.ml.lt).1⟩

end Seq.Coded

/-- The states before a sequence is read name its codes. -/
theorem names_seqStates (h : ∀ s' ∈ s :: rest, s'.Coded) : (seqStates (s :: rest)).Names s := by
  induction rest generalizing s with
  | nil => exact (h s mem_cons_self).names_init
  | cons s' rest ih =>
    exact (h s mem_cons_self).names_next (ih fun t ht => h t (mem_cons_of_mem s ht))

section Write

variable {s : Seq} {w : BitWriter} {c : CStates} {base : Bytes}

theorem Coder.State.nbBitsOut_le {K : Coder} (h : K.State state)
    (hcode : code < K.enc.symbolTT.length) : K.enc.nbBitsOut code state ≤ K.enc.actualTableLog := by
  obtain ⟨-, hbits, hle, -⟩ := h.next hcode
  rwa [hbits] at hle

/-- The last sequence puts its extra bits into the stream. -/
theorem encodeLast_holds (hs : s.Coded) :
    (encodeLast predefinedEncoders s (.reset base)).1.Holds base s.extraBits ∧
      (encodeLast predefinedEncoders s (.reset base)).1.nBits < 63 := by
  have hl := hs.ll.outBits_le
  have hm := hs.ml.outBits_le
  have ho := hs.of.outBits_le
  obtain ⟨h₀, n₀⟩ := (BitWriter.holds_reset base).flush32 (show 0 < 64 by decide)
  obtain ⟨h₁, n₁⟩ := h₀.addBits32NC s.litLen (Nat.lt_of_le_of_lt hl (by decide)) (by omega)
  have hzero : (BitWriter.reset base).flush32.nBits = 0 := rfl
  obtain ⟨h₂, n₂⟩ := h₁.addBits32NC s.matchLen (Nat.lt_of_le_of_lt hm (by decide)) (by omega)
  obtain ⟨h₃, n₃⟩ := h₂.flush32 (by omega)
  obtain ⟨h₄, n₄⟩ := h₃.addBits32NC s.offset (Nat.lt_of_le_of_lt ho (by decide)) (by omega)
  rw [append_assoc] at h₄
  exact ⟨h₄, n₄.trans_lt (by omega)⟩

theorem bitsOf_extra (hn : o + m + l < 32) :
    bitsOf (o + m + l)
      (((((off % 2 ^ o) <<< m ||| ml % 2 ^ m) % 2 ^ 64) <<< l ||| lit % 2 ^ l) % 2 ^ 64 % 2 ^ 32) =
      bitsOf l lit ++ (bitsOf m ml ++ bitsOf o off) := by
  rw [bitsOf_mod (by omega), bitsOf_mod (by omega), show o + m + l = l + (m + o) by omega,
    Nat.or_comm, bitsOf_or (Nat.mod_lt _ (Nat.two_pow_pos l)), bitsOf_mod (Nat.le_refl l),
    bitsOf_mod (by omega), Nat.or_comm, bitsOf_or (Nat.mod_lt _ (Nat.two_pow_pos m)),
    bitsOf_mod (Nat.le_refl m), bitsOf_mod (Nat.le_refl o)]

/-- A sequence before others puts the bits of the states and its extra bits into the stream. -/
theorem encodeSequenceStates_holds (hs : s.Coded) (hn : s.extraBitsN < 32) (hc : c.Names s')
    (h : w.Holds base bits) (hlt : w.nBits < 63) :
    (encodeSequenceStates predefinedEncoders s w c).1.Holds base
        (bits ++ (c.emitted s ++ s.extraBits)) ∧
      (encodeSequenceStates predefinedEncoders s w c).1.nBits < 63 := by
  have hl := hs.ll.outBits_le
  have hm := hs.ml.outBits_le
  have ho := hs.of.outBits_le
  have kl : literalCoder.enc.nbBitsOut s.llCode c.ll ≤ 6 :=
    (Coder.State.of_names hc.ll).nbBitsOut_le hs.ll.lt
  have ko : offsetCoder.enc.nbBitsOut s.ofCode c.of ≤ 5 :=
    (Coder.State.of_names hc.of).nbBitsOut_le hs.of.lt
  have km : matchCoder.enc.nbBitsOut s.mlCode c.ml ≤ 6 :=
    (Coder.State.of_names hc.ml).nbBitsOut_le hs.ml.lt
  obtain ⟨h₀, n₀⟩ := h.flush32 (by omega)
  obtain ⟨h₁, n₁⟩ := h₀.addBits16NC c.of (ko.trans (by decide)) (by omega)
  obtain ⟨h₂, n₂⟩ := h₁.addBits16NC c.ml (km.trans (by decide)) (by omega)
  obtain ⟨h₃, n₃⟩ := h₂.addBits16NC c.ll (kl.trans (by decide)) (by omega)
  obtain ⟨h₄, n₄⟩ := h₃.flush32 (by omega)
  rw [Seq.extraBitsN] at hn
  obtain ⟨h₅, n₅⟩ := h₄.addBits32NC (((((s.offset % 2 ^ offsetCoder.outBits s.ofCode) <<<
    matchCoder.outBits s.mlCode ||| s.matchLen % 2 ^ matchCoder.outBits s.mlCode) % 2 ^ 64) <<<
    literalCoder.outBits s.llCode ||| s.litLen % 2 ^ literalCoder.outBits s.llCode) %
    2 ^ 64 % 2 ^ 32) hn (by omega)
  rw [bitsOf_extra hn] at h₅
  have hmask : ∀ {n : Nat} (v : Nat), n ≤ 24 → v &&& bitMask32 n = v % 2 ^ n := fun v hle => by
    rw [bitMask32, Nat.mod_eq_of_lt (by omega), Nat.and_two_pow_sub_one_eq_mod]
  have eo : predefinedEncoders.of.nbBitsOut s.ofCode c.of % 256 =
      offsetCoder.enc.nbBitsOut s.ofCode c.of :=
        Nat.mod_eq_of_lt (Nat.lt_of_le_of_lt ko (by decide))
  have em : predefinedEncoders.ml.nbBitsOut s.mlCode c.ml % 256 =
      matchCoder.enc.nbBitsOut s.mlCode c.ml := Nat.mod_eq_of_lt (Nat.lt_of_le_of_lt km (by decide))
  have el : predefinedEncoders.ll.nbBitsOut s.llCode c.ll % 256 =
      literalCoder.enc.nbBitsOut s.llCode c.ll :=
    Nat.mod_eq_of_lt (Nat.lt_of_le_of_lt kl (by decide))
  have xo : (predefinedEncoders.of.transform s.ofCode).outBits % 32 =
      offsetCoder.outBits s.ofCode := Nat.mod_eq_of_lt (Nat.lt_of_le_of_lt ho (by decide))
  have xm : (predefinedEncoders.ml.transform s.mlCode).outBits % 32 =
      matchCoder.outBits s.mlCode := Nat.mod_eq_of_lt (Nat.lt_of_le_of_lt hm (by decide))
  have xl : (predefinedEncoders.ll.transform s.llCode).outBits % 32 =
      literalCoder.outBits s.llCode := Nat.mod_eq_of_lt (Nat.lt_of_le_of_lt hl (by decide))
  rw [encodeSequenceStates, eo, em, el, xo, xm, xl, hmask _ ho, hmask _ hm, hmask _ hl]
  refine ⟨?_, n₅.trans_lt (by omega)⟩
  simpa only [CStates.emitted, Seq.extraBits, append_assoc] using h₅

/-- The loop of `encodeSequences` puts the whole stream into the writer. -/
theorem encodeStates_holds {s : Seq} {rest : List Seq} (h : ∀ s' ∈ s :: rest, s'.Coded)
    (hn : Narrow (s :: rest)) :
    (encodeStates predefinedEncoders (.reset base) (s :: rest)).1.Holds base
        (seqBits (s :: rest)) ∧
      (encodeStates predefinedEncoders (.reset base) (s :: rest)).1.nBits < 63 ∧
      (encodeStates predefinedEncoders (.reset base) (s :: rest)).2 = seqStates (s :: rest) := by
  induction rest generalizing s with
  | nil =>
    obtain ⟨hholds, hlt⟩ := @encodeLast_holds s base (h s mem_cons_self)
    exact ⟨hholds, hlt, rfl⟩
  | cons s' rest ih =>
    have hrest : ∀ t ∈ s' :: rest, t.Coded := fun t ht => h t (mem_cons_of_mem s ht)
    obtain ⟨hholds, hlt, hstates⟩ := ih hrest fun t ht => hn t (mem_cons_of_mem s ht)
    have hnames := names_seqStates hrest
    rw [encodeStates]
    · generalize
        encodeStates predefinedEncoders (.reset base) (s' :: rest) = p at hholds hlt hstates ⊢
      obtain ⟨w, c⟩ := p
      subst hstates
      obtain ⟨hstep, hlt'⟩ := encodeSequenceStates_holds (h s mem_cons_self)
        (hn s mem_cons_self) hnames hholds hlt
      exact ⟨hstep, hlt', rfl⟩
    · exact cons_ne_nil s' rest

/-- The bytes `encodeSequences` appends: the number of sequences, the modes, and a stream that
ends with the states. -/
theorem encodeSequences_stream {sequences : List Seq} {out : Bytes} (hne : sequences ≠ [])
    (h : ∀ s ∈ sequences, s.Coded) (hn : Narrow sequences) :
    ∃ stream k, encodeSequences predefinedEncoders out sequences =
        out ++ sequenceCount sequences.length ++ [0] ++ stream ∧ k < 8 ∧
      bytesBits stream =
        seqBits sequences ++ (seqStates sequences).bits ++ true :: List.replicate k false := by
  obtain ⟨s, rest, rfl⟩ := exists_cons_of_ne_nil hne
  rw [encodeSequences]
  generalize out ++ sequenceCount (s :: rest).length ++ [0] = base
  obtain ⟨h₀, n₀, hstates⟩ := @encodeStates_holds base s rest h hn
  dsimp only
  rw [hstates]
  generalize seqStates (s :: rest) = c
  have hflush : ∀ {w : BitWriter} {bits : List Bool} {n : Nat} (state : Nat), w.Holds base bits →
      w.nBits < 63 → n ≤ 6 → (flushState w state n).Holds base (bits ++ bitsOf n state) ∧
        (flushState w state n).nBits < 63 := by
    intro w bits n state hw hlt hle
    obtain ⟨hf, nf⟩ := hw.flush32 (by omega)
    obtain ⟨ha, na⟩ := hf.addBits16NC state (hle.trans (by decide)) (by omega)
    exact ⟨ha, na.trans_lt (by omega)⟩
  obtain ⟨h₁, n₁⟩ := hflush c.ml h₀ n₀ (show 6 ≤ 6 by decide)
  obtain ⟨h₂, n₂⟩ := hflush c.of h₁ n₁ (show 5 ≤ 6 by decide)
  obtain ⟨h₃, n₃⟩ := hflush c.ll h₂ n₂ (show 6 ≤ 6 by decide)
  obtain ⟨stream, k, hout, hk, hstream⟩ := h₃.close n₃
  refine ⟨stream, k, hout, hk, ?_⟩
  rw [hstream, CStates.bits]
  simp only [append_assoc]

end Write

end GoKafka.Zstd
