import GoKafka.Zstd.Fse

/-!
# The two directions of the entropy coder

`FseEncoder.Inverse` says that the encoder's machine and a table of the decoder run in opposite
directions: from the state the encoder reaches with a symbol, the decoder's entry names the symbol,
and its base with the bits emitted gives back the state before. A `Coder` carries this for its two
tables; it holds of the three pairs of the source (`literalCoder`, `offsetCoder`, `matchCoder`),
each checked over all its states and symbols. `Coder.Codes` relates a value to what the decoder
makes of its code and extra bits, and `codes_llCode`, `codes_mlCode` and `codes_ofCode` say what
that is for the three fields of a sequence.
-/

namespace GoKafka.Zstd

namespace FseEncoder

/-- The decoder's entry for an encoder's state. The encoder's states run from the table's size on,
the decoder's from 0. -/
def entryAt (enc : FseEncoder) (table : List FseBaselineEntry) (state : Nat) : FseBaselineEntry :=
  table.getD (state - 2 ^ enc.actualTableLog) ⟨0, 0, 0, 0⟩

/-- In `state` the decoder reads `sym`. -/
def Names (enc : FseEncoder) (sym state : Nat) : Prop :=
  2 ^ enc.actualTableLog ≤ state ∧ enc.tableSymbol[state - 2 ^ enc.actualTableLog]? = some sym

instance (enc : FseEncoder) (sym state : Nat) : Decidable (enc.Names sym state) :=
  inferInstanceAs (Decidable (_ ∧ _))

/-- The decoder's table runs the encoder's machine backwards. -/
structure Inverse (enc : FseEncoder) (table : List FseBaselineEntry)
    (base : Nat → Except ReadError (Nat × Nat)) : Prop where
  size : enc.tableSymbol.length = 2 ^ enc.actualTableLog
  /-- The decoder's entries are those of the symbols in the encoder's cells. -/
  entries : List.Forall₂ (fun sym e => toBaseline base ⟨sym, e.bits, e.base⟩ = .ok e)
    enc.tableSymbol table
  init : ∀ sym < enc.symbolTT.length, enc.Names sym (enc.initState sym)
  next : ∀ sym < enc.symbolTT.length, ∀ x < 2 ^ enc.actualTableLog,
    let state := 2 ^ enc.actualTableLog + x
    let entry := enc.entryAt table (enc.nextState sym state)
    enc.Names sym (enc.nextState sym state) ∧ entry.bits = enc.nbBitsOut sym state ∧
      entry.bits ≤ enc.actualTableLog ∧ entry.base + state % 2 ^ entry.bits = x

end FseEncoder

/-- An encoder's machine with the decoder's table that runs it backwards. -/
structure Coder where
  enc : FseEncoder
  table : List FseBaselineEntry
  base : Nat → Except ReadError (Nat × Nat)
  inverse : enc.Inverse table base

def literalCoder : Coder :=
  ⟨predefinedEncoders.ll, predefinedLiteralTable, literalBase, by constructor <;> decide +kernel⟩

def offsetCoder : Coder :=
  ⟨predefinedEncoders.of, predefinedOffsetTable, offsetBase, by constructor <;> decide +kernel⟩

def matchCoder : Coder :=
  ⟨predefinedEncoders.ml, predefinedMatchTable, matchBase, by constructor <;> decide +kernel⟩

namespace Coder

variable {K : Coder} {code state : Nat}

/-- The number of extra bits of a code. -/
def outBits (K : Coder) (code : Nat) : Nat := (K.enc.transform code).outBits

/-- The states of the encoder. -/
def State (K : Coder) (state : Nat) : Prop :=
  2 ^ K.enc.actualTableLog ≤ state ∧ state < 2 * 2 ^ K.enc.actualTableLog

/-- The value `v`, with the code `code`, is decoded as `w`: the code's baseline plus the extra bits
of `v`. -/
structure Codes (K : Coder) (code v w : Nat) : Prop where
  lt : code < K.enc.symbolTT.length
  outBits_le : K.outBits code ≤ 24
  value : ∃ b, K.base code = .ok (b, K.outBits code) ∧ b + v % 2 ^ K.outBits code = w

theorem State.of_names (h : K.enc.Names code state) : K.State state := by
  obtain ⟨hlt, -⟩ := List.getElem?_eq_some_iff.1 h.2
  have hle := h.1
  rw [K.inverse.size] at hlt
  exact ⟨hle, by omega⟩

/-- Coding a symbol leads to a state that names it, from which the decoder comes back. -/
theorem State.next (h : K.State state) (hcode : code < K.enc.symbolTT.length) :
    let entry := K.enc.entryAt K.table (K.enc.nextState code state)
    K.enc.Names code (K.enc.nextState code state) ∧ entry.bits = K.enc.nbBitsOut code state ∧
      entry.bits ≤ K.enc.actualTableLog ∧
      entry.base + state % 2 ^ entry.bits = state - 2 ^ K.enc.actualTableLog := by
  obtain ⟨hle, hlt⟩ := h
  have hnext := K.inverse.next code hcode (state - 2 ^ K.enc.actualTableLog) (by omega)
  rwa [Nat.add_sub_cancel' hle] at hnext

/-- The decoder's entry in a state that names the code of a value. -/
theorem Codes.entry (h : K.Codes code v w) (hstate : K.enc.Names code state) :
    let entry := K.enc.entryAt K.table state
    K.table[state - 2 ^ K.enc.actualTableLog]? = some entry ∧
      entry.basebits = K.outBits code ∧ entry.baseline + v % 2 ^ K.outBits code = w := by
  obtain ⟨b, hbase, hvalue⟩ := h.value
  obtain ⟨hlt, hsym⟩ := List.getElem?_eq_some_iff.1 hstate.2
  have hlt' := hlt
  rw [K.inverse.entries.length_eq] at hlt'
  have hentry := K.inverse.entries.get hlt hlt'
  rw [List.get_eq_getElem, hsym, List.get_eq_getElem, toBaseline, hbase] at hentry
  have hat : K.enc.entryAt K.table state = K.table[state - 2 ^ K.enc.actualTableLog] :=
    List.getD_eq_getElem _ _ hlt'
  have heq := Except.ok.inj hentry
  rw [hat]
  exact ⟨List.getElem?_eq_getElem hlt', by rw [← heq], by rw [← heq]; exact hvalue⟩

end Coder

/-! ## The codes of the values -/

/-- A number is its highest power of two and the bits below. -/
theorem two_pow_log2_add_mod (hv : v ≠ 0) : 2 ^ v.log2 + v % 2 ^ v.log2 = v := by
  have hle := Nat.log2_self_le hv
  have hlt : v < 2 ^ (v.log2 + 1) := Nat.lt_log2_self
  rw [Nat.mod_eq_sub_mod hle, Nat.mod_eq_of_lt (by omega)]
  omega

/-- A value is decoded from a code that stands for its highest power of two. -/
theorem Coder.codes_log2 {K : Coder} (hv : v ≠ 0) (hk : v.log2 ≤ 24)
    (h : code < K.enc.symbolTT.length ∧ K.outBits code = v.log2 ∧
      K.base code = .ok (2 ^ v.log2 + c, v.log2)) : K.Codes code v (v + c) := by
  obtain ⟨hlt, hbits, hbase⟩ := h
  have hvalue := two_pow_log2_add_mod hv
  exact ⟨hlt, hbits ▸ hk, _, hbits ▸ hbase, by rw [hbits]; omega⟩

/-- Small values have codes in a table, and the larger ones a code for each power of two. -/
theorem Coder.codes_of_tables {K : Coder} {codeOf : Nat → Nat} {low shift c v : Nat}
    (hsmall : ∀ v < 2 ^ low, codeOf v < K.enc.symbolTT.length ∧ K.outBits (codeOf v) ≤ 24 ∧
      v % 2 ^ K.outBits (codeOf v) ≤ v + c ∧
      K.base (codeOf v) = .ok (v + c - v % 2 ^ K.outBits (codeOf v), K.outBits (codeOf v)))
    (hlarge : ∀ k < 17, low ≤ k → k + shift < K.enc.symbolTT.length ∧ K.outBits (k + shift) = k ∧
      K.base (k + shift) = .ok (2 ^ k + c, k))
    (hcode : ∀ v, 2 ^ low ≤ v → codeOf v = v.log2 + shift) (hv : v < 2 ^ 17) :
    K.Codes (codeOf v) v (v + c) := by
  rcases Nat.lt_or_ge v (2 ^ low) with hlow | hlow
  · obtain ⟨hlt, hbits, hle, hbase⟩ := hsmall v hlow
    exact ⟨hlt, hbits, _, hbase, Nat.sub_add_cancel hle⟩
  · have hne : v ≠ 0 := Nat.ne_of_gt (Nat.lt_of_lt_of_le (Nat.two_pow_pos low) hlow)
    have hk : v.log2 < 17 := (Nat.log2_lt hne).2 hv
    rw [hcode v hlow]
    exact codes_log2 hne (by omega) (hlarge v.log2 hk ((Nat.le_log2 hne).2 hlow))

theorem codes_llCode (hv : v < 2 ^ 17) : literalCoder.Codes (llCode v) v v := by
  refine @Coder.codes_of_tables literalCoder llCode 6 19 0 v (by decide +kernel) (by decide +kernel)
    (fun v hlow => ?_) hv
  rw [llCode, if_neg (by omega), highBit32, if_neg (by omega)]

theorem codes_mlCode (hv : v < 2 ^ 17) : matchCoder.Codes (mlCode v) v (v + 3) := by
  refine @Coder.codes_of_tables matchCoder mlCode 7 36 3 v (by decide +kernel) (by decide +kernel)
    (fun v hlow => ?_) hv
  rw [mlCode, if_neg (by omega), highBit32, if_neg (by omega)]

/-- The number of extra bits of an offset's code is the code itself. -/
theorem outBits_offsetCoder :
    ∀ k < offsetCoder.enc.symbolTT.length, offsetCoder.outBits k = k := by
  decide +kernel

/-- What the decoder reads for the value of an offset: 1 to 3 stand for themselves, the others for
an offset 3 less. -/
def offsetRead (v : Nat) : Nat := if v < 4 then v else v - 3

theorem codes_ofCode (hpos : 0 < v) (hv : v < 2 ^ 24) :
    offsetCoder.Codes (ofCode v) v (offsetRead v) := by
  have hne : v ≠ 0 := Nat.ne_of_gt hpos
  have hk : v.log2 < 24 := (Nat.log2_lt hne).2 hv
  have hlt : v.log2 < offsetCoder.enc.symbolTT.length := Nat.lt_trans hk (by decide +kernel)
  have hbits := outBits_offsetCoder _ hlt
  have hvalue := two_pow_log2_add_mod hne
  by_cases hfour : v < 4
  · have hsym : ¬ v.log2 ≥ 2 := by
      rw [ge_iff_le, Nat.le_log2 hne]
      omega
    have hbase : offsetBase v.log2 = .ok (2 ^ v.log2 + 0, v.log2) := by
      rw [offsetBase, if_neg (by omega), if_neg hsym, Nat.add_zero]
    rw [offsetRead, if_pos hfour]
    exact Coder.codes_log2 hne (Nat.le_of_lt hk) ⟨hlt, hbits, hbase⟩
  · have hsym : v.log2 ≥ 2 := (Nat.le_log2 hne).2 (by omega)
    have hbase : offsetBase v.log2 = .ok (2 ^ v.log2 - 3, v.log2) := by
      rw [offsetBase, if_neg (by omega), if_pos hsym]
    rw [offsetRead, if_neg hfour]
    refine ⟨hlt, hbits.trans_le (Nat.le_of_lt hk), 2 ^ v.log2 - 3, ?_, ?_⟩ <;> rw [ofCode, hbits]
    · exact hbase
    · omega

/-- The offsets written out have codes above 1. -/
theorem one_lt_ofCode (hpos : 0 < v) : ofCode v > 1 ↔ 4 ≤ v := by
  rw [ofCode, gt_iff_lt, Nat.lt_iff_add_one_le, Nat.le_log2 (Nat.ne_of_gt hpos)]

end GoKafka.Zstd
