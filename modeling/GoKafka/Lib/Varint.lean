import Mathlib

/-!
# Base-128 varints and the zigzag map

`encode n` is the little-endian base-128 representation of `n`: seven payload bits per byte, the
high bit set on every byte but the last. `size n` is its length. The zigzag map sends a signed
64-bit number to an unsigned one so that numbers of small magnitude get short encodings; it is
written here with the shifts and masks an implementation uses, and `zigzag_nonneg`, `zigzag_neg`,
`unzigzag_even` and `unzigzag_odd` give its arithmetic.
-/

namespace Varint

/-! ## Base 128 -/

/-- The base-128 digits of `n`, least significant first, with continuation bits. -/
def encode (n : Nat) : List UInt8 :=
  if n < 0x80 then [UInt8.ofNat n] else (UInt8.ofNat n ||| 0x80) :: encode (n >>> 7)
termination_by n
decreasing_by simp only [Nat.shiftRight_eq_div_pow]; omega

/-- The number of base-128 digits of `n`, counted by shifting. -/
def size (n : Nat) : Nat :=
  if n < 0x80 then 1 else size (n >>> 7) + 1
termination_by n
decreasing_by simp only [Nat.shiftRight_eq_div_pow]; omega

theorem encode_of_lt (h : n < 128) : encode n = [UInt8.ofNat n] := by
  rw [encode, if_pos h]

theorem encode_of_ge (h : 128 ≤ n) : encode n = (UInt8.ofNat n ||| 0x80) :: encode (n / 128) := by
  rw [encode, if_neg (by omega), Nat.shiftRight_eq_div_pow]

theorem length_encode (n : Nat) : (encode n).length = size n := by
  induction n using Nat.strongRecOn with
  | ind n ih =>
    rw [encode, size]
    split
    · rfl
    · have : n >>> 7 < n := by rw [Nat.shiftRight_eq_div_pow]; omega
      rw [List.length_cons, ih _ this]

theorem size_pos (n : Nat) : 0 < size n := by
  rw [size]; split <;> omega

/-- A final byte carries its whole value. -/
theorem toNat_last (h : n < 128) : (UInt8.ofNat n).toNat = n := by
  rw [UInt8.toNat_ofNat']; omega

theorem toNat_cont (n : Nat) : (UInt8.ofNat n ||| 0x80).toNat = 128 + n % 128 := by
  have h : ∀ i : Fin 256, i.val ||| 128 = 128 + i.val % 128 := by decide +kernel
  have hor := h ⟨n % 256, Nat.mod_lt _ (by decide)⟩
  show n % 256 ||| 128 = _
  rw [hor]
  show 128 + n % 256 % 128 = _
  omega

/-! ## Zigzag -/

/-- `(uint(v) << 1) ^ uint(v >> 63)`: the sign moves to the low bit. -/
def zigzag (v : Int64) : UInt64 := (v.toUInt64 <<< 1) ^^^ (v >>> 63).toUInt64

/-- `int(u >> 1) ^ -(int(u) & 1)`: the low bit is the sign. -/
def unzigzag (u : UInt64) : Int64 := (u >>> 1).toInt64 ^^^ -(u.toInt64 &&& 1)

/-- The arithmetic shift by 63 spreads the sign bit over the word. -/
theorem shiftRight_63 (v : Int64) : v >>> 63 = if 0 ≤ v.toInt then 0 else -1 := by
  have hlt := v.toInt_lt
  have hle := v.le_toInt
  have hshift : (v >>> 63).toInt = v.toInt / 2 ^ 63 := by
    rw [← Int64.toInt_toBitVec, Int64.toBitVec_shiftRight, BitVec.sshiftRight',
      BitVec.toInt_sshiftRight, Int.shiftRight_eq_div_pow]
    rfl
  apply Int64.toInt_inj.1
  rw [hshift]
  split
  · have : v.toInt / 2 ^ 63 = 0 := by omega
    simpa using this
  · have : v.toInt / 2 ^ 63 = -1 := by omega
    simpa using this

theorem toNat_toUInt64 (v : Int64) :
    (v.toUInt64.toNat : Int) = if 0 ≤ v.toInt then v.toInt else v.toInt + 2 ^ 64 := by
  have h : v.toInt = v.toBitVec.toInt := rfl
  have h' : v.toUInt64.toNat = v.toBitVec.toNat := rfl
  rw [h, BitVec.toInt_eq_toNat_cond]
  split <;> split <;> omega

theorem toInt_toInt64 {u : UInt64} (h : u.toNat < 2 ^ 63) : u.toInt64.toInt = u.toNat := by
  have h₁ : u.toInt64.toInt = u.toBitVec.toInt := rfl
  have h₂ : u.toBitVec.toNat = u.toNat := rfl
  rw [h₁, BitVec.toInt_eq_toNat_cond, h₂, if_pos (by omega)]

theorem zigzag_nonneg (h : 0 ≤ v.toInt) : ((zigzag v).toNat : Int) = 2 * v.toInt := by
  have hlt := v.toInt_lt
  have hu := toNat_toUInt64 v
  have hz : (zigzag v).toNat = v.toUInt64.toNat * 2 % 2 ^ 64 := by
    have e : Int64.toUInt64 0 = 0 := rfl
    rw [zigzag, shiftRight_63, if_pos h, e, UInt64.xor_zero, UInt64.toNat_shiftLeft,
      Nat.shiftLeft_eq]
    rfl
  omega

theorem zigzag_neg (h : v.toInt < 0) : ((zigzag v).toNat : Int) = -2 * v.toInt - 1 := by
  have hle := v.le_toInt
  have hu := toNat_toUInt64 v
  have hz : (zigzag v).toNat = 2 ^ 64 - 1 - v.toUInt64.toNat * 2 % 2 ^ 64 := by
    have e : Int64.toUInt64 (-1) = -1 := rfl
    rw [zigzag, shiftRight_63, if_neg (by omega), e, UInt64.xor_neg_one, UInt64.toNat_not,
      UInt64.toNat_shiftLeft, Nat.shiftLeft_eq]
    rfl
  omega

/-- Masking with one leaves the parity. -/
theorem and_one (u : UInt64) : u.toInt64 &&& 1 = if u.toNat % 2 = 0 then 0 else 1 := by
  have hand : (u.toInt64 &&& 1).toBitVec.toNat = u.toNat % 2 := by
    exact Nat.and_two_pow_sub_one_eq_mod u.toNat 1
  apply Int64.toBitVec_inj.1
  apply BitVec.eq_of_toNat_eq
  rw [hand]
  split
  · next h => rw [h]; rfl
  · have : u.toNat % 2 = 1 := by omega
    rw [this]; rfl

theorem toNat_shiftRight_one (u : UInt64) : (u >>> 1).toNat = u.toNat / 2 := by
  rw [UInt64.toNat_shiftRight]; rfl

theorem unzigzag_even (h : u.toNat % 2 = 0) : (unzigzag u).toInt = (u.toNat / 2 : Nat) := by
  have hu := u.toNat_lt
  have hs := toNat_shiftRight_one u
  rw [unzigzag, and_one, if_pos h, Int64.neg_zero, Int64.xor_zero, toInt_toInt64 (by omega), hs]

theorem unzigzag_odd (h : u.toNat % 2 = 1) : (unzigzag u).toInt = -(u.toNat / 2 : Nat) - 1 := by
  have hu := u.toNat_lt
  have hs := toNat_shiftRight_one u
  rw [unzigzag, and_one, if_neg (by omega), Int64.xor_neg_one, Int64.toInt_not,
    toInt_toInt64 (by omega), hs, Int.bmod_eq_of_le (by omega) (by omega)]

/-- The zigzag map loses nothing. -/
theorem unzigzag_zigzag (v : Int64) : unzigzag (zigzag v) = v := by
  apply Int64.toInt_inj.1
  rcases Int.lt_or_le v.toInt 0 with h | h
  · have hz := zigzag_neg h
    rw [unzigzag_odd (by omega)]
    omega
  · have hz := zigzag_nonneg h
    rw [unzigzag_even (by omega)]
    omega

theorem zigzag_lt (v : Int64) (k : Nat) :
    (zigzag v).toNat < 2 ^ (k + 1) ↔ -2 ^ k ≤ v.toInt ∧ v.toInt < 2 ^ k := by
  have hc : ((2 ^ k : Nat) : Int) = 2 ^ k := by push_cast; rfl
  rcases Int.lt_or_le v.toInt 0 with h | h
  · have hz := zigzag_neg h
    omega
  · have hz := zigzag_nonneg h
    omega

end Varint
