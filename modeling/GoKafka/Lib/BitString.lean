import Mathlib

/-!
# Bit strings

`bitsOf n v` lists the `n` low bits of `v`, the lowest first, and `bytesBits` the bits of a byte
string, each byte's lowest first. A field put above another stands behind it in the string
(`bitsOf_or`), so a string written field by field can be read back from its end, the last field
first. `leBytes w v` is the little-endian representation of `v` in `w` bytes, which holds its low
bits in order (`bytesBits_leBytes`), and `leNat` reads it back.
-/

namespace BitString

open List

/-- The `n` low bits of `v`, the lowest first. -/
def bitsOf (n v : Nat) : List Bool := (List.range n).map v.testBit

/-- The bits of a byte string. -/
def bytesBits (bs : List UInt8) : List Bool := bs.flatMap fun b => bitsOf 8 b.toNat

/-- The `w` low-order bytes of `v`, least significant first. -/
def leBytes : Nat → Nat → List UInt8
  | 0, _ => []
  | w + 1, v => UInt8.ofNat v :: leBytes w (v >>> 8)

/-- The number a byte string spells, least significant byte first. -/
def leNat : List UInt8 → Nat
  | [] => 0
  | b :: bs => b.toNat + 256 * leNat bs

@[simp] theorem length_bitsOf (n v : Nat) : (bitsOf n v).length = n := by simp [bitsOf]

@[simp] theorem bitsOf_zero (v : Nat) : bitsOf 0 v = [] := rfl

@[simp] theorem bytesBits_nil : bytesBits [] = [] := rfl

@[simp] theorem bytesBits_cons (b : UInt8) (bs : List UInt8) :
    bytesBits (b :: bs) = bitsOf 8 b.toNat ++ bytesBits bs := List.flatMap_cons

@[simp] theorem bytesBits_append (as bs : List UInt8) :
    bytesBits (as ++ bs) = bytesBits as ++ bytesBits bs := List.flatMap_append

@[simp] theorem length_bytesBits (bs : List UInt8) : (bytesBits bs).length = 8 * bs.length := by
  induction bs with
  | nil => rfl
  | cons b bs ih =>
    rw [bytesBits_cons, length_append, length_bitsOf, length_cons]
    omega

theorem bitsOf_congr (h : ∀ i < n, v.testBit i = w.testBit i) : bitsOf n v = bitsOf n w :=
  List.map_congr_left fun i hi => h i (List.mem_range.1 hi)

theorem bitsOf_mod (h : n ≤ m) (v : Nat) : bitsOf n (v % 2 ^ m) = bitsOf n v := by
  refine bitsOf_congr fun i hi => ?_
  rw [Nat.testBit_mod_two_pow, decide_eq_true (hi.trans_le h), Bool.true_and]

theorem bitsOf_add (m n v : Nat) : bitsOf (m + n) v = bitsOf m v ++ bitsOf n (v >>> m) := by
  rw [bitsOf, range_add, map_append, map_map]
  congr 1
  refine map_congr_left fun i _ => ?_
  rw [Function.comp_apply, Nat.testBit_shiftRight]

/-- A field put above another stands behind it. -/
theorem bitsOf_or (hx : x < 2 ^ m) (n y : Nat) :
    bitsOf (m + n) (x ||| y <<< m) = bitsOf m x ++ bitsOf n y := by
  rw [bitsOf_add]
  congr 1
  · refine bitsOf_congr fun i hi => ?_
    simp [hi]
  · refine bitsOf_congr fun i _ => ?_
    have hlow : x.testBit (m + i) = false :=
      Nat.testBit_lt_two_pow
        (hx.trans_le (Nat.pow_le_pow_right Nat.two_pos (Nat.le_add_right m i)))
    simp [hlow]

theorem bitsOf_of_lt (h : v < 2 ^ n) : bitsOf (n + m) v = bitsOf n v ++ List.replicate m false := by
  rw [bitsOf_add, Nat.shiftRight_eq_div_pow, Nat.div_eq_of_lt h]
  congr 1
  refine eq_replicate_iff.2 ⟨length_bitsOf m 0, fun b hb => ?_⟩
  obtain ⟨i, -, rfl⟩ := mem_map.1 hb
  exact Nat.zero_testBit i

theorem bitsOf_inj (hv : v < 2 ^ n) (hw : w < 2 ^ n) (h : bitsOf n v = bitsOf n w) : v = w := by
  refine Nat.eq_of_testBit_eq fun i => ?_
  by_cases hi : i < n
  · exact map_inj_left.1 h i (mem_range.2 hi)
  · have hle := Nat.pow_le_pow_right Nat.two_pos (Nat.le_of_not_lt hi)
    rw [Nat.testBit_lt_two_pow (hv.trans_le hle), Nat.testBit_lt_two_pow (hw.trans_le hle)]

@[simp] theorem length_leBytes (w v : Nat) : (leBytes w v).length = w := by
  induction w generalizing v with
  | zero => rfl
  | succ w ih => rw [leBytes, length_cons, ih]

/-- The little-endian bytes of a number hold its low bits. -/
theorem bytesBits_leBytes (w v : Nat) : bytesBits (leBytes w v) = bitsOf (8 * w) v := by
  induction w generalizing v with
  | zero => rfl
  | succ w ih =>
    rw [leBytes, bytesBits_cons, ih, UInt8.toNat_ofNat', bitsOf_mod (Nat.le_refl 8), Nat.mul_succ,
      Nat.add_comm, bitsOf_add]

/-- Reading back what was written gives the number modulo the width. -/
theorem leNat_leBytes (w v : Nat) : leNat (leBytes w v) = v % 256 ^ w := by
  induction w generalizing v with
  | zero => rw [leBytes, leNat, Nat.pow_zero, Nat.mod_one]
  | succ w ih =>
    have hpow : 2 ^ 8 = 256 := rfl
    rw [leBytes, leNat, ih, UInt8.toNat_ofNat', Nat.shiftRight_eq_div_pow, hpow, Nat.pow_succ',
      Nat.mod_mul]

end BitString
