import Mathlib

/-!
# Mixing steps

The steps that a hash of words is made of: the exclusive or of a word with itself shifted to the
right (`xorShift`), the exclusive or with a constant, and the product with a constant that has an
inverse. Each takes every value, so a composition of such steps does. A bit of `xorShift s x` is
made of that bit of `x` and a higher one, so the bits of `x` can be told from the highest on.
-/

namespace Mixing

variable {w : Nat}

/-- A word, mixed with itself shifted to the right. -/
def xorShift (s : Nat) (x : BitVec w) : BitVec w := x ^^^ (x >>> s)

theorem getLsbD_xorShift (s : Nat) (x : BitVec w) (i : Nat) :
    (xorShift s x).getLsbD i = (x.getLsbD i ^^ x.getLsbD (s + i)) := by
  rw [xorShift, BitVec.getLsbD_xor, BitVec.getLsbD_ushiftRight]

/-- Equal images agree bit by bit, from the top bit down. -/
theorem xorShift_injective {s : Nat} (hs : 0 < s) : Function.Injective (xorShift (w := w) s) := by
  intro x y hxy
  -- by induction on the number of bits above the one in question
  have hbits : ∀ k i, w ≤ i + k → x.getLsbD i = y.getLsbD i := by
    intro k
    induction k with
    | zero =>
      intro i hi
      rw [BitVec.getLsbD_of_ge x i hi, BitVec.getLsbD_of_ge y i hi]
    | succ k ih =>
      intro i hi
      have hbit := congrArg (fun v => BitVec.getLsbD v i) hxy
      simp only [getLsbD_xorShift, ih (s + i) (by omega)] at hbit
      exact Bool.xor_left_inj.1 hbit
  exact BitVec.eq_of_getLsbD_eq fun i _ => hbits w i (Nat.le_add_left w i)

theorem xorShift_surjective {s : Nat} (hs : 0 < s) : Function.Surjective (xorShift (w := w) s) :=
  Finite.surjective_of_injective (xorShift_injective hs)

/-- A factor with a left inverse reaches everything. -/
theorem mul_surjective {M : Type*} [Monoid M] {m m' : M} (h : m' * m = 1) :
    Function.Surjective (· * m) := by
  intro y
  refine ⟨y * m', ?_⟩
  dsimp only
  rw [mul_assoc, h, mul_one]

/-! ## Words of 32 bits -/

theorem xorShift32_surjective {s : UInt32} (hs : 0 < (s.toBitVec % 32).toNat) :
    Function.Surjective fun x : UInt32 => x ^^^ (x >>> s) := by
  intro y
  obtain ⟨x, hx⟩ := xorShift_surjective hs y.toBitVec
  refine ⟨⟨x⟩, UInt32.toBitVec_inj.1 ?_⟩
  exact hx

theorem xor32_surjective (c : UInt32) : Function.Surjective (c ^^^ ·) := by
  intro y
  refine ⟨c ^^^ y, ?_⟩
  dsimp only
  rw [← UInt32.xor_assoc, UInt32.xor_self, UInt32.zero_xor]

/-- A word is made of its bytes. -/
theorem or_bytes (x : UInt32) : x.toUInt8.toUInt32 ||| (x >>> 8).toUInt8.toUInt32 <<< 8 |||
      (x >>> 16).toUInt8.toUInt32 <<< 16 ||| (x >>> 24).toUInt8.toUInt32 <<< 24 = x := by
  refine UInt32.toBitVec_inj.1 (BitVec.eq_of_getLsbD_eq fun i hi => ?_)
  have h8 : (8 : UInt32).toBitVec % 32 = 8 := by decide
  have h16 : (16 : UInt32).toBitVec % 32 = 16 := by decide
  have h24 : (24 : UInt32).toBitVec % 32 = 24 := by decide
  -- bit `i` is in one of the four bytes
  simp only [UInt32.toBitVec_or, UInt32.toBitVec_shiftLeft, UInt32.toBitVec_shiftRight,
    UInt8.toBitVec_toUInt32, UInt32.toBitVec_toUInt8, BitVec.getLsbD_or]
  grind

end Mixing
