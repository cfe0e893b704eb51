import Mathlib

/-!
# Big-endian numbers

`beBytes w n` is the big-endian representation of `n` modulo `256 ^ w` in `w` bytes, and `beNat`
reads a byte string back as a number. They are mutually inverse up to that modulus.
-/

namespace BigEndian

/-- The `w` low-order bytes of `n`, most significant first. -/
def beBytes : Nat → Nat → List UInt8
  | 0, _ => []
  | w + 1, n => UInt8.ofNat (n / 256 ^ w) :: beBytes w n

/-- The number a byte string spells, most significant byte first. -/
def beNat (bs : List UInt8) : Nat := bs.foldl (fun acc b => acc * 256 + b.toNat) 0

@[simp] theorem length_beBytes (w n : Nat) : (beBytes w n).length = w := by
  induction w with
  | zero => rfl
  | succ w ih => simp [beBytes, ih]

/-- The accumulator of `beNat` weighs the bytes read so far. -/
theorem foldl_beNat (bs : List UInt8) (acc : Nat) :
    bs.foldl (fun acc b => acc * 256 + b.toNat) acc = acc * 256 ^ bs.length + beNat bs := by
  induction bs generalizing acc with
  | nil => simp [beNat]
  | cons b bs ih =>
    simp only [List.foldl_cons, List.length_cons, beNat]
    rw [ih, ih (0 * 256 + b.toNat)]
    ring

theorem beNat_cons (b : UInt8) (bs : List UInt8) :
    beNat (b :: bs) = b.toNat * 256 ^ bs.length + beNat bs := by
  rw [beNat, List.foldl_cons, foldl_beNat]
  simp

/-- Reading back what was written gives the number modulo the width. -/
theorem beNat_beBytes (w n : Nat) : beNat (beBytes w n) = n % 256 ^ w := by
  induction w with
  | zero => simp [beBytes, beNat, Nat.mod_one]
  | succ w ih =>
    rw [beBytes, beNat_cons, length_beBytes, ih, UInt8.toNat_ofNat', pow_succ 256 w, Nat.mod_mul,
      Nat.mul_comm, Nat.add_comm]

/-- The upper bytes stand before the lower ones. -/
theorem beBytes_add (v w n : Nat) : beBytes (v + w) n = beBytes v (n / 256 ^ w) ++ beBytes w n := by
  induction v with
  | zero => rw [Nat.zero_add, beBytes, List.nil_append]
  | succ v ih =>
    rw [Nat.add_right_comm, beBytes, beBytes, ih, Nat.div_div_eq_div_mul, ← pow_add, Nat.add_comm w]
    rfl

theorem beNat_lt (bs : List UInt8) : beNat bs < 256 ^ bs.length := by
  induction bs with
  | nil => simp [beNat]
  | cons b bs ih =>
    have hb := b.toNat_lt
    rw [beNat_cons]
    calc b.toNat * 256 ^ bs.length + beNat bs
        < b.toNat * 256 ^ bs.length + 256 ^ bs.length := Nat.add_lt_add_left ih _
      _ = (b.toNat + 1) * 256 ^ bs.length := by ring
      _ ≤ 256 * 256 ^ bs.length := Nat.mul_le_mul_right _ (by omega)
      _ = 256 ^ bs.length * 256 := Nat.mul_comm _ _

/-- The bytes above those that are written do not matter. -/
theorem beBytes_mod (w n : Nat) : beBytes w (n % 256 ^ w) = beBytes w n := by
  have hle : ∀ v ≤ w, beBytes v (n % 256 ^ w) = beBytes v n := by
    intro v hv
    induction v with
    | zero => rfl
    | succ v ih =>
      have hdigit : n % 256 ^ w / 256 ^ v % 256 = n / 256 ^ v % 256 := by
        have hsplit : 256 ^ w = 256 ^ v * (256 * 256 ^ (w - v - 1)) := by
          rw [← pow_succ', ← pow_add]
          congr 1
          omega
        rw [hsplit, Nat.mod_mul_right_div_self, Nat.mod_mul_right_mod]
      have hfirst : UInt8.ofNat (n % 256 ^ w / 256 ^ v) = UInt8.ofNat (n / 256 ^ v) := by
        refine UInt8.toNat_inj.1 ?_
        exact hdigit
      rw [beBytes, beBytes, hfirst, ih (by omega)]
  exact hle w (Nat.le_refl w)

/-- Every byte string is the representation of the number it spells. -/
theorem beBytes_beNat (bs : List UInt8) : beBytes bs.length (beNat bs) = bs := by
  induction bs with
  | nil => rfl
  | cons b bs ih =>
    have hlt := beNat_lt bs
    have hpos : 0 < 256 ^ bs.length := Nat.pow_pos (by decide)
    have hfirst : (b.toNat * 256 ^ bs.length + beNat bs) / 256 ^ bs.length = b.toNat := by
      rw [Nat.mul_comm, Nat.mul_add_div hpos, Nat.div_eq_of_lt hlt, Nat.add_zero]
    have hrest : (b.toNat * 256 ^ bs.length + beNat bs) % 256 ^ bs.length = beNat bs := by
      rw [Nat.mul_comm, Nat.mul_add_mod, Nat.mod_eq_of_lt hlt]
    rw [List.length_cons, beBytes, beNat_cons, hfirst, ← beBytes_mod, hrest, ih, UInt8.ofNat_toNat]

end BigEndian
