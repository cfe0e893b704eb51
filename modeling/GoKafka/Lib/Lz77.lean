import Mathlib

/-!
# Back references

A text has a repeat at a position if what follows the position also follows an earlier one, some
distance back (`Repeats`). The two stretches may overlap; then the text is periodic from the
earlier position on (`Repeats.periodic`). `commonLength` finds how far a repeat goes, and `copyBack`
writes it out from the text before it, an element at a time (`Repeats.copyBack`); `copyLoop` does so
in chunks that may read what the loop itself has written (`Repeats.copyLoop`).
-/

namespace Lz77

variable {α : Type*}

/-- The length of the common beginning of two lists, up to `limit`. -/
def commonLength [DecidableEq α] : Nat → List α → List α → Nat
  | limit + 1, a :: as, b :: bs => if a = b then commonLength limit as bs + 1 else 0
  | _, _, _ => 0

/-- At `pos` the text repeats `len` elements from `dist` before. -/
structure Repeats (text : List α) (pos dist len : Nat) : Prop where
  pos_dist : 0 < dist
  dist_le : dist ≤ pos
  le_length : pos + len ≤ text.length
  agree : ∀ i < len, text[pos - dist + i]? = text[pos + i]?

/-- Append the element `dist` back, `len` times. -/
def copyBack (dist : Nat) : Nat → List α → List α
  | 0, text => text
  | len + 1, text =>
    let text := copyBack dist len text
    text ++ (text[text.length - dist]?).toList

/-- Append `count` elements of `buffer` from `start` on, as many at a time as there are. -/
def copyLoop (start : Nat) : Nat → List α → Nat → List α
  | 0, buffer, _ => buffer
  | rounds + 1, buffer, count =>
    if count = 0 then buffer
    else
      let chunk := min (buffer.length - start) count
      copyLoop start rounds (buffer ++ (buffer.drop start).take chunk) (count - chunk)

section Common

variable [DecidableEq α]

theorem commonLength_le (limit : Nat) (as bs : List α) : commonLength limit as bs ≤ limit := by
  fun_induction commonLength limit as bs with
  | case1 limit as b bs ih => exact Nat.succ_le_succ ih
  | case2 | case3 => exact Nat.zero_le _

/-- Before their common length two lists agree. -/
theorem getElem?_of_lt_commonLength {bs : List α} (h : i < commonLength limit as bs) :
    as[i]? = bs[i]? := by
  fun_induction commonLength limit as bs generalizing i with
  | case1 limit as b bs ih =>
    cases i with
    | zero => rfl
    | succ i =>
      rw [List.getElem?_cons_succ]
      exact ih (Nat.lt_of_succ_lt_succ h)
  | case2 | case3 => cases h

/-- The common beginning of what follows two positions is a repeat at the later one. -/
theorem repeats_commonLength {text : List α} (hstart : start < pos)
    (hlimit : pos + limit ≤ text.length) :
    Repeats text pos (pos - start)
      (commonLength limit (text.drop start) (text.drop pos)) := by
  have hle := commonLength_le limit (text.drop start) (text.drop pos)
  refine ⟨by omega, by omega, by omega, fun i hi => ?_⟩
  have hget := getElem?_of_lt_commonLength hi
  rwa [List.getElem?_drop, List.getElem?_drop, ← Nat.sub_sub_self (Nat.le_of_lt hstart)] at hget

end Common

section Copy

variable {dist : Nat}

/-- A repeat is periodic from the earlier position on. -/
theorem Repeats.periodic (h : Repeats text pos dist len) (k : Nat)
    (hi : i + k * dist < dist + len) :
    text[pos - dist + i + k * dist]? = text[pos - dist + i]? := by
  induction k with
  | zero => rw [Nat.zero_mul, Nat.add_zero]
  | succ k ih =>
    rw [Nat.succ_mul] at hi ⊢
    have hdist := h.dist_le
    have hstep := h.agree (i + k * dist) (by omega)
    rw [← Nat.add_assoc, ih (by omega)] at hstep
    rw [hstep]
    congr 1
    omega

/-- Copying a repeat element by element gives the text up to its end. -/
theorem Repeats.copyBack (h : Repeats text pos dist len) :
    copyBack dist len (text.take pos) = text.take (pos + len) := by
  suffices hcopy : ∀ n ≤ len, Lz77.copyBack dist n (text.take pos) = text.take (pos + n) from
    hcopy len (Nat.le_refl len)
  intro n
  induction n with
  | zero => exact fun _ => rfl
  | succ n ih =>
    intro hn
    have hlen := h.le_length
    have hpos := h.pos_dist
    have hdist := h.dist_le
    have hback : pos + n - dist = pos - dist + n := by omega
    rw [Lz77.copyBack, ih (Nat.le_of_succ_le hn),
      List.length_take_of_le (by omega), List.getElem?_take_of_lt (by omega), hback,
      h.agree n (by omega), ← List.take_add_one, Nat.add_assoc]

/-- Copying a repeat out of the text before it gives the text up to its end. -/
theorem Repeats.copyLoop (h : Repeats text pos dist len) (hrounds : len ≤ rounds) :
    copyLoop (pos - dist) rounds (text.take pos) len = text.take (pos + len) := by
  -- every chunk starts a whole number of periods after the earlier position
  suffices hloop : ∀ rounds q k, q = pos - dist + k * dist → pos ≤ q → q ≤ pos + len →
      pos + len - q ≤ rounds → Lz77.copyLoop (pos - dist) rounds (text.take q) (pos + len - q) =
        text.take (pos + len) by
    have hdist := h.dist_le
    have hfirst := hloop rounds pos 1 (by omega) (Nat.le_refl _) (Nat.le_add_right ..) (by omega)
    rwa [Nat.add_sub_cancel_left] at hfirst
  intro rounds
  induction rounds with
  | zero =>
    intro q k _ _ hq hrounds
    obtain rfl : q = pos + len := by omega
    rfl
  | succ rounds ih =>
    intro q k hk hpos hq hrounds
    rw [Lz77.copyLoop]
    split
    · obtain rfl : q = pos + len := by omega
      rfl
    · have hlen := h.le_length
      have hdist := h.dist_le
      have hchunk : (text.take q).length = q := List.length_take_of_le (by omega)
      rw [hchunk]
      dsimp only
      generalize hc : min (q - (pos - dist)) (pos + len - q) = c
      have hcopy : text.take q ++ ((text.take q).drop (pos - dist)).take c = text.take (q + c) := by
        rw [List.take_add]
        congr 1
        refine List.ext_getElem? fun i => ?_
        by_cases hi : i < c
        · rw [List.getElem?_take_of_lt hi, List.getElem?_drop, List.getElem?_take_of_lt (by omega),
            List.getElem?_take_of_lt hi, List.getElem?_drop, ← h.periodic k (by omega), hk,
            Nat.add_right_comm]
        · rw [List.getElem?_eq_none (by rw [List.length_take]; omega),
            List.getElem?_eq_none (by rw [List.length_take]; omega)]
      rw [hcopy, show pos + len - q - c = pos + len - (q + c) by omega]
      rcases Nat.le_total (q - (pos - dist)) (pos + len - q) with hle | hle
      · refine ih (q + c) (k + k) ?_ (by omega) (by omega) ?_
        · rw [Nat.add_mul]
          omega
        · have := h.pos_dist
          omega
      · rw [Nat.min_eq_right hle] at hc
        obtain rfl : c = pos + len - q := hc.symm
        rw [Nat.add_sub_cancel' hq, Nat.sub_self]
        cases rounds <;> rfl

end Copy

end Lz77
