import Mathlib

/-!
# Cutting a list at its n-th hit

A loop that collects entries until it has `n` of the kind it counts keeps the prefix `cut p n` of
its input: everything up to and including the `n`-th entry that satisfies `p`, or everything if
there are fewer. A limit of 0 is no limit. Cutting each of several lists and then the concatenation
is the same as cutting the concatenation (`cut_flatten_map_cut`), so a loop over capped inputs sees
no effect of the caps.
-/

universe u

namespace Cut

open List

variable {α : Type u} (p : α → Bool)

/-- The prefix up to and including the `n`-th entry that satisfies `p`. -/
def cut : Nat → List α → List α
  | _, [] => []
  | n, x :: xs => if p x then (if n = 1 then [x] else x :: cut (n - 1) xs) else x :: cut n xs

/-- The limit is not reached by the entries counted so far. -/
def Open (n count : Nat) : Prop := n = 0 ∨ count < n

instance (n count : Nat) : Decidable (Open n count) := inferInstanceAs (Decidable (_ ∨ _))

variable {p}

@[simp] theorem cut_nil : cut p n [] = [] := by
  cases n <;> rfl

theorem cut_cons_of_not (h : p x = false) : cut p n (x :: xs) = x :: cut p n xs := by
  simp [cut, h]

theorem cut_cons_last (h : p x = true) (hn : n = 1) (xs : List α) : cut p n (x :: xs) = [x] := by
  simp [cut, h, hn]

theorem cut_cons_of (h : p x = true) (hn : n ≠ 1) (xs : List α) :
    cut p n (x :: xs) = x :: cut p (n - 1) xs := by
  simp [cut, h, hn]

/-- The first entry of a cut with `count` hits behind it: the rest is cut too, if there is room. -/
theorem cut_cons_remaining {count : Nat} (h : Open n count) (x : α) (xs : List α) :
    cut p (n - count) (x :: xs) =
      x :: if Open n (count + [x].countP p) then cut p (n - (count + [x].countP p)) xs else [] := by
  simp only [Open] at h
  cases hx : p x with
  | false =>
    have hcount : [x].countP p = 0 := by simp [hx]
    rw [hcount, cut_cons_of_not hx, if_pos (by simp only [Open]; omega), Nat.add_zero]
  | true =>
    have hcount : [x].countP p = 1 := by simp [hx]
    rw [hcount]
    by_cases hlast : n - count = 1
    · rw [cut_cons_last hx hlast, if_neg (by simp only [Open]; omega)]
    · rw [cut_cons_of hx hlast, if_pos (by simp only [Open]; omega), Nat.sub_sub]

theorem cut_map {β : Type u} (f : β → α) (n : Nat) (l : List β) :
    cut p n (l.map f) = (cut (fun b => p (f b)) n l).map f := by
  induction l generalizing n with
  | nil => simp
  | cons x xs ih =>
    rw [map_cons, cut, cut]
    split_ifs
    · rfl
    · rw [map_cons, ih]
    · rw [map_cons, ih]

/-- A cut is a prefix. -/
theorem cut_isPrefixOf (n : Nat) (l : List α) : cut p n l <+: l := by
  induction l generalizing n with
  | nil => simp
  | cons x xs ih =>
    rw [cut]
    split_ifs with hx hn
    · exact ⟨xs, rfl⟩
    · exact prefix_cons_inj x |>.2 (ih _)
    · exact prefix_cons_inj x |>.2 (ih _)

theorem cut_append (n : Nat) (l m : List α) : cut p n (l ++ m) =
      if Open n (l.countP p) then l ++ cut p (n - l.countP p) m else cut p n l := by
  induction l generalizing n with
  | nil =>
    by_cases hn : Open n 0
    · simp [hn]
    · simp only [Open] at hn
      omega
  | cons x xs ih =>
    cases hx : p x with
    | false =>
      rw [cons_append, cut_cons_of_not hx, cut_cons_of_not hx, ih,
        countP_cons_of_neg (by simp [hx])]
      split_ifs <;> rfl
    | true =>
      rw [cons_append, countP_cons_of_pos hx]
      by_cases hn : n = 1
      · rw [cut_cons_last hx hn, cut_cons_last hx hn, if_neg (by simp only [Open]; omega)]
      · rw [cut_cons_of hx hn, cut_cons_of hx hn, ih, Nat.sub_sub, Nat.add_comm 1]
        by_cases ho : Open (n - 1) (xs.countP p)
        · rw [if_pos ho, if_pos (by simp only [Open] at ho ⊢; omega)]
          rfl
        · rw [if_neg ho, if_neg (by simp only [Open] at ho ⊢; omega)]

theorem cut_eq_self (h : Open n (l.countP p)) : cut p n l = l := by
  have happ := cut_append (p := p) n l []
  rwa [append_nil, if_pos h, cut_nil, append_nil] at happ

/-- A cut holds as many hits as there are, up to the limit. -/
theorem countP_cut (hn : n ≠ 0) (l : List α) : (cut p n l).countP p = min n (l.countP p) := by
  induction l generalizing n with
  | nil => simp
  | cons x xs ih =>
    cases hx : p x with
    | false =>
      rw [cut_cons_of_not hx, countP_cons_of_neg (by simp [hx]), ih hn,
        countP_cons_of_neg (by simp [hx])]
    | true =>
      rw [countP_cons_of_pos hx]
      by_cases h1 : n = 1
      · rw [cut_cons_last hx h1, countP_cons_of_pos hx, countP_nil]
        omega
      · rw [cut_cons_of hx h1, countP_cons_of_pos hx, ih (by omega)]
        omega

/-- A smaller cut of a cut. -/
theorem cut_cut (hk : k ≠ 0) (hkn : k ≤ n) (l : List α) : cut p k (cut p n l) = cut p k l := by
  obtain ⟨m, hm⟩ := cut_isPrefixOf (p := p) n l
  by_cases ho : Open n (l.countP p)
  · rw [cut_eq_self ho]
  · have hfull : ¬ Open k ((cut p n l).countP p) := by
      rw [countP_cut (by omega)]
      simp only [Open] at ho ⊢
      omega
    have happ := cut_append (p := p) k (cut p n l) m
    rw [hm, if_neg hfull] at happ
    exact happ.symm

/-- Capping the parts of a concatenation at the limit or above changes nothing. -/
theorem cut_flatten_map_cut (hk : k ≠ 0) (hkn : k ≤ n) (ls : List (List α)) :
    cut p k (ls.map (cut p n)).flatten = cut p k ls.flatten := by
  induction ls generalizing k with
  | nil => rfl
  | cons l ls ih =>
    rw [map_cons, flatten_cons, flatten_cons, cut_append, cut_append]
    by_cases ho : Open k (l.countP p)
    · have hl : cut p n l = l := cut_eq_self (by simp only [Open] at ho ⊢; omega)
      rw [hl, if_pos ho, if_pos ho, ih (by simp only [Open] at ho; omega) (by omega)]
    · have hfull : ¬ Open k ((cut p n l).countP p) := by
        rw [countP_cut (by omega)]
        simp only [Open] at ho ⊢
        omega
      rw [if_neg hfull, if_neg ho, cut_cut hk hkn]

theorem mem_cut (h : Open n (l.countP p)) : x ∈ cut p n (l ++ x :: m) := by
  rw [cut_append, if_pos h]
  refine mem_append_right _ ?_
  rw [cut]
  split_ifs <;> exact mem_cons_self

/-- What the hits of a cut carry is the first `n` of what all of them carry. -/
theorem filterMap_cut {β : Type u} (f : α → Option β) (hn : n ≠ 0) (l : List α) :
    (cut (fun x => (f x).isSome) n l).filterMap f = (l.filterMap f).take n := by
  have hprefix := (cut_isPrefixOf (p := fun x => (f x).isSome) n l).filterMap f
  have hlen : ((cut (fun x => (f x).isSome) n l).filterMap f).length =
      min n (l.filterMap f).length := by
    rw [length_filterMap_eq_countP, length_filterMap_eq_countP]
    exact countP_cut hn l
  rw [prefix_iff_eq_take.1 hprefix, hlen, ← take_eq_take_min]

end Cut
