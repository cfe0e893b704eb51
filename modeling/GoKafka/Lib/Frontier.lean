import Mathlib

/-!
# A cursor pushed by a growing bound

A loop keeps an index into a list and, at each bound it meets, moves the index past the front
entries whose key is within the bound. `upTo` is what a bound takes off the front and `beyond` what
it leaves. Nothing here assumes the list sorted: `reached c` is what the cursor passes when the
bound grows to `c` from anything smaller, and a bound takes exactly what the smaller ones reached
(`mem_upTo_iff`). On a list sorted by key the cursor takes the entries within the bound and no
others (`mem_upTo_of_sorted`).
-/

universe u v

namespace Frontier

open List

variable {α : Type u} {κ : Type v} [LinearOrder κ] (key : α → κ)

/-- The front entries a bound takes. -/
def upTo (c : κ) (l : List α) : List α := l.takeWhile (key · ≤ c)

/-- What a bound leaves. -/
def beyond (c : κ) (l : List α) : List α := l.dropWhile (key · ≤ c)

/-- The entries taken when the bound grows to `c` from just below it. -/
def reached (c : κ) (l : List α) : List α := upTo key c (l.dropWhile (key · < c))

variable {key}

@[simp] theorem upTo_nil (c : κ) : upTo key c [] = [] := rfl
@[simp] theorem beyond_nil (c : κ) : beyond key c [] = [] := rfl
@[simp] theorem reached_nil (c : κ) : reached key c [] = [] := rfl

theorem upTo_append_beyond (c : κ) (l : List α) : upTo key c l ++ beyond key c l = l :=
  List.takeWhile_append_dropWhile

theorem upTo_cons_of_le (h : key a ≤ c) (l : List α) : upTo key c (a :: l) = a :: upTo key c l := by
  simp [upTo, h]

theorem upTo_cons_of_lt (h : c < key a) (l : List α) : upTo key c (a :: l) = [] := by
  simp [upTo, h.not_ge]

theorem beyond_cons_of_le (h : key a ≤ c) (l : List α) :
    beyond key c (a :: l) = beyond key c l := by
  simp [beyond, h]

theorem beyond_cons_of_lt (h : c < key a) (l : List α) : beyond key c (a :: l) = a :: l := by
  simp [beyond, h.not_ge]

theorem reached_cons_of_lt (h : key a < c) (l : List α) :
    reached key c (a :: l) = reached key c l := by
  simp [reached, h]

theorem reached_cons_of_le (h : c ≤ key a) (l : List α) :
    reached key c (a :: l) = upTo key c (a :: l) := by
  simp [reached, h.not_gt]

theorem le_of_mem_upTo (h : a ∈ upTo key c l) : key a ≤ c := by
  have := mem_takeWhile_imp h
  simpa using this

theorem mem_of_mem_upTo (h : a ∈ upTo key c l) : a ∈ l :=
  (List.takeWhile_sublist _).subset h

theorem mem_of_mem_beyond (h : a ∈ beyond key c l) : a ∈ l :=
  (List.dropWhile_sublist _).subset h

theorem upTo_subset (hcd : c ≤ d) (h : a ∈ upTo key c l) : a ∈ upTo key d l := by
  induction l with
  | nil => exact h
  | cons b l ih =>
    rcases lt_or_ge c (key b) with hb | hb
    · rw [upTo_cons_of_lt hb] at h
      cases h
    · rw [upTo_cons_of_le hb] at h
      rw [upTo_cons_of_le (hb.trans hcd)]
      rcases mem_cons.1 h with rfl | h
      · exact mem_cons_self
      · exact mem_cons_of_mem _ (ih h)

/-- What is reached at a bound is taken by it. -/
theorem upTo_of_reached (h : a ∈ reached key c l) : a ∈ upTo key c l := by
  induction l with
  | nil => exact h
  | cons b l ih =>
    rcases lt_or_ge (key b) c with hb | hb
    · rw [reached_cons_of_lt hb] at h
      rw [upTo_cons_of_le hb.le]
      exact mem_cons_of_mem _ (ih h)
    · rwa [reached_cons_of_le hb] at h

theorem mem_upTo_iff : a ∈ upTo key c l ↔ ∃ d ≤ c, a ∈ reached key d l := by
  constructor
  · intro h
    induction l with
    | nil => cases h
    | cons b l ih =>
      have hb : key b ≤ c := le_of_not_gt fun hb => by
        rw [upTo_cons_of_lt hb] at h
        cases h
      rw [upTo_cons_of_le hb] at h
      -- the head holds the cursor back until the bound is its key
      have hself : ∀ {x}, x ∈ b :: upTo key (key b) l → ∃ d ≤ c, x ∈ reached key d (b :: l) := by
        intro x hx
        refine ⟨key b, hb, ?_⟩
        rwa [reached_cons_of_le le_rfl, upTo_cons_of_le le_rfl]
      rcases mem_cons.1 h with rfl | h
      · exact hself mem_cons_self
      · obtain ⟨d, hd, hreach⟩ := ih h
        rcases lt_or_ge (key b) d with hbd | hbd
        · exact ⟨d, hd, by rwa [reached_cons_of_lt hbd]⟩
        · exact hself (mem_cons_of_mem _ (upTo_subset hbd (upTo_of_reached hreach)))
  · rintro ⟨d, hd, hreach⟩
    exact upTo_subset hd (upTo_of_reached hreach)

/-- Behind a bound, nothing more is reached within it and the rest is reached as before. -/
theorem reached_beyond (c d : κ) (l : List α) :
    reached key d (beyond key c l) = if d ≤ c then [] else reached key d l := by
  induction l with
  | nil => simp
  | cons b l ih =>
    rcases lt_or_ge c (key b) with hb | hb
    · rw [beyond_cons_of_lt hb]
      split_ifs with hd
      · rw [reached_cons_of_le (hd.trans hb.le), upTo_cons_of_lt (hd.trans_lt hb)]
      · rfl
    · rw [beyond_cons_of_le hb, ih]
      split_ifs with hd
      · rfl
      · rw [reached_cons_of_lt (hb.trans_lt (lt_of_not_ge hd))]

theorem mem_upTo_of_sorted (hl : l.Pairwise (key · ≤ key ·)) (ha : a ∈ l) (hc : key a ≤ c) :
    a ∈ upTo key c l := by
  induction l with
  | nil => cases ha
  | cons b l ih =>
    obtain ⟨hb, hl⟩ := pairwise_cons.1 hl
    rcases mem_cons.1 ha with rfl | ha
    · rw [upTo_cons_of_le hc]
      exact mem_cons_self
    · rw [upTo_cons_of_le ((hb a ha).trans hc)]
      exact mem_cons_of_mem _ (ih hl ha)

theorem lt_of_mem_beyond (hl : l.Pairwise (key · ≤ key ·)) (ha : a ∈ beyond key c l) :
    c < key a := by
  induction l with
  | nil => cases ha
  | cons b l ih =>
    obtain ⟨hb, hl⟩ := pairwise_cons.1 hl
    rcases lt_or_ge c (key b) with hcb | hcb
    · rw [beyond_cons_of_lt hcb] at ha
      rcases mem_cons.1 ha with rfl | ha
      · exact hcb
      · exact hcb.trans_le (hb a ha)
    · rw [beyond_cons_of_le hcb] at ha
      exact ih hl ha

end Frontier
