import Mathlib

/-!
# Slices that share arrays

A slice is a length over the array at an address of a heap; its capacity is the length of the
array. Appending writes into the array while there is room and moves to a new array, with spare
room of any size, when there is none. Two slices of one array see each other's writes.
`keep` is the loop that filters a slice into its own array: it ranges over the slice and appends to
the same array cut to length 0. It never overwrites an element before it has read it, because it
has kept at most as many as it has read (`Keeping`), so that it computes the filter (`keep_spec`).
-/

universe u

namespace Slices

open List

variable {α : Type u}

/-- The arrays, by their addresses. -/
abbrev Heap (α : Type u) := List (List α)

/-- A slice from the start of an array. -/
structure Slice where
  addr : Nat
  len : Nat

/-- The array of a slice. -/
def array (h : Heap α) (s : Slice) : List α := (h[s.addr]?).getD []

/-- The elements of a slice. -/
def elems (h : Heap α) (s : Slice) : List α := (array h s).take s.len

/-- The slice has an array, which is long enough. -/
structure Valid (h : Heap α) (s : Slice) : Prop where
  addr : s.addr < h.length
  len : s.len ≤ (array h s).length

/-- `s[:n]`. -/
def Slice.cut (s : Slice) (n : Nat) : Slice := { s with len := n }

/-- `append(s, x)`; `room` is the spare room of a new array. -/
def append (room : Nat → List α) (h : Heap α) (s : Slice) (x : α) : Heap α × Slice :=
  if s.len < (array h s).length then
    (h.set s.addr ((array h s).set s.len x), { s with len := s.len + 1 })
  else (h ++ [elems h s ++ x :: room s.len], ⟨h.length, s.len + 1⟩)

theorem length_elems (hs : Valid h s) : (elems h s).length = s.len := by
  rw [elems, length_take, Nat.min_eq_left hs.len]

theorem take_set_succ {l : List α} (hn : n < l.length) :
    (l.set n x).take (n + 1) = l.take n ++ [x] := by
  rw [take_add_one, List.getElem?_set_self hn, take_set_of_le (Nat.le_refl n)]
  rfl

/-- Appending with room writes into the array. -/
theorem append_inPlace (room : Nat → List α) (hs : s.addr < h.length)
    (hroom : s.len < (array h s).length) :
    (append room h s x).2 = ⟨s.addr, s.len + 1⟩ ∧
      (append room h s x).1.length = h.length ∧
      array (append room h s x).1 s = (array h s).set s.len x := by
  rw [append, if_pos hroom]
  refine ⟨rfl, length_set, ?_⟩
  rw [array, List.getElem?_set_self hs, Option.getD_some]

/-- The slice that `append` returns has one more element. -/
theorem append_spec (room : Nat → List α) (hs : Valid h s) :
    Valid (append room h s x).1 (append room h s x).2 ∧
      elems (append room h s x).1 (append room h s x).2 = elems h s ++ [x] := by
  by_cases hroom : s.len < (array h s).length
  · obtain ⟨hslice, hlen, harray⟩ := append_inPlace room hs.addr hroom
    have harray' : array (append room h s x).1 (append room h s x).2 = (array h s).set s.len x := by
      rw [hslice]
      exact harray
    refine ⟨⟨?_, ?_⟩, ?_⟩
    · rw [hslice, hlen]
      exact hs.addr
    · rw [harray', hslice, length_set]
      exact hroom
    · rw [elems, harray', hslice, take_set_succ hroom]
      rfl
  · have harray : array (append room h s x).1 (append room h s x).2 =
        elems h s ++ x :: room s.len := by
      rw [append, if_neg hroom, array]
      simp
    have hslice : (append room h s x).2 = ⟨h.length, s.len + 1⟩ := by rw [append, if_neg hroom]
    have hheap : (append room h s x).1.length = h.length + 1 := by
      rw [append, if_neg hroom, length_append, length_singleton]
    refine ⟨⟨?_, ?_⟩, ?_⟩
    · rw [hslice, hheap]
      exact Nat.lt_succ_self _
    · rw [harray, hslice, length_append, length_elems hs, length_cons]
      exact Nat.add_le_add_left (Nat.le_add_left 1 _) s.len
    · have hfront : (elems h s ++ [x]).length = s.len + 1 := by
        rw [length_append, length_elems hs, length_singleton]
      rw [elems, harray, hslice, ← @singleton_append _ x, ← append_assoc]
      exact take_left' hfront

/-! ## Filtering in place -/

/-- The loop over a slice from an index on that appends the elements to keep to another slice and
collects the others. The loop reads an element when it comes to it. -/
def keep (room : Nat → List α) (p : α → Bool) (src : Slice) :
    Nat → Nat → Heap α → Slice → List α → Heap α × Slice × List α
  | 0, _, h, kept, dropped => (h, kept, dropped)
  | left + 1, i, h, kept, dropped =>
    match (array h src)[i]? with
    | none => (h, kept, dropped)
    | some a =>
      if p a then
        keep room p src left (i + 1) (append room h kept a).1 (append room h kept a).2 dropped
      else keep room p src left (i + 1) h kept (dropped ++ [a])

/-- The loop over `xs` at an index: at most as many elements are kept as were read, and those not
read yet are as they were. -/
structure Keeping (p : α → Bool) (src : Slice) (xs : List α) (i : Nat) (h : Heap α) (kept : Slice)
    (dropped : List α) : Prop where
  valid : Valid h kept
  addr : kept.addr = src.addr
  read : kept.len ≤ i
  cap : src.len ≤ (array h src).length
  unread : ((array h src).take src.len).drop i = xs.drop i
  kept : elems h kept = (xs.take i).filter p
  dropped : dropped = (xs.take i).filter fun a => !p a

section Keeping

variable {kept : Slice} {dropped : List α}

theorem Keeping.start (p : α → Bool) (hsrc : Valid h src) :
    Keeping p src (elems h src) 0 h (src.cut 0) [] where
  valid := ⟨hsrc.addr, Nat.zero_le _⟩
  addr := rfl
  read := Nat.zero_le 0
  cap := hsrc.len
  unread := rfl
  kept := by simp [elems, Slice.cut]
  dropped := by simp

theorem array_congr (h : Heap α) (hst : s.addr = t.addr) : array h s = array h t := by
  rw [array, array, hst]

/-- The element at the index has not been overwritten. -/
theorem Keeping.getElem? (hk : Keeping p src xs i h kept dropped) (hi : i < src.len) :
    (array h src)[i]? = xs[i]? := by
  have hhead := congrArg (·[0]?) hk.unread
  simp only [List.getElem?_drop, Nat.add_zero] at hhead
  rwa [List.getElem?_take_of_lt hi] at hhead

theorem Keeping.unread_succ (hk : Keeping p src xs i h kept dropped) :
    ((array h src).take src.len).drop (i + 1) = xs.drop (i + 1) := by
  rw [← drop_drop, hk.unread, drop_drop]

/-- An element that is kept is written where an element was that has been read. -/
theorem Keeping.step_keep (room : Nat → List α) (hk : Keeping p src xs i h kept dropped)
    (hi : i < src.len) (ha : xs[i]? = some a) (hp : p a = true) :
    Keeping p src xs (i + 1) (append room h kept a).1 (append room h kept a).2 dropped := by
  have hsame := array_congr h hk.addr
  have hroom : kept.len < (array h kept).length := by
    rw [hsame]
    exact Nat.lt_of_lt_of_le (Nat.lt_of_le_of_lt hk.read hi) hk.cap
  obtain ⟨hslice, -, harray⟩ := append_inPlace room hk.valid.addr hroom
  obtain ⟨hvalid, helems⟩ := append_spec room hk.valid
  have harray' : array (append room h kept a).1 src = (array h src).set kept.len a := by
    rw [← array_congr _ hk.addr, harray, hsame]
  refine ⟨hvalid, ?_, ?_, ?_, ?_, ?_, ?_⟩
  · rw [hslice]
    exact hk.addr
  · rw [hslice]
    exact Nat.succ_le_succ hk.read
  · rw [harray', length_set]
    exact hk.cap
  · rw [harray', take_set, drop_set_of_lt (Nat.lt_succ_of_le hk.read)]
    exact hk.unread_succ
  · rw [helems, hk.kept, take_add_one, ha, filter_append]
    simp [hp]
  · rw [hk.dropped, take_add_one, ha, filter_append]
    simp [hp]

/-- An element that is not kept. -/
theorem Keeping.step_drop (hk : Keeping p src xs i h kept dropped) (ha : xs[i]? = some a)
    (hp : p a = false) : Keeping p src xs (i + 1) h kept (dropped ++ [a]) := by
  refine ⟨hk.valid, hk.addr, Nat.le_succ_of_le hk.read, hk.cap, hk.unread_succ, ?_, ?_⟩
  · rw [hk.kept, take_add_one, ha, filter_append]
    simp [hp]
  · rw [hk.dropped, take_add_one, ha, filter_append]
    simp [hp]

theorem Keeping.run (room : Nat → List α) (hk : Keeping p src xs i h kept dropped)
    (hlen : xs.length = src.len) (hleft : i + left = src.len) :
    Keeping p src xs src.len (keep room p src left i h kept dropped).1
      (keep room p src left i h kept dropped).2.1 (keep room p src left i h kept dropped).2.2 := by
  induction left generalizing i h kept dropped with
  | zero =>
    obtain rfl : i = src.len := hleft
    exact hk
  | succ left ih =>
    have hi : i < src.len := by omega
    have ha : xs[i]? = some xs[i] := List.getElem?_eq_getElem (hlen ▸ hi)
    rw [keep, hk.getElem? hi, ha]
    dsimp only
    cases hp : p xs[i] with
    | true =>
      exact ih (hk.step_keep room hi ha hp) (by omega)
    | false =>
      exact ih (hk.step_drop ha hp) (by omega)

/-- Filtering a slice into its own array keeps what the filter keeps. -/
theorem keep_spec (room : Nat → List α) (p : α → Bool) (hsrc : Valid h src) :
    let out := keep room p src src.len 0 h (src.cut 0) []
    Valid out.1 out.2.1 ∧ elems out.1 out.2.1 = (elems h src).filter p ∧
      out.2.2 = (elems h src).filter fun a => !p a := by
  have hlen := length_elems hsrc
  have hrun := (Keeping.start p hsrc).run room hlen (Nat.zero_add src.len)
  have hall : (elems h src).take src.len = elems h src := take_of_length_le (Nat.le_of_eq hlen)
  refine ⟨hrun.valid, ?_, ?_⟩
  · rw [hrun.kept, hall]
  · rw [hrun.dropped, hall]

end Keeping

end Slices
