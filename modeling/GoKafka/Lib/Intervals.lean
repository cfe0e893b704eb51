import Mathlib

/-!
# Covering a set with ranges

A list of ranges of an order covers the points between their ends (`covered`). If between any
two of the ranges there is a point that none of them has, every cover of the same set needs a range
for each of them, so no cover is shorter (`length_le_of_covered_eq`).
-/

universe u

namespace Intervals

variable {α : Type u} [Preorder α]

/-- The points of the ranges with the given ends. -/
def covered (rs : List (α × α)) : Set α := {x | ∃ r ∈ rs, x ∈ Set.Icc r.1 r.2}

/-- The beginnings of the two ranges have a point outside the set between them. -/
def Apart (s : Set α) (r r' : α × α) : Prop := ∃ x ∉ s, r.1 ≤ x ∧ x ≤ r'.1

theorem fst_mem_covered {r : α × α} (hr : r ∈ rs) (hle : r.1 ≤ r.2) : r.1 ∈ covered rs :=
  ⟨r, hr, le_rfl, hle⟩

theorem length_le_of_covered_eq {ts : List (α × α)} (hne : ∀ r ∈ rs, r.1 ≤ r.2)
    (hapart : rs.Pairwise (Apart (covered rs))) (hcover : covered ts = covered rs) :
    rs.length ≤ ts.length := by
  have hbegin : ∀ r ∈ rs, ∃ t ∈ ts, r.1 ∈ Set.Icc t.1 t.2 := by
    intro r hr
    have hmem := fst_mem_covered hr (hne r hr)
    rwa [← hcover] at hmem
  choose t ht hmem using hbegin
  -- a range of the cover that had two beginnings would have the point between them
  have hnodup : (rs.pmap t fun _ hr => hr).Nodup := by
    refine hapart.pmap _ fun r hr r' hr' hx heq => ?_
    obtain ⟨x, hx, hlow, hhigh⟩ := hx
    refine hx ?_
    rw [← hcover]
    refine ⟨t r hr, ht r hr, (hmem r hr).1.trans hlow, hhigh.trans ?_⟩
    rw [heq]
    exact (hmem r' hr').2
  have hsubset : rs.pmap t (fun _ hr => hr) ⊆ ts := by
    intro x hx
    obtain ⟨r, hr, rfl⟩ := List.mem_pmap.1 hx
    exact ht r hr
  simpa using (List.subperm_of_subset hnodup hsubset).length_le

end Intervals
