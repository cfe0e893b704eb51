import Mathlib

/-!
# Runs of a system

A system takes an input at a time (`next`) and may put something out (`out`). A condition holds
along a run when it holds of every input and the state it meets (`Along`). The rules of the module
go from a step to a run: an invariant that a step keeps under the condition holds in all states of a
run along which the condition holds (`Along.states`), and so does what a step puts out
(`Along.outputs`). Where a step that breaks the condition also breaks what is to be shown, the
condition is exact (`states_iff_along`).
-/

universe u v w

namespace Run

open List

variable {σ : Type u} {ι : Type v} {ω : Type w} (next : σ → ι → σ)

/-- The states of a run, from the first to the last. -/
def states (s : σ) : List ι → List σ
  | [] => [s]
  | i :: is => s :: states (next s i) is

/-- What a run puts out. -/
def outputs (out : σ → ι → List ω) (s : σ) : List ι → List ω
  | [] => []
  | i :: is => out s i ++ outputs out (next s i) is

/-- A condition holds along a run. -/
def Along (P : σ → ι → Prop) (s : σ) : List ι → Prop
  | [] => True
  | i :: is => P s i ∧ Along P (next s i) is

instance decidableAlong (P : σ → ι → Prop) [∀ s i, Decidable (P s i)] :
    (s : σ) → (is : List ι) → Decidable (Along next P s is)
  | _, [] => isTrue trivial
  | s, i :: is =>
    have := decidableAlong P (next s i) is
    inferInstanceAs (Decidable (P s i ∧ Along next P (next s i) is))

theorem head_mem_states (s : σ) (is : List ι) : s ∈ states next s is := by
  cases is with
  | nil => exact mem_singleton_self s
  | cons i is => exact mem_cons_self

theorem foldl_mem_states (s : σ) (is : List ι) : is.foldl next s ∈ states next s is := by
  induction is generalizing s with
  | nil => exact mem_singleton_self s
  | cons i is ih => exact mem_cons_of_mem _ (ih (next s i))

variable {next} {P : σ → ι → Prop} {Inv : σ → Prop} {s : σ} {is : List ι}

theorem Along.and (h : Along next P s is) (h' : Along next Q s is) :
    Along next (fun s i => P s i ∧ Q s i) s is := by
  induction is generalizing s with
  | nil => trivial
  | cons i is ih => exact ⟨⟨h.1, h'.1⟩, ih h.2 h'.2⟩

/-- A condition on inputs alone. -/
theorem Along.of_forall {R : ι → Prop} (h : ∀ i ∈ is, R i) : Along next (fun _ i => R i) s is := by
  induction is generalizing s with
  | nil => trivial
  | cons i is ih =>
    have ⟨hi, his⟩ := forall_mem_cons.1 h
    exact ⟨hi, ih his⟩

section Invariant

variable (hstep : ∀ s i, Inv s → P s i → Inv (next s i))
include hstep

theorem Along.states (h : Along next P s is) (hs : Inv s) : ∀ s' ∈ states next s is, Inv s' := by
  induction is generalizing s with
  | nil =>
    intro s' hs'
    rwa [mem_singleton.1 hs']
  | cons i is ih =>
    intro s' hs'
    rcases mem_cons.1 hs' with rfl | hs'
    · exact hs
    · exact ih h.2 (hstep s i hs h.1) s' hs'

theorem Along.foldl (h : Along next P s is) (hs : Inv s) : Inv (is.foldl next s) := by
  induction is generalizing s with
  | nil => exact hs
  | cons i is ih => exact ih h.2 (hstep s i hs h.1)

/-- What a step from a state with the invariant guarantees holds along the run. -/
theorem Along.of_invariant (hQ : ∀ s i, Inv s → P s i → Q s i) (h : Along next P s is)
    (hs : Inv s) : Along next Q s is := by
  induction is generalizing s with
  | nil => trivial
  | cons i is ih => exact ⟨hQ s i hs h.1, ih h.2 (hstep s i hs h.1)⟩

theorem Along.outputs {Good : ω → Prop} (hout : ∀ s i, Inv s → P s i → ∀ o ∈ out s i, Good o)
    (h : Along next P s is) (hs : Inv s) : ∀ o ∈ outputs next out s is, Good o := by
  induction is generalizing s with
  | nil => exact nofun
  | cons i is ih =>
    intro o ho
    rcases mem_append.1 ho with ho | ho
    · exact hout s i hs h.1 o ho
    · exact ih h.2 (hstep s i hs h.1) o ho

end Invariant

/-- A property of states that holds as long as a condition does, and fails after a step that breaks
it, holds in all states of a run exactly if the condition holds along the run. -/
theorem states_iff_along {Good : σ → Prop} (hstep : ∀ s i, Inv s → P s i → Inv (next s i))
    (hgood : ∀ s, Inv s → Good s) (hbreaks : ∀ s i, Inv s → Good (next s i) → P s i) (hs : Inv s) :
    (∀ s' ∈ states next s is, Good s') ↔ Along next P s is := by
  refine ⟨fun h => ?_, fun h s' hs' => hgood s' (h.states hstep hs s' hs')⟩
  induction is generalizing s with
  | nil => trivial
  | cons i is ih =>
    have hrest : ∀ s' ∈ states next (next s i) is, Good s' :=
      fun s' hs' => h s' (mem_cons_of_mem _ hs')
    have hnext : Good (next s i) := hrest _ (head_mem_states next _ is)
    have hP : P s i := hbreaks s i hs hnext
    exact ⟨hP, ih (hstep s i hs hP) hrest⟩

end Run
