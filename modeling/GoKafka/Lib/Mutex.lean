import GoKafka.Lib.Run

/-!
# Goroutines and mutexes

A program (`Prog`) locks and unlocks mutexes and calls what is outside of it. Goroutines run
programs; whose turn it is, is the choice of a schedule, and a goroutine whose turn it is at a mutex
that is locked stays where it is. The calls of a goroutine are answered in any way, and each answer
is fixed beforehand, so that a program that can make a call twice gives its calls different names.

`Prog.locks` follows one program through its locks and unlocks, with a rank for every mutex. It ends
well where a mutex is locked only if it ranks above all that the goroutine holds. Goroutines that do
this never wait for a mutex of their own, and all return (`Orderly.not_waitsForOwn`,
`Orderly.returns`): of those that wait, the one at the highest mutex would wait for one that waits
higher. A program that locks what it holds comes to wait for itself (`Alone.exists_waitsForOwn`).
-/

namespace Mutexes

open List

/-- What a goroutine does. -/
inductive Prog (μ ε : Type) (ρ : ε → Type) (α : Type) where
  | ret (a : α)
  | lock (m : μ) (rest : Prog μ ε ρ α)
  | unlock (m : μ) (rest : Prog μ ε ρ α)
  | call (e : ε) (rest : ρ e → Prog μ ε ρ α)

/-- What a goroutine must not do: lock a mutex that it holds, lock one that does not rank above
those it holds, or unlock one that it does not hold. -/
inductive Fault (μ : Type) where
  | relock (m : μ)
  | disorder (m : μ)
  | notLocked (m : μ)

variable {μ ε : Type} {ρ : ε → Type} {α β : Type}

namespace Prog

protected def bind : Prog μ ε ρ α → (α → Prog μ ε ρ β) → Prog μ ε ρ β
  | .ret a, f => f a
  | .lock m p, f => .lock m (p.bind f)
  | .unlock m p, f => .unlock m (p.bind f)
  | .call e p, f => .call e fun r => (p r).bind f

instance : Monad (Prog μ ε ρ) where
  pure := .ret
  bind := Prog.bind

/-- Lock a mutex. -/
def acquire (m : μ) : Prog μ ε ρ Unit := .lock m (.ret ())

/-- Unlock a mutex. -/
def release (m : μ) : Prog μ ε ρ Unit := .unlock m (.ret ())

/-- Call what is outside. -/
def ask (e : ε) : Prog μ ε ρ (ρ e) := .call e .ret

/-- What the program returns. -/
def value (answers : ∀ e, ρ e) : Prog μ ε ρ α → α
  | .ret a => a
  | .lock _ p => p.value answers
  | .unlock _ p => p.value answers
  | .call e p => (p (answers e)).value answers

/-- The number of its steps. -/
def size (answers : ∀ e, ρ e) : Prog μ ε ρ α → Nat
  | .ret _ => 0
  | .lock _ p => p.size answers + 1
  | .unlock _ p => p.size answers + 1
  | .call e p => (p (answers e)).size answers + 1

/-- The mutexes that a goroutine holds at the end of the program, from those that it holds before
it. -/
def locks [DecidableEq μ] (rank : μ → Nat) (answers : ∀ e, ρ e) :
    Prog μ ε ρ α → List μ → Except (Fault μ) (List μ)
  | .ret _, held => .ok held
  | .lock m p, held =>
    if m ∈ held then .error (.relock m)
    else if ∀ m' ∈ held, rank m' < rank m then p.locks rank answers (m :: held)
    else .error (.disorder m)
  | .unlock m p, held =>
    if m ∈ held then p.locks rank answers (held.erase m) else .error (.notLocked m)
  | .call e p, held => (p (answers e)).locks rank answers held

/-! ## Programs in sequence -/

@[simp] theorem value_pure : (pure a : Prog μ ε ρ α).value answers = a := rfl

@[simp] theorem value_ask : (ask e : Prog μ ε ρ (ρ e)).value answers = answers e := rfl

@[simp] theorem value_bind (p : Prog μ ε ρ α) (f : α → Prog μ ε ρ β) :
    (p >>= f).value answers = (f (p.value answers)).value answers := by
  induction p with
  | ret a => rfl
  | lock m p ih => exact ih
  | unlock m p ih => exact ih
  | call e p ih => exact ih (answers e)

section Locks

variable [DecidableEq μ]

@[simp] theorem locks_ask : (ask e : Prog μ ε ρ (ρ e)).locks rank answers held = .ok held := rfl

theorem locks_bind (f : α → Prog μ ε ρ β) (held : List μ) :
    (p >>= f).locks rank answers held =
      p.locks rank answers held >>= (f (p.value answers)).locks rank answers := by
  induction p generalizing held with
  | ret a => rfl
  | lock m p ih =>
    change (Prog.lock m (p >>= f)).locks rank answers held = _
    simp only [locks]
    split_ifs
    · rfl
    · exact ih (m :: held)
    · rfl
  | unlock m p ih =>
    change (Prog.unlock m (p >>= f)).locks rank answers held = _
    simp only [locks]
    split_ifs
    · exact ih (held.erase m)
    · rfl
  | call e p ih => exact ih (answers e) held

theorem locks_bind_ok (h : p.locks rank answers held = .ok held') (f : α → Prog μ ε ρ β) :
    (p >>= f).locks rank answers held = (f (p.value answers)).locks rank answers held' := by
  rw [locks_bind, h]
  rfl

theorem locks_bind_error (h : p.locks rank answers held = .error fault) (f : α → Prog μ ε ρ β) :
    (p >>= f).locks rank answers held = .error fault := by
  rw [locks_bind, h]
  rfl

theorem locks_acquire (hnew : m ∉ held) (hrank : ∀ m' ∈ held, rank m' < rank m) :
    (acquire m : Prog μ ε ρ Unit).locks rank answers held = .ok (m :: held) := by
  rw [acquire, locks, if_neg hnew, if_pos hrank]
  rfl

theorem locks_acquire_held (h : m ∈ held) :
    (acquire m : Prog μ ε ρ Unit).locks rank answers held = .error (.relock m) :=
  if_pos h

theorem locks_release :
    (release m : Prog μ ε ρ Unit).locks rank answers (m :: held) = .ok held := by
  rw [release, locks, if_pos mem_cons_self, erase_cons_head]
  rfl

end Locks

end Prog

/-! ## Goroutines -/

/-- A goroutine: what it has to do, and the answers to its calls. -/
structure Goroutine (μ ε : Type) (ρ : ε → Type) (α : Type) where
  prog : Prog μ ε ρ α
  answers : ∀ e, ρ e

/-- Who holds which mutex, and the goroutines. -/
structure System (μ ε : Type) (ρ : ε → Type) (α : Type) where
  owner : μ → Option Nat
  goroutines : List (Goroutine μ ε ρ α)

namespace System

/-- All mutexes are free. -/
def start (gs : List (Goroutine μ ε ρ α)) : System μ ε ρ α where
  owner _ := none
  goroutines := gs

variable [DecidableEq μ]

/-- It is the turn of goroutine `i`. -/
def step (s : System μ ε ρ α) (i : Nat) : System μ ε ρ α :=
  match s.goroutines[i]? with
  | none => s
  | some g =>
    match g.prog with
    | .ret _ => s
    | .lock m p =>
      if s.owner m = none then
        ⟨Function.update s.owner m (some i), s.goroutines.set i { g with prog := p }⟩
      else s
    | .unlock m p => ⟨Function.update s.owner m none, s.goroutines.set i { g with prog := p }⟩
    | .call e p => { s with goroutines := s.goroutines.set i { g with prog := p (g.answers e) } }

/-- Goroutine `i` waits for a mutex that it holds. -/
def WaitsForOwn (s : System μ ε ρ α) (i : Nat) : Prop :=
  ∃ g m p, s.goroutines[i]? = some g ∧ g.prog = .lock m p ∧ s.owner m = some i

/-- Goroutine `i` has not returned, and does not wait. -/
def CanMove (s : System μ ε ρ α) (i : Nat) : Prop :=
  ∃ g, s.goroutines[i]? = some g ∧
    match g.prog with
    | .ret _ => False
    | .lock m _ => s.owner m = none
    | .unlock _ _ | .call _ _ => True

/-- All goroutines have returned. -/
def Done (s : System μ ε ρ α) : Prop := ∀ g ∈ s.goroutines, ∃ a, g.prog = .ret a

/-- However it goes on, all goroutines return. -/
inductive Returns : System μ ε ρ α → Prop where
  | done {s : System μ ε ρ α} (h : s.Done) : Returns s
  | go {s : System μ ε ρ α} (h : ∃ i, s.CanMove i)
    (hgo : ∀ i, s.CanMove i → Returns (s.step i)) : Returns s

/-- What a step can do. -/
theorem step_cases (s : System μ ε ρ α) :
    (s.step i = s ∧ ¬ s.CanMove i) ∨
      ∃ g, s.goroutines[i]? = some g ∧
        ((∃ m p, g.prog = .lock m p ∧ s.owner m = none ∧
            s.step i =
              ⟨Function.update s.owner m (some i), s.goroutines.set i { g with prog := p }⟩) ∨
          (∃ m p, g.prog = .unlock m p ∧
            s.step i = ⟨Function.update s.owner m none, s.goroutines.set i { g with prog := p }⟩) ∨
          ∃ e p, g.prog = .call e p ∧
            s.step i = ⟨s.owner, s.goroutines.set i { g with prog := p (g.answers e) }⟩) := by
  unfold System.step CanMove
  cases hg : s.goroutines[i]? with
  | none => exact .inl ⟨rfl, nofun⟩
  | some g =>
    have hprog : ∀ {p}, g.prog = p → ∀ {g'}, some g = some g' → g'.prog = p := by
      rintro p hp _ ⟨⟩
      exact hp
    cases hp : g.prog with
    | ret a =>
      refine .inl ⟨by simp only [hp], ?_⟩
      rintro ⟨g', hg', hmove⟩
      rw [hprog hp hg'] at hmove
      exact hmove
    | lock m p =>
      by_cases hfree : s.owner m = none
      · exact .inr ⟨g, rfl, .inl ⟨m, p, hp, hfree, by simp only [hp, hfree, if_true]⟩⟩
      · refine .inl ⟨by simp only [hp, hfree, if_false], ?_⟩
        rintro ⟨g', hg', hmove⟩
        rw [hprog hp hg'] at hmove
        exact hfree hmove
    | unlock m p => exact .inr ⟨g, rfl, .inr (.inl ⟨m, p, hp, by simp only [hp]⟩)⟩
    | call e p => exact .inr ⟨g, rfl, .inr (.inr ⟨e, p, hp, by simp only [hp]⟩)⟩

end System

/-! ## Mutexes in order -/

section Orderly

variable [DecidableEq μ] {rank : μ → Nat} {s : System μ ε ρ α} {held : Nat → List μ} {i : Nat}

/-- The goroutines hold what they are said to, and end without faults. -/
structure Orderly (rank : μ → Nat) (held : Nat → List μ) (s : System μ ε ρ α) : Prop where
  owner : ∀ m i, s.owner m = some i ↔ m ∈ held i
  nodup : ∀ i, (held i).Nodup
  absent : ∀ i, s.goroutines[i]? = none → held i = []
  locks : ∀ i (g : Goroutine μ ε ρ α), s.goroutines[i]? = some g →
    g.prog.locks rank g.answers (held i) = .ok []

variable (h : Orderly rank held s)
include h

/-- A goroutine goes on with other mutexes. -/
theorem Orderly.move (hg : s.goroutines[i]? = some g) {owner : μ → Option Nat}
    (howner : ∀ m j, owner m = some j ↔ m ∈ Function.update held i mine j) (hnodup : mine.Nodup)
    (hlocks : g'.prog.locks rank g'.answers mine = .ok []) :
    Orderly rank (Function.update held i mine) ⟨owner, s.goroutines.set i g'⟩ := by
  have hlt : i < s.goroutines.length := (List.getElem?_eq_some_iff.1 hg).1
  refine ⟨howner, fun j => ?_, fun j hj => ?_, fun j g'' hg'' => ?_⟩
  · rcases eq_or_ne j i with rfl | hji
    · rwa [Function.update_self]
    · rw [Function.update_of_ne hji]
      exact h.nodup j
  · rcases eq_or_ne j i with rfl | hji
    · simp [hlt] at hj
    · rw [Function.update_of_ne hji]
      exact h.absent j (by simpa [List.getElem?_set, hji.symm] using hj)
  · rcases eq_or_ne j i with rfl | hji
    · simp only [List.getElem?_set, hlt, if_true, Option.some.injEq] at hg''
      subst hg''
      rwa [Function.update_self]
    · rw [Function.update_of_ne hji]
      exact h.locks j g'' (by simpa [List.getElem?_set, hji.symm] using hg'')

/-- Who holds what, after goroutine `i` has locked a free mutex. -/
theorem Orderly.owner_lock (hfree : s.owner m = none) (m' : μ) (j : Nat) :
    Function.update s.owner m (some i) m' = some j ↔
      m' ∈ Function.update held i (m :: held i) j := by
  have hm : m ∉ held j := by
    intro hmem
    rw [← h.owner, hfree] at hmem
    exact nomatch hmem
  rcases eq_or_ne m' m with rfl | hne
  · rcases eq_or_ne j i with rfl | hji
    · simp
    · simp [hji, hji.symm, hm]
  · rcases eq_or_ne j i with rfl | hji
    · simp [hne, h.owner]
    · simp [hne, hji, h.owner]

/-- Who holds what, after goroutine `i` has unlocked one of its mutexes. -/
theorem Orderly.owner_unlock (hheld : m ∈ held i) (m' : μ) (j : Nat) :
    Function.update s.owner m none m' = some j ↔
      m' ∈ Function.update held i ((held i).erase m) j := by
  have hm : m ∈ held j → j = i := by
    intro hmem
    rw [← h.owner, (h.owner m i).2 hheld] at hmem
    exact (Option.some.inj hmem).symm
  rcases eq_or_ne m' m with rfl | hne
  · rcases eq_or_ne j i with rfl | hji
    · simp [(h.nodup j).mem_erase_iff]
    · simp [hji, mt hm hji]
  · rcases eq_or_ne j i with rfl | hji
    · simp [hne, h.owner]
    · simp [hne, hji, h.owner]

/-- A step keeps the mutexes in order. -/
theorem Orderly.step (i : Nat) :
    ∃ held', Orderly rank held' (s.step i) := by
  rcases s.step_cases with ⟨hstep, -⟩ | ⟨g, hg, hmove⟩
  · exact ⟨held, hstep.symm ▸ h⟩
  · have hlocks := h.locks i g hg
    rcases hmove with ⟨m, p, hp, hfree, hstep⟩ | ⟨m, p, hp, hstep⟩ | ⟨e, p, hp, hstep⟩
    · rw [hp, Prog.locks] at hlocks
      split_ifs at hlocks with hnew hrank
      rw [hstep]
      exact ⟨_, h.move hg (h.owner_lock hfree)
        (nodup_cons.2 ⟨hnew, h.nodup i⟩) hlocks⟩
    · rw [hp, Prog.locks] at hlocks
      split_ifs at hlocks with hheld
      rw [hstep]
      exact ⟨_, h.move hg (h.owner_unlock hheld) ((h.nodup i).erase m) hlocks⟩
    · rw [hp, Prog.locks] at hlocks
      rw [hstep]
      refine ⟨_, h.move hg (fun m' j => ?_) (h.nodup i) hlocks⟩
      rw [Function.update_eq_self]
      exact h.owner m' j

/-- No goroutine waits for a mutex that it holds. -/
theorem Orderly.not_waitsForOwn : ¬ s.WaitsForOwn i := by
  rintro ⟨g, m, p, hg, hp, howner⟩
  have hlocks := h.locks i g hg
  rw [hp, Prog.locks, if_pos ((h.owner m i).1 howner)] at hlocks
  exact nomatch hlocks

omit h

/-- The rank of the mutex that a goroutine is about to lock. -/
def wanted (rank : μ → Nat) (g : Goroutine μ ε ρ α) : Option Nat :=
  match g.prog with
  | .lock m _ => some (rank m)
  | _ => none

theorem Orderly.exists_wanted (h : Orderly rank held s) (hstuck : ∀ i, ¬ s.CanMove i)
    (hg : g ∈ s.goroutines) (hgo : ∀ a, g.prog ≠ .ret a) :
    ∃ r, wanted rank g = some r ∧
      ∃ g' ∈ s.goroutines, (∀ a, g'.prog ≠ .ret a) ∧ ∀ r', wanted rank g' = some r' → r < r' := by
  obtain ⟨i, hi⟩ := mem_iff_getElem?.1 hg
  cases hp : g.prog with
  | ret a => exact absurd hp (hgo a)
  | unlock m p => exact (hstuck i ⟨g, hi, by simp only [hp]⟩).elim
  | call e p => exact (hstuck i ⟨g, hi, by simp only [hp]⟩).elim
  | lock m p =>
    refine ⟨rank m, by rw [wanted, hp], ?_⟩
    cases howner : s.owner m with
    | none => exact (hstuck i ⟨g, hi, by simp only [hp, howner]⟩).elim
    | some j =>
      have hheld : m ∈ held j := (h.owner m j).1 howner
      cases hj : s.goroutines[j]? with
      | none =>
        rw [h.absent j hj] at hheld
        exact absurd hheld not_mem_nil
      | some g' =>
        have hlocks := h.locks j g' hj
        refine ⟨g', mem_of_getElem? hj, fun a ha => ?_, fun r' hr' => ?_⟩
        · rw [ha, Prog.locks] at hlocks
          rw [Except.ok.inj hlocks] at hheld
          exact absurd hheld not_mem_nil
        · unfold wanted at hr'
          split at hr'
          · next m' p' hp' =>
            rw [hp', Prog.locks] at hlocks
            split_ifs at hlocks with _ hrank
            cases hr'
            exact hrank m hheld
          · exact nomatch hr'

theorem Orderly.exists_canMove (h : Orderly rank held s) (hs : ¬ s.Done) : ∃ i, s.CanMove i := by
  by_contra hstuck
  have hstuck : ∀ i, ¬ s.CanMove i := not_exists.1 hstuck
  unfold System.Done at hs
  push Not at hs
  obtain ⟨g, hg, hgo⟩ := hs
  -- the highest mutex that is waited for
  obtain ⟨r, hr, -⟩ := h.exists_wanted hstuck hg hgo
  obtain ⟨top, htop, hmax⟩ := (s.goroutines.filterMap (wanted rank)).toFinset.exists_max_image id
    ⟨r, mem_toFinset.2 (mem_filterMap.2 ⟨g, hg, hr⟩)⟩
  obtain ⟨g₁, hg₁, htop⟩ := mem_filterMap.1 (mem_toFinset.1 htop)
  have hgo₁ : ∀ a, g₁.prog ≠ .ret a := by
    intro a ha
    rw [wanted, ha] at htop
    exact nomatch htop
  obtain ⟨r₁, hr₁, g₂, hg₂, hgo₂, hlt⟩ := h.exists_wanted hstuck hg₁ hgo₁
  obtain ⟨r₂, hr₂, -⟩ := h.exists_wanted hstuck hg₂ hgo₂
  have hle : r₂ ≤ top :=
    hmax r₂ (mem_toFinset.2 (mem_filterMap.2 ⟨g₂, hg₂, hr₂⟩))
  cases hr₁.symm.trans htop
  exact absurd (hlt r₂ hr₂) (Nat.not_lt.2 hle)

/-! ## All return -/

/-- The steps that are left. -/
def System.size (s : System μ ε ρ α) : Nat :=
  (s.goroutines.map fun g => g.prog.size g.answers).sum

omit [DecidableEq μ] in
theorem size_set {gs : List (Goroutine μ ε ρ α)} (hg : gs[i]? = some g)
    (hsize : g'.prog.size g'.answers < g.prog.size g.answers) :
    ((gs.set i g').map fun g => g.prog.size g.answers).sum <
      (gs.map fun g => g.prog.size g.answers).sum := by
  induction gs generalizing i with
  | nil => exact nomatch hg
  | cons g₀ gs ih =>
    cases i with
    | zero =>
      cases hg
      simpa using hsize
    | succ i =>
      have hlt := ih hg
      simpa using hlt

theorem size_step_lt (h : s.CanMove i) : (s.step i).size < s.size := by
  rcases s.step_cases with ⟨-, hstuck⟩ | ⟨g, hg, hmove⟩
  · exact absurd h hstuck
  · rcases hmove with ⟨m, p, hp, -, hstep⟩ | ⟨m, p, hp, hstep⟩ | ⟨e, p, hp, hstep⟩
    all_goals
      rw [hstep]
      refine size_set hg ?_
      rw [hp]
      exact Nat.lt_succ_self _

/-- However it goes on, all goroutines return. -/
theorem Orderly.returns (h : Orderly rank held s) : s.Returns := by
  induction hn : s.size using Nat.strong_induction_on generalizing s held with
  | _ n ih =>
    by_cases hs : s.Done
    · exact .done hs
    · refine .go (h.exists_canMove hs) fun i hi => ?_
      obtain ⟨held', h'⟩ := h.step i
      exact ih _ (hn ▸ size_step_lt hi) h' rfl

theorem orderly_start {gs : List (Goroutine μ ε ρ α)}
    (h : ∀ g ∈ gs, g.prog.locks rank g.answers [] = .ok []) :
    Orderly rank (fun _ => []) (System.start gs) :=
  ⟨fun _ _ => iff_of_false nofun List.not_mem_nil, fun _ => List.nodup_nil, fun _ _ => rfl,
    fun _ g hg => h g (List.mem_of_getElem? hg)⟩

/-! ## A goroutine that locks what it holds -/

/-- Goroutine `i` has the program to run, and the mutexes that it does not hold are free. -/
structure Alone (s : System μ ε ρ α) (i : Nat) (p : Prog μ ε ρ α) (answers : ∀ e, ρ e)
    (mine : List μ) : Prop where
  goroutine : s.goroutines[i]? = some ⟨p, answers⟩
  owner : ∀ m, s.owner m = if m ∈ mine then some i else none
  nodup : mine.Nodup

section Alone

/-- The goroutine has made a step to the program that is left. -/
theorem Alone.next (h : Alone s i p answers mine) (owner : μ → Option Nat)
    (howner : ∀ m, owner m = if m ∈ mine' then some i else none) (hnodup : mine'.Nodup)
    (hstep : s.step i = ⟨owner, s.goroutines.set i ⟨p', answers⟩⟩) :
    Alone (s.step i) i p' answers mine' := by
  rw [hstep]
  exact ⟨by simp [(List.getElem?_eq_some_iff.1 h.goroutine).1], howner, hnodup⟩

theorem Alone.lock (h : Alone s i (.lock m p) answers mine) (hnew : m ∉ mine) :
    Alone (s.step i) i p answers (m :: mine) := by
  have hfree : s.owner m = none := by rw [h.owner, if_neg hnew]
  refine h.next (Function.update s.owner m (some i)) (fun m' => ?_)
    (nodup_cons.2 ⟨hnew, h.nodup⟩) (by simp [System.step, h.goroutine, hfree])
  rcases eq_or_ne m' m with rfl | hne
  · simp
  · simp [hne, h.owner]

theorem Alone.unlock (h : Alone s i (.unlock m p) answers mine) :
    Alone (s.step i) i p answers (mine.erase m) := by
  refine h.next (Function.update s.owner m none) (fun m' => ?_) (h.nodup.erase m)
    (by simp [System.step, h.goroutine])
  rcases eq_or_ne m' m with rfl | hne
  · simp [h.nodup.mem_erase_iff]
  · simp [hne, h.owner]

theorem Alone.call {p : ρ e → Prog μ ε ρ α} (h : Alone s i (.call e p) answers mine) :
    Alone (s.step i) i (p (answers e)) answers mine := by
  exact h.next s.owner h.owner h.nodup (by simp [System.step, h.goroutine])

theorem Alone.exists_waitsForOwn (h : Alone s i p answers mine)
    (hlocks : p.locks rank answers mine = .error (.relock m)) :
    ∃ n, ((List.replicate n i).foldl System.step s).WaitsForOwn i := by
  induction p generalizing s mine with
  | ret a => exact nomatch hlocks
  | lock m' p ih =>
    rw [Prog.locks] at hlocks
    split_ifs at hlocks with hheld hrank
    · have howner : s.owner m' = some i := by rw [h.owner, if_pos hheld]
      exact ⟨0, _, m', p, h.goroutine, rfl, howner⟩
    · obtain ⟨n, hn⟩ := ih (h.lock hheld) hlocks
      exact ⟨n + 1, hn⟩
    · exact nomatch hlocks
  | unlock m' p ih =>
    rw [Prog.locks] at hlocks
    split_ifs at hlocks
    · obtain ⟨n, hn⟩ := ih h.unlock hlocks
      exact ⟨n + 1, hn⟩
    · exact nomatch hlocks
  | call e p ih =>
    obtain ⟨n, hn⟩ := ih (answers e) h.call hlocks
    exact ⟨n + 1, hn⟩

end Alone

/-- Goroutines that make no other fault than to lock what they hold: none waits for a mutex of its
own, and all return, exactly if none makes that one. -/
theorem returns_iff {gs : List (Goroutine μ ε ρ α)}
    (hgs : ∀ g ∈ gs, g.prog.locks rank g.answers [] = .ok [] ∨
      ∃ m, g.prog.locks rank g.answers [] = .error (.relock m)) :
    ((∀ schedule, ∀ s ∈ Run.states System.step (System.start gs) schedule, ∀ i, ¬ s.WaitsForOwn i) ∧
        (System.start gs).Returns) ↔
      ∀ g ∈ gs, g.prog.locks rank g.answers [] = .ok [] := by
  constructor
  · rintro ⟨hwaits, -⟩ g hg
    refine (hgs g hg).resolve_right ?_
    rintro ⟨m, hlocks⟩
    obtain ⟨i, hi⟩ := mem_iff_getElem?.1 hg
    have halone : Alone (System.start gs) i g.prog g.answers [] :=
      ⟨hi, fun _ => rfl, nodup_nil⟩
    obtain ⟨n, hn⟩ := halone.exists_waitsForOwn hlocks
    exact hwaits _ _ (Run.foldl_mem_states _ _ _) i hn
  · intro h
    have hstart := orderly_start h
    refine ⟨fun schedule s hs i => ?_, hstart.returns⟩
    have hinv := @Run.Along.states _ _ System.step (fun _ _ => True)
      (fun s => ∃ held, Orderly rank held s) _ schedule (fun s i ⟨_, hs⟩ _ => hs.step i)
      (Run.Along.of_forall fun _ _ => trivial) ⟨_, hstart⟩ s hs
    obtain ⟨_, hs⟩ := hinv
    exact hs.not_waitsForOwn

end Orderly

end Mutexes
