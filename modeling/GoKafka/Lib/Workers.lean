import Mathlib

/-!
# Workers that share a queue

Tasks are sent to a queue, taken from it by workers, finished with an outcome, and reported. What
happens next is the choice of a scheduler: a schedule is a list of acts, and one that cannot happen
changes nothing. Whatever the schedule, no task is lost or done twice (`Pool.Conserves`,
`Conserves.run`): where nothing is left to do, the results are those of all tasks.
-/

namespace Workers

open List

variable {α β : Type}

/-- Tasks not sent, in the queue and under way; the outcomes that are not reported and those that
are, and all outcomes in the order in which the tasks were finished. -/
structure Pool (α β : Type) where
  unsent : List α := []
  jobs : List α := []
  busy : List α := []
  returned : List (α × β) := []
  results : List (α × β) := []
  log : List (α × β) := []

/-- What can happen next; a task under way or an outcome is chosen by its index. -/
inductive Act (β : Type) where
  | send
  | take
  | finish (i : Nat) (outcome : β)
  | report (i : Nat)

namespace Pool

/-- An act; a worker takes a task when it has neither a task nor an outcome to report. -/
def step (workers : Nat) (p : Pool α β) : Act β → Pool α β
  | .send =>
    match p.unsent with
    | [] => p
    | x :: unsent => { p with unsent := unsent, jobs := p.jobs ++ [x] }
  | .take =>
    match p.jobs with
    | [] => p
    | x :: jobs =>
      if p.busy.length + p.returned.length < workers then
        { p with jobs := jobs, busy := p.busy ++ [x] }
      else p
  | .finish i outcome =>
    match p.busy[i]? with
    | none => p
    | some x =>
      { p with
        busy := p.busy.eraseIdx i
        returned := p.returned ++ [(x, outcome)]
        log := p.log ++ [(x, outcome)] }
  | .report i =>
    match p.returned[i]? with
    | none => p
    | some r => { p with returned := p.returned.eraseIdx i, results := p.results ++ [r] }

/-- The acts of a schedule. -/
def run (workers : Nat) (p : Pool α β) (schedule : List (Act β)) : Pool α β :=
  schedule.foldl (step workers) p

/-- All workers are done. -/
def Idle (p : Pool α β) : Prop :=
  p.unsent = [] ∧ p.jobs = [] ∧ p.busy = [] ∧ p.returned = []

instance [DecidableEq α] [DecidableEq β] (p : Pool α β) : Decidable p.Idle :=
  inferInstanceAs (Decidable (_ ∧ _))

/-- Every task is somewhere, once, and every outcome is reported or waits for it. -/
structure Conserves (tasks : List α) (p : Pool α β) : Prop where
  tasks : (p.unsent + (p.jobs + (p.busy + p.log.map Prod.fst)) : Multiset α) = tasks
  outcomes : (p.returned + p.results : Multiset (α × β)) = p.log

section Moves

variable {γ : Type} {l : List γ}

theorem coe_cons (x : γ) (l : List γ) : (x :: l : Multiset γ) = {x} + l :=
  (Multiset.singleton_add x l).symm

theorem coe_concat (l : List γ) : ((l ++ [x] : List γ) : Multiset γ) = {x} + l := by
  rw [← Multiset.coe_add, add_comm, Multiset.coe_singleton]

theorem coe_eraseIdx (h : l[i]? = some x) : ({x} + l.eraseIdx i : Multiset γ) = l := by
  obtain ⟨hi, rfl⟩ := List.getElem?_eq_some_iff.1 h
  exact Multiset.coe_eq_coe.2 (getElem_cons_eraseIdx_perm hi)

/-- What the workers hold together, one of them apart. -/
theorem coe_flatMap_eraseIdx {δ : Type} (f : γ → List δ) (h : l[i]? = some x) :
    (l.flatMap f : Multiset δ) = f x + (l.eraseIdx i).flatMap f := by
  obtain ⟨hi, rfl⟩ := List.getElem?_eq_some_iff.1 h
  exact Multiset.coe_eq_coe.2 ((getElem_cons_eraseIdx_perm hi).symm.flatMap_right f)

/-- What they hold together when that one has changed. -/
theorem coe_flatMap_set {δ : Type} (f : γ → List δ) (h : l[i]? = some x) :
    ((l.set i y).flatMap f : Multiset δ) = f y + (l.eraseIdx i).flatMap f := by
  obtain ⟨hi, -⟩ := List.getElem?_eq_some_iff.1 h
  exact Multiset.coe_eq_coe.2 ((set_perm_cons_eraseIdx hi y).flatMap_right f)

theorem flatMap_eq_nil_of_forall_eq (h : ∀ y ∈ l, y = x) (hf : f x = []) :
    l.flatMap f = [] := by
  rw [flatMap_eq_nil_iff]
  intro y hy
  rw [h y hy, hf]

end Moves

variable {tasks : List α} {p : Pool α β}

/-- An act moves one task or one outcome. -/
theorem Conserves.step (h : p.Conserves tasks) (workers : Nat) (act : Act β) :
    (p.step workers act).Conserves tasks := by
  cases act with
  | send =>
    rw [Pool.step]
    split
    · exact h
    · next x unsent hunsent =>
      refine ⟨?_, h.outcomes⟩
      dsimp only
      rw [← h.tasks, hunsent, coe_concat, coe_cons]
      ac_rfl
  | take =>
    rw [Pool.step]
    split
    · exact h
    · next x jobs hjobs =>
      split_ifs
      · refine ⟨?_, h.outcomes⟩
        dsimp only
        rw [← h.tasks, hjobs, coe_concat, coe_cons]
        ac_rfl
      · exact h
  | finish i outcome =>
    rw [Pool.step]
    split
    · exact h
    · next x hx =>
      constructor
      · rw [← h.tasks, ← coe_eraseIdx hx, map_append]
        ac_rfl
      · rw [coe_concat, coe_concat, ← h.outcomes]
        ac_rfl
  | report i =>
    rw [Pool.step]
    split
    · exact h
    · next r hr =>
      refine ⟨h.tasks, ?_⟩
      dsimp only
      rw [← h.outcomes, ← coe_eraseIdx hr]
      ac_rfl

theorem Conserves.run (h : p.Conserves tasks) (workers : Nat) (schedule : List (Act β)) :
    (p.run workers schedule).Conserves tasks := by
  induction schedule generalizing p with
  | nil => exact h
  | cons act schedule ih => exact ih (h.step workers act)

theorem conserves_unsent : Conserves tasks ({ unsent := tasks } : Pool α β) :=
  ⟨by simp, rfl⟩

theorem conserves_busy : Conserves tasks ({ busy := tasks } : Pool α β) :=
  ⟨by simp, rfl⟩

/-- Where all workers are done, every task is finished, and every outcome reported. -/
theorem Conserves.idle (h : p.Conserves tasks) (hidle : p.Idle) :
    (p.log.map Prod.fst).Perm tasks ∧ p.results.Perm p.log := by
  obtain ⟨htasks, houtcomes⟩ := h
  obtain ⟨hunsent, hjobs, hbusy, hreturned⟩ := hidle
  rw [hunsent, hjobs, hbusy] at htasks
  rw [hreturned] at houtcomes
  simp only [Multiset.coe_nil, zero_add, Multiset.coe_eq_coe] at htasks houtcomes
  exact ⟨htasks, houtcomes⟩

theorem exists_run_of_perm (workers : Nat) (outcome : β) {order : List α}
    (hreturned : p.returned = []) (h : order.Perm p.busy) :
    ∃ schedule, p.run workers schedule =
      { p with
        busy := []
        results := p.results ++ order.map (·, outcome)
        log := p.log ++ order.map (·, outcome) } := by
  induction order generalizing p with
  | nil =>
    refine ⟨[], ?_⟩
    cases p
    simp_all [Pool.run]
  | cons x order ih =>
    obtain ⟨i, hi, hx⟩ := mem_iff_getElem.1 (h.mem_iff.1 mem_cons_self)
    have hget : p.busy[i]? = some x := List.getElem?_eq_some_iff.2 ⟨hi, hx⟩
    have hrest : order.Perm (p.busy.eraseIdx i) :=
      (h.trans (hx ▸ (getElem_cons_eraseIdx_perm hi).symm)).cons_inv
    -- the task finishes and is reported before anything else happens
    have hstep : (p.step workers (.finish i outcome)).step workers (.report 0) = { p with
          busy := p.busy.eraseIdx i
          results := p.results ++ [(x, outcome)]
          log := p.log ++ [(x, outcome)] } := by
      simp [Pool.step, hget, hreturned]
    obtain ⟨schedule, hrun⟩ := ih (p := { p with
              busy := p.busy.eraseIdx i
              results := p.results ++ [(x, outcome)]
              log := p.log ++ [(x, outcome)] }) hreturned hrest
    refine ⟨.finish i outcome :: .report 0 :: schedule, ?_⟩
    rw [Pool.run, foldl_cons, foldl_cons, hstep]
    refine hrun.trans ?_
    simp

end Pool

end Workers
