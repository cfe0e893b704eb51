import Mathlib

/-!
# Retrying

A loop that makes an attempt after the other until one succeeds, fails for good or is the last one
allowed. An attempt takes a state to the next one, also when it fails. Before an attempt and in the
wait after it the caller may give up.

What every attempt keeps holds at the end (`run_induct`), and what those that fail keep at the end
of a run that fails (`run_failed`). A run that succeeds ends with an attempt that does (`run_ok`),
and it succeeds if one of the attempts would (`run_succeeds`). `begun` lists the attempts of a run
with the states they began in; what a run records is what they record, one after the other
(`trace_run`).
-/

universe u v w

namespace Retry

/-- A loop: the `i`-th attempt, which errors are worth another one, and whether the caller gives up
before the `i`-th attempt and in the wait after it. -/
structure Loop (σ : Type u) (ε : Type v) where
  attempt : Nat → σ → Option ε × σ
  retriable : ε → Bool
  ctxErr : Nat → Option ε := fun _ => none
  waitErr : Nat → Option ε := fun _ => none

variable {σ : Type u} {ε : Type v} (l : Loop σ ε)

/-- The loop from the `i`-th attempt on, with a number of attempts left. -/
def Loop.run : Nat → Nat → σ → Option ε × σ
  | 0, _, s => (none, s)
  | left + 1, i, s =>
    match l.ctxErr i with
    | some e => (some e, s)
    | none =>
      match l.attempt i s with
      | (none, s) => (none, s)
      | (some e, s) =>
        if l.retriable e ∧ left ≠ 0 then
          match l.waitErr i with
          | some e => (some e, s)
          | none => run left (i + 1) s
        else (some e, s)

/-- The attempts that the loop makes, with the states they begin in. -/
def Loop.begun : Nat → Nat → σ → List (Nat × σ)
  | 0, _, _ => []
  | left + 1, i, s =>
    match l.ctxErr i with
    | some _ => []
    | none =>
      (i, s) ::
        match l.attempt i s with
        | (none, _) => []
        | (some e, s) =>
          if l.retriable e ∧ left ≠ 0 ∧ l.waitErr i = none then begun left (i + 1) s else []

variable {l}

section Rules

variable {left i : Nat} {s : σ}

/-- What every attempt keeps holds at the end. -/
theorem run_induct {Inv : σ → Prop} (hstep : ∀ i s, Inv s → Inv (l.attempt i s).2)
    (h : Inv s) : Inv (l.run left i s).2 := by
  fun_induction Loop.run with
  | case1 | case2 => exact h
  | case3 _ i s _ _ hatt | case4 _ i s _ _ _ hatt | case6 _ i s _ _ _ hatt =>
    have hlast := hstep i s h
    rwa [hatt] at hlast
  | case5 _ i s _ _ _ hatt _ _ ih =>
    have hnext := hstep i s h
    rw [hatt] at hnext
    exact ih hnext

/-- A run that succeeds ends with an attempt that does, and what an attempt that is followed by
another keeps holds of the state it begins in. -/
theorem run_ok {Inv : Nat → σ → Prop} (hleft : left ≠ 0)
    (hstep : ∀ i s e, Inv i s → l.ctxErr i = none → l.waitErr i = none →
      (l.attempt i s).1 = some e → l.retriable e = true → Inv (i + 1) (l.attempt i s).2)
    (h : Inv i s) (hrun : (l.run left i s).1 = none) :
    ∃ j t, Inv j t ∧ l.ctxErr j = none ∧ j < i + left ∧
      l.attempt j t = (none, (l.run left i s).2) := by
  fun_induction Loop.run with
  | case1 => exact absurd rfl hleft
  | case2 | case4 | case6 => cases hrun
  | case3 left i s hctx _ hatt =>
    exact ⟨i, s, h, hctx, Nat.lt_add_of_pos_right (Nat.succ_pos left), hatt⟩
  | case5 _ i s hctx e _ hatt hretry hwait ih =>
    have hnext := hstep i s e h hctx hwait (by rw [hatt]) hretry.1
    rw [hatt] at hnext
    obtain ⟨j, t, hinv, hctx', hlt, hlast⟩ := ih hretry.2 hnext hrun
    exact ⟨j, t, hinv, hctx', by omega, hlast⟩

/-- What every attempt that fails keeps holds at the end of a run that fails. -/
theorem run_failed {Inv : σ → Prop}
    (hstep : ∀ i s, Inv s → (l.attempt i s).1 ≠ none → Inv (l.attempt i s).2) (h : Inv s)
    (hrun : (l.run left i s).1 ≠ none) : Inv (l.run left i s).2 := by
  fun_induction Loop.run with
  | case1 | case2 => exact h
  | case3 => exact absurd rfl hrun
  | case4 _ i s _ _ _ hatt | case6 _ i s _ _ _ hatt =>
    have hlast := hstep i s h (by simp [hatt])
    rwa [hatt] at hlast
  | case5 _ i s _ _ _ hatt _ _ ih =>
    have hnext := hstep i s h (by simp [hatt])
    rw [hatt] at hnext
    exact ih hnext hrun

/-- A run succeeds if nobody gives up until its `k`-th attempt, which is allowed, and every attempt
until then succeeds or is worth another one, the `k`-th succeeds. -/
theorem run_succeeds {Inv : Nat → σ → Prop} {k : Nat} (hctx : ∀ i ≤ k, l.ctxErr i = none)
    (hwait : ∀ i < k, l.waitErr i = none)
    (hstep : ∀ i s, Inv i s → (l.attempt i s).1 = none ∨ i ≠ k ∧ ∃ e, (l.attempt i s).1 = some e ∧
      l.retriable e = true ∧ Inv (i + 1) (l.attempt i s).2)
    (h : Inv i s) (hik : i ≤ k) (hk : k < i + left) : (l.run left i s).1 = none := by
  have hfailed {i : Nat} {s s' : σ} {e : ε} (hik : i ≤ k) (h : Inv i s)
      (hatt : l.attempt i s = (some e, s')) : i < k ∧ l.retriable e = true ∧ Inv (i + 1) s' := by
    rcases hstep i s h with hok | ⟨hne, e', herr, hretry, hinv⟩
    · rw [hatt] at hok
      cases hok
    · rw [hatt] at herr hinv
      cases herr
      exact ⟨Nat.lt_of_le_of_ne hik hne, hretry, hinv⟩
  fun_induction Loop.run with
  | case1 => omega
  | case2 _ i _ _ hgiven => cases hgiven.symm.trans (hctx i hik)
  | case3 => rfl
  | case4 _ i _ _ _ _ hatt _ _ hgiven => cases hgiven.symm.trans (hwait i (hfailed hik h hatt).1)
  | case5 _ _ _ _ _ _ hatt _ _ ih =>
    obtain ⟨hlt, -, hinv⟩ := hfailed hik h hatt
    exact ih hinv hlt (by omega)
  | case6 _ _ _ _ _ _ hatt hends =>
    obtain ⟨hlt, hretry, -⟩ := hfailed hik h hatt
    exact absurd ⟨hretry, by omega⟩ hends

/-- What the attempts record. -/
theorem trace_run {τ : Type w} {trace : σ → List τ} {out : Nat → σ → List τ}
    (hstep : ∀ i s, trace (l.attempt i s).2 = trace s ++ out i s) :
    trace (l.run left i s).2 =
      trace s ++ (l.begun left i s).flatMap fun a => out a.1 a.2 := by
  fun_induction Loop.run with
  | case1 => exact (List.append_nil _).symm
  | case2 _ i _ _ hgiven =>
    rw [Loop.begun, hgiven]
    exact (List.append_nil _).symm
  | case3 _ i s hctx _ hatt =>
    simpa [Loop.begun, hctx, hatt] using hstep i s
  | case4 _ i s hctx _ _ hatt _ _ hends =>
    simpa [Loop.begun, hctx, hatt, hends] using hstep i s
  | case6 _ i s hctx _ _ hatt hends =>
    have hlast : ¬ (_ ∧ _ ∧ l.waitErr i = none) := fun h => hends ⟨h.1, h.2.1⟩
    simpa [Loop.begun, hctx, hatt, if_neg hlast] using hstep i s
  | case5 _ i s hctx _ _ hatt hretry hwait ih =>
    have hnext := hstep i s
    rw [hatt] at hnext
    simp [Loop.begun, hctx, hatt, hretry, hwait, ih, hnext]

end Rules

end Retry
