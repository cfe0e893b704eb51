import GoKafka.Lib.Reader

/-!
# Readers that update a store

A server that applies a request while it parses it is a `Handler`: a `Reader` over a store, which a
failure leaves as the parsing up to there has made it. `Handles m bs s v s'` says that `m`, on the
tokens `bs` and the store `s`, returns `v` and leaves `s'`. As `Consumes` does, it composes over
sequences (`Handles.bind`) and counted loops (`Handles.handleN`); what a loop does to the store is
the fold `runAll` of what its rounds do. `Moves R m` is about all inputs, also those that are
refused: whatever `m` reads, it takes the store where `R` allows.
-/

universe u

namespace Reading

/-- Fallible readers of a token array that update a store. -/
abbrev Handler (ε σ α : Type u) := StateT (Cursor α) (ExceptT ε (StateM σ))

section
variable {ε σ α β γ ι : Type u}

/-- A reader that leaves the store alone. -/
def Handler.read (m : Reader ε α β) : Handler ε σ α β := fun c s => (m c, s)

/-- An update of the store that reads nothing. -/
def Handler.update (f : σ → β × σ) : Handler ε σ α β := fun c s => (.ok ((f s).1, c), (f s).2)

/-- `m` reads the tokens `bs` and returns `v`, at every position and before every continuation, and
takes the store from `s` to `s'`. -/
def Handles (m : Handler ε σ α β) (bs : List α) (s : σ) (v : β) (s' : σ) : Prop :=
  ∀ (c : Cursor α) (r : List α), c.Valid → c.rest = bs ++ r →
    m c s = (.ok (v, c.advance bs.length), s')

/-- A sequence of handlers, run: a failure of the first ends it. -/
theorem Handler.bind_apply (m : Handler ε σ α β) (f : β → Handler ε σ α γ) :
    (m >>= f) c s = match m c s with
      | (.error e, s') => (.error e, s')
      | (.ok (v, c'), s') => f v c' s' := by
  simp only [Bind.bind, StateT.bind, ExceptT.bind, ExceptT.mk]
  rcases m c s with ⟨e | ⟨v, c'⟩, s'⟩ <;> rfl

theorem Handles.pure (v : β) (s : σ) : Handles (pure v : Handler ε σ α β) [] s v s :=
  fun _ _ _ _ => rfl

theorem Handles.update (f : σ → β × σ) (s : σ) :
    Handles (Handler.update f : Handler ε σ α β) [] s (f s).1 (f s).2 :=
  fun _ _ _ _ => rfl

/-- A reader handles what it consumes. -/
theorem Consumes.handles (h : Consumes m bs v) (s : σ) : Handles (Handler.read m) bs s v s := by
  intro c r hc hr
  show (m c, s) = _
  rw [h c r hc hr]

variable {m : Handler ε σ α β}

/-- Consecutive handlers handle consecutive tokens, on the store as it comes. -/
theorem Handles.bind (h₁ : Handles m bs s v s') (h₂ : Handles (f v) bs' s' w s'') :
    Handles (m >>= f) (bs ++ bs') s w s'' := by
  intro c r hc hr
  rw [List.append_assoc] at hr
  have e₁ := h₁ c _ hc hr
  have e₂ := h₂ _ r (Cursor.valid_advance hc hr) (Cursor.rest_advance hr)
  rw [Handler.bind_apply, e₁, List.length_append, ← Cursor.advance_advance]
  exact e₂

theorem Handler.read_bind_error {m : Reader ε α β} (h : m c = .error e) :
    (Handler.read m >>= f) c s = (.error e, s) := by
  rw [Handler.bind_apply, Handler.read, h]

/-- A handler whose tokens come next: the continuation runs behind them. -/
theorem Handles.run_bind (h : Handles m bs s v s') (hc : c.Valid) (hr : c.rest = bs ++ r) :
    ∃ c' : Cursor α, c'.Valid ∧ c'.rest = r ∧
      ∀ {δ : Type u} (f : β → Handler ε σ α δ), (m >>= f) c s = f v c' s' := by
  refine ⟨c.advance bs.length, Cursor.valid_advance hc hr, Cursor.rest_advance hr, fun f => ?_⟩
  rw [Handler.bind_apply, h c r hc hr]

/-- The counted loop `for i := 0; i < n; i++ { x := m(); out = append(out, x) }`. -/
def handleN (m : Handler ε σ α β) : Nat → Handler ε σ α (List β)
  | 0 => pure []
  | n + 1 => do
    let x ← m
    let xs ← handleN m n
    pure (x :: xs)

/-- The results of a list of steps on a store, and the store they leave. -/
def runAll (step : ι → σ → β × σ) : List ι → σ → List β × σ
  | [], s => ([], s)
  | x :: xs, s =>
    let (y, s) := step x s
    let (ys, s) := runAll step xs s
    (y :: ys, s)

theorem runAll_append (step : ι → σ → β × σ) :
    runAll step (xs ++ ys) s = ((runAll step xs s).1 ++ (runAll step ys (runAll step xs s).2).1,
      (runAll step ys (runAll step xs s).2).2) := by
  induction xs generalizing s with
  | nil => rfl
  | cons x xs ih => simp only [List.cons_append, runAll, ih]

@[simp] theorem length_runAll (step : ι → σ → β × σ) : (runAll step xs s).1.length = xs.length := by
  induction xs generalizing s with
  | nil => rfl
  | cons x xs ih => simp only [runAll, List.length_cons, ih]

/-- Steps whose results do not depend on the store. -/
theorem runAll_pure (f : ι → β) (step : ι → σ → σ) :
    runAll (fun x s => (f x, step x s)) xs s = (xs.map f, xs.foldl (fun s x => step x s) s) := by
  induction xs generalizing s with
  | nil => rfl
  | cons x xs ih => simp only [runAll, ih, List.map_cons, List.foldl_cons]

/-- A counted loop does one after the other what its rounds do. -/
theorem Handles.handleN (h : ∀ x ∈ xs, ∀ s, Handles m (enc x) s (step x s).1 (step x s).2) (s : σ) :
    Handles (Reading.handleN m xs.length) (xs.flatMap enc) s (runAll step xs s).1
      (runAll step xs s).2 := by
  induction xs generalizing s with
  | nil => exact Handles.pure [] s
  | cons x xs ih =>
    have hx := h x List.mem_cons_self s
    have hxs := ih (fun y hy => h y (List.mem_cons_of_mem _ hy)) (step x s).2
    have hret := hxs.bind (f := fun ys => Pure.pure ((step x s).1 :: ys)) (Handles.pure _ _)
    rw [List.append_nil] at hret
    exact hx.bind hret

/-- A counted loop whose rounds return what does not depend on the store. -/
theorem Handles.handleN_pure {xs : List ι} (h : ∀ x ∈ xs, ∀ s, Handles m (enc x) s (f x) (step s x))
    (s : σ) :
    Handles (Reading.handleN m xs.length) (xs.flatMap enc) s (xs.map f)
      (xs.foldl step s) := by
  have hloop : Handles (Reading.handleN m xs.length) (xs.flatMap enc) s
      (runAll (fun x s => (f x, step s x)) xs s).1 (runAll (fun x s => (f x, step s x)) xs s).2 :=
    Handles.handleN h s
  rwa [runAll_pure] at hloop

/-! ## What a handler can do to the store -/

/-- Whatever it reads, `m` takes a store only to one that `R` relates to it. -/
def Moves (R : σ → σ → Prop) (m : Handler ε σ α β) : Prop := ∀ c s, R s (m c s).2

section Moves

variable {R : σ → σ → Prop}

theorem moves_update (h : ∀ s, R s (g s).2) : Moves R (Handler.update g : Handler ε σ α β) :=
  fun _ s => h s

theorem Moves.bind [IsTrans σ R] (hm : Moves R m) (hf : ∀ v, Moves R (f v)) :
    Moves R (m >>= f) := by
  intro c s
  rw [Handler.bind_apply]
  have hfirst := hm c s
  revert hfirst
  rcases m c s with ⟨e | ⟨v, c'⟩, s'⟩
  · exact id
  · exact fun hfirst => IsTrans.trans s s' _ hfirst (hf v c' s')

variable [Std.Refl R]

theorem moves_pure : Moves R (Pure.pure v : Handler ε σ α β) := fun _ s => Std.Refl.refl s

theorem moves_read (m : Reader ε α β) : Moves R (Handler.read m : Handler ε σ α β) :=
  fun _ s => Std.Refl.refl s

theorem Moves.handleN [IsTrans σ R] (hm : Moves R m) (n : Nat) : Moves R (Reading.handleN m n) := by
  induction n with
  | zero => exact moves_pure
  | succ n ih => exact hm.bind fun x => ih.bind fun xs => moves_pure

end Moves

end

end Reading
