import Mathlib

/-!
# Readers over a cursor

A decoder that walks a fixed array with a position is a `Reader`: a state monad over a `Cursor`
that may fail. `Consumes m bs v` says that `m` reads exactly the tokens `bs` and returns `v`,
whatever follows them and wherever in the array they stand. It composes: a sequence of readers
consumes the concatenation of what each consumes (`Consumes.bind`), and so does a counted loop
(`Consumes.readN`). A round trip between a writer and a reader is then one `Consumes` lemma per
field and one application of the rules per record. `ConsumesUnless` and `ReturnsUnless` are for
readers that refuse some inputs and for those that stop early.
-/

universe u v w

namespace Reading

open List

/-- A position in an array of tokens. The position may be anywhere; `Cursor.Valid` is the
invariant that it is not past the end. -/
structure Cursor (α : Type u) where
  data : List α
  pos : Nat
  deriving DecidableEq

/-- Fallible readers of a token array. -/
abbrev Reader (ε : Type v) (α : Type u) := StateT (Cursor α) (Except ε)

namespace Cursor

variable {α : Type u}

/-- The tokens not read yet. -/
def rest (c : Cursor α) : List α := c.data.drop c.pos

/-- The cursor `n` tokens further on. -/
def advance (c : Cursor α) (n : Nat) : Cursor α := { c with pos := c.pos + n }

/-- The position is not past the end of the array. -/
def Valid (c : Cursor α) : Prop := c.pos ≤ c.data.length

@[simp] theorem advance_data (c : Cursor α) : (c.advance n).data = c.data := rfl
@[simp] theorem advance_pos (c : Cursor α) : (c.advance n).pos = c.pos + n := rfl

@[simp] theorem advance_zero (c : Cursor α) : c.advance 0 = c := rfl

@[simp] theorem advance_advance (c : Cursor α) : (c.advance m).advance n = c.advance (m + n) := by
  simp [advance, Nat.add_assoc]

@[simp] theorem rest_start : (Cursor.mk bs 0).rest = bs := rfl

theorem valid_start (bs : List α) : (Cursor.mk bs 0).Valid := Nat.zero_le _

theorem length_rest (c : Cursor α) : c.rest.length = c.data.length - c.pos := List.length_drop

variable {c : Cursor α} {r : List α}

/-- What is left after advancing over a prefix of the unread tokens. -/
theorem rest_advance {bs : List α} (h : c.rest = bs ++ r) : (c.advance bs.length).rest = r := by
  have : (c.advance bs.length).rest = c.rest.drop bs.length := by
    simp [rest]
  rw [this, h, drop_left]

/-- Advancing over unread tokens stays inside the array. -/
theorem valid_advance {bs : List α} (hc : c.Valid) (h : c.rest = bs ++ r) :
    (c.advance bs.length).Valid := by
  have hl := congrArg List.length h
  rw [length_rest, length_append] at hl
  simp only [Valid, advance_data, advance_pos] at hc ⊢
  omega

/-- What is left after advancing over one token. -/
theorem rest_advance_one (h : c.rest = x :: r) : (c.advance 1).rest = r :=
  @rest_advance _ c r [x] h

/-- Advancing over one unread token stays inside the array. -/
theorem valid_advance_one (hc : c.Valid) (h : c.rest = x :: r) : (c.advance 1).Valid :=
  @valid_advance _ c r [x] hc h

/-- The next token is the first unread one. -/
theorem head?_rest (c : Cursor α) : c.rest.head? = c.data[c.pos]? := by
  rw [rest, List.head?_drop]

theorem pos_add_le (hc : c.Valid) (h : c.rest = bs ++ r) : c.pos + bs.length ≤ c.data.length :=
  valid_advance hc h

end Cursor

section
variable {ε : Type v} {α β γ : Type u}

/-- `m` reads the tokens `bs` and returns `v`, at every position and before every continuation. -/
def Consumes (m : Reader ε α β) (bs : List α) (v : β) : Prop :=
  ∀ (c : Cursor α) (r : List α), c.Valid → c.rest = bs ++ r →
    m c = .ok (v, c.advance bs.length)

/-- Returning a value reads nothing. -/
theorem Consumes.pure (v : β) : Consumes (pure v : Reader ε α β) [] v :=
  fun _ _ _ _ => rfl

variable {m : Reader ε α β} {bs : List α}

/-- Consecutive readers consume consecutive tokens. -/
theorem Consumes.bind (h₁ : Consumes m bs v) (h₂ : Consumes (f v) bs' w) :
    Consumes (m >>= f) (bs ++ bs') w := by
  intro c r hc hr
  rw [append_assoc] at hr
  have e₁ := h₁ c _ hc hr
  have e₂ := h₂ _ r (Cursor.valid_advance hc hr) (Cursor.rest_advance hr)
  show (m c >>= fun p => f p.1 p.2) = _
  rw [e₁]
  show f v (c.advance bs.length) = _
  rw [e₂, Cursor.advance_advance, length_append]

/-- Running a reader whose tokens come next: the continuation runs behind them. -/
theorem Consumes.run_bind (h : Consumes m bs v) (hc : c.Valid) (hr : c.rest = bs ++ r) :
    ∃ c' : Cursor α, c'.Valid ∧ c'.rest = r ∧
      ∀ {δ : Type u} (f : β → Reader ε α δ), (m >>= f) c = f v c' := by
  refine ⟨c.advance bs.length, Cursor.valid_advance hc hr, Cursor.rest_advance hr, fun f => ?_⟩
  show (m c >>= fun p => f p.1 p.2) = _
  rw [h c r hc hr]
  rfl

/-- Reading an array that holds the tokens and nothing else. -/
theorem Consumes.run (h : Consumes m bs v) : Prod.fst <$> m ⟨bs, 0⟩ = .ok v := by
  rw [h _ [] (Cursor.valid_start _) (append_nil _).symm]
  rfl

theorem bind_ok (h : (m >>= f) c = .ok (w, c')) :
    ∃ v c₁, m c = .ok (v, c₁) ∧ f v c₁ = .ok (w, c') := by
  have hrun : (m >>= f) c = (m c >>= fun p => f p.1 p.2) := rfl
  rw [hrun] at h
  cases hm : m c with
  | error e => rw [hm] at h; cases h
  | ok p => rw [hm] at h; exact ⟨p.1, p.2, rfl, h⟩

/-- Post-processing a reader's result reads nothing more. -/
theorem Consumes.map (f : β → γ) (h : Consumes m bs v) :
    Consumes (m >>= fun x => Pure.pure (f x)) bs (f v) := by
  simpa using h.bind (f := fun x => Pure.pure (f x)) (Consumes.pure (f v))

/-- `m` reads the tokens `bs` and returns `v`, or it fails and `P` holds. -/
def ConsumesUnless (P : Prop) (m : Reader ε α β) (bs : List α) (v : β) : Prop :=
  ∀ (c : Cursor α) (r : List α), c.Valid → c.rest = bs ++ r →
    (P ∧ ∃ e, m c = .error e) ∨ m c = .ok (v, c.advance bs.length)

/-- `m` returns `v` at the tokens `bs`, wherever it stops, or it fails and `P` holds. -/
def ReturnsUnless (P : Prop) (m : Reader ε α β) (bs : List α) (v : β) : Prop :=
  ∀ (c : Cursor α) (r : List α), c.Valid → c.rest = bs ++ r →
    (P ∧ ∃ e, m c = .error e) ∨ ∃ c', m c = .ok (v, c')

section Unless

variable {P : Prop} {m : Reader ε α β} {bs : List α} {v : β} {w : γ}

theorem Consumes.unless (h : Consumes m bs v) : ConsumesUnless P m bs v :=
  fun c r hc hr => .inr (h c r hc hr)

variable (h : ConsumesUnless P m bs v)
include h

theorem ConsumesUnless.mono (hPQ : P → Q) : ConsumesUnless Q m bs v :=
  fun c r hc hr => (h c r hc hr).imp_left fun hfail => ⟨hPQ hfail.1, hfail.2⟩

theorem ConsumesUnless.consumes (hP : ¬ P) : Consumes m bs v :=
  fun c r hc hr => (h c r hc hr).resolve_left fun hfail => hP hfail.1

theorem ConsumesUnless.returns : ReturnsUnless P m bs v :=
  fun c r hc hr => (h c r hc hr).imp_right fun hok => ⟨_, hok⟩

/-- After a reader that has read its tokens, another one goes on with the rest. -/
theorem ConsumesUnless.bind_cases (hc : c.Valid) (hr : c.rest = bs ++ r) :
    (P ∧ ∃ e, (m >>= f) c = .error e) ∨
      (m >>= f) c = f v (c.advance bs.length) ∧ (c.advance bs.length).Valid ∧
        (c.advance bs.length).rest = r := by
  have hrun : (m >>= f) c = (m c >>= fun p => f p.1 p.2) := rfl
  rcases h c r hc hr with ⟨hP, e, he⟩ | hok
  · refine .inl ⟨hP, e, ?_⟩
    rw [hrun, he]
    rfl
  · refine .inr ⟨?_, Cursor.valid_advance hc hr, Cursor.rest_advance hr⟩
    rw [hrun, hok]
    rfl

omit h

theorem ConsumesUnless.bind (h₁ : ConsumesUnless P m bs v) (h₂ : ConsumesUnless P (f v) bs' w) :
    ConsumesUnless P (m >>= f) (bs ++ bs') w := by
  intro c r hc hr
  rw [append_assoc] at hr
  rcases h₁.bind_cases hc hr with hfail | ⟨hrun, hvalid, hrest⟩
  · exact .inl hfail
  · rw [hrun, length_append, ← Cursor.advance_advance]
    exact h₂ _ r hvalid hrest

/-- What a reader returns after another one has read its tokens. -/
theorem ConsumesUnless.bind_returns (h₁ : ConsumesUnless P m bs v)
    (h₂ : ReturnsUnless P (f v) bs' w) : ReturnsUnless P (m >>= f) (bs ++ bs') w := by
  intro c r hc hr
  rw [append_assoc] at hr
  rcases h₁.bind_cases hc hr with hfail | ⟨hrun, hvalid, hrest⟩
  · exact .inl hfail
  · rw [hrun]
    exact h₂ _ r hvalid hrest

/-- A reader that goes on only to return. -/
theorem ReturnsUnless.bind_pure (h : ReturnsUnless P m bs v)
    (hf : ∀ c, f v c = .ok (w, c)) : ReturnsUnless P (m >>= f) bs w := by
  intro c r hc hr
  have hrun : (m >>= f) c = (m c >>= fun p => f p.1 p.2) := rfl
  rcases h c r hc hr with ⟨hP, e, he⟩ | ⟨c', hok⟩
  · refine .inl ⟨hP, e, ?_⟩
    rw [hrun, he]
    rfl
  · refine .inr ⟨c', ?_⟩
    rw [hrun, hok]
    exact hf c'

/-- Tokens that are not reached do not matter. -/
theorem ReturnsUnless.append (h : ReturnsUnless P m bs v) (bs' : List α) :
    ReturnsUnless P m (bs ++ bs') v := fun c r hc hr =>
  h c (bs' ++ r) hc (hr.trans (List.append_assoc _ _ _))

end Unless

/-- The counted loop `for i := 0; i < n; i++ { x := m(); out = append(out, x) }`. -/
def readN (m : Reader ε α β) : Nat → Reader ε α (List β)
  | 0 => pure []
  | n + 1 => do
    let x ← m
    let xs ← readN m n
    pure (x :: xs)

theorem readN_ok (h : readN m n c = .ok (vs, c')) :
    vs.length = n ∧ ∀ v ∈ vs, ∃ c₁ c₂, m c₁ = .ok (v, c₂) := by
  induction n generalizing c vs with
  | zero =>
    cases h
    exact ⟨rfl, nofun⟩
  | succ n ih =>
    obtain ⟨v, c₁, hv, h⟩ := bind_ok h
    obtain ⟨vs', c₂, hvs, h⟩ := bind_ok h
    cases h
    obtain ⟨hlen, hmem⟩ := ih hvs
    exact ⟨by rw [length_cons, hlen], forall_mem_cons.2 ⟨⟨c, c₁, hv⟩, hmem⟩⟩

theorem Consumes.readN_map {ι : Type w} {enc : ι → List α} {val : ι → β} {xs : List ι}
    (h : ∀ x ∈ xs, Consumes m (enc x) (val x)) :
    Consumes (Reading.readN m xs.length) (xs.flatMap enc) (xs.map val) := by
  induction xs with
  | nil => exact Consumes.pure []
  | cons x xs ih =>
    have hx := h x (by simp)
    have hxs := ih fun y hy => h y (by simp [hy])
    exact hx.bind (hxs.map (val x :: ·))

theorem Consumes.readN (h : ∀ v ∈ vs, Consumes m (enc v) v) :
    Consumes (Reading.readN m vs.length) (vs.flatMap enc) vs := by
  have hmap : Consumes (Reading.readN m vs.length) (vs.flatMap enc) (vs.map id) :=
    Consumes.readN_map h
  rwa [map_id] at hmap

/-- Every error of `m` is one of `P`. -/
def FailsWith (P : ε → Prop) (m : Reader ε α β) : Prop := ∀ c e, m c = .error e → P e

theorem FailsWith.bind (h₁ : FailsWith P m) (h₂ : ∀ v, FailsWith P (f v)) :
    FailsWith P (m >>= f) := by
  intro c e h
  have hrun : (m >>= f) c = (m c >>= fun p => f p.1 p.2) := rfl
  rw [hrun] at h
  cases hm : m c with
  | error e' =>
    rw [hm] at h
    cases h
    exact h₁ c e hm
  | ok p =>
    rw [hm] at h
    exact h₂ p.1 p.2 e h

theorem FailsWith.readN (h : FailsWith P m) (n : Nat) : FailsWith P (Reading.readN m n) := by
  induction n with
  | zero => exact nofun
  | succ n ih => exact h.bind fun _ => ih.bind nofun

end

end Reading
