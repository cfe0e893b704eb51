import Mathlib

/-!
# Base64

The encoding of byte strings in the standard alphabet with padding: three bytes are four characters
of six bits each, and one or two bytes at the end are filled up with pads. `decode` takes the
characters back and does not look at the bits that the pads stand for. `decode_encode` is the round
trip, and `encode_mem` says which characters an encoded string can have.
-/

namespace Base64

/-- The pad `=`. -/
def pad : UInt8 := 61

/-- The character of a six-bit number. -/
def char (v : Nat) : UInt8 :=
  if v < 26 then UInt8.ofNat (65 + v)
  else if v < 52 then UInt8.ofNat (97 + (v - 26))
  else if v < 62 then UInt8.ofNat (48 + (v - 52))
  else if v = 62 then 43
  else 47

/-- The number of a character of the alphabet. -/
def value (c : UInt8) : Option Nat :=
  if 65 ≤ c ∧ c ≤ 90 then some (c.toNat - 65)
  else if 97 ≤ c ∧ c ≤ 122 then some (c.toNat - 97 + 26)
  else if 48 ≤ c ∧ c ≤ 57 then some (c.toNat - 48 + 52)
  else if c = 43 then some 62
  else if c = 47 then some 63
  else none

/-- The encoding of a byte string. -/
def encode : List UInt8 → List UInt8
  | [] => []
  | [a] => [char (a.toNat / 4), char (a.toNat % 4 * 16), pad, pad]
  | [a, b] =>
    [char (a.toNat / 4), char (a.toNat % 4 * 16 + b.toNat / 16), char (b.toNat % 16 * 4), pad]
  | a :: b :: c :: rest =>
    char (a.toNat / 4) :: char (a.toNat % 4 * 16 + b.toNat / 16) ::
      char (b.toNat % 16 * 4 + c.toNat / 64) :: char (c.toNat % 64) :: encode rest

/-- The byte string of an encoding. -/
def decode : List UInt8 → Option (List UInt8)
  | [] => some []
  | a :: b :: c :: d :: rest => do
    let x ← value a
    let y ← value b
    if c = pad then
      if d = pad ∧ rest = [] then return [UInt8.ofNat (x * 4 + y / 16)] else none
    else
      let z ← value c
      if d = pad then
        if rest = [] then
          return [UInt8.ofNat (x * 4 + y / 16), UInt8.ofNat (y % 16 * 16 + z / 4)]
        else none
      else
        let w ← value d
        let more ← decode rest
        return UInt8.ofNat (x * 4 + y / 16) :: UInt8.ofNat (y % 16 * 16 + z / 4) ::
          UInt8.ofNat (z % 4 * 64 + w) :: more
  | _ => none

theorem value_char (h : v < 64) : value (char v) = some v := by
  have hall : ∀ v < 64, value (char v) = some v := by decide
  exact hall v h

theorem char_ne_pad (h : v < 64) : char v ≠ pad := by
  have hall : ∀ v < 64, char v ≠ pad := by decide
  exact hall v h

/-- A byte is put together of what it was split into. -/
theorem ofNat_eq (h : n = a.toNat) : UInt8.ofNat n = a := by
  rw [h, UInt8.ofNat_toNat]

/-- The first byte of a group of two or three. -/
theorem first_eq (a b : UInt8) :
    UInt8.ofNat (a.toNat / 4 * 4 + (a.toNat % 4 * 16 + b.toNat / 16) / 16) = a := by
  have hb := b.toNat_lt
  exact ofNat_eq (by omega)

theorem decode_encode (bs : List UInt8) : decode (encode bs) = some bs := by
  induction bs using encode.induct with
  | case1 => rfl
  | case2 a =>
    have ha := a.toNat_lt
    have hbyte : UInt8.ofNat (a.toNat / 4 * 4 + a.toNat % 4 * 16 / 16) = a := ofNat_eq (by omega)
    simp only [encode, decode, bind, Option.bind, pure, true_and, if_true, hbyte,
      value_char (show a.toNat / 4 < 64 by omega),
      value_char (show a.toNat % 4 * 16 < 64 by omega)]
  | case3 a b =>
    have ha := a.toNat_lt
    have hb := b.toNat_lt
    have hsecond : UInt8.ofNat ((a.toNat % 4 * 16 + b.toNat / 16) % 16 * 16 +
        b.toNat % 16 * 4 / 4) = b := ofNat_eq (by omega)
    simp only [encode, decode, bind, Option.bind, pure, if_true, if_false, first_eq, hsecond,
      value_char (show a.toNat / 4 < 64 by omega),
      value_char (show a.toNat % 4 * 16 + b.toNat / 16 < 64 by omega),
      value_char (show b.toNat % 16 * 4 < 64 by omega),
      char_ne_pad (show b.toNat % 16 * 4 < 64 by omega)]
  | case4 a b c rest ih =>
    have ha := a.toNat_lt
    have hb := b.toNat_lt
    have hc := c.toNat_lt
    have hsecond : UInt8.ofNat ((a.toNat % 4 * 16 + b.toNat / 16) % 16 * 16 +
        (b.toNat % 16 * 4 + c.toNat / 64) / 4) = b := ofNat_eq (by omega)
    have hthird : UInt8.ofNat ((b.toNat % 16 * 4 + c.toNat / 64) % 4 * 64 + c.toNat % 64) = c :=
      ofNat_eq (by omega)
    simp only [encode, decode, bind, Option.bind, pure, if_false, ih, first_eq, hsecond, hthird,
      value_char (show a.toNat / 4 < 64 by omega),
      value_char (show a.toNat % 4 * 16 + b.toNat / 16 < 64 by omega),
      value_char (show b.toNat % 16 * 4 + c.toNat / 64 < 64 by omega),
      value_char (show c.toNat % 64 < 64 by omega),
      char_ne_pad (show b.toNat % 16 * 4 + c.toNat / 64 < 64 by omega),
      char_ne_pad (show c.toNat % 64 < 64 by omega)]

theorem encode_mem (h : c ∈ encode bs) : c = pad ∨ ∃ v, c = char v := by
  induction bs using encode.induct with
  | case1 => exact (List.not_mem_nil h).elim
  | case2 a =>
    simp only [encode, List.mem_cons, List.not_mem_nil, or_false] at h
    rcases h with rfl | rfl | rfl | rfl
    exacts [.inr ⟨_, rfl⟩, .inr ⟨_, rfl⟩, .inl rfl, .inl rfl]
  | case3 a b =>
    simp only [encode, List.mem_cons, List.not_mem_nil, or_false] at h
    rcases h with rfl | rfl | rfl | rfl
    exacts [.inr ⟨_, rfl⟩, .inr ⟨_, rfl⟩, .inr ⟨_, rfl⟩, .inl rfl]
  | case4 a b c rest ih =>
    simp only [encode, List.mem_cons] at h
    rcases h with rfl | rfl | rfl | rfl | h
    exacts [.inr ⟨_, rfl⟩, .inr ⟨_, rfl⟩, .inr ⟨_, rfl⟩, .inr ⟨_, rfl⟩, ih h]

theorem not_mem_encode (hpad : c ≠ pad) (hchar : ∀ v ≤ 63, c ≠ char v) (bs : List UInt8) :
    c ∉ encode bs := by
  intro h
  obtain rfl | ⟨v, rfl⟩ := encode_mem h
  · exact hpad rfl
  · have hlast : char v = char (min v 63) := by
      unfold char
      grind
    exact hchar (min v 63) (Nat.min_le_right v 63) hlast

end Base64
