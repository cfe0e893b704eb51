import GoKafka.Lib.Reader
import GoKafka.Lib.BigEndian
import GoKafka.Lib.Varint
import GoKafka.Errors

/-!
# `wire.Buffer`

The model of `internal/wire/buffer.go`. A `Buffer` is a `Cursor` over bytes: `data` is the field
`B` and `pos` the field `I`. A read method is a `Read`, and a write method is the byte string it
appends. Every writer is matched with its reader by a `Consumes` lemma, the bottom of all round
trips of the protocol.

`ReadUvarint` takes at most five bytes and refuses a fifth byte above 1, so it reads the numbers
below `2 ^ 29`, and `ReadVarint` those from `-2 ^ 28` to `2 ^ 28 - 1` (`consumes_readUvarint`,
`consumes_readVarint`).
-/

namespace GoKafka

open Reading BigEndian

abbrev Buffer := Cursor UInt8

/-- The read methods of `wire.Buffer`. -/
abbrev Read := Reader Error UInt8

def fromBytes (b : Bytes) : Buffer := ⟨b, 0⟩

/-! ## Reads -/

/-- The check and the slice every fixed-size read shares: `n` bytes from the position. -/
def readSlice (n : Nat) : Read Bytes := fun b =>
  if b.pos + n > b.data.length then .error .shortBuffer
  else .ok (b.rest.take n, b.advance n)

def readInt8 : Read Int8 := do return (UInt8.ofNat (beNat (← readSlice 1))).toInt8

def readInt16 : Read Int16 := do return (UInt16.ofNat (beNat (← readSlice 2))).toInt16

def readInt32 : Read Int32 := do return (UInt32.ofNat (beNat (← readSlice 4))).toInt32

def readInt64 : Read Int64 := do return (UInt64.ofNat (beNat (← readSlice 8))).toInt64

/-- `Buffer.ReadString`: a negative length is the empty string. -/
def readString : Read Bytes := do
  let n ← readInt16
  if n < 0 then return [] else readSlice n.toInt.toNat

/-- `Buffer.ReadBytes`: a negative length is nil. -/
def readBytes : Read NilBytes := do
  let n ← readInt32
  if n < 0 then return none else return some (← readSlice n.toInt.toNat)

/-- The loop of `Buffer.ReadUvarint` with `left` rounds to go; the last of the five rounds is
the one with `left = 0` after it. -/
def readUvarintLoop : Nat → Nat → Nat → Read Nat
  | 0, _, _ => fun _ => .error .uvarintOverflow
  | left + 1, x, s => fun b =>
    match b.data[b.pos]? with
    | none => .error .shortBuffer
    | some c =>
      if c < 0x80 then
        if left = 0 ∧ c > 1 then .error .uvarintOverflow
        else .ok (x ||| (c.toNat <<< s), b.advance 1)
      else readUvarintLoop left (x ||| ((c &&& 0x7f).toNat <<< s)) (s + 7) (b.advance 1)

def readUvarint : Read Nat := readUvarintLoop 5 0 0

def readVarint : Read Int64 := do return Varint.unzigzag (UInt64.ofNat (← readUvarint))

def readCompactString : Read Bytes := do
  let n ← readUvarint
  if n = 0 then return [] else readSlice (n - 1)

/-! ## Writes -/

def writeInt8 (v : Int8) : Bytes := beBytes 1 v.toUInt8.toNat

def writeInt16 (v : Int16) : Bytes := beBytes 2 v.toUInt16.toNat

def writeInt32 (v : Int32) : Bytes := beBytes 4 v.toUInt32.toNat

def writeInt64 (v : Int64) : Bytes := beBytes 8 v.toUInt64.toNat

def maxInt16 : Nat := 32767

/-- `Buffer.WriteString`, which panics on a string longer than its length field can say. -/
def writeString (s : Bytes) : Except Error Bytes :=
  if s.length > maxInt16 then .error (.panic "wire: string too long")
  else .ok (writeInt16 (Int16.ofNat s.length) ++ s)

def writeUvarint (x : Nat) : Bytes := Varint.encode x

def writeVarint (v : Int64) : Bytes := writeUvarint (Varint.zigzag v).toNat

@[simp] theorem length_writeInt8 : (writeInt8 v).length = 1 := length_beBytes _ _
@[simp] theorem length_writeInt16 : (writeInt16 v).length = 2 := length_beBytes _ _
@[simp] theorem length_writeInt32 : (writeInt32 v).length = 4 := length_beBytes _ _
@[simp] theorem length_writeInt64 : (writeInt64 v).length = 8 := length_beBytes _ _

/-! ## What a read takes off the buffer -/

section Taken

theorem readSlice_ok (h : readSlice n b = .ok (bs, b')) :
    b.rest = bs ++ b'.rest ∧ bs.length = n := by
  rw [readSlice] at h
  split at h
  · cases h
  · cases h
    have hrest : (b.advance n).rest = b.rest.drop n := by
      simp [Cursor.rest]
    rw [hrest, List.take_append_drop, List.length_take, Cursor.length_rest]
    exact ⟨rfl, by omega⟩

/-- Two bytes are those of the number they spell. -/
theorem writeInt16_beNat (h : bs.length = 2) :
    writeInt16 (UInt16.ofNat (beNat bs)).toInt16 = bs := by
  have hlt := beNat_lt bs
  rw [h] at hlt
  rw [writeInt16, UInt16.toUInt16_toInt16, UInt16.toNat_ofNat_of_lt' hlt, ← h, beBytes_beNat]

theorem readInt16_ok (h : readInt16 b = .ok (v, b')) : b.rest = writeInt16 v ++ b'.rest := by
  obtain ⟨bs, b₁, hslice, h⟩ := bind_ok h
  cases h
  obtain ⟨hrest, hlen⟩ := readSlice_ok hslice
  rw [hrest, writeInt16_beNat hlen]

theorem readInt32_ok (h : readInt32 b = .ok (v, b')) : b.rest = writeInt32 v ++ b'.rest := by
  obtain ⟨bs, b₁, hslice, h⟩ := bind_ok h
  cases h
  obtain ⟨hrest, hlen⟩ := readSlice_ok hslice
  have hlt := beNat_lt bs
  rw [hlen] at hlt
  rw [hrest, writeInt32, UInt32.toUInt32_toInt32, UInt32.toNat_ofNat_of_lt' hlt, ← hlen,
    beBytes_beNat]

theorem readString_ok (h : readString b = .ok (s, b')) :
    ∃ n : Int16, b.rest = writeInt16 n ++ (s ++ b'.rest) ∧ s.length = n.toInt.toNat := by
  obtain ⟨n, b₁, hn, h⟩ := bind_ok h
  refine ⟨n, ?_⟩
  rw [readInt16_ok hn]
  split at h
  · next hneg =>
    cases h
    rw [Int16.lt_iff_toInt_lt, Int16.toInt_zero] at hneg
    exact ⟨rfl, (Int.toNat_of_nonpos (by omega)).symm⟩
  · obtain ⟨hrest, hlen⟩ := readSlice_ok h
    exact ⟨by rw [hrest], hlen⟩

theorem readBytes_ok (h : readBytes b = .ok (v, b')) :
    ∃ n : Int32, b.rest = writeInt32 n ++ (v.bytes ++ b'.rest) ∧
      v.bytes.length = n.toInt.toNat := by
  obtain ⟨n, b₁, hn, h⟩ := bind_ok h
  refine ⟨n, ?_⟩
  rw [readInt32_ok hn]
  split at h
  · next hneg =>
    cases h
    rw [Int32.lt_iff_toInt_lt, Int32.toInt_zero] at hneg
    exact ⟨rfl, (Int.toNat_of_nonpos (by omega)).symm⟩
  · obtain ⟨bs, b₂, hslice, h⟩ := bind_ok h
    cases h
    obtain ⟨hrest, hlen⟩ := readSlice_ok hslice
    exact ⟨by rw [hrest]; rfl, hlen⟩

/-- A varint that is read moves the position forward, within the bytes. -/
theorem readUvarintLoop_advances (h : readUvarintLoop left x s b = .ok (n, b')) :
    b'.data = b.data ∧ b.pos < b'.pos ∧ b'.pos ≤ b.data.length := by
  induction left generalizing x s b with
  | zero => cases h
  | succ left ih =>
    unfold readUvarintLoop at h
    split at h
    · cases h
    · next hget =>
      have hlt := (List.getElem?_eq_some_iff.1 hget).1
      split at h
      · split at h
        · cases h
        · cases h
          exact ⟨rfl, Nat.lt_succ_self _, hlt⟩
      · have ⟨hdata, hp, hle⟩ := ih h
        exact ⟨hdata, Nat.lt_of_succ_lt hp, hle⟩

end Taken

/-! ## Each reader undoes its writer -/

theorem toNat_ofNat_int32 (h : n < 2 ^ 31) : (Int32.ofNat n).toInt.toNat = n := by
  rw [Int32.toInt_ofNat_of_lt h, Int.toNat_natCast]

theorem consumes_readSlice (bs : Bytes) : Consumes (readSlice bs.length) bs bs := by
  intro c r hc hr
  have hle := Cursor.pos_add_le hc hr
  rw [readSlice, if_neg (by omega), hr, List.take_left]

theorem consumes_readInt8 : Consumes readInt8 (writeInt8 v) v := by
  have h := (consumes_readSlice (writeInt8 v)).map fun s => (UInt8.ofNat (beNat s)).toInt8
  simpa [readInt8, writeInt8, beNat_beBytes] using h

theorem consumes_readInt16 : Consumes readInt16 (writeInt16 v) v := by
  have h := (consumes_readSlice (writeInt16 v)).map fun s => (UInt16.ofNat (beNat s)).toInt16
  simpa [readInt16, writeInt16, beNat_beBytes] using h

theorem consumes_readInt32 (v : Int32) : Consumes readInt32 (writeInt32 v) v := by
  have h := (consumes_readSlice (writeInt32 v)).map fun s => (UInt32.ofNat (beNat s)).toInt32
  simpa [readInt32, writeInt32, beNat_beBytes] using h

theorem consumes_readInt64 : Consumes readInt64 (writeInt64 v) v := by
  have h := (consumes_readSlice (writeInt64 v)).map fun s => (UInt64.ofNat (beNat s)).toInt64
  simpa [readInt64, writeInt64, beNat_beBytes] using h

variable {s : Bytes}

theorem consumes_readString (h : writeString s = .ok w) : Consumes readString w s := by
  unfold writeString at h
  split at h
  · cases h
  · next hlen =>
    cases h
    have hn : (Int16.ofNat s.length).toInt = s.length :=
      Int16.toInt_ofNat_of_lt (by unfold maxInt16 at hlen; omega)
    refine (consumes_readInt16).bind ?_
    have hneg : ¬ Int16.ofNat s.length < 0 := by
      rw [Int16.lt_iff_toInt_lt, Int16.toInt_zero]
      omega
    rw [if_neg hneg, hn]
    exact consumes_readSlice s

/-- A string that fits its length field, on the wire. -/
def stringBytes (s : Bytes) : Bytes := writeInt16 (Int16.ofNat s.length) ++ s

theorem writeString_eq (h : s.length ≤ maxInt16) : writeString s = .ok (stringBytes s) :=
  if_neg (not_lt.2 h)

theorem consumes_readString_stringBytes (h : s.length ≤ maxInt16) :
    Consumes readString (stringBytes s) s :=
  consumes_readString (writeString_eq h)

theorem consumes_readString_length (h : s.length = n.toInt.toNat) :
    Consumes readString (writeInt16 n ++ s) s := by
  refine (consumes_readInt16).bind ?_
  split
  · next hneg =>
    rw [Int16.lt_iff_toInt_lt, Int16.toInt_zero] at hneg
    rw [Int.toNat_of_nonpos (by omega)] at h
    rw [List.length_eq_zero_iff.1 h]
    exact Consumes.pure []
  · rw [← h]
    exact consumes_readSlice s

theorem consumes_readBytes_length (h : s.length = n.toInt.toNat) :
    ∃ v : NilBytes, v.bytes = s ∧ Consumes readBytes (writeInt32 n ++ s) v := by
  by_cases hneg : n < 0
  · have hlt := Int32.lt_iff_toInt_lt.1 hneg
    rw [Int32.toInt_zero] at hlt
    rw [Int.toNat_of_nonpos (by omega)] at h
    refine ⟨none, (List.length_eq_zero_iff.1 h).symm, ?_⟩
    rw [List.length_eq_zero_iff.1 h]
    refine (consumes_readInt32 n).bind ?_
    rw [if_pos hneg]
    exact Consumes.pure none
  · refine ⟨some s, rfl, (consumes_readInt32 n).bind ?_⟩
    rw [if_neg hneg, ← h]
    exact (consumes_readSlice s).map some

/-- Setting the next base-128 digit in the accumulator of `ReadUvarint` adds it. -/
theorem lor_shiftLeft {s : Nat} (h : x < 2 ^ s) : x ||| (d <<< s) = x + d * 2 ^ s := by
  rw [Nat.shiftLeft_eq, Nat.or_comm, Nat.mul_comm, ← Nat.two_pow_add_eq_or_of_lt h, Nat.add_comm]

/-- `ReadUvarint` at the last digit: the fifth may be at most one. -/
theorem readUvarintLoop_last (h : n < 128) (hr : c.rest = Varint.encode n ++ r) (s : Nat) :
    readUvarintLoop (left + 1) x s c =
      if left = 0 ∧ 1 < n then .error .uvarintOverflow
      else .ok (x ||| (n <<< s), c.advance 1) := by
  rw [Varint.encode_of_lt h] at hr
  have hb := Varint.toNat_last h
  have hget : c.data[c.pos]? = some (UInt8.ofNat n) := by
    rw [← Cursor.head?_rest, hr]
    rfl
  have h80 : UInt8.ofNat n < 0x80 := by
    rw [UInt8.lt_iff_toNat_lt, hb]
    exact h
  have h1 : UInt8.ofNat n > 1 ↔ 1 < n := by
    rw [gt_iff_lt, UInt8.lt_iff_toNat_lt, hb]
    rfl
  rw [readUvarintLoop]
  simp only [hget, if_pos h80, h1, hb]

/-- `ReadUvarint` at a digit that another one follows. -/
theorem readUvarintLoop_cont (h : 128 ≤ n) (hr : c.rest = Varint.encode n ++ r) :
    (c.advance 1).rest = Varint.encode (n / 128) ++ r ∧ ∀ left x s,
      readUvarintLoop (left + 1) x s c =
        readUvarintLoop left (x ||| ((n % 128) <<< s)) (s + 7) (c.advance 1) := by
  rw [Varint.encode_of_ge h] at hr
  have hb := Varint.toNat_cont n
  have hget : c.data[c.pos]? = some (UInt8.ofNat n ||| 0x80) := by
    rw [← Cursor.head?_rest, hr]
    rfl
  have h80 : ¬ UInt8.ofNat n ||| 0x80 < 0x80 := by
    rw [UInt8.lt_iff_toNat_lt, hb]
    show ¬ 128 + n % 128 < 128
    omega
  have hdigit : ((UInt8.ofNat n ||| 0x80) &&& 0x7f).toNat = n % 128 := by
    rw [UInt8.toNat_and, hb]
    show (128 + n % 128) &&& 2 ^ 7 - 1 = _
    rw [Nat.and_two_pow_sub_one_eq_mod]
    omega
  refine ⟨Cursor.rest_advance_one hr, fun left x s => ?_⟩
  rw [readUvarintLoop]
  simp only [hget, if_neg h80, hdigit]

theorem two_pow_rounds : 2 ^ (7 * (left + 1) + 1) = 128 * 2 ^ (7 * left + 1) := by
  rw [show 7 * (left + 1) + 1 = 7 + (7 * left + 1) by omega, Nat.pow_add]

/-- `ReadUvarint` with `left + 1` rounds to go reads a number of at most `7 * left + 1` bits on
top of the digits it has. -/
theorem consumes_readUvarintLoop {left x s n : Nat} (hx : x < 2 ^ s) (hn : n < 2 ^ (7 * left + 1)) :
    Consumes (readUvarintLoop (left + 1) x s) (Varint.encode n) (x + n * 2 ^ s) := by
  -- by induction on the rounds left; a digit with its continuation bit set shifts the rest by 7
  induction left generalizing x s n with
  | zero =>
    intro c r hc hr
    have hlt : n < 128 := by omega
    rw [readUvarintLoop_last hlt hr, if_neg (by omega), lor_shiftLeft hx, Varint.encode_of_lt hlt]
    rfl
  | succ left ih =>
    intro c r hc hr
    by_cases hlt : n < 128
    · rw [readUvarintLoop_last hlt hr, if_neg (by omega), lor_shiftLeft hx,
        Varint.encode_of_lt hlt]
      rfl
    · obtain ⟨hrest, hstep⟩ := readUvarintLoop_cont (Nat.not_lt.1 hlt) hr
      have hx' : x + n % 128 * 2 ^ s < 2 ^ (s + 7) := by
        have hmod : n % 128 ≤ 127 := by omega
        have := Nat.mul_le_mul_right (2 ^ s) hmod
        rw [Nat.pow_add]
        omega
      have hn' : n / 128 < 2 ^ (7 * left + 1) := by
        rw [two_pow_rounds] at hn
        omega
      have hsum : x + n % 128 * 2 ^ s + n / 128 * 2 ^ (s + 7) = x + n * 2 ^ s := by
        have hdm : n = n % 128 + 128 * (n / 128) := (Nat.mod_add_div n 128).symm
        have hp : 2 ^ (s + 7) = 128 * 2 ^ s := by rw [Nat.pow_add, Nat.mul_comm]
        calc x + n % 128 * 2 ^ s + n / 128 * 2 ^ (s + 7)
            = x + (n % 128 + 128 * (n / 128)) * 2 ^ s := by rw [hp]; ring
          _ = x + n * 2 ^ s := by rw [← hdm]
      rw [Varint.encode_of_ge (Nat.not_lt.1 hlt)] at hr ⊢
      rw [hstep, lor_shiftLeft hx, ih hx' hn' _ r (Cursor.valid_advance_one hc hr) hrest,
        hsum, Cursor.advance_advance, List.length_cons, Nat.add_comm 1]

/-- `ReadUvarint` with `left + 1` rounds to go refuses a number of more than `7 * left + 1` bits. -/
theorem readUvarintLoop_large {left x s n : Nat} (hn : 2 ^ (7 * left + 1) ≤ n) {c : Buffer}
    {r : Bytes} (hr : c.rest = Varint.encode n ++ r) :
    readUvarintLoop (left + 1) x s c = .error .uvarintOverflow := by
  -- by induction on the rounds left, as in `consumes_readUvarintLoop`
  induction left generalizing x s n c with
  | zero =>
    by_cases hlt : n < 128
    · rw [readUvarintLoop_last hlt hr, if_pos ⟨rfl, by omega⟩]
    · rw [(readUvarintLoop_cont (Nat.not_lt.1 hlt) hr).2]
      rfl
  | succ left ih =>
    rw [two_pow_rounds] at hn
    have hpos : 0 < 2 ^ (7 * left + 1) := Nat.two_pow_pos _
    obtain ⟨hrest, hstep⟩ := readUvarintLoop_cont (by omega) hr
    rw [hstep]
    refine ih ?_ hrest
    omega

/-- `ReadUvarint` reads back every number below `2 ^ 29`. -/
theorem consumes_readUvarint (h : n < 2 ^ 29) : Consumes readUvarint (writeUvarint n) n := by
  have := @consumes_readUvarintLoop 4 0 0 n (by decide) h
  simpa [readUvarint, writeUvarint] using this

/-- `ReadUvarint` refuses every other number. -/
theorem readUvarint_large (h : ¬ n < 2 ^ 29) (hr : c.rest = writeUvarint n ++ r) :
    readUvarint c = .error .uvarintOverflow :=
  @readUvarintLoop_large 4 0 0 n (Nat.not_lt.1 h) c r hr

/-- The range `ReadVarint` accepts. -/
def VarintRange (v : Int64) : Prop := -2 ^ 28 ≤ v.toInt ∧ v.toInt < 2 ^ 28

instance (v : Int64) : Decidable (VarintRange v) := inferInstanceAs (Decidable (_ ∧ _))

/-- `ReadVarint` reads back every number in its range. -/
theorem consumes_readVarint (h : VarintRange v) : Consumes readVarint (writeVarint v) v := by
  have hu := (consumes_readUvarint ((Varint.zigzag_lt v 28).2 h)).map
    fun n => Varint.unzigzag (UInt64.ofNat n)
  rw [UInt64.ofNat_toNat, Varint.unzigzag_zigzag] at hu
  exact hu

/-- `ReadVarint` refuses every other number. -/
theorem readVarint_large (h : ¬ VarintRange v) (hr : c.rest = writeVarint v ++ r) :
    readVarint c = .error .uvarintOverflow := by
  have hlarge := readUvarint_large (mt (Varint.zigzag_lt v 28).1 h) hr
  show (readUvarint c >>= _) = _
  rw [hlarge]
  rfl

theorem consumes_readUvarint_iff : Consumes readUvarint (writeUvarint n) n ↔ n < 2 ^ 29 := by
  refine ⟨fun h => ?_, consumes_readUvarint⟩
  by_contra hn
  have hread := h ⟨writeUvarint n, 0⟩ [] (Cursor.valid_start _) (List.append_nil _).symm
  rw [readUvarint_large hn (List.append_nil _).symm] at hread
  cases hread

theorem consumes_readVarint_iff : Consumes readVarint (writeVarint v) v ↔ VarintRange v := by
  refine ⟨fun h => ?_, consumes_readVarint⟩
  by_contra hv
  have hread := h ⟨writeVarint v, 0⟩ [] (Cursor.valid_start _) (List.append_nil _).symm
  rw [readVarint_large hv (List.append_nil _).symm] at hread
  cases hread

end GoKafka
