import GoKafka.Lib.Run
import GoKafka.Wire.Flex

/-!
# The accesses of `wire.Buffer`

The read methods once more, with their accesses: a method changes the buffer also where it fails,
and a slice outside of the bytes is a panic. Each of them implements its reader (`Implements`),
which is what the rest of the development works with.

`reads_safe` is about any sequence of reads: the position only grows and stays within the bytes, and
no slice is out of range.
-/

namespace GoKafka

open BigEndian List Reading Run

/-- A read method: its result and the buffer it leaves. -/
abbrev Method := ExceptT Error (StateM Buffer)

namespace Method

/-! ## The program -/

/-- `b.B[b.I : b.I+n]`. -/
def slice (b : Buffer) (n : Int) : Except Error Bytes :=
  if 0 ≤ n ∧ b.pos + n ≤ b.data.length then .ok (b.rest.take n.toNat)
  else .error (.panic "runtime error: slice bounds out of range")

/-- What the reads of bytes have in common: a check, a slice and a move. -/
def takeBytes (n : Int) : Method Bytes := fun b =>
  if b.pos + n > b.data.length then (.error .shortBuffer, b)
  else match slice b n with
    | .ok s => (.ok s, { b with pos := (b.pos + n).toNat })
    | .error e => (.error e, b)

/-- The same without a slice, as in `Buffer.SkipTagSection`. -/
def skipBytes (n : Int) : Method Unit := fun b =>
  if b.pos + n > b.data.length then (.error .shortBuffer, b)
  else (.ok (), { b with pos := (b.pos + n).toNat })

def readInt8 : Method Int8 := do return (UInt8.ofNat (beNat (← takeBytes 1))).toInt8

def readInt16 : Method Int16 := do return (UInt16.ofNat (beNat (← takeBytes 2))).toInt16

def readInt32 : Method Int32 := do return (UInt32.ofNat (beNat (← takeBytes 4))).toInt32

def readInt64 : Method Int64 := do return (UInt64.ofNat (beNat (← takeBytes 8))).toInt64

def readBool : Method Bool := do return (← readInt8) != 0

def readString : Method Bytes := do
  let n ← readInt16
  if n < 0 then return [] else takeBytes n.toInt

def readBytes : Method NilBytes := do
  let n ← readInt32
  if n < 0 then return none else return some (← takeBytes n.toInt)

/-- The loop of `Buffer.ReadUvarint` with `left` rounds to go. -/
def readUvarintLoop : Nat → Nat → Nat → Method Nat
  | 0, _, _ => throw .uvarintOverflow
  | left + 1, x, s => do
    let bs ← takeBytes 1
    if bs.headD 0 < 0x80 then
      if left = 0 ∧ bs.headD 0 > 1 then throw .uvarintOverflow
      else return x ||| ((bs.headD 0).toNat <<< s)
    else readUvarintLoop left (x ||| ((bs.headD 0 &&& 0x7f).toNat <<< s)) (s + 7)

def readUvarint : Method Nat := readUvarintLoop 5 0 0

def readVarint : Method Int64 := do return Varint.unzigzag (UInt64.ofNat (← readUvarint))

def readCompactString : Method Bytes := do
  let n ← readUvarint
  if n = 0 then return [] else takeBytes (n - 1)

def readCompactNullableString : Method Bytes := do
  let n ← readUvarint
  if n ≤ 1 then return [] else takeBytes (n - 1)

def readCompactNullableStringPtr : Method NilBytes := do
  let n ← readUvarint
  if n = 0 then return none
  else if n = 1 then return some []
  else return some (← takeBytes (n - 1))

def readCompactBytes : Method NilBytes := do
  let n ← readUvarint
  if n = 0 then return none else return some (← takeBytes (n - 1))

/-- The loop of `Buffer.SkipTagSection` with fields left. -/
def skipTags : Nat → Method Unit
  | 0 => return ()
  | n + 1 => do
    let _tag ← readUvarint
    let size ← readUvarint
    skipBytes size
    skipTags n

def skipTagSection : Method Unit := do skipTags (← readUvarint)

/-! ## The methods and the readers -/

/-- A later state of a buffer: the same bytes, and a position within them that is not before. -/
structure Onward (b b' : Buffer) : Prop where
  data : b'.data = b.data
  pos : b.pos ≤ b'.pos
  valid : b'.Valid

/-- A method does what a reader does, within the bytes and without a panic. -/
def Implements (m : Method α) (r : Read α) : Prop :=
  ∀ b, b.Valid → ∃ x b', m b = (x, b') ∧ Onward b b' ∧
    match x with
    | .ok v => r b = .ok (v, b')
    | .error e => r b = .error e ∧ e.Returned

/-- The second method runs from where the first one stopped. -/
theorem run_bind {m : Method α} {f : α → Method β} :
    (m >>= f) b = match m b with
      | (.ok v, b') => f v b'
      | (.error e, b') => (.error e, b') := by
  have hrun : (m >>= f) b = ExceptT.bindCont f (m b).1 (m b).2 := rfl
  rw [hrun]
  rcases m b with ⟨_ | _, b'⟩ <;> rfl

/-- Returning a value reads nothing. -/
theorem Implements.pure (v : α) : Implements (pure v) (pure v) :=
  fun b hb => ⟨.ok v, b, rfl, ⟨rfl, le_rfl, hb⟩, rfl⟩

/-- An error that is returned is an error of the pure reader. -/
theorem Implements.throw (h : e.Returned) : Implements (throw e : Method α) (fun _ => .error e) :=
  fun b hb => ⟨.error e, b, rfl, ⟨rfl, le_rfl, hb⟩, rfl, h⟩

/-- Two methods in a row are their readers in a row. -/
theorem Implements.bind {m : Method α} {f : α → Method β} (h : Implements m r)
    (hf : ∀ v, Implements (f v) (g v)) : Implements (m >>= f) (r >>= g) := by
  intro b hb
  have hrun : (r >>= g) b = (r b >>= fun p => g p.1 p.2) := rfl
  obtain ⟨x, b₁, hm, hon, hr⟩ := h b hb
  rw [hrun, run_bind, hm]
  cases x with
  | error e => exact ⟨.error e, b₁, rfl, hon, by rw [hr.1]; rfl, hr.2⟩
  | ok v =>
    obtain ⟨y, b₂, hm', hon', hr'⟩ := hf v b₁ hon.valid
    refine ⟨y, b₂, hm', ⟨hon'.data.trans hon.data, hon.pos.trans hon'.pos, hon'.valid⟩, ?_⟩
    rw [hr]
    exact hr'

/-- A method that is not run when there is nothing to read. -/
theorem Implements.unless [Decidable p] {m : Method α} (h : ¬ p → Implements m r) :
    Implements (if p then Pure.pure v else m) (if p then Pure.pure v else r) := by
  split_ifs with hp
  · exact .pure v
  · exact h hp

/-- Taking bytes is reading a slice, for a length that is no negative number. -/
theorem implements_takeBytes (hn : 0 ≤ n) : Implements (takeBytes n) (readSlice n.toNat) := by
  intro b hb
  by_cases hlong : b.pos + n > b.data.length
  · exact ⟨_, b, if_pos hlong, ⟨rfl, le_rfl, hb⟩, if_pos (by omega), nofun⟩
  · have hpos : (b.pos + n).toNat = b.pos + n.toNat := by omega
    refine ⟨.ok _, b.advance n.toNat, ?_, ⟨rfl, Nat.le_add_right _ _, ?_⟩, if_neg (by omega)⟩
    · rw [takeBytes, if_neg hlong, slice, if_pos ⟨hn, not_lt.1 hlong⟩, hpos]
      rfl
    · show b.pos + n.toNat ≤ b.data.length
      omega

/-- A compact length is one more than the bytes that follow. -/
theorem implements_takeBytes_pred {n : Nat} (hn : n ≠ 0) :
    Implements (takeBytes (n - 1)) (readSlice (n - 1)) := by
  have hpred : n - 1 = ((n : Int) - 1).toNat := by omega
  rw [hpred]
  exact implements_takeBytes (by omega)

/-- Skipping is reading a slice and dropping it. -/
theorem implements_skipBytes (n : Nat) :
    Implements (skipBytes n) (readSlice n >>= fun _ => Pure.pure ()) := by
  intro b hb
  have hrun : (readSlice n >>= fun _ => Pure.pure ()) b =
      (readSlice n b >>= fun p => .ok ((), p.2)) := rfl
  rw [hrun, readSlice]
  by_cases hlong : b.pos + n > b.data.length
  · rw [if_pos hlong]
    exact ⟨_, b, if_pos (by omega), ⟨rfl, le_rfl, hb⟩, rfl, fun _ h => by cases h⟩
  · rw [if_neg hlong]
    exact ⟨.ok (), b.advance n, if_neg (by omega), ⟨rfl, Nat.le_add_right _ _, not_lt.1 hlong⟩, rfl⟩

/-- A round of the pure loop, with the byte it reads. -/
theorem readUvarintLoop_eq (left x s : Nat) :
    GoKafka.readUvarintLoop (left + 1) x s = (do
      let bs ← readSlice 1
      if bs.headD 0 < 0x80 then
        if left = 0 ∧ bs.headD 0 > 1 then fun _ => .error .uvarintOverflow
        else return x ||| ((bs.headD 0).toNat <<< s)
      else
        GoKafka.readUvarintLoop left (x ||| ((bs.headD 0 &&& 0x7f).toNat <<< s)) (s + 7)) := by
  funext b
  have hrun {f : Bytes → Read Nat} : (readSlice 1 >>= f) b =
      (readSlice 1 b >>= fun p => f p.1 p.2) := rfl
  rw [GoKafka.readUvarintLoop, hrun, readSlice]
  dsimp only
  cases hget : b.data[b.pos]? with
  | none =>
    rw [if_pos (Nat.lt_succ_of_le (getElem?_eq_none_iff.1 hget))]
    rfl
  | some c =>
    obtain ⟨hlt, hc⟩ := List.getElem?_eq_some_iff.1 hget
    have hrest : b.rest = c :: b.data.drop (b.pos + 1) := hc ▸ drop_eq_getElem_cons hlt
    rw [if_neg (Nat.not_lt.2 hlt), hrest]
    show (if c < 0x80 then if left = 0 ∧ c > 1 then _ else _ else _) =
      (if c < 0x80 then if left = 0 ∧ c > 1 then _ else _ else _ : Read Nat) (b.advance 1)
    split_ifs <;> rfl

/-- The loop ends within the ten rounds of its reader. -/
theorem implements_readUvarint : Implements readUvarint GoKafka.readUvarint := by
  suffices hloop : ∀ left x s,
      Implements (readUvarintLoop left x s) (GoKafka.readUvarintLoop left x s) from hloop 5 0 0
  intro left
  induction left with
  | zero => exact fun _ _ => .throw nofun
  | succ left ih =>
    intro x s
    rw [readUvarintLoop_eq]
    refine (implements_takeBytes (by decide)).bind fun bs => ?_
    split_ifs
    · exact .throw nofun
    · exact .pure _
    · exact ih _ _

/-- A section's fields are skipped one by one. -/
theorem implements_skipTagSection : Implements skipTagSection GoKafka.skipTagSection := by
  refine implements_readUvarint.bind fun n => ?_
  induction n with
  | zero => exact .pure ()
  | succ n ih =>
    refine implements_readUvarint.bind fun _ => implements_readUvarint.bind fun size => ?_
    have hskip := (implements_skipBytes size).bind fun _ => ih
    simpa only [bind_assoc, pure_bind] using hskip

/-! ## Sequences of reads -/

/-- The error of a method, if it fails, and the buffer it leaves. -/
def outcome (m : Method α) (b : Buffer) : Option Error × Buffer :=
  (match (m b).1 with
    | .ok _ => none
    | .error e => some e, (m b).2)

end Method

open Method

/-- The read methods. -/
inductive ReadOp where
  | int8 | int16 | int32 | int64 | bool | string | bytes | uvarint | varint
  | compactString | compactNullableString | compactNullableStringPtr | compactBytes
  | skipTagSection

/-- A call of a read method. -/
def ReadOp.run : ReadOp → Buffer → Option Error × Buffer
  | int8 => outcome Method.readInt8
  | int16 => outcome Method.readInt16
  | int32 => outcome Method.readInt32
  | int64 => outcome Method.readInt64
  | bool => outcome readBool
  | string => outcome Method.readString
  | bytes => outcome Method.readBytes
  | uvarint => outcome Method.readUvarint
  | varint => outcome Method.readVarint
  | compactString => outcome Method.readCompactString
  | compactNullableString => outcome Method.readCompactNullableString
  | compactNullableStringPtr => outcome readCompactNullableStringPtr
  | compactBytes => outcome Method.readCompactBytes
  | skipTagSection => outcome Method.skipTagSection

/-- A call leaves the position within the bytes and not before where it was, and slices within
them. -/
def ReadOp.Safe (b : Buffer) (op : ReadOp) : Prop :=
  b.pos ≤ (op.run b).2.pos ∧ (op.run b).2.pos ≤ b.data.length ∧ ∀ e ∈ (op.run b).1, e.Returned

/-- A method with a reader moves the position onward and within the bytes. -/
theorem outcome_of_implements {m : Method α} (h : Implements m r) (hb : b.Valid) :
    Onward b (outcome m b).2 ∧ ∀ e ∈ (outcome m b).1, e.Returned := by
  obtain ⟨x, b', hm, hon, hr⟩ := h b hb
  rw [outcome, hm]
  cases x with
  | ok v => exact ⟨hon, nofun⟩
  | error e => exact ⟨hon, fun e' he' => Option.some.inj he' ▸ hr.2⟩

/-- Every call moves the position onward, and what fails is an error, never a panic. -/
theorem ReadOp.run_onward (op : ReadOp) (hb : b.Valid) :
    Onward b (op.run b).2 ∧ ∀ e ∈ (op.run b).1, e.Returned := by
  have hfixed {α : Type} {f : Bytes → α} (n : Nat) :=
    (implements_takeBytes (Int.natCast_nonneg n)).bind fun bs => .pure (f bs)
  cases op with
  | int8 => exact outcome_of_implements (hfixed 1) hb
  | int16 => exact outcome_of_implements (hfixed 2) hb
  | int32 => exact outcome_of_implements (hfixed 4) hb
  | int64 => exact outcome_of_implements (hfixed 8) hb
  | bool => exact outcome_of_implements ((hfixed 1).bind fun v : Int8 => .pure (v != 0)) hb
  | string =>
    refine outcome_of_implements (r := GoKafka.readString) ((hfixed 2).bind fun n => .unless ?_) hb
    exact fun hn => implements_takeBytes (not_lt.1 (mt (@Int16.lt_iff_toInt_lt n 0).2 hn))
  | bytes =>
    refine outcome_of_implements (r := GoKafka.readBytes) ((hfixed 4).bind fun n => .unless ?_) hb
    intro hn
    have htake := implements_takeBytes (not_lt.1 (mt (@Int32.lt_iff_toInt_lt n 0).2 hn))
    exact htake.bind fun _ => .pure _
  | uvarint => exact outcome_of_implements implements_readUvarint hb
  | varint => exact outcome_of_implements (implements_readUvarint.bind fun _ => .pure _) hb
  | compactString =>
    exact outcome_of_implements (r := GoKafka.readCompactString)
      (implements_readUvarint.bind fun n => .unless implements_takeBytes_pred) hb
  | compactNullableString =>
    exact outcome_of_implements (r := GoKafka.readCompactNullableString)
      (implements_readUvarint.bind fun n => .unless fun _ => implements_takeBytes_pred (by omega))
      hb
  | compactNullableStringPtr =>
    exact outcome_of_implements (implements_readUvarint.bind fun n => .unless fun hn =>
      .unless fun _ => (implements_takeBytes_pred hn).bind fun s => .pure (some s)) hb
  | compactBytes =>
    exact outcome_of_implements (r := GoKafka.readCompactBytes) (implements_readUvarint.bind
      fun n => .unless fun hn => (implements_takeBytes_pred hn).bind fun _ => .pure _) hb
  | skipTagSection => exact outcome_of_implements implements_skipTagSection hb

/-- Reads are safe in every sequence, and a section of tagged fields is skipped to its end. -/
theorem reads_safe (data : Bytes) (ops : List ReadOp) :
    Along (fun b op => (op.run b).2) ReadOp.Safe ⟨data, 0⟩ ops ∧
      ∀ before fields after, ¬ TagsTooLarge fields →
        data = before ++ writeTagSection fields ++ after →
        Method.skipTagSection ⟨data, before.length⟩ =
          (.ok (), ⟨data, before.length + (writeTagSection fields).length⟩) := by
  constructor
  · have hstep (b : Buffer) (op : ReadOp) (hb : b.Valid) (_ : True) : (op.run b).2.Valid :=
      (op.run_onward hb).1.valid
    refine Along.of_invariant hstep (fun b op hb _ => ?_) (Along.of_forall fun _ _ => trivial)
      (Nat.zero_le _)
    obtain ⟨hon, herr⟩ := op.run_onward hb
    exact ⟨hon.pos, hon.data ▸ hon.valid, herr⟩
  · intro before fields after hsmall hdata
    have hlen : data.length = before.length + (writeTagSection fields).length + after.length := by
      rw [hdata, length_append, length_append]
    have hvalid : Cursor.Valid ⟨data, before.length⟩ := by
      show before.length ≤ data.length
      omega
    have hrest : Cursor.rest ⟨data, before.length⟩ = writeTagSection fields ++ after := by
      rw [Cursor.rest, hdata, append_assoc, drop_left]
    obtain ⟨x, b', hm, -, hr⟩ := implements_skipTagSection _ hvalid
    obtain ⟨hlarge, -⟩ | hread := consumesUnless_skipTagSection _ after hvalid hrest
    · exact absurd hlarge hsmall
    · rw [hread] at hr
      cases x with
      | error e => cases hr.1
      | ok v => cases hr; exact hm

/-- One tagged field is skipped to the end of the bytes. -/
theorem reads_safe_skip :
    Method.skipTagSection ⟨writeTagSection [⟨0, [9]⟩], 0⟩ =
      (.ok (), ⟨writeTagSection [⟨0, [9]⟩], (writeTagSection [⟨0, [9]⟩]).length⟩) := by
  have h := (reads_safe (writeTagSection [⟨0, [9]⟩]) []).2 [] [⟨0, [9]⟩] []
    (by simp [TagsTooLarge]) (by simp)
  simpa using h

end GoKafka
