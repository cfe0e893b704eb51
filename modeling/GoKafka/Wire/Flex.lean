import GoKafka.Wire.Buffer

/-!
# Compact types and tagged fields

The methods of `wire.Buffer` that the flexible versions of the protocol use: strings, byte strings
and arrays with a varint for their length plus one, sections of tagged fields, which readers skip,
and `wire.UUID`. As in `Wire/Buffer.lean`, every writer is matched with its reader.
-/

namespace GoKafka

open Reading BigEndian List

/-! ## Reads -/

/-- `Buffer.ReadCompactNullableString`: null is the empty string. -/
def readCompactNullableString : Read Bytes := do
  let n ← readUvarint
  if n ≤ 1 then return [] else readSlice (n - 1)

def readCompactBytes : Read NilBytes := do
  let n ← readUvarint
  if n = 0 then return none else return some (← readSlice (n - 1))

/-- The loop of `Buffer.SkipTagSection` with fields left. -/
def skipTags : Nat → Read Unit
  | 0 => return ()
  | n + 1 => do
    let _tag ← readUvarint
    let size ← readUvarint
    let _ ← readSlice size
    skipTags n

def skipTagSection : Read Unit := do skipTags (← readUvarint)

def readUUID : Read UUID := do
  let b ← readSlice 16
  return Vector.ofFn fun i => b.getD i 0

/-! ## Writes -/

def writeCompactString (s : Bytes) : Bytes := writeUvarint (s.length + 1) ++ s

def writeCompactNullableString : NilBytes → Bytes
  | none => writeUvarint 0
  | some s => writeCompactString s

def writeCompactBytes : NilBytes → Bytes
  | none => writeUvarint 0
  | some b => writeUvarint (b.length + 1) ++ b

def writeCompactArrayLen (n : Nat) : Bytes := writeUvarint (n + 1)

def writeEmptyTagSection : Bytes := writeUvarint 0

def writeUUID (u : UUID) : Bytes := u.toList

/-- A tagged field. -/
structure TaggedField where
  tag : Nat
  data : Bytes

/-- A tagged field on the wire. -/
def TaggedField.bytes (f : TaggedField) : Bytes :=
  writeUvarint f.tag ++ (writeUvarint f.data.length ++ f.data)

/-- A section of tagged fields on the wire. -/
def writeTagSection (fields : List TaggedField) : Bytes :=
  writeUvarint fields.length ++ fields.flatMap (·.bytes)

/-! ## Each reader undoes its writer -/

/-- `ReadUvarint` reads a number back or refuses it, if it is too large. -/
theorem consumesUnless_readUvarint (n : Nat) :
    ConsumesUnless (2 ^ 29 ≤ n) readUvarint (writeUvarint n) n := by
  by_cases hn : n < 2 ^ 29
  · exact (consumes_readUvarint hn).unless
  · exact fun c r _ hr => .inl ⟨Nat.not_lt.1 hn, _, readUvarint_large hn hr⟩

theorem consumesUnless_readCompactString :
    ConsumesUnless (2 ^ 29 ≤ s.length + 1) readCompactString (writeCompactString s) s := by
  refine (consumesUnless_readUvarint _).bind ?_
  exact (consumes_readSlice s).unless

/-- A string whose length prefix is too large is refused. -/
theorem readCompactString_long {s : Bytes} (h : 2 ^ 29 ≤ s.length + 1) {c : Buffer} {r : Bytes}
    (hr : c.rest = writeCompactString s ++ r) : ∃ e, readCompactString c = .error e := by
  rw [writeCompactString, append_assoc] at hr
  refine ⟨.uvarintOverflow, ?_⟩
  show (readUvarint c >>= fun p => _) = _
  rw [readUvarint_large (Nat.not_lt.2 h) hr]
  rfl

theorem consumes_readCompactString (h : s.length + 1 < 2 ^ 29) :
    Consumes readCompactString (writeCompactString s) s :=
  (consumesUnless_readCompactString).consumes (Nat.not_le.2 h)

theorem consumes_readCompactNullableString (h : s.length + 1 < 2 ^ 29) :
    Consumes readCompactNullableString (writeCompactString s) s := by
  refine (consumes_readUvarint h).bind ?_
  by_cases hs : s = []
  · subst hs
    exact Consumes.pure []
  · have hlen : ¬ s.length + 1 ≤ 1 := by
      have := length_pos_iff.2 hs
      omega
    rw [if_neg hlen]
    exact consumes_readSlice s

theorem consumes_readCompactNullableString_null :
    Consumes readCompactNullableString (writeCompactNullableString none) [] := by
  have h := (consumes_readUvarint (n := 0) (by decide)).bind
    (f := fun n => if n ≤ 1 then pure [] else readSlice (n - 1)) (Consumes.pure [])
  rwa [append_nil] at h

theorem consumes_readCompactBytes (h : b.bytes.length + 1 < 2 ^ 29) :
    Consumes readCompactBytes (writeCompactBytes b) b := by
  cases b with
  | none =>
    have h := (consumes_readUvarint (n := 0) (by decide)).bind
      (f := fun n => if n = 0 then pure none else readSlice (n - 1) >>= fun s => pure (some s))
      (Consumes.pure none)
    rwa [append_nil] at h
  | some b =>
    refine (consumes_readUvarint h).bind ?_
    exact (consumes_readSlice b).map some

theorem consumes_readCompactBytes_some (h : b.length + 1 < 2 ^ 29) :
    Consumes readCompactBytes (writeCompactBytes (some b)) (some b) :=
  consumes_readCompactBytes h

theorem consumes_readUvarint_arrayLen (h : n + 1 < 2 ^ 29) :
    Consumes readUvarint (writeCompactArrayLen n) (n + 1) :=
  consumes_readUvarint h

/-- A section of tagged fields has a number that `ReadUvarint` refuses. -/
def TagsTooLarge (fields : List TaggedField) : Prop :=
  2 ^ 29 ≤ fields.length ∨ ∃ f ∈ fields, 2 ^ 29 ≤ f.tag ∨ 2 ^ 29 ≤ f.data.length

theorem consumesUnless_skipTags {P : Prop} {fields : List TaggedField}
    (h : (∃ f ∈ fields, 2 ^ 29 ≤ f.tag ∨ 2 ^ 29 ≤ f.data.length) → P) :
    ConsumesUnless P (skipTags fields.length) (fields.flatMap (·.bytes)) () := by
  induction fields with
  | nil => exact (Consumes.pure ()).unless
  | cons f fields ih =>
    have hrest := ih fun ⟨f', hf', hlarge⟩ => h ⟨f', mem_cons_of_mem _ hf', hlarge⟩
    have htag : ConsumesUnless P readUvarint (writeUvarint f.tag) f.tag :=
      (consumesUnless_readUvarint _).mono fun hlarge => h ⟨f, mem_cons_self, .inl hlarge⟩
    have hsize : ConsumesUnless P readUvarint (writeUvarint f.data.length) f.data.length :=
      (consumesUnless_readUvarint _).mono fun hlarge => h ⟨f, mem_cons_self, .inr hlarge⟩
    have hbytes : (f :: fields).flatMap (·.bytes) = writeUvarint f.tag ++
        (writeUvarint f.data.length ++ (f.data ++ fields.flatMap (·.bytes))) := by
      rw [flatMap_cons, TaggedField.bytes, append_assoc, append_assoc]
    rw [hbytes]
    exact htag.bind (hsize.bind ((consumes_readSlice f.data).unless.bind hrest))

/-- A section of tagged fields is skipped whole, unless a number in it is too large. -/
theorem consumesUnless_skipTagSection :
    ConsumesUnless (TagsTooLarge fields) skipTagSection (writeTagSection fields) () :=
  ((consumesUnless_readUvarint _).mono .inl).bind (consumesUnless_skipTags .inr)

theorem consumes_skipTagSection_empty : Consumes skipTagSection writeEmptyTagSection () := by
  have h := (consumes_readUvarint (n := 0) (by decide)).bind (f := skipTags) (Consumes.pure ())
  rwa [append_nil] at h

theorem consumes_readUUID : Consumes readUUID (writeUUID u) u := by
  have hread := (consumes_readSlice (writeUUID u)).map
    fun b => (Vector.ofFn fun i : Fin 16 => b.getD i 0)
  have hlen : (writeUUID u).length = 16 := by simp [writeUUID]
  have hback : (Vector.ofFn fun i : Fin 16 => (writeUUID u).getD i 0) = u := by
    simp [writeUUID]
  rw [hlen, hback] at hread
  exact hread

/-! ## Topics and their partitions

The produce and the fetch requests, and the answers to them, list topics by name, and under each
topic an entry for each of some partitions. -/

/-- A topic and the entries of its partitions. -/
structure TopicEntries (β : Type) where
  topic : Bytes
  parts : List β

section Topics

variable {β ι : Type}

/-- A compact array of topics. -/
def writeTopics (part : β → Bytes) (ts : List (TopicEntries β)) : Bytes :=
  writeCompactArrayLen ts.length ++ ts.flatMap fun t =>
    writeCompactString t.topic ++ (writeCompactArrayLen t.parts.length ++ (t.parts.flatMap part
      ++ writeEmptyTagSection))

/-- The two loops that read a compact array of topics. -/
def readTopics (topic : Read Bytes) (skip : Read Unit) (part : Bytes → Read β) :
    Read (List (TopicEntries β)) := do
  let nTopics ← readUvarint
  readN (do
    let name ← topic
    let nParts ← readUvarint
    let parts ← readN (part name) (nParts - 1)
    skip
    return ⟨name, parts⟩) (nTopics - 1)

/-- The topics of an array fit in their length prefixes. -/
structure TopicsFit (ts : List (TopicEntries β)) : Prop where
  count : ts.length + 1 < 2 ^ 29
  topic : ∀ t ∈ ts, t.topic.length + 1 < 2 ^ 29
  parts : ∀ t ∈ ts, t.parts.length + 1 < 2 ^ 29

theorem consumes_readTopics {skip : Read Unit} (hskip : Consumes skip writeEmptyTagSection ())
    {ts : List (TopicEntries ι)} (hfit : TopicsFit ts) {write : ι → Bytes} {part : Bytes → Read β}
    {val : Bytes → ι → β}
    (hpart : ∀ t ∈ ts, ∀ p ∈ t.parts, Consumes (part t.topic) (write p) (val t.topic p)) :
    Consumes (readTopics readCompactString skip part) (writeTopics write ts)
      (ts.map fun t => ⟨t.topic, t.parts.map (val t.topic)⟩) := by
  refine (consumes_readUvarint_arrayLen hfit.count).bind ?_
  refine Consumes.readN_map fun t ht => ?_
  refine (consumes_readCompactString (hfit.topic t ht)).bind ?_
  refine (consumes_readUvarint_arrayLen (hfit.parts t ht)).bind ?_
  exact (Consumes.readN_map (hpart t ht)).bind (hskip.map _)

end Topics

end GoKafka
