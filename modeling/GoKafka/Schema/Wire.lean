import GoKafka.Wire.Buffer

/-!
# Framing of the schema registry

`internal/schema/wire/confluent.go`: a magic byte and a schema id before the payload and, for
Protobuf, the path of the message type in its file as a list of indexes, a count and that many
zigzag varints; the list `[0]` is the single byte of the count 0.

`decodeProtobuf_encodeProtobuf` is the round trip. The count is the sender's, and the list is made
with that capacity before an index is read: `decodeProtobuf_safe_iff` says for which inputs the call
does not panic and the capacity is within the size of the input.
-/

namespace GoKafka

open BigEndian List Reading

/-! ## The program -/

/-- `srwire.FormatConfluent`, the magic byte. -/
def formatConfluent : UInt8 := 0

/-- `srwire.Header`. -/
structure SchemaHeader where
  magic : UInt8
  schemaID : Int32
  deriving DecidableEq

def encodeHeaderID (schemaID : Int32) : Bytes := formatConfluent :: writeInt32 schemaID

def encodeConfluent (schemaID : Int32) (payload : Bytes) : Bytes :=
  encodeHeaderID schemaID ++ payload

def decodeHeaderID (v : Bytes) : Except Error Int32 :=
  if v.length < 5 ∨ v.headD 0 ≠ formatConfluent then .error .shortBuffer
  else .ok (UInt32.ofNat (beNat ((v.drop 1).take 4))).toInt32

def decodeConfluent (b : Bytes) : Except Error (SchemaHeader × Bytes) :=
  if b.length < 5 then .error .shortBuffer
  else
    let magic := b.headD 0
    if magic ≠ formatConfluent then .error .shortBuffer
    else .ok (⟨magic, (UInt32.ofNat (beNat ((b.drop 1).take 4))).toInt32⟩, b.drop 5)

def encodeMessageIndexes (indexes : List Int64) : Bytes :=
  if indexes = [0] then [0]
  else writeVarint (Int64.ofNat indexes.length) ++ indexes.flatMap writeVarint

def encodeProtobuf (schemaID : Int32) (indexes : List Int64) (payload : Bytes) : Bytes :=
  encodeConfluent schemaID (encodeMessageIndexes indexes ++ payload)

/-- `decodeMessageIndexes`: the capacity of the list, if one is made, and the list with the number
of bytes read. -/
def decodeMessageIndexes (b : Bytes) : Option Nat × Except Error (List Int64 × Nat) :=
  match readVarint (fromBytes b) with
  | .error e => (none, .error e)
  | .ok (n, buf) =>
    if n = 0 then (some 1, .ok ([0], buf.pos))
    else if n < 0 then (none, .error (.panic "runtime error: makeslice: cap out of range"))
    else (some n.toInt.toNat,
      (readN readVarint n.toInt.toNat buf).map fun (out, buf) => (out, buf.pos))

/-- `srwire.DecodeProtobuf`, with the capacity of the list of indexes. -/
def decodeProtobuf (b : Bytes) : Option Nat × Except Error (SchemaHeader × List Int64 × Bytes) :=
  match decodeConfluent b with
  | .error e => (none, .error e)
  | .ok (h, rest) =>
    ((decodeMessageIndexes rest).1,
      (decodeMessageIndexes rest).2.map fun (indexes, n) => (h, indexes, rest.drop n))

/-! ## Round trip -/

/-- The frame's schema id and payload come back. -/
theorem decodeConfluent_encodeConfluent (schemaID : Int32) (payload : Bytes) :
    decodeConfluent (encodeConfluent schemaID payload) = .ok (⟨0, schemaID⟩, payload) := by
  have hid : beNat (writeInt32 schemaID) = schemaID.toUInt32.toNat := by
    rw [writeInt32, beNat_beBytes]
    exact Nat.mod_eq_of_lt schemaID.toUInt32.toNat_lt
  rw [decodeConfluent, if_neg (by simp [encodeConfluent, encodeHeaderID])]
  simp [encodeConfluent, encodeHeaderID, formatConfluent, hid,
    take_left' length_writeInt32, drop_left' length_writeInt32]

/-- The id in a record header comes back. -/
theorem decodeHeaderID_encodeHeaderID :
    decodeHeaderID (encodeHeaderID schemaID) = .ok schemaID := by
  have h := decodeConfluent_encodeConfluent schemaID []
  rw [encodeConfluent, append_nil] at h
  rw [decodeConfluent] at h
  rw [decodeHeaderID]
  split_ifs at h ⊢ with hlen hmagic hor
  · simp_all
  · injection h with h
    injection h with h
    injection h with _ h
    rw [h]

/-- A list of indexes that varints can hold comes back, with the bytes it took. -/
theorem decodeMessageIndexes_encode (hne : indexes ≠ []) (hcount : indexes.length < 2 ^ 28)
    (hrange : ∀ ix ∈ indexes, VarintRange ix) :
    (decodeMessageIndexes (encodeMessageIndexes indexes ++ payload)).2 =
      .ok (indexes, (encodeMessageIndexes indexes).length) := by
  have hn : (Int64.ofNat indexes.length).toInt = indexes.length :=
    Int64.toInt_ofNat_of_lt (by omega)
  have hpos : 0 < indexes.length := length_pos_of_ne_nil hne
  by_cases hzero : indexes = [0]
  · -- the count 0 stands for this list
    subst hzero
    rfl
  have henc : encodeMessageIndexes indexes =
      writeVarint (Int64.ofNat indexes.length) ++ indexes.flatMap writeVarint := if_neg hzero
  have hstart : (fromBytes (encodeMessageIndexes indexes ++ payload)).Valid := Cursor.valid_start _
  have hrest : (fromBytes (encodeMessageIndexes indexes ++ payload)).rest =
      writeVarint (Int64.ofNat indexes.length) ++ (indexes.flatMap writeVarint ++ payload) := by
    rw [henc, append_assoc]
    rfl
  have hcountRead := consumes_readVarint (v := Int64.ofNat indexes.length)
    (by unfold VarintRange; omega) _ _ hstart hrest
  have hlist := Consumes.readN (fun ix hix => consumes_readVarint (hrange ix hix)) _ payload
    (Cursor.valid_advance hstart hrest) (Cursor.rest_advance hrest)
  have hne0 : Int64.ofNat indexes.length ≠ 0 := by
    intro h
    rw [h, Int64.toInt_zero] at hn
    omega
  have hnonneg : ¬ Int64.ofNat indexes.length < 0 := by
    rw [Int64.lt_iff_toInt_lt, hn, Int64.toInt_zero]
    omega
  rw [decodeMessageIndexes, hcountRead]
  simp only [if_neg hne0, if_neg hnonneg, hn, Int.toNat_natCast, hlist]
  simp [henc, Except.map, fromBytes]

/-- The schema id, the message indexes and the payload of a frame come back. -/
theorem decodeProtobuf_encodeProtobuf (schemaID : Int32) (indexes : List Int64) (payload : Bytes)
    (hne : indexes ≠ []) (hcount : indexes.length < 2 ^ 28)
    (hsize : ∀ ix ∈ indexes, ix.toInt.natAbs < 2 ^ 28) :
    (decodeProtobuf (encodeProtobuf schemaID indexes payload)).2 =
      .ok (⟨0, schemaID⟩, indexes, payload) := by
  have hrange : ∀ ix ∈ indexes, VarintRange ix := by
    intro ix hix
    have := hsize ix hix
    unfold VarintRange
    omega
  rw [decodeProtobuf, encodeProtobuf, decodeConfluent_encodeConfluent]
  simp [decodeMessageIndexes_encode hne hcount hrange, Except.map]

/-- A negative index and one of two bytes. -/
theorem decodeProtobuf_encodeProtobuf_two :
    (decodeProtobuf (encodeProtobuf 7 [-1, 300] [9])).2 = .ok (⟨0, 7⟩, [-1, 300], [9]) :=
  decodeProtobuf_encodeProtobuf 7 [-1, 300] [9] (by decide) (by decide) (by simp)

/-! ## The count -/

/-- The varint loop fails with errors only. -/
theorem readUvarintLoop_returned (x s : Nat) :
    FailsWith Error.Returned (readUvarintLoop left x s) := by
  intro b e h msg
  rintro rfl
  induction left generalizing x s b with
  | zero => cases h
  | succ left ih =>
    simp only [readUvarintLoop] at h
    split at h
    · cases h
    · split at h
      · split at h <;> cases h
      · exact ih _ _ _ h

/-- A signed varint is read without a panic. -/
theorem readVarint_returned : FailsWith Error.Returned readVarint :=
  (readUvarintLoop_returned 0 0).bind nofun

/-- The count that follows the header, where there is one. -/
def indexCount (b : Bytes) : Option Int64 :=
  match decodeConfluent b with
  | .error _ => none
  | .ok (_, rest) => (readVarint (fromBytes rest)).toOption.map Prod.fst

/-- The decoder neither panics nor allocates past the limit exactly if the count it reads is no
negative number and within the limit. -/
theorem decodeMessageIndexes_safe_iff (hlimit : 1 ≤ limit) :
    ((∀ msg, (decodeMessageIndexes b).2 ≠ .error (.panic msg)) ∧
        ∀ capacity ∈ (decodeMessageIndexes b).1, capacity ≤ limit) ↔
      ∀ n ∈ (readVarint (fromBytes b)).toOption.map Prod.fst, 0 ≤ n.toInt ∧ n.toInt ≤ limit := by
  rw [decodeMessageIndexes]
  cases hread : readVarint (fromBytes b) with
  | error e =>
    refine iff_of_true ⟨fun msg h => ?_, nofun⟩ nofun
    exact readVarint_returned _ e hread msg (Except.error.inj h)
  | ok p =>
    obtain ⟨n, buf⟩ := p
    simp only [Except.toOption, Option.map_some, Option.mem_def, Option.some.injEq, forall_eq']
    split_ifs with h0 h1
    · refine iff_of_true ⟨nofun, fun c hc => ?_⟩ ?_
      · exact (Option.some.inj hc) ▸ hlimit
      · rw [h0, Int64.toInt_zero]
        omega
    · rw [Int64.lt_iff_toInt_lt, Int64.toInt_zero] at h1
      exact iff_of_false (fun h => h.1 _ rfl) fun h => by omega
    · rw [Int64.lt_iff_toInt_lt, Int64.toInt_zero] at h1
      have hcap : ∀ c, some n.toInt.toNat = some c → (c ≤ limit ↔ n.toInt ≤ limit) := by
        rintro c ⟨⟩
        omega
      refine ⟨fun h => ⟨by omega, (hcap _ rfl).1 (h.2 _ rfl)⟩, fun h => ⟨fun msg hmsg => ?_, ?_⟩⟩
      · cases hlist : readN readVarint n.toInt.toNat buf with
        | error e =>
          rw [hlist] at hmsg
          exact readVarint_returned.readN _ _ e hlist msg (Except.error.inj hmsg)
        | ok out =>
          rw [hlist] at hmsg
          cases hmsg
      · exact fun c hc => (hcap c hc).2 h.2

/-- The same for a whole frame, with its length as the limit. -/
theorem decodeProtobuf_safe_iff (b : Bytes) :
    ((∀ msg, (decodeProtobuf b).2 ≠ .error (.panic msg)) ∧
        ∀ capacity ∈ (decodeProtobuf b).1, capacity ≤ b.length) ↔
      ∀ n ∈ indexCount b, 0 ≤ n.toInt ∧ n.toInt ≤ b.length := by
  rw [decodeProtobuf, indexCount]
  cases hdec : decodeConfluent b with
  | error e =>
    refine iff_of_true ⟨fun msg h => ?_, nofun⟩ nofun
    simp only [Except.error.inj h, decodeConfluent] at hdec
    split_ifs at hdec <;> cases hdec
  | ok p =>
    have hlen : 1 ≤ b.length := by
      by_contra hshort
      rw [decodeConfluent, if_pos (by omega)] at hdec
      cases hdec
    rw [← decodeMessageIndexes_safe_iff hlen]
    cases hidx : (decodeMessageIndexes p.2).2 <;> simp [hidx, Except.map]

/-- A count of -1 panics, and one of 2²⁸ - 1 in ten bytes asks for 2 GiB. -/
theorem decodeProtobuf_counts :
    (decodeProtobuf [0, 0, 0, 0, 1, 1]).2 =
        .error (.panic "runtime error: makeslice: cap out of range") ∧
      (decodeProtobuf [0, 0, 0, 0, 1, 254, 255, 255, 255, 1]).1 = some 268435455 := by
  decide +kernel

end GoKafka
