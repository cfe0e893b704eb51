import GoKafka.Auth.Scram
import GoKafka.Lib.Assoc
import GoKafka.Schema.Wire

/-!
# Field encryption

`schema/encryption.go`: the configured fields of a record are encrypted under a fresh key, and the
value that takes a field's place is a mark and an envelope, the wrapped key, the nonce and the
ciphertext. The cipher, the key service and JSON are any functions.

`parseEnvelope` compares the length of the wrapped key as a signed number and slices with the
unsigned one: `parseEnvelope_exact_iff`. A string that starts with the mark counts as encrypted:
`encryptFields_restores_iff`.
-/

namespace GoKafka

open Assoc List Reading

/-! ## The envelope -/

/-- `binary.Uvarint`: the number and the count of its bytes, where that is positive. The loop is
that of `ReadUvarint` with ten rounds for five. -/
def uvarint (b : Bytes) : Option (UInt64 × Nat) :=
  (readUvarintLoop 10 0 0 (fromBytes b)).toOption.map fun (x, buf) => (UInt64.ofNat x, buf.pos)

/-- The standard nonce of AES-GCM. -/
def nonceSize : Nat := 12

def envelope (wrapped nonce ct : Bytes) : Bytes :=
  Varint.encode wrapped.length ++ (wrapped ++ (nonce ++ ct))

def parseEnvelope (raw : Bytes) : Except Error (Bytes × Bytes × Bytes) :=
  match uvarint raw with
  | none => .error (.other "schema: corrupt CSFLE envelope")
  | some (wlen, n) =>
    if wlen.toInt64.toInt > raw.length - n then .error (.other "schema: corrupt CSFLE envelope")
    else if wlen.toNat > (raw.drop n).length then
      .error (.panic "runtime error: slice bounds out of range")
    else
      let wrapped := (raw.drop n).take wlen.toNat
      let raw := (raw.drop n).drop wlen.toNat
      if raw.length < nonceSize then .error (.other "schema: corrupt CSFLE envelope (nonce)")
      else .ok (wrapped, raw.take nonceSize, raw.drop nonceSize)

/-- The call returns an error, or parts that are the bytes after the length of the first. -/
def ParsesExactly (raw : Bytes) : Prop :=
  match parseEnvelope raw with
  | .error e => e.Returned
  | .ok (wrapped, nonce, ct) =>
    ∃ n, uvarint raw = some (UInt64.ofNat wrapped.length, n) ∧ raw.drop n = wrapped ++ (nonce ++ ct)

theorem uvarint_encode (h : n < 2 ^ 64) :
    uvarint (Varint.encode n ++ rest) = some (UInt64.ofNat n, (Varint.encode n).length) := by
  have hread := @consumes_readUvarintLoop 9 0 0 n (by decide) h
    (fromBytes (Varint.encode n ++ rest)) rest (Cursor.valid_start _) rfl
  rw [uvarint, hread]
  simp [Except.toOption, fromBytes]

theorem length_le_of_uvarint (h : uvarint raw = some (wlen, n)) : n ≤ raw.length := by
  obtain ⟨⟨x, buf⟩, hread, heq⟩ := Option.map_eq_some_iff.1 h
  cases heq
  cases hloop : readUvarintLoop 10 0 0 (fromBytes raw) with
  | error e =>
    rw [hloop] at hread
    cases hread
  | ok p =>
    rw [hloop] at hread
    cases hread
    exact (readUvarintLoop_advances hloop).2.2

/-- A length of the upper half is negative as an `int`. -/
theorem toInt_toInt64_neg {u : UInt64} (h : 2 ^ 63 ≤ u.toNat) : u.toInt64.toInt < 0 := by
  have hsigned : u.toInt64.toInt = u.toBitVec.toInt := rfl
  have hnat : u.toBitVec.toNat = u.toNat := rfl
  have hlt := u.toNat_lt
  rw [hsigned, BitVec.toInt_eq_toNat_cond, hnat, if_neg (by omega)]
  omega

/-- The parts of an envelope whose length is that of a slice. -/
theorem parseEnvelope_of_uvarint (h : uvarint raw = some (wlen, n)) (hwlen : wlen.toNat < 2 ^ 63)
    (hrest : raw.drop n = wrapped ++ rest) (hwrapped : wrapped.length = wlen.toNat) :
    parseEnvelope raw = if rest.length < nonceSize then
      .error (.other "schema: corrupt CSFLE envelope (nonce)")
      else .ok (wrapped, rest.take nonceSize, rest.drop nonceSize) := by
  have hn := length_le_of_uvarint h
  have hlen : wlen.toNat ≤ (raw.drop n).length := by
    rw [hrest, length_append]
    omega
  have hdrop := length_drop (i := n) (l := raw)
  rw [parseEnvelope, h]
  simp only [Varint.toInt_toInt64 hwlen]
  rw [if_neg (by omega), if_neg (by omega), hrest, take_left' hwrapped, drop_left' hwrapped]

theorem parseEnvelope_envelope (hwrapped : wrapped.length < 2 ^ 63)
    (hnonce : nonce.length = nonceSize) :
    parseEnvelope (envelope wrapped nonce ct) = .ok (wrapped, nonce, ct) := by
  have hlen : (UInt64.ofNat wrapped.length).toNat = wrapped.length :=
    UInt64.toNat_ofNat_of_lt' (hwrapped.trans (by decide))
  rw [envelope, parseEnvelope_of_uvarint (uvarint_encode (by omega)) (by omega) drop_left hlen.symm,
    if_neg (by simp [hnonce]), take_left' hnonce, drop_left' hnonce]

theorem parsesExactly_iff (h : uvarint raw = some (wlen, n)) (hraw : raw.length < 2 ^ 63) :
    ParsesExactly raw ↔ wlen.toNat < 2 ^ 63 := by
  have hn := length_le_of_uvarint h
  constructor
  · -- a longer length is negative in the check and past the end in the slice
    intro hexact
    by_contra hwlen
    have hneg := toInt_toInt64_neg (Nat.not_lt.1 hwlen)
    have hdrop := length_drop (i := n) (l := raw)
    rw [ParsesExactly, parseEnvelope, h] at hexact
    dsimp only at hexact
    rw [if_neg (by omega), if_pos (by omega)] at hexact
    exact hexact _ rfl
  · intro hwlen
    by_cases hlong : wlen.toNat > (raw.drop n).length
    · have hdrop := length_drop (i := n) (l := raw)
      rw [ParsesExactly, parseEnvelope, h]
      simp only [Varint.toInt_toInt64 hwlen]
      rw [if_pos (by omega)]
      exact nofun
    · have hwrapped : ((raw.drop n).take wlen.toNat).length = wlen.toNat :=
        length_take_of_le (by omega)
      have hparse := parseEnvelope_of_uvarint h hwlen (take_append_drop wlen.toNat _).symm hwrapped
      rw [ParsesExactly, hparse]
      split_ifs
      · exact nofun
      · exact ⟨n, by rw [h, hwrapped, UInt64.ofNat_toNat],
          by rw [take_append_drop, take_append_drop]⟩

theorem parseEnvelope_exact_iff (wrapped nonce ct raw : Bytes) (hwrapped : wrapped.length < 2 ^ 63)
    (hnonce : nonce.length = nonceSize) (hraw : raw.length < 2 ^ 63) :
    parseEnvelope (envelope wrapped nonce ct) = .ok (wrapped, nonce, ct) ∧
      (ParsesExactly raw ↔ ∀ wlen n, uvarint raw = some (wlen, n) → wlen.toNat < 2 ^ 63) := by
  refine ⟨parseEnvelope_envelope hwrapped hnonce, ?_⟩
  cases huv : uvarint raw with
  | none =>
    refine iff_of_true ?_ nofun
    rw [ParsesExactly, parseEnvelope, huv]
    exact nofun
  | some p =>
    rw [parsesExactly_iff huv hraw]
    refine ⟨fun h wlen n hp => ?_, fun h => h p.1 p.2 rfl⟩
    cases hp
    exact h

/-- An envelope with a key of two bytes, and one with an empty key, is parsed into its parts. -/
theorem parseEnvelope_exact_iff_twoKeys :
    parseEnvelope (envelope [1, 2] (replicate 12 9) [7]) = .ok ([1, 2], replicate 12 9, [7]) ∧
    parseEnvelope (0 :: replicate 13 9) = .ok ([], replicate 12 9, [9]) ∧
    ParsesExactly (0 :: replicate 13 9) := by
  have h := parseEnvelope_exact_iff [1, 2] (replicate 12 9) [7] (0 :: replicate 13 9) (by decide)
    (by decide) (by decide)
  refine ⟨h.1, by decide +kernel, h.2.2 fun wlen n huv => ?_⟩
  obtain ⟨rfl, -⟩ := Prod.mk.inj (Option.some.inj huv)
  decide

/-- The largest length, in ten bytes, passes the check as -1. -/
theorem parseEnvelope_panics :
    parseEnvelope (replicate 9 255 ++ [1]) =
      .error (.panic "runtime error: slice bounds out of range") := by
  decide +kernel

/-! ## The program -/

/-- A value of a record map. -/
inductive FieldValue (α : Type) where
  | string (s : Bytes)
  | other (v : α)
  deriving DecidableEq

/-- A record map. -/
abbrev FieldMap (α : Type) := AList fun _ : Bytes => FieldValue α

/-- `FieldEncrypter` with the functions it calls: the key service, AES-GCM under a key, and JSON. -/
structure FieldEncrypter (α : Type) where
  fields : AList fun _ : Bytes => Unit
  wrapDEK : Bytes → Except Error Bytes
  unwrapDEK : Bytes → Except Error Bytes
  gcmSeal : Bytes → Bytes → Bytes → Bytes
  gcmOpen : Bytes → Bytes → Bytes → Except Error Bytes
  marshal : FieldValue α → Except Error Bytes
  unmarshal : Bytes → Except Error (FieldValue α)

/-- What `rand.Reader` gives to a call of `EncryptFields`. -/
structure Draws where
  dek : Except Error Bytes
  nonce : Bytes → Except Error Bytes

def csfleField : Bytes := ascii "csfle:"

/-- `newGCM`, which refuses a key of another size. -/
def newGCM (key : Bytes) : Except Error Unit :=
  if key.length = 16 ∨ key.length = 24 ∨ key.length = 32 then .ok ()
  else .error (.other "crypto/aes: invalid key size")

/-- A loop over configured fields, up to the first error; a field that a round skips keeps its
value. -/
def overFields (round : Bytes → FieldValue α → Except Error (FieldValue α)) :
    List Bytes → FieldMap α → FieldMap α × Option Error
  | [], record => (record, none)
  | name :: names, record =>
    match record.lookup name with
    | none => overFields round names record
    | some v =>
      match round name v with
      | .error e => (record, some e)
      | .ok v' => overFields round names (record.insert name v')

namespace FieldEncrypter

/-- A round of the loop of `EncryptFields`. -/
def encryptField (e : FieldEncrypter α) (draws : Draws) (dek wrapped : Bytes) (name : Bytes)
    (v : FieldValue α) : Except Error (FieldValue α) := do
  let encrypt : Except Error (FieldValue α) := do
    let plain ← e.marshal v
    let nonce ← draws.nonce name
    let ct := e.gcmSeal dek nonce plain
    return .string (csfleField ++ Base64.encode (envelope wrapped nonce ct))
  match v with
  | .string s => if csfleField.isPrefixOf s then return v else encrypt
  | .other _ => encrypt

/-- `FieldEncrypter.EncryptFields`: the record afterwards and the error. -/
def encryptFields (e : FieldEncrypter α) (draws : Draws) (order : MapOrder Bytes)
    (record : FieldMap α) : FieldMap α × Option Error :=
  let keys : Except Error (Bytes × Bytes) := do
    let dek ← draws.dek
    let wrapped ← e.wrapDEK dek
    newGCM dek
    return (dek, wrapped)
  match keys with
  | .error err => (record, some err)
  | .ok (dek, wrapped) =>
    overFields (e.encryptField draws dek wrapped) (order.keys e.fields) record

/-- A round of the loop of `DecryptFields`. -/
def decryptField (e : FieldEncrypter α) (v : FieldValue α) : Except Error (FieldValue α) :=
  match v with
  | .other _ => return v
  | .string s =>
    if csfleField.isPrefixOf s then do
      let raw ← decodeBase64 (s.drop csfleField.length)
      let (wrapped, nonce, ct) ← parseEnvelope raw
      let dek ← e.unwrapDEK wrapped
      newGCM dek
      let plain ← e.gcmOpen dek nonce ct
      e.unmarshal plain
    else return v

/-- `FieldEncrypter.DecryptFields`: the record afterwards and the error. -/
def decryptFields (e : FieldEncrypter α) (order : MapOrder Bytes) (record : FieldMap α) :
    FieldMap α × Option Error :=
  overFields (fun _ => e.decryptField) (order.keys e.fields) record

/-! ## Round trip -/

/-- The random draws, with functions that undo each other. -/
structure Inverts (e : FieldEncrypter α) (draws : Draws) : Prop where
  keys : ∃ dek wrapped, draws.dek = .ok dek ∧ dek.length = 32 ∧ e.wrapDEK dek = .ok wrapped ∧
    wrapped.length < 2 ^ 63 ∧ e.unwrapDEK wrapped = .ok dek
  nonce : ∀ name, ∃ nonce, draws.nonce name = .ok nonce ∧ nonce.length = nonceSize
  opens : ∀ dek nonce plain, e.gcmOpen dek nonce (e.gcmSeal dek nonce plain) = .ok plain
  json : ∀ s, ∃ plain, e.marshal (.string s) = .ok plain ∧ e.unmarshal plain = .ok (.string s)

/-- The call pair restores the record, and what stands in it between them is no configured field's
value. -/
def Restores (e : FieldEncrypter α) (draws : Draws) (order order' : MapOrder Bytes)
    (record : FieldMap α) : Prop :=
  let encrypted := e.encryptFields draws order record
  let decrypted := e.decryptFields order' encrypted.1
  encrypted.2 = none ∧ decrypted.2 = none ∧
    (∀ name, decrypted.1.lookup name = record.lookup name) ∧
    ∀ name ∈ e.fields, ∀ v, record.lookup name = some v → encrypted.1.lookup name ≠ some v

end FieldEncrypter

theorem overFields_ok {round : Bytes → FieldValue α → Except Error (FieldValue α)}
    {f : Bytes → FieldValue α → FieldValue α} (hnodup : names.Nodup)
    (h : ∀ name ∈ names, ∀ v, record.lookup name = some v → round name v = .ok (f name v)) :
    (overFields round names record).2 = none ∧ ∀ k, (overFields round names record).1.lookup k =
      if k ∈ names then (record.lookup k).map (f k) else record.lookup k := by
  induction names generalizing record with
  | nil => exact ⟨rfl, fun k => (if_neg not_mem_nil).symm⟩
  | cons name names ih =>
    obtain ⟨hname, hnodup⟩ := nodup_cons.1 hnodup
    obtain ⟨hround, hrounds⟩ := forall_mem_cons.1 h
    rw [overFields]
    cases hv : record.lookup name with
    | none =>
      obtain ⟨hnone, hlookup⟩ := ih hnodup hrounds
      refine ⟨hnone, fun k => (hlookup k).trans ?_⟩
      by_cases hk : k = name
      · subst hk
        rw [if_neg hname, if_pos mem_cons_self, hv]
        rfl
      · simp [hk]
    | some v =>
      have hother : ∀ k ≠ name, (record.insert name (f name v)).lookup k = record.lookup k :=
        fun k hk => AList.lookup_insert_ne hk
      obtain ⟨hnone, hlookup⟩ := @ih (record.insert name (f name v)) hnodup
        fun k hk w hw => hrounds k hk w (hother k (ne_of_mem_of_not_mem hk hname) ▸ hw)
      dsimp only
      rw [hround v hv]
      refine ⟨hnone, fun k => (hlookup k).trans ?_⟩
      by_cases hk : k = name
      · subst hk
        rw [if_neg hname, if_pos mem_cons_self, AList.lookup_insert, hv]
        rfl
      · simp [hk, hother k hk]

namespace FieldEncrypter

variable {e : FieldEncrypter α} {draws : Draws}

/-- What takes the place of a string: a string that looks encrypted stays, any other is marked and
decrypted to itself. -/
theorem Inverts.encryptField (h : e.Inverts draws) : ∃ dek wrapped, draws.dek = .ok dek ∧
    e.wrapDEK dek = .ok wrapped ∧ newGCM dek = .ok () ∧ ∀ name s,
      ∃ s', e.encryptField draws dek wrapped name (.string s) = .ok (.string s') ∧
        (csfleField <+: s → s' = s) ∧
        (¬ csfleField <+: s → csfleField <+: s' ∧
          e.decryptField (.string s') = .ok (.string s)) := by
  obtain ⟨dek, wrapped, hdek, hlen, hwrap, hsize, hunwrap⟩ := h.keys
  have hgcm : newGCM dek = .ok () := if_pos (.inr (.inr hlen))
  refine ⟨dek, wrapped, hdek, hwrap, hgcm, fun name s => ?_⟩
  by_cases hs : csfleField <+: s
  · exact ⟨s, if_pos ( isPrefixOf_iff_prefix.2 hs), fun _ => rfl, fun hn => (hn hs).elim⟩
  obtain ⟨nonce, hnonce, hnlen⟩ := h.nonce name
  obtain ⟨plain, hplain, hback⟩ := h.json s
  refine ⟨csfleField ++ Base64.encode (envelope wrapped nonce (e.gcmSeal dek nonce plain)), ?_,
    fun hp => (hs hp).elim, fun _ => ⟨prefix_append _ _, ?_⟩⟩
  · rw [FieldEncrypter.encryptField]
    simp only [mt isPrefixOf_iff_prefix.1 hs, hplain, hnonce]
    rfl
  · rw [decryptField]
    simp only [ isPrefixOf_iff_prefix.2 (prefix_append _ _), drop_left, decodeBase64_encode,
      parseEnvelope_envelope hsize hnlen, hunwrap, hgcm, h.opens, hback, if_true, bind, Except.bind]

/-- The pair of calls does what it is for exactly on a record none of whose configured fields looks
encrypted. -/
theorem encryptFields_restores_iff (e : FieldEncrypter α) (draws : Draws) (h : e.Inverts draws)
    (order order' : MapOrder Bytes) (record : FieldMap α)
    (hstrings : ∀ name ∈ e.fields, ∀ v, record.lookup name = some v → ∃ s, v = .string s) :
    e.Restores draws order order' record ↔
      ∀ name ∈ e.fields, ∀ s, record.lookup name = some (.string s) → ¬ csfleField <+: s := by
  obtain ⟨dek, wrapped, hdek, hwrap, hgcm, hround⟩ := h.encryptField
  choose f hencrypt hstays hmarked using hround
  obtain ⟨hnone, hencrypted⟩ := @overFields_ok α (order.keys e.fields) record
    (e.encryptField draws dek wrapped)
    (fun name v => match v with | .string s => .string (f name s) | v => v) (order.nodup_keys _)
    fun name hname v hv => by
      obtain ⟨s, rfl⟩ := hstrings name (order.mem_keys.1 hname) v hv
      exact hencrypt name s
  have hcall : e.encryptFields draws order record =
      overFields (e.encryptField draws dek wrapped) (order.keys e.fields) record := by
    rw [encryptFields]
    simp only [hdek, hwrap, hgcm, bind, Except.bind, pure, Except.pure]
  rw [Restores, hcall]
  simp only [MapOrder.mem_keys] at hencrypted
  constructor
  · rintro ⟨-, -, -, hplain⟩ name hname s hs hmark
    refine hplain name hname _ hs ?_
    rw [hencrypted, if_pos hname, hs]
    exact congrArg (some ∘ FieldValue.string) (hstays name s hmark)
  · intro hunmarked
    obtain ⟨hnone', hdecrypted⟩ := @overFields_ok α (order'.keys e.fields)
      (overFields (e.encryptField draws dek wrapped) (order.keys e.fields) record).1
      (fun _ => e.decryptField) (fun name v => (record.lookup name).getD v) (order'.nodup_keys _)
      fun name hname v hv => by
        rw [hencrypted, if_pos (order'.mem_keys.1 hname)] at hv
        obtain ⟨v₀, hv₀, rfl⟩ := Option.map_eq_some_iff.1 hv
        obtain ⟨s, rfl⟩ := hstrings name (order'.mem_keys.1 hname) v₀ hv₀
        rw [hv₀]
        exact (hmarked name s (hunmarked name (order'.mem_keys.1 hname) s hv₀)).2
    refine ⟨hnone, hnone', fun name => ?_, fun name hname v hv => ?_⟩
    · simp only [MapOrder.mem_keys] at hdecrypted
      rw [decryptFields, hdecrypted, hencrypted]
      split_ifs
      · cases record.lookup name <;> rfl
      · rfl
    · obtain ⟨s, rfl⟩ := hstrings name hname v hv
      have hs := hunmarked name hname s hv
      rw [hencrypted, if_pos hname, hv, Option.map_some]
      intro heq
      have hsame : f name s = s := by
        injection heq with heq
        injection heq
      exact hs (hsame ▸ (hmarked name s hs).1)

/-- An encrypter of the field `f` whose functions put a byte before what they are given. -/
def ofF : FieldEncrypter Unit where
  fields := AList.singleton [102] ()
  wrapDEK dek := .ok (1 :: dek)
  unwrapDEK wrapped := .ok wrapped.tail
  gcmSeal _ _ plain := 2 :: plain
  gcmOpen _ _ ct := .ok ct.tail
  marshal
    | .string s => .ok (34 :: s)
    | .other _ => .ok []
  unmarshal plain := .ok (.string plain.tail)

/-- Draws of zeros. -/
def zeroDraws : Draws := ⟨.ok (replicate 32 0), fun _ => .ok (replicate 12 0)⟩

theorem ofF_inverts : ofF.Inverts zeroDraws where
  keys := ⟨_, _, rfl, rfl, rfl, by decide, rfl⟩
  nonce _ := ⟨_, rfl, rfl⟩
  opens _ _ _ := rfl
  json _ := ⟨_, rfl, rfl⟩

/-- The order of a list of keys. -/
def listOrder : MapOrder Bytes := ⟨id, .refl⟩

/-- A record whose field `f` is a string. -/
def withF (s : Bytes) : FieldMap Unit := AList.singleton [102] (.string s)

theorem encryptFields_restores_iff_ofF :
    ofF.Restores zeroDraws listOrder listOrder (withF [120]) ↔
      ∀ name ∈ ofF.fields, ∀ s, (withF [120]).lookup name = some (.string s) → ¬ csfleField <+: s :=
  encryptFields_restores_iff ofF zeroDraws ofF_inverts _ _ _ fun name hname v hv => by
    obtain rfl := mem_singleton.1 (show name ∈ [[102]] from hname)
    exact ⟨_, (Option.some.inj hv).symm⟩

/-- A field whose value is `csfle:1` stays as it is, and `DecryptFields` fails. -/
theorem encryptFields_marked :
    let encrypted := ofF.encryptFields zeroDraws listOrder (withF (ascii "csfle:1"))
    encrypted.1.lookup [102] = some (.string (ascii "csfle:1")) ∧
      (ofF.decryptFields listOrder encrypted.1).2 = some (.other "illegal base64 data") := by
  decide +kernel

end FieldEncrypter

end GoKafka
