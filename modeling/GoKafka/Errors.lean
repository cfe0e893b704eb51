import Mathlib

/-!
# Errors

The Go code passes errors through the open interface `error`. The model has one closed type,
`Error`, with a constructor for every error the modelled functions can return, and
`Error.message` gives the text the source builds. A Go panic that a modelled function can raise
is the constructor `Error.panic`: it ends the call like an error, and no caller handles it.

`KafkaError` (`errors.go`) is the error a broker's code becomes, and `isRetriable` decides which
errors the produce loop tries again.
-/

namespace GoKafka

/-- A byte string: the Go types `string` and non-nil `[]byte`. -/
abbrev Bytes := List UInt8

instance lawfulBEqBytes : LawfulBEq Bytes := inferInstance

/-- A Go `[]byte` that may be nil. -/
abbrev NilBytes := Option Bytes

/-- The contents of a `[]byte`; a nil slice is empty. -/
abbrev NilBytes.bytes (b : NilBytes) : Bytes := b.getD []

abbrev UUID := Vector UInt8 16

/-- A broker error code with its context (`gokafka.KafkaError`). -/
structure KafkaError where
  code : Int16
  topic : Bytes
  partition : Int32
  msg : String
  deriving DecidableEq

/-- `errors.go` `ErrorCode`: the codes the modelled functions name. -/
def errCodeLeaderNotAvail : Int16 := 5
def errCodeNotLeaderForPart : Int16 := 6
def errCodeRequestTimedOut : Int16 := 7
def errCodeNetworkException : Int16 := 8
def errCodeCoordinatorLoad : Int16 := 14
def errCodeCoordinatorNotAvailable : Int16 := 15
def errCodeNotCoordinator : Int16 := 16
def errCodeNotEnoughReplicas : Int16 := 19
def errCodeNotEnoughReplicasAfterAppend : Int16 := 20
def errCodeRebalanceInProg : Int16 := 27
def errCodeOutOfOrderSequence : Int16 := 45
def errCodeConcurrentTransactions : Int16 := 51
def errCodeUnstableOffsetCommit : Int16 := 88
def errCodeShareSessionNotFound : Int16 := 122
def errCodeInvalidShareSessionEpoch : Int16 := 123

def KafkaError.retriable (e : KafkaError) : Bool :=
  e.code ∈ [errCodeLeaderNotAvail, errCodeNotLeaderForPart, errCodeRequestTimedOut,
    errCodeNetworkException, errCodeCoordinatorLoad, errCodeCoordinatorNotAvailable,
    errCodeNotCoordinator, errCodeNotEnoughReplicas, errCodeNotEnoughReplicasAfterAppend,
    errCodeRebalanceInProg, errCodeConcurrentTransactions, errCodeShareSessionNotFound,
    errCodeInvalidShareSessionEpoch]

/-- The errors of the modelled functions. -/
inductive Error where
  /-- `wire.ErrShortBuffer`. -/
  | shortBuffer
  /-- A varint longer than the reader accepts. -/
  | uvarintOverflow
  /-- `encodeRecordBatch` on no records. -/
  | emptyRecordBatch
  /-- A record batch of a format other than v2. -/
  | unsupportedMagic (magic : Int8)
  /-- A record batch whose checksum does not match. -/
  | crcMismatch (got want : UInt32)
  /-- `compress.Compress` or `Decompress` on an unknown codec id. -/
  | unknownCodec (codec : Int8)
  /-- An error a compression codec returned. -/
  | codec (msg : String)
  /-- A broker's error code. -/
  | kafka (e : KafkaError)
  /-- `protocol.APIError`: the error code of a whole response. -/
  | api (op : String) (code : Int16)
  /-- `resolvePartition` on a topic without metadata. -/
  | unknownTopic (topic : Bytes)
  /-- `protocol.ErrRebalanceInProgress`. -/
  | rebalanceInProgress
  /-- `protocol.ErrLeaderEpochChanged`. -/
  | leaderEpochChanged
  /-- `protocol.ErrUnknownTopicID`. -/
  | unknownTopicID
  /-- A connection failure: `io.EOF`, `io.ErrUnexpectedEOF`, `net.ErrClosed` or a `net.Error`. -/
  | transport (msg : String)
  /-- Any other error of a callee that is not modelled. -/
  | other (msg : String)
  /-- A Go panic. -/
  | panic (msg : String)
  deriving DecidableEq

/-- The error is not a panic. -/
def Error.Returned (e : Error) : Prop := ∀ msg, e ≠ .panic msg

/-- The most bytes a slice can have on a 64-bit platform. -/
def maxAlloc : Nat := 2 ^ 48

/-- A byte string as text. -/
def Bytes.text (b : Bytes) : String := String.ofList (b.map fun c => Char.ofNat c.toNat)

/-- The bytes of a text. -/
def ascii (s : String) : Bytes := s.toList.map fun c => UInt8.ofNat c.toNat

/-- Text made of bytes reads back as those bytes. -/
theorem ascii_text : ascii b.text = b := by
  have hbyte : ((fun c : Char => UInt8.ofNat c.toNat) ∘ fun c : UInt8 => Char.ofNat c.toNat) =
      id := by
    funext c
    have hlt := c.toNat_lt
    have hvalid : c.toNat.isValidChar := .inl (by omega)
    rw [Function.comp_apply, Char.ofNat, dif_pos hvalid]
    simp [Char.ofNatAux]
  simp [ascii, Bytes.text, hbyte]

/-- `%08x`. -/
def hex8 (v : UInt32) : String :=
  let digits := Nat.toDigits 16 v.toNat
  String.ofList (List.replicate (8 - digits.length) '0' ++ digits)

/-- `KafkaError.Error`. -/
def KafkaError.message (e : KafkaError) : String :=
  if e.topic ≠ [] then
    "gokafka: " ++ e.msg ++ " (code=" ++ toString e.code.toInt ++ " topic=" ++ e.topic.text ++
      " partition=" ++ toString e.partition.toInt ++ ")"
  else "gokafka: " ++ e.msg ++ " (code=" ++ toString e.code.toInt ++ ")"

/-- The text of an error. -/
def Error.message : Error → String
  | .shortBuffer => "wire: buffer too short"
  | .uvarintOverflow => "wire: uvarint overflow"
  | .emptyRecordBatch => "protocol: empty record batch"
  | .unsupportedMagic m =>
    "protocol: unsupported record batch magic " ++ toString m.toInt ++ " (expected 2)"
  | .crcMismatch got want =>
    "protocol: record batch CRC-32C mismatch (got " ++ hex8 got ++ ", want " ++ hex8 want ++
      "): corrupt batch"
  | .unknownCodec c => "compress: unknown codec " ++ toString c.toInt
  | .kafka e => e.message
  | .api op code => "protocol: " ++ op ++ " error " ++ toString code.toInt
  | .unknownTopic t => "gokafka: unknown topic " ++ t.text
  | .rebalanceInProgress => "protocol: rebalance in progress"
  | .leaderEpochChanged => "protocol: partition leader or epoch changed"
  | .unknownTopicID => "protocol: unknown topic id"
  | .codec msg | .transport msg | .other msg | .panic msg => msg

/-- `IsRetriable`: a retriable broker code or a connection failure. -/
def isRetriable : Error → Bool
  | .kafka e => e.retriable
  | .transport _ => true
  | _ => false

theorem bind_eq_ok {ε α β : Type} {x : Except ε α} {f : α → Except ε β} {b : β} :
    (x >>= f) = .ok b ↔ ∃ a, x = .ok a ∧ f a = .ok b := by
  cases x with
  | error e =>
    constructor
    · intro h
      cases h
    · rintro ⟨a, h, -⟩
      cases h
  | ok a =>
    constructor
    · intro h
      exact ⟨a, rfl, h⟩
    · rintro ⟨a', h, hb⟩
      cases h
      exact hb

theorem forall₂_of_mapM_ok {ε α β : Type} {f : α → Except ε β} {xs : List α} {ys : List β}
    (h : xs.mapM f = .ok ys) : List.Forall₂ (fun x y => f x = .ok y) xs ys := by
  induction xs generalizing ys with
  | nil =>
    cases h
    exact .nil
  | cons x xs ih =>
    rw [List.mapM_cons] at h
    obtain ⟨y, hy, h⟩ := bind_eq_ok.1 h
    obtain ⟨ys, hys, h⟩ := bind_eq_ok.1 h
    cases h
    exact .cons hy (ih hys)

/-- A loop whose steps all succeed returns their results. -/
theorem mapM_eq_ok {ε α β : Type} {f : α → Except ε β} {g : α → β} {xs : List α}
    (h : ∀ x ∈ xs, f x = .ok (g x)) : xs.mapM f = .ok (xs.map g) := by
  induction xs with
  | nil => rfl
  | cons x xs ih =>
    obtain ⟨hx, hxs⟩ := List.forall_mem_cons.1 h
    rw [List.mapM_cons]
    exact bind_eq_ok.2 ⟨g x, hx, bind_eq_ok.2 ⟨_, ih hxs, rfl⟩⟩

/-- A loop that fails does so in one of its rounds. -/
theorem exists_of_mapM_error {ε α β : Type} {f : α → Except ε β} {xs : List α} {e : ε}
    (h : xs.mapM f = .error e) : ∃ x ∈ xs, f x = .error e := by
  induction xs with
  | nil => cases h
  | cons x xs ih =>
    rw [List.mapM_cons] at h
    cases hx : f x with
    | error e' =>
      rw [hx] at h
      cases h
      exact ⟨x, List.mem_cons_self, hx⟩
    | ok y =>
      cases hxs : xs.mapM f with
      | error e' =>
        rw [hx, hxs] at h
        cases h
        obtain ⟨x', hx', herr⟩ := ih hxs
        exact ⟨x', List.mem_cons_of_mem _ hx', herr⟩
      | ok ys =>
        rw [hx, hxs] at h
        cases h

/-- Below the largest value the increment does not wrap. -/
theorem toInt_add_one (h : a ≠ Int64.maxValue) : (a + 1).toInt = a.toInt + 1 := by
  have hle : a.toInt < 2 ^ 63 := Int64.toInt_lt a
  have hge : -2 ^ 63 ≤ a.toInt := Int64.le_toInt a
  have hne : a.toInt ≠ 2 ^ 63 - 1 := by
    intro heq
    exact h (Int64.toInt_inj.1 heq)
  have hone : (1 : Int64).toInt = 1 := rfl
  rw [Int64.toInt_add, hone, Int.bmod_eq_of_le (by omega) (by omega)]

/-- A wrapped bound is below everything, so no side condition is needed. -/
theorem le_of_lt_add_one {b : Int64} (h : a < b + 1) : a ≤ b := by
  rw [Int64.lt_iff_toInt_lt, Int64.toInt_add] at h
  rw [Int64.le_iff_toInt_le]
  have hb' := b.le_toInt
  simp only [Int64.toInt_one] at h
  rw [Int.bmod_def] at h
  omega

theorem lt_add_one_iff_le (h : b ≠ Int64.maxValue) : a < b + 1 ↔ a ≤ b := by
  rw [Int64.lt_iff_toInt_lt, Int64.le_iff_toInt_le, toInt_add_one h, Int.lt_add_one_iff]

end GoKafka
