import GoKafka.Broker.Request

/-!
# SaslAuthenticate

A SASL mechanism sends its messages as SaslAuthenticate requests of version 1 (`saslRound` in
`internal/auth/scram.go`, `saslAuthenticate` in `internal/auth/auth.go`). The answer is an error
code, a nullable message, the bytes of the mechanism and the lifetime of the session
(`SaslResponse`). The client reads a throttle time of four bytes first, which that version does not
have: it takes the code and the message's length for the throttle time, and what follows the
message's length for a code, a message and bytes. For an answer without a message that is the length
of the bytes, the bytes themselves and the lifetime, and `parseAuthBytes` falls back on what it took
for the message.

`saslAnswer_iff` says for which answers this comes out right. An error without a message is none of
them (`saslAnswer_accepted`).
-/

namespace GoKafka

open Reading BigEndian List

/-! ## The program -/

/-- The interface `requester`: a request's key, version and body, and the frame that answers it. -/
abbrev Requester := Int16 → Int16 → Bytes → Except Error Bytes

def verSaslAuthenticate : Int16 := 1

def responseBody (raw : Bytes) : Except Error Bytes := responseBodyForAPI raw 0 0

def wrapSasl (b : Bytes) : Bytes := beBytes 4 b.length ++ b

/-- The fields that `parseAuthBytes` reads. -/
def readAuthFields : Read (Int16 × Bytes × NilBytes) := do
  let _throttleTimeMs ← readInt32
  let code ← readInt16
  let errMsg ← readString
  let authBytes ← readBytes
  return (code, errMsg, authBytes)

/-- What `parseAuthBytes` makes of the fields. -/
def authResult (code : Int16) (errMsg authBytes : Bytes) : Except Error Bytes := do
  if code ≠ 0 then
    let msg := if authBytes = [] then errMsg else authBytes
    throw (.other ("auth: sasl failed code " ++ toString code.toInt ++ ": " ++ msg.text))
  let authBytes := if authBytes = [] ∧ errMsg ≠ [] then errMsg else authBytes
  if authBytes = [] ∧ errMsg = [] then return [] -- SCRAM authentication complete
  if authBytes = [] then throw (.other "auth: empty sasl response")
  return authBytes

def parseAuthBytes (raw : Bytes) : Except Error Bytes := do
  let body ← responseBody raw
  let ((code, errMsg, authBytes), _) ← readAuthFields (fromBytes body)
  authResult code errMsg authBytes.bytes

def saslRound (conn : Requester) (msg : Bytes) : Except Error Bytes := do
  parseAuthBytes (← conn apiSaslAuthenticate verSaslAuthenticate (wrapSasl msg))

def saslAuthenticate (conn : Requester) (payload : Bytes) : Except Error Unit := do
  let rb ← responseBody (← conn apiSaslAuthenticate verSaslAuthenticate payload)
  if rb.length < 6 then throw (.other "auth: short sasl authenticate response")
  let code := (UInt16.ofNat (beNat ((rb.drop 4).take 2))).toInt16
  if code ≠ 0 then
    throw (.other ("auth: sasl authenticate failed code " ++ toString code.toInt))

/-! ## The answer -/

/-- An answer to SaslAuthenticate, version 1, in Kafka's layout. -/
structure SaslResponse where
  errorCode : Int16
  errorMessage : NilBytes
  authBytes : Bytes
  sessionLifetimeMs : Int64

namespace SaslResponse

variable (resp : SaslResponse)

/-- The length of the message; a null message has the length -1. -/
def messageLength : Int16 := resp.errorMessage.elim (-1) fun msg => Int16.ofNat msg.length

/-- What follows the length of the message. -/
def tail : Bytes :=
  resp.errorMessage.bytes ++ (writeInt32 (Int32.ofNat resp.authBytes.length)
    ++ (resp.authBytes ++ writeInt64 resp.sessionLifetimeMs))

/-- The body of the answer. -/
def body : Bytes := writeInt16 resp.errorCode ++ (writeInt16 resp.messageLength ++ resp.tail)

/-- The frame of the answer. -/
def frame (correlationID : Int32) : Bytes := patchLength (writeInt32 correlationID ++ resp.body)

/-- The message and the frame fit their length fields. -/
structure Fits : Prop where
  message : resp.errorMessage.bytes.length ≤ maxInt16
  frame : 4 + resp.body.length < 2 ^ 31

/-- The client reads the bytes after the length of the message as a code, a message and bytes. -/
def ReadsAs (code : Int16) (errMsg authBytes : Bytes) : Prop :=
  ∃ (n : Int16) (m : Int32) (rest : Bytes),
    resp.tail =
      writeInt16 code ++ (writeInt16 n ++ (errMsg ++ (writeInt32 m ++ (authBytes ++ rest))))
      ∧ errMsg.length = n.toInt.toNat ∧ authBytes.length = m.toInt.toNat

end SaslResponse

/-- The frame of a short enough body is stripped of its length and its correlation id. -/
theorem responseBody_frame (h : 4 + body.length < 2 ^ 31) :
    responseBody (patchLength (writeInt32 correlationID ++ body)) = .ok body := by
  have hlen : (writeInt32 correlationID ++ body).length = 4 + body.length := by simp
  have hmod : (4 + body.length) % 2 ^ 32 % 256 ^ 4 = 4 + body.length := by omega
  have hsize : (UInt32.ofNat (beNat (beBytes 4 ((4 + body.length) % 2 ^ 32)))).toInt32.toInt =
      (4 + body.length : Nat) := by
    rw [beNat_beBytes, hmod]
    exact Int32.toInt_ofNat_of_lt h
  have hstrip :=
    consumes_readInt32 correlationID (fromBytes (writeInt32 correlationID ++ body)) body
    (Cursor.valid_start _) rfl
  have hrest : (Cursor.advance (fromBytes (writeInt32 correlationID ++ body)) 4).rest = body := by
    rw [← length_writeInt32]
    exact Cursor.rest_advance rfl
  have hflex : flexibleResponseHeader 0 0 = false := by decide
  rw [responseBody, responseBodyForAPI, patchLength, hlen, take_left' (length_beBytes _ _),
    drop_left' (length_beBytes _ _), hsize, if_neg (by simp; omega), if_neg (by simp),
    if_neg (by omega), Int.toNat_natCast, ← hlen, take_length]
  simp [hstrip, hflex, hrest, bind, Except.bind, StateT.bind, pure, Except.pure, StateT.pure]

section Answer

variable {resp : SaslResponse} {code : Int16} {errMsg authBytes : Bytes}

/-- The four bytes that are taken for the throttle time. -/
theorem SaslResponse.consumes_throttle (resp : SaslResponse) :
    ∃ v, Consumes readInt32 (writeInt16 resp.errorCode ++ writeInt16 resp.messageLength) v := by
  have hslice := consumes_readSlice (writeInt16 resp.errorCode ++ writeInt16 resp.messageLength)
  exact ⟨_, hslice.map fun s => (UInt32.ofNat (beNat s)).toInt32⟩

/-- The fields stand where the client reads them. -/
theorem readAuthFields_ok (h : readAuthFields (fromBytes resp.body) = .ok ((code, errMsg, v), b')) :
    resp.ReadsAs code errMsg v.bytes := by
  obtain ⟨throttle, hthrottle⟩ := resp.consumes_throttle
  obtain ⟨c, -, hrest, hrun⟩ := hthrottle.run_bind (Cursor.valid_start resp.body)
    (append_assoc _ _ resp.tail).symm
  rw [readAuthFields, fromBytes, hrun] at h
  obtain ⟨code', c₁, hcode, h⟩ := bind_ok h
  obtain ⟨errMsg', c₂, herrMsg, h⟩ := bind_ok h
  obtain ⟨v', c₃, hv, h⟩ := bind_ok h
  cases h
  obtain ⟨n, hn, hnlen⟩ := readString_ok herrMsg
  obtain ⟨m, hm, hmlen⟩ := readBytes_ok hv
  exact ⟨n, m, b'.rest, by rw [← hrest, readInt16_ok hcode, hn, hm], hnlen, hmlen⟩

/-- Fields that stand there are read. -/
theorem SaslResponse.ReadsAs.readAuthFields (h : resp.ReadsAs code errMsg authBytes) :
    ∃ (v : NilBytes) (b' : Buffer), v.bytes = authBytes ∧
      readAuthFields (fromBytes resp.body) = .ok ((code, errMsg, v), b') := by
  obtain ⟨n, m, rest, htail, hnlen, hmlen⟩ := h
  obtain ⟨throttle, hthrottle⟩ := resp.consumes_throttle
  obtain ⟨v, hv, hread⟩ := consumes_readBytes_length hmlen
  have hfields : Consumes GoKafka.readAuthFields
      ((writeInt16 resp.errorCode ++ writeInt16 resp.messageLength) ++ (writeInt16 code
        ++ ((writeInt16 n ++ errMsg) ++ (writeInt32 m ++ authBytes)))) (code, errMsg, v) :=
    hthrottle.bind ((consumes_readInt16).bind
      ((consumes_readString_length hnlen).bind (hread.map _)))
  have hbody : resp.body = ((writeInt16 resp.errorCode ++ writeInt16 resp.messageLength)
      ++ (writeInt16 code ++ ((writeInt16 n ++ errMsg) ++ (writeInt32 m ++ authBytes)))) ++
        rest := by
    rw [SaslResponse.body, htail]
    simp
  exact ⟨v, _, hv, hfields (fromBytes resp.body) rest (Cursor.valid_start _) hbody⟩

theorem authResult_eq_ok : authResult code errMsg authBytes = .ok out ↔
      code = 0 ∧ (if authBytes = [] then errMsg else authBytes) = out := by
  rw [authResult]
  by_cases hcode : code = 0
  · by_cases hbytes : authBytes = []
    · by_cases hmsg : errMsg = []
      · simp [hcode, hbytes, hmsg, pure, Except.pure]
      · simp [hcode, hbytes, hmsg, pure, Except.pure]
    · simp [hcode, hbytes, pure, Except.pure]
  · rw [if_pos hcode]
    constructor
    · intro h
      cases h
    · intro h
      exact absurd h.1 hcode

theorem parseAuthBytes_frame (hfits : resp.Fits) (correlationID : Int32) {out : Bytes} :
    parseAuthBytes (resp.frame correlationID) = .ok out ↔
      ∃ errMsg authBytes, resp.ReadsAs 0 errMsg authBytes ∧
        (if authBytes = [] then errMsg else authBytes) = out := by
  have hparse : parseAuthBytes (resp.frame correlationID) =
      (readAuthFields (fromBytes resp.body) >>= fun p =>
        authResult p.1.1 p.1.2.1 p.1.2.2.bytes) := by
    rw [parseAuthBytes, SaslResponse.frame, responseBody_frame hfits.frame]
    rfl
  rw [hparse, bind_eq_ok]
  constructor
  · rintro ⟨⟨⟨code, errMsg, v⟩, b'⟩, hfields, h⟩
    obtain ⟨rfl, hout⟩ := authResult_eq_ok.1 h
    exact ⟨errMsg, v.bytes, readAuthFields_ok hfields, hout⟩
  · rintro ⟨errMsg, authBytes, hreads, hout⟩
    obtain ⟨v, b', rfl, hfields⟩ := hreads.readAuthFields
    exact ⟨_, hfields, authResult_eq_ok.2 ⟨rfl, hout⟩⟩

/-- `saslAuthenticate` looks at the two bytes after the length of the message. -/
theorem saslAuthenticate_frame (hfits : resp.Fits)
    (hconn : conn apiSaslAuthenticate verSaslAuthenticate payload =
      .ok (resp.frame correlationID)) :
    saslAuthenticate conn payload = .ok () ↔ resp.tail.take 2 = [0, 0] := by
  have hlen : 12 ≤ resp.tail.length := by
    simp [SaslResponse.tail]
    omega
  have hdrop : resp.body.drop 4 = resp.tail := by
    rw [SaslResponse.body, ← append_assoc]
    exact drop_left' (by simp)
  have hshort : ¬ resp.body.length < 6 := by
    have := congrArg List.length hdrop
    rw [length_drop] at this
    omega
  rw [saslAuthenticate, hconn]
  simp only [bind, Except.bind]
  rw [SaslResponse.frame, responseBody_frame hfits.frame]
  dsimp only
  rw [if_neg hshort]
  have htake : (resp.tail.take 2).length = 2 := by
    rw [length_take]
    omega
  have hcode : (UInt16.ofNat (beNat (resp.tail.take 2))).toInt16 = 0 ↔
      resp.tail.take 2 = [0, 0] := by
    constructor
    · intro h
      rw [← writeInt16_beNat htake, h]
      rfl
    · intro h
      rw [h]
      rfl
  rw [← hcode]
  split
  · next hne =>
    constructor
    · intro h
      cases h
    · exact fun h => absurd h hne
  · next heq => exact ⟨fun _ => not_not.1 heq, fun _ => rfl⟩

/-- The answer is understood: both functions report an error exactly if it has an error code, and
otherwise `parseAuthBytes` returns its bytes. -/
structure SaslResponse.Understood (resp : SaslResponse) (conn : Requester) (payload : Bytes)
    (correlationID : Int32) : Prop where
  parse : (∃ out, parseAuthBytes (resp.frame correlationID) = .ok out) ↔ resp.errorCode = 0
  bytes : resp.errorCode = 0 → parseAuthBytes (resp.frame correlationID) = .ok resp.authBytes
  authenticate : saslAuthenticate conn payload = .ok () ↔ resp.errorCode = 0

/-- What the client has for the code of an error is not 0; and what it has for the fields of another
answer gives the bytes of the answer. -/
def SaslResponse.Aligned (resp : SaslResponse) : Prop :=
  if resp.errorCode = 0 then
    ∃ errMsg authBytes, resp.ReadsAs 0 errMsg authBytes ∧
      (if authBytes = [] then errMsg else authBytes) = resp.authBytes
  else resp.tail.take 2 ≠ [0, 0]

theorem SaslResponse.ReadsAs.take_tail (h : resp.ReadsAs code errMsg authBytes) :
    resp.tail.take 2 = writeInt16 code := by
  obtain ⟨n, m, rest, htail, -⟩ := h
  rw [htail]
  exact take_left' length_writeInt16

/-! ## Answers without a message -/

/-- The upper half of a lifetime, as the length of the bytes that it is read for. -/
def SaslResponse.lifetimeHigh (resp : SaslResponse) : Int32 :=
  (UInt32.ofNat (resp.sessionLifetimeMs.toUInt64.toNat / 2 ^ 32)).toInt32

/-- The length of the bytes stands where the code and the length of the message are read, and the
upper half of the lifetime where the length of the bytes is. -/
theorem SaslResponse.tail_short (hmsg : resp.errorMessage.bytes = [])
    (hlen : resp.authBytes.length < 2 ^ 16) :
    resp.tail = writeInt16 0 ++ (writeInt16 (Int16.ofNat resp.authBytes.length) ++ (resp.authBytes
      ++ (writeInt32 resp.lifetimeHigh
        ++ beBytes 4 resp.sessionLifetimeMs.toUInt64.toNat))) := by
  have hcount : writeInt32 (Int32.ofNat resp.authBytes.length) =
      writeInt16 0 ++ writeInt16 (Int16.ofNat resp.authBytes.length) := by
    have hnat : (Int32.ofNat resp.authBytes.length).toUInt32.toNat = resp.authBytes.length :=
      Nat.mod_eq_of_lt (by omega)
    have hnat' : (Int16.ofNat resp.authBytes.length).toUInt16.toNat = resp.authBytes.length :=
      Nat.mod_eq_of_lt hlen
    rw [writeInt32, hnat, writeInt16, writeInt16, hnat', beBytes_add 2 2,
      Nat.div_eq_of_lt (by simpa using hlen)]
    rfl
  have hlife : writeInt64 resp.sessionLifetimeMs = writeInt32 resp.lifetimeHigh ++
      beBytes 4 resp.sessionLifetimeMs.toUInt64.toNat := by
    have hlt := resp.sessionLifetimeMs.toUInt64.toNat_lt
    rw [writeInt64, beBytes_add 4 4, show 256 ^ 4 = 2 ^ 32 by rfl, writeInt32, lifetimeHigh,
      UInt32.toUInt32_toInt32,
      UInt32.toNat_ofNat_of_lt' (by rw [UInt32.size]; omega)]
  rw [tail, hmsg, hcount, hlife]
  simp only [nil_append, append_assoc]

/-- A lifetime below `2 ^ 32` is read for no bytes. -/
theorem SaslResponse.lifetimeHigh_nonpos (hlife : resp.sessionLifetimeMs.toInt < 2 ^ 32) :
    resp.lifetimeHigh.toInt.toNat = 0 := by
  have hlow : resp.sessionLifetimeMs.toInt =
      (resp.sessionLifetimeMs.toUInt64.toNat : Int).bmod (2 ^ 64) :=
    BitVec.toInt_eq_toNat_bmod resp.sessionLifetimeMs.toBitVec
  have hhigh : resp.lifetimeHigh.toInt =
      ((resp.sessionLifetimeMs.toUInt64.toNat / 2 ^ 32 % 2 ^ 32 : Nat) : Int).bmod (2 ^ 32) :=
    BitVec.toInt_eq_toNat_bmod resp.lifetimeHigh.toBitVec
  rw [Int.bmod_def] at hlow hhigh
  split at hlow <;> split at hhigh <;> omega

/-- Without a message, up to 32 KiB of bytes are understood with a lifetime below `2 ^ 32`. -/
theorem SaslResponse.aligned_short (hcode : resp.errorCode = 0)
    (hmsg : resp.errorMessage.bytes = []) (hlen : resp.authBytes.length < 2 ^ 15)
    (hlife : resp.sessionLifetimeMs.toInt < 2 ^ 32) : resp.Aligned := by
  rw [Aligned, if_pos hcode]
  refine ⟨resp.authBytes, [], ⟨_, _, _, resp.tail_short hmsg (by omega), ?_, ?_⟩, if_pos rfl⟩
  · rw [Int16.toInt_ofNat_of_lt hlen, Int.toNat_natCast]
  · exact (lifetimeHigh_nonpos hlife).symm

theorem parseAuthBytes_short (hfits : resp.Fits) (hcode : resp.errorCode = 0)
    (hmsg : resp.errorMessage.bytes = []) (hlen : resp.authBytes.length < 2 ^ 15)
    (hlife : resp.sessionLifetimeMs.toInt < 2 ^ 32) (correlationID : Int32) :
    parseAuthBytes (resp.frame correlationID) = .ok resp.authBytes := by
  have haligned := SaslResponse.aligned_short hcode hmsg hlen hlife
  rw [SaslResponse.Aligned, if_pos hcode] at haligned
  exact (parseAuthBytes_frame hfits correlationID).2 haligned

/-! ## The answers that are understood -/

theorem saslAnswer_iff (hfits : resp.Fits) {conn : Requester} {payload : Bytes}
    {correlationID : Int32} (hconn : conn apiSaslAuthenticate verSaslAuthenticate payload =
      .ok (resp.frame correlationID)) :
    resp.Understood conn payload correlationID ↔ resp.Aligned := by
  have hparse := @parseAuthBytes_frame resp hfits correlationID
  have hauth := saslAuthenticate_frame hfits hconn
  rw [SaslResponse.Aligned]
  by_cases hcode : resp.errorCode = 0
  · rw [if_pos hcode, ← hparse]
    constructor
    · intro h
      exact h.bytes hcode
    · intro h
      obtain ⟨errMsg, authBytes, hreads, -⟩ := hparse.1 h
      exact ⟨iff_of_true ⟨_, h⟩ hcode, fun _ => h, iff_of_true (hauth.2 hreads.take_tail) hcode⟩
  · rw [if_neg hcode]
    constructor
    · intro h htail
      exact hcode (h.authenticate.1 (hauth.2 htail))
    · intro htail
      refine ⟨iff_of_false ?_ hcode, fun h => absurd h hcode, iff_of_false ?_ hcode⟩
      · rintro ⟨out, hout⟩
        obtain ⟨errMsg, authBytes, hreads, -⟩ := hparse.1 hout
        exact htail hreads.take_tail
      · exact fun h => htail (hauth.1 h)

theorem saslAnswer_bytes :
    let resp : SaslResponse := ⟨0, none, [114, 61], 3600000⟩
    resp.Understood (fun _ _ _ => .ok (resp.frame 7)) [] 7 := by
  exact (saslAnswer_iff ⟨by decide, by decide⟩ rfl).2
    (SaslResponse.aligned_short rfl rfl (by decide) (by decide))

/-- A failed authentication without a message is accepted. -/
theorem saslAnswer_accepted :
    let resp : SaslResponse := ⟨58, none, [], 0⟩
    parseAuthBytes (resp.frame 7) = .ok [] ∧
      saslAuthenticate (fun _ _ _ => .ok (resp.frame 7)) [] = .ok () := by
  exact ⟨rfl, rfl⟩

end Answer

end GoKafka
