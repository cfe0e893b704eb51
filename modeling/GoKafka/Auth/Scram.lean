import GoKafka.Auth.Sasl
import GoKafka.Lib.Base64

/-!
# SCRAM

`scramExchange` (`internal/auth/scram.go`) sends a first message with the user's name and a nonce,
takes nonce, salt and iteration count out of the server's answer, and sends a final message with the
proof that it has the password. The hash function and its HMAC are any functions of a fixed output
length (`HashFunctions`).

Over the program stands the server of the protocol: it finds the user's account by the first message
(`startSession`), and checks the final message against the messages that it has received and sent
(`ScramSession.accepts`). `scramExchange_accepted` says that the two agree, whatever the name, the
password, the salt and the nonces. `pbkdf2_eq_hi` is the derivation of the key.
-/

namespace GoKafka

open List

/-! ## The program -/

/-- A hash function and its HMAC: `hashSum` and `hmacSum`. -/
structure HashFunctions where
  size : Nat
  sum : Bytes → Bytes
  hmac : Bytes → Bytes → Bytes
  length_sum : ∀ b, (sum b).length = size
  length_hmac : ∀ key msg, (hmac key msg).length = size

/-- `xor`. -/
def xorBytes (a b : Bytes) : Bytes := List.zipWith (· ^^^ ·) a b

/-- Go's `copy`. -/
def copyBytes (dst src : Bytes) : Bytes := src.take dst.length ++ dst.drop src.length

/-- The loop of `pbkdf2` with rounds left. Both strings have the size of the hash. -/
def pbkdf2Loop (H : HashFunctions) (password : Bytes) : Nat → Bytes → Bytes → Bytes
  | 0, out, _ => out
  | left + 1, out, u =>
    let u := H.hmac password u
    pbkdf2Loop H password left (xorBytes out u) u

def pbkdf2 (H : HashFunctions) (password salt : Bytes) (iter : Int64) : Bytes :=
  let u := H.hmac password (salt ++ [0, 0, 0, 1])
  pbkdf2Loop H password (iter.toInt - 1).toNat (copyBytes (List.replicate H.size 0) u) u

def saslEscape (s : Bytes) : Bytes :=
  s.flatMap fun c => if c = 61 then ascii "=3D" else if c = 44 then ascii "=2C" else [c]

def parseScramFields (s : Bytes) : AList fun _ : Bytes => Bytes :=
  (s.splitOn 44).foldl (fun out part =>
    match part.findIdx? (· = 61) with
    | some i => if 0 < i then out.insert (part.take i) (part.drop (i + 1)) else out
    | none => out) ∅

/-- `base64.StdEncoding.DecodeString`: line breaks do not count. -/
def decodeBase64 (s : Bytes) : Except Error Bytes :=
  match Base64.decode (s.filter fun c => c ≠ 10 ∧ c ≠ 13) with
  | some bs => .ok bs
  | none => .error (.other "illegal base64 data")

/-- The white space of the package `fmt` in UTF-8, without the line break, which ends a scan. -/
def fmtSpaces : List Bytes :=
  [[9], [11], [12], [13], [32], [0xC2, 0x85], [0xC2, 0xA0], [0xE1, 0x9A, 0x80]]
    ++ (List.range 11).map (fun i => [0xE2, 0x80, UInt8.ofNat (0x80 + i)])
    ++ [[0xE2, 0x80, 0xA8], [0xE2, 0x80, 0xA9], [0xE2, 0x80, 0xAF], [0xE2, 0x81, 0x9F],
      [0xE3, 0x80, 0x80]]

/-- `SkipSpace` of the package `fmt`, up to a number of characters. -/
def skipSpace : Nat → Bytes → Bytes
  | 0, s => s
  | left + 1, s =>
    match fmtSpaces.find? (·.isPrefixOf s) with
    | some space => skipSpace left (s.drop space.length)
    | none => s

/-- `fmt.Sscanf(s, "%d", &v)`: `v` stays as it is when there is no number of 64 bits. -/
def sscanfInt (v : Int64) (s : Bytes) : Int64 :=
  let s := skipSpace s.length s
  let negative := s.head? = some 45
  let s := if s.head? = some 43 ∨ s.head? = some 45 then s.tail else s
  let digits := s.takeWhile fun c => 48 ≤ c ∧ c ≤ 57
  let n : Nat := digits.foldl (fun n c => 10 * n + (c.toNat - 48)) 0
  let signed : Int := if negative then -(n : Int) else n
  if digits = [] ∨ signed < -2 ^ 63 ∨ 2 ^ 63 ≤ signed then v else Int64.ofInt signed

/-- `%q`, for texts without characters to escape. -/
def quoted (s : Bytes) : String := "\"" ++ s.text ++ "\""

def clientFirstBare (username nonce : Bytes) : Bytes :=
  ascii "n=" ++ saslEscape username ++ ascii ",r=" ++ nonce

def clientFirst (username nonce : Bytes) : Bytes := ascii "n,," ++ clientFirstBare username nonce

/-- `scramExchange` from the server's answer to the client's final message; `limit` is
`limits.MaxSCRAMIterations()`. -/
def clientFinal (H : HashFunctions) (limit : Int64) (username password nonce serverFirst : Bytes) :
    Except Error Bytes := do
  let fields := parseScramFields serverFirst
  let serverNonce := (fields.lookup (ascii "r")).getD []
  if ¬ nonce.isPrefixOf serverNonce then
    throw (.other ("auth: server nonce mismatch (client=" ++ quoted nonce ++ " server=" ++
      quoted serverNonce ++ " msg=" ++ quoted serverFirst ++ ")"))
  let salt ← decodeBase64 ((fields.lookup (ascii "s")).getD [])
  let iterations := sscanfInt 4096 ((fields.lookup (ascii "i")).getD [])
  let iterations := if iterations < 1 then 4096 else iterations
  if iterations > limit then
    throw (.other ("auth: SCRAM iteration count " ++ toString iterations.toInt ++
      " exceeds limit " ++ toString limit.toInt))
  let salted := pbkdf2 H password salt iterations
  let clientKey := H.hmac salted (ascii "Client Key")
  let storedKey := H.sum clientKey
  let clientFinalWithoutProof := ascii "c=biws,r=" ++ serverNonce
  let authMsg := clientFirstBare username nonce ++ ascii "," ++ serverFirst ++ ascii "," ++
    clientFinalWithoutProof
  let proof := xorBytes clientKey (H.hmac storedKey authMsg)
  return ascii "c=biws,r=" ++ serverNonce ++ ascii ",p=" ++ Base64.encode proof

/-- An exchange: the messages that were sent, and how it ended. -/
structure ScramTrip where
  sent : List Bytes
  result : Except Error Unit

/-- `scramExchange`; `nonce` is what `randomNonce` returns. -/
def scramExchange (H : HashFunctions) (limit : Int64) (username password nonce : Bytes)
    (conn : Requester) : ScramTrip :=
  let first := clientFirst username nonce
  match saslRound conn first with
  | .error e => ⟨[first], .error e⟩
  | .ok serverFirst =>
    match clientFinal H limit username password nonce serverFirst with
    | .error e => ⟨[first], .error e⟩
    | .ok final => ⟨[first, final], (saslRound conn final).map fun _ => ()⟩

/-! ## The server -/

/-- The strings `U1`, `U2` and so on of the derivation of a key; the first has the index 0. -/
def HashFunctions.u (H : HashFunctions) (password salt : Bytes) : Nat → Bytes
  | 0 => H.hmac password (salt ++ [0, 0, 0, 1])
  | k + 1 => H.hmac password (H.u password salt k)

/-- `Hi`: the exclusive or of the first `i` of them. -/
def HashFunctions.hi (H : HashFunctions) (password salt : Bytes) (i : Nat) : Bytes :=
  ((List.range i).map (H.u password salt)).foldl xorBytes (List.replicate H.size 0)

/-- What a server has of a user. -/
structure ScramAccount where
  salt : Bytes
  iterations : Nat
  storedKey : Bytes

/-- The account of a user with a password. -/
def HashFunctions.account (H : HashFunctions) (password salt : Bytes) (iterations : Nat) :
    ScramAccount :=
  ⟨salt, iterations, H.sum (H.hmac (H.hi password salt iterations) (ascii "Client Key"))⟩

/-- The value of an attribute with the name `key`. -/
def attrValue (key : UInt8) : Bytes → Option Bytes
  | k :: 61 :: value => if k = key then some value else none
  | _ => none

/-- The name behind an escaped one: `=2C` is a comma and `=3D` the equals sign. -/
def unescape : Bytes → Option Bytes
  | [] => some []
  | 61 :: 50 :: 67 :: rest => (unescape rest).map (44 :: ·)
  | 61 :: 51 :: 68 :: rest => (unescape rest).map (61 :: ·)
  | c :: rest => if c = 61 then none else (unescape rest).map (c :: ·)

/-- A number in decimal. -/
def decimal (n : Nat) : Bytes := ((Nat.digits 10 n).map fun d => UInt8.ofNat (48 + d)).reverse

/-- The server's first message. -/
def serverFirst (nonce salt : Bytes) (iterations : Nat) : Bytes :=
  ascii "r=" ++ nonce ++ ascii ",s=" ++ Base64.encode salt ++ ascii ",i=" ++ decimal iterations

/-- What the server keeps between the two messages. -/
structure ScramSession where
  clientFirstBare : Bytes
  serverFirst : Bytes
  nonce : Bytes
  storedKey : Bytes

/-- The server's answer to a first message without channel binding: it looks up the user, and adds
`suffix` to the nonce. -/
def startSession (accounts : Bytes → Option ScramAccount) (suffix first : Bytes) :
    Option ScramSession :=
  match first.splitOn 44 with
  | [flag, authzid, name, nonce] => do
    guard (flag = ascii "n" ∧ authzid = [])
    let user ← (attrValue 110 name).bind unescape
    let account ← accounts user
    let nonceValue ← attrValue 114 nonce
    return ⟨name ++ ascii "," ++ nonce,
      serverFirst (nonceValue ++ suffix) account.salt account.iterations, nonceValue ++ suffix,
      account.storedKey⟩
  | _ => none

/-- The server accepts a final message: the channel binding and the nonce are the right ones, and
the proof, taken together with the signature of the messages, gives a key whose hash is the stored
one. -/
def ScramSession.accepts (H : HashFunctions) (s : ScramSession) (final : Bytes) : Bool :=
  match final.splitOn 44 with
  | [binding, nonce, proof] =>
    match (attrValue 112 proof).bind Base64.decode with
    | some proof =>
      let authMessage := s.clientFirstBare ++ ascii "," ++ s.serverFirst ++ ascii "," ++
        (binding ++ ascii "," ++ nonce)
      binding = ascii "c=" ++ Base64.encode (ascii "n,,") ∧ nonce = ascii "r=" ++ s.nonce ∧
        H.sum (xorBytes proof (H.hmac s.storedKey authMessage)) = s.storedKey
    | none => false
  | _ => false

/-! ## The derivation of the key -/

section Hi

variable {H : HashFunctions} {password salt : Bytes}

theorem HashFunctions.length_u (k : Nat) : (H.u password salt k).length = H.size := by
  cases k <;> exact H.length_hmac _ _

theorem replicate_xorBytes (h : b.length = n) : xorBytes (List.replicate n 0) b = b := by
  subst h
  induction b with
  | nil => rfl
  | cons c b ih =>
    exact congrArg₂ List.cons (UInt8.zero_xor) ih

theorem pbkdf2Loop_eq (k : Nat) (out : Bytes) :
    pbkdf2Loop H password left out (H.u password salt k) =
      ((List.range' (k + 1) left).map (H.u password salt)).foldl xorBytes out := by
  induction left generalizing k out with
  | zero => rfl
  | succ left ih =>
    exact ih (k + 1) (xorBytes out (H.u password salt (k + 1)))

/-- `pbkdf2` is `Hi`. -/
theorem pbkdf2_eq_hi {iter : Int64} {i : Nat} (hiter : iter.toInt = i) (hpos : 1 ≤ i) :
    pbkdf2 H password salt iter = H.hi password salt i := by
  obtain ⟨left, rfl⟩ : ∃ left, i = left + 1 := ⟨i - 1, by omega⟩
  have hleft : (iter.toInt - 1).toNat = left := by omega
  have hcopy : copyBytes (List.replicate H.size 0) (H.u password salt 0) = H.u password salt 0 := by
    rw [copyBytes, length_replicate, HashFunctions.length_u,
      take_of_length_le (HashFunctions.length_u 0).le,
      drop_of_length_le (length_replicate ..).le, append_nil]
  have hfirst := replicate_xorBytes (@HashFunctions.length_u H password salt 0)
  rw [pbkdf2, hleft, HashFunctions.hi, range_eq_range', List.range'_succ, map_cons,
    foldl_cons, hfirst]
  show pbkdf2Loop H password left (copyBytes _ (H.u password salt 0)) (H.u password salt 0) = _
  rw [hcopy, pbkdf2Loop_eq]

end Hi

/-! ## The messages -/

section Messages

/-- An escaped name has no commas. -/
theorem comma_not_mem_saslEscape : 44 ∉ saslEscape s := by
  intro h
  obtain ⟨c, -, hc⟩ := mem_flatMap.1 h
  split at hc
  · exact absurd hc (by decide)
  · split at hc
    · exact absurd hc (by decide)
    · next hne => exact hne (mem_singleton.1 hc).symm

theorem unescape_saslEscape : unescape (saslEscape s) = some s := by
  induction s with
  | nil => rfl
  | cons c s ih =>
    rw [saslEscape, flatMap_cons]
    change unescape (_ ++ saslEscape s) = _
    split
    · next h =>
      subst h
      show (unescape (saslEscape s)).map (61 :: ·) = _
      rw [ih, Option.map_some]
    · split
      · next h =>
        subst h
        show (unescape (saslEscape s)).map (44 :: ·) = _
        rw [ih, Option.map_some]
      · next hne _ =>
        rw [singleton_append, unescape.eq_4]
        · rw [if_neg hne, ih, Option.map_some]
        · exact fun _ h _ => hne h
        · exact fun _ h _ => hne h

/-- The digits of a number. -/
theorem decimal_digit (h : c ∈ decimal n) : 48 ≤ c ∧ c ≤ 57 := by
  obtain ⟨d, hd, rfl⟩ := mem_map.1 (mem_reverse.1 h)
  have hlt : d < 10 := Nat.digits_lt_base (by decide) hd
  have hall : ∀ d < 10, 48 ≤ UInt8.ofNat (48 + d) ∧ UInt8.ofNat (48 + d) ≤ 57 := by decide
  exact hall d hlt

theorem foldl_decimal (n : Nat) : (decimal n).foldl (fun n c => 10 * n + (c.toNat - 48)) 0 = n := by
  have hfold : ∀ ds : List Nat, (∀ d ∈ ds, d < 10) →
      ((ds.map fun d => UInt8.ofNat (48 + d)).foldr (fun c n => 10 * n + (c.toNat - 48)) 0) =
        Nat.ofDigits 10 ds := by
    intro ds
    induction ds with
    | nil => exact fun _ => rfl
    | cons d ds ih =>
      intro h
      have ⟨hd, hds⟩ := forall_mem_cons.1 h
      have hdigit : (UInt8.ofNat (48 + d)).toNat - 48 = d := by
        rw [UInt8.toNat_ofNat']
        omega
      rw [map_cons, foldr_cons, ih hds, hdigit, Nat.ofDigits_cons, Nat.add_comm]
  rw [decimal, foldl_reverse, hfold _ fun d hd => Nat.digits_lt_base (by decide) hd,
    Nat.ofDigits_digits]

/-- No white space begins with a digit. -/
theorem head?_fmtSpaces :
    ∀ space ∈ fmtSpaces, space.head?.any (fun c => !decide (48 ≤ c ∧ c ≤ 57)) = true := by
  decide

/-- A number in decimal is scanned. -/
theorem sscanfInt_decimal (hpos : 1 ≤ n) (hlt : n < 2 ^ 63) (v : Int64) :
    (sscanfInt v (decimal n)).toInt = n := by
  obtain ⟨c, rest, hcons⟩ : ∃ c rest, decimal n = c :: rest := by
    refine exists_cons_of_ne_nil fun hnil => ?_
    have hsum := foldl_decimal n
    rw [hnil] at hsum
    exact absurd hsum (by simp; omega)
  have hc : 48 ≤ c ∧ c ≤ 57 := decimal_digit (hcons ▸ mem_cons_self)
  have hskip : skipSpace (decimal n).length (decimal n) = decimal n := by
    have hspace : fmtSpaces.find? (·.isPrefixOf (decimal n)) = none := by
      refine find?_eq_none.2 fun space hspace hstart => ?_
      obtain ⟨after, hafter⟩ := isPrefixOf_iff_prefix.1 hstart
      have hhead := head?_fmtSpaces space hspace
      rw [hcons] at hafter
      cases space with
      | nil => cases hhead
      | cons d space =>
        obtain rfl : d = c := (cons.inj hafter).1
        simp [hc] at hhead
    rw [hcons] at hspace ⊢
    simp [skipSpace, hspace]
  have hhead : ∀ s, s < 48 → (decimal n).head? ≠ some s := by
    intro s hs h
    rw [hcons] at h
    exact UInt8.not_lt.2 hc.1 (Option.some.inj h ▸ hs)
  have htake : (decimal n).takeWhile (fun c => decide (48 ≤ c ∧ c ≤ 57)) = decimal n :=
    takeWhile_eq_self_iff.2 fun c hc => decide_eq_true (decimal_digit hc)
  rw [sscanfInt]
  simp only [hskip, hhead 45 (by decide), hhead 43 (by decide), or_self, if_false, htake,
    foldl_decimal]
  have hnil : decimal n ≠ [] := hcons ▸ cons_ne_nil c rest
  simp only [hnil]
  rw [if_neg (by simp; omega)]
  exact Int64.toInt_ofNat_of_lt hlt

/-- The decimal digits are no commas. -/
theorem comma_not_mem_decimal : 44 ∉ decimal n := fun h =>
  absurd (decimal_digit h).1 (by decide)

theorem comma_not_mem_encode : 44 ∉ Base64.encode bs :=
  Base64.not_mem_encode (by decide) (by decide) bs

/-- A list of parts without commas is split again. -/
theorem splitOn_comma {parts : List Bytes} (h : ∀ part ∈ parts, 44 ∉ part) (hne : parts ≠ []) :
    (([44] : Bytes).intercalate parts).splitOn 44 = parts := List.splitOn_intercalate 44 h hne

theorem splitOn_serverFirst (hnonce : 44 ∉ nonce) :
    (serverFirst nonce salt iterations).splitOn 44 =
      [114 :: 61 :: nonce, 115 :: 61 :: Base64.encode salt, 105 :: 61 :: decimal iterations] := by
  have hparts := @splitOn_comma
    [114 :: 61 :: nonce, 115 :: 61 :: Base64.encode salt, 105 :: 61 :: decimal iterations]
    (by simp [hnonce, comma_not_mem_encode, comma_not_mem_decimal]) (by simp)
  rw [← hparts]
  simp [serverFirst, ascii]

/-- The fields of the server's first message. -/
theorem parseScramFields_serverFirst (hnonce : 44 ∉ nonce) (salt : Bytes) (iterations : Nat) :
    let fields := parseScramFields (serverFirst nonce salt iterations)
    fields.lookup (ascii "r") = some nonce ∧ fields.lookup (ascii "s") = some (Base64.encode salt) ∧
      fields.lookup (ascii "i") = some (decimal iterations) := by
  have hfields : parseScramFields (serverFirst nonce salt iterations) =
      (((∅ : AList fun _ : Bytes => Bytes).insert (ascii "r") nonce).insert (ascii "s")
        (Base64.encode salt)).insert (ascii "i") (decimal iterations) := by
    rw [parseScramFields, splitOn_serverFirst hnonce]
    rfl
  intro fields
  have hrs : ascii "r" ≠ ascii "s" := by decide
  have hri : ascii "r" ≠ ascii "i" := by decide
  have hsi : ascii "s" ≠ ascii "i" := by decide
  simp only [fields, hfields]
  refine ⟨?_, ?_, AList.lookup_insert _⟩
  · rw [AList.lookup_insert_ne hri, AList.lookup_insert_ne hrs, AList.lookup_insert]
  · rw [AList.lookup_insert_ne hsi, AList.lookup_insert]

/-- The server finds the user by the client's first message. -/
theorem startSession_clientFirst (hnonce : 44 ∉ nonce)
    (haccount : accounts username = some account) :
    startSession accounts suffix (clientFirst username nonce) =
      some ⟨clientFirstBare username nonce,
        serverFirst (nonce ++ suffix) account.salt account.iterations, nonce ++ suffix,
        account.storedKey⟩ := by
  have hsplit : (clientFirst username nonce).splitOn 44 =
      [[110], [], 110 :: 61 :: saslEscape username, 114 :: 61 :: nonce] := by
    have hparts := @splitOn_comma [[110], [], 110 :: 61 :: saslEscape username, 114 :: 61 :: nonce]
      (by simp [hnonce, comma_not_mem_saslEscape]) (by simp)
    rw [← hparts]
    simp [clientFirst, clientFirstBare, List.intercalate, ascii]
  rw [startSession, hsplit]
  simp [attrValue, unescape_saslEscape, haccount, ascii, clientFirstBare, guard, pure]

theorem decodeBase64_encode : decodeBase64 (Base64.encode bs) = .ok bs := by
  have hbreaks :
      (Base64.encode bs).filter (fun c => decide (c ≠ 10 ∧ c ≠ 13)) = Base64.encode bs := by
    refine filter_eq_self.2 fun c hc => decide_eq_true ⟨?_, ?_⟩
    · rintro rfl
      exact Base64.not_mem_encode (by decide) (by decide) bs hc
    · rintro rfl
      exact Base64.not_mem_encode (by decide) (by decide) bs hc
  rw [decodeBase64, hbreaks, Base64.decode_encode]

theorem xorBytes_cancel (h : a.length = b.length) : xorBytes (xorBytes a b) b = a := by
  induction a generalizing b with
  | nil => rfl
  | cons x a ih =>
    cases b with
    | nil => cases h
    | cons y b =>
      have hxy : x ^^^ y ^^^ y = x := by rw [UInt8.xor_assoc, UInt8.xor_self, UInt8.xor_zero]
      exact congrArg₂ List.cons hxy (ih (Nat.succ.inj h))

end Messages

/-! ## The exchange -/

section Exchange

variable {H : HashFunctions} {limit : Int64} {username password salt nonce suffix : Bytes} {i : Nat}

/-- The proof of the client for the messages of an exchange. -/
def HashFunctions.proof (H : HashFunctions) (password salt : Bytes) (i : Nat)
    (authMessage : Bytes) :
    Bytes :=
  xorBytes (H.hmac (H.hi password salt i) (ascii "Client Key"))
    (H.hmac (H.account password salt i).storedKey authMessage)

/-- The client's final message in answer to the server's first. -/
theorem clientFinal_serverFirst (hpos : 1 ≤ i) (hlimit : (i : Int) ≤ limit.toInt)
    (hnonce : 44 ∉ nonce ++ suffix) :
    clientFinal H limit username password nonce (serverFirst (nonce ++ suffix) salt i) =
      .ok (ascii "c=biws,r=" ++ (nonce ++ suffix) ++ ascii ",p=" ++
        Base64.encode (H.proof password salt i (clientFirstBare username nonce ++ ascii "," ++
          serverFirst (nonce ++ suffix) salt i ++ ascii "," ++
            (ascii "c=biws,r=" ++ (nonce ++ suffix))))) := by
  have hlt : i < 2 ^ 63 := by
    have := limit.toInt_lt
    omega
  have hfields := parseScramFields_serverFirst hnonce salt i
  have hscan := sscanfInt_decimal hpos hlt 4096
  have hmin : ¬ sscanfInt 4096 (decimal i) < 1 := by
    rw [Int64.lt_iff_toInt_lt, hscan]
    show ¬ (i : Int) < 1
    omega
  have hmax : ¬ sscanfInt 4096 (decimal i) > limit := by
    rw [gt_iff_lt, Int64.lt_iff_toInt_lt, hscan]
    omega
  have hmatch : nonce.isPrefixOf (nonce ++ suffix) = true :=
    isPrefixOf_iff_prefix.2 (prefix_append nonce suffix)
  have hsalted : pbkdf2 H password salt (sscanfInt 4096 (decimal i)) = H.hi password salt i :=
    pbkdf2_eq_hi hscan hpos
  rw [clientFinal]
  simp only [hfields, Option.getD_some, hmatch, not_true, if_false, decodeBase64_encode, bind,
    Except.bind, if_neg hmin, if_neg hmax, hsalted]
  rfl

/-- A final message with the right nonce and proof is accepted. -/
theorem ScramSession.accepts_proof {s : ScramSession} (hnonce : 44 ∉ s.nonce)
    (hkey : s.storedKey = (H.account password salt i).storedKey) :
    s.accepts H (ascii "c=biws,r=" ++ s.nonce ++ ascii ",p=" ++
      Base64.encode (H.proof password salt i (s.clientFirstBare ++ ascii "," ++ s.serverFirst ++
        ascii "," ++ (ascii "c=biws,r=" ++ s.nonce)))) := by
  generalize hproof : H.proof password salt i (s.clientFirstBare ++ ascii "," ++ s.serverFirst ++
    ascii "," ++ (ascii "c=biws,r=" ++ s.nonce)) = proof
  have hsplit : (ascii "c=biws,r=" ++ s.nonce ++ ascii ",p=" ++ Base64.encode proof).splitOn 44 =
      [ascii "c=biws", 114 :: 61 :: s.nonce, 112 :: 61 :: Base64.encode proof] := by
    have hparts := @splitOn_comma
      [ascii "c=biws", 114 :: 61 :: s.nonce, 112 :: 61 :: Base64.encode proof]
      (by simp [hnonce, comma_not_mem_encode, ascii]) (by simp)
    rw [← hparts]
    simp [List.intercalate, ascii]
  have hvalue : (attrValue 112 (112 :: 61 :: Base64.encode proof)).bind Base64.decode =
      some proof := by
    simp [attrValue, Base64.decode_encode]
  have hbinding : ascii "c=biws" = ascii "c=" ++ Base64.encode (ascii "n,,") := by decide
  have hwithout : ascii "c=biws" ++ ascii "," ++ (114 :: 61 :: s.nonce) =
      ascii "c=biws,r=" ++ s.nonce := by simp [ascii]
  -- The signature cancels, and the client's key is left.
  have hsum : H.sum (xorBytes proof (H.hmac s.storedKey (s.clientFirstBare ++ ascii "," ++
      s.serverFirst ++ ascii "," ++ (ascii "c=biws,r=" ++ s.nonce)))) = s.storedKey := by
    rw [← hproof, HashFunctions.proof, ← hkey,
      xorBytes_cancel (by rw [H.length_hmac, H.length_hmac]), hkey]
    rfl
  rw [accepts, hsplit]
  simp only [hvalue, hwithout, hsum, ← hbinding]
  simp [ascii]

/-- The server accepts the final message of the client, whose key is derived as it should be. -/
theorem scramExchange_accepted (hpos : 1 ≤ i) (hlimit : (i : Int) ≤ limit.toInt)
    (hnonce : 44 ∉ nonce) (hsuffix : 44 ∉ suffix) {accounts : Bytes → Option ScramAccount}
    (haccount : accounts username = some (H.account password salt i)) :
    pbkdf2 H password salt (Int64.ofNat i) = H.hi password salt i ∧
    ∃ session, startSession accounts suffix (clientFirst username nonce) = some session ∧
      ∀ conn, saslRound conn (clientFirst username nonce) = .ok session.serverFirst →
        ∃ final, scramExchange H limit username password nonce conn =
            ⟨[clientFirst username nonce, final], (saslRound conn final).map fun _ => ()⟩ ∧
          session.accepts H final := by
  have hfull : 44 ∉ nonce ++ suffix := by simp [hnonce, hsuffix]
  have hlt : i < 2 ^ 63 := by
    have := limit.toInt_lt
    omega
  refine ⟨pbkdf2_eq_hi (Int64.toInt_ofNat_of_lt hlt) hpos, _,
    startSession_clientFirst hnonce haccount, fun conn hround => ?_⟩
  have hfinal := @clientFinal_serverFirst H limit username password salt nonce suffix i hpos hlimit
    hfull
  refine ⟨_, ?_, ScramSession.accepts_proof hfull rfl⟩
  rw [scramExchange, hround]
  dsimp only [HashFunctions.account]
  rw [hfinal]

/-- A user with a comma in the name, two rounds of a toy hash, and a server whose answer comes
through `parseAuthBytes`. -/
theorem scramExchange_accepted_comma :
    let H : HashFunctions := ⟨1, fun b => [b.foldl (· + ·) 7], fun key msg =>
      [(key ++ msg).foldl (3 * · + ·) 1], fun _ => rfl, fun _ _ => rfl⟩
    let session : ScramSession := ⟨ascii "n=a=2Cb,r=abc", ascii "r=abcxyz,s=AQI=,i=2",
      ascii "abcxyz", (H.account (ascii "secret") [1, 2] 2).storedKey⟩
    let conn : Requester := fun _ _ _ =>
      .ok ((⟨0, none, session.serverFirst, 0⟩ : SaslResponse).frame 1)
    ∃ final, (scramExchange H 4096 (ascii "a,b") (ascii "secret") (ascii "abc") conn).sent =
        [ascii "n,,n=a=2Cb,r=abc", final] ∧ session.accepts H final := by
  intro H session conn
  obtain ⟨-, session', hsession, hexchange⟩ := @scramExchange_accepted H 4096 (ascii "a,b")
    (ascii "secret") [1, 2] (ascii "abc") (ascii "xyz") 2 (by decide) (by decide) (by decide)
    (by decide) (fun _ => some (H.account (ascii "secret") [1, 2] 2)) rfl
  have hstart : startSession (fun _ => some (H.account (ascii "secret") [1, 2] 2)) (ascii "xyz")
      (clientFirst (ascii "a,b") (ascii "abc")) = some session := by
    rfl
  obtain rfl : session' = session := Option.some.inj (hsession.symm.trans hstart)
  have hround : saslRound conn (clientFirst (ascii "a,b") (ascii "abc")) =
      .ok session.serverFirst :=
    parseAuthBytes_short ⟨by decide, by decide⟩ rfl rfl (by decide) (by decide) 1
  obtain ⟨final, htrip, haccepts⟩ := hexchange conn hround
  exact ⟨final, by rw [htrip]; rfl, haccepts⟩

end Exchange

end GoKafka
