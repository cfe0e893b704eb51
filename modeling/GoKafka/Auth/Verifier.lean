import GoKafka.Auth.Scram

/-!
# What the client checks of the server

In SCRAM the server's final message carries the verifier, a signature of the messages under a key
that only a server of the user's account has (`CarriesVerifier`). `scramExchange`
(`internal/auth/scram.go`) takes nonce, salt and iteration count out of the first answer
(`Challenge.ReadFrom`) and of the second only whether it is an error. `scramExchange_ok_iff` says
when it returns without one. A server without the account can come that far
(`scramExchange_unverified`).
-/

namespace GoKafka

/-! ## The verifier -/

/-- What the client takes from the server's first message. -/
structure Challenge where
  nonce : Bytes
  salt : Bytes
  iterations : Int64

/-- The messages that client and server sign. -/
def Challenge.authMessage (c : Challenge) (username nonce serverFirst : Bytes) : Bytes :=
  clientFirstBare username nonce ++ ascii "," ++ serverFirst ++ ascii "," ++
    (ascii "c=biws,r=" ++ c.nonce)

/-- The key that is derived from the password. -/
def Challenge.salted (c : Challenge) (H : HashFunctions) (password : Bytes) : Bytes :=
  pbkdf2 H password c.salt c.iterations

/-- The signature by which a server shows that it has the user's account. -/
def Challenge.verifier (c : Challenge) (H : HashFunctions)
    (username password nonce serverFirst : Bytes) : Bytes :=
  H.hmac (H.hmac (c.salted H password) (ascii "Server Key"))
    (c.authMessage username nonce serverFirst)

/-- The server's final message carries the verifier. -/
def CarriesVerifier (verifier serverFinal : Bytes) : Prop :=
  ((parseScramFields serverFinal).lookup (ascii "v")).bind Base64.decode = some verifier

/-! ## The program, message by message -/

/-- The client's final message. -/
def Challenge.reply (c : Challenge) (H : HashFunctions)
    (username password nonce serverFirst : Bytes) : Bytes :=
  let clientKey := H.hmac (c.salted H password) (ascii "Client Key")
  let signature := H.hmac (H.sum clientKey) (c.authMessage username nonce serverFirst)
  ascii "c=biws,r=" ++ c.nonce ++ ascii ",p=" ++ Base64.encode (xorBytes clientKey signature)

/-- A field of the server's first message; one that is missing is empty. -/
def scramField (serverFirst : Bytes) (name : String) : Bytes :=
  ((parseScramFields serverFirst).lookup (ascii name)).getD []

/-- The iteration count, with its default. -/
def scramIterations (serverFirst : Bytes) : Int64 :=
  let iterations := sscanfInt 4096 (scramField serverFirst "i")
  if iterations < 1 then 4096 else iterations

/-- The client accepts a first message of the server: its nonce begins with the client's, its salt
is in base64 and its iteration count within the limit. -/
structure Challenge.ReadFrom (c : Challenge) (limit : Int64) (nonce serverFirst : Bytes) :
    Prop where
  nonce_eq : c.nonce = scramField serverFirst "r"
  extends_nonce : nonce <+: c.nonce
  salt_eq : decodeBase64 (scramField serverFirst "s") = .ok c.salt
  iterations_eq : c.iterations = scramIterations serverFirst
  within : c.iterations ≤ limit

/-- `parseAuthBytes` finds the error code 0 in the answer to a message. -/
def Accepts (conn : Requester) (msg : Bytes) : Prop :=
  ∃ raw body errMsg authBytes rest,
    conn apiSaslAuthenticate verSaslAuthenticate (wrapSasl msg) = .ok raw ∧
      responseBody raw = .ok body ∧
      readAuthFields (fromBytes body) = .ok ((0, errMsg, authBytes), rest)

section Exchange

variable {H : HashFunctions} {limit : Int64} {username password nonce : Bytes} {conn : Requester}

theorem saslRound_ok_iff : (∃ out, saslRound conn msg = .ok out) ↔ Accepts conn msg := by
  constructor
  · rintro ⟨out, hround⟩
    obtain ⟨raw, hraw, hparse⟩ := bind_eq_ok.1 hround
    obtain ⟨body, hbody, hparse⟩ := bind_eq_ok.1 hparse
    obtain ⟨⟨⟨code, errMsg, authBytes⟩, rest⟩, hfields, hresult⟩ := bind_eq_ok.1 hparse
    obtain ⟨rfl, -⟩ := authResult_eq_ok.1 hresult
    exact ⟨raw, body, errMsg, authBytes, rest, hraw, hbody, hfields⟩
  · rintro ⟨raw, body, errMsg, authBytes, rest, hraw, hbody, hfields⟩
    have hresult : authResult 0 errMsg authBytes.bytes =
        .ok (if authBytes.bytes = [] then errMsg else authBytes.bytes) :=
      authResult_eq_ok.2 ⟨rfl, rfl⟩
    have hparse : parseAuthBytes raw = .ok _ :=
      bind_eq_ok.2 ⟨body, hbody, bind_eq_ok.2 ⟨_, hfields, hresult⟩⟩
    exact ⟨_, bind_eq_ok.2 ⟨raw, hraw, hparse⟩⟩

theorem clientFinal_ok_iff {serverFirst : Bytes} :
    clientFinal H limit username password nonce serverFirst = .ok final ↔
      ∃ c : Challenge, c.ReadFrom limit nonce serverFirst ∧
        c.reply H username password nonce serverFirst = final := by
  change (if ¬ nonce.isPrefixOf (scramField serverFirst "r") then Except.error _
    else decodeBase64 (scramField serverFirst "s") >>= fun salt =>
      if scramIterations serverFirst > limit then .error _
      else .ok (Challenge.reply ⟨scramField serverFirst "r", salt, scramIterations serverFirst⟩ H
        username password nonce serverFirst)) = _ ↔ _
  constructor
  · intro h
    split at h
    · cases h
    · next hnonce =>
      obtain ⟨salt, hsalt, h⟩ := bind_eq_ok.1 h
      split at h
      · cases h
      · next hlimit =>
        refine ⟨⟨scramField serverFirst "r", salt, scramIterations serverFirst⟩,
          ⟨rfl, ?_, hsalt, rfl, Int64.not_lt.1 hlimit⟩, Except.ok.inj h⟩
        exact List.isPrefixOf_iff_prefix.1 (not_not.1 hnonce)
  · rintro ⟨⟨serverNonce, salt, iterations⟩, ⟨rfl, hnonce, hsalt, rfl, hlimit⟩, rfl⟩
    rw [if_neg (not_not_intro ( List.isPrefixOf_iff_prefix.2 hnonce))]
    exact bind_eq_ok.2 ⟨salt, hsalt, if_neg (Int64.not_lt.2 hlimit)⟩

/-- The exchange succeeds exactly if the client accepts the server's first message and gets no
error for its final one. What the server's final message carries does not matter. -/
theorem scramExchange_ok_iff (H : HashFunctions) (limit : Int64) (username password nonce : Bytes)
    (conn : Requester) :
    (scramExchange H limit username password nonce conn).result = .ok () ↔
      ∃ serverFirst, ∃ c : Challenge,
        saslRound conn (clientFirst username nonce) = .ok serverFirst ∧
          c.ReadFrom limit nonce serverFirst ∧
          Accepts conn (c.reply H username password nonce serverFirst) := by
  constructor
  · fun_cases scramExchange H limit username password nonce conn with
    | case1 | case2 => exact nofun
    | case3 first serverFirst hfirst final hfinal =>
      intro h
      obtain ⟨c, hread, rfl⟩ := clientFinal_ok_iff.1 hfinal
      refine ⟨serverFirst, c, hfirst, hread, saslRound_ok_iff.1 ?_⟩
      cases hround : saslRound conn (c.reply H username password nonce serverFirst) with
      | error e => cases hround ▸ h
      | ok serverFinal => exact ⟨serverFinal, rfl⟩
  · rintro ⟨serverFirst, c, hfirst, hread, haccepts⟩
    obtain ⟨serverFinal, hround⟩ := saslRound_ok_iff.2 haccepts
    simp only [scramExchange, hfirst, clientFinal_ok_iff.2 ⟨c, hread, rfl⟩, hround]
    rfl

/-- The exchange succeeds only if the server's final message carries the verifier. -/
def Verified (H : HashFunctions) (limit : Int64) (username password nonce : Bytes)
    (conn : Requester) : Prop :=
  (scramExchange H limit username password nonce conn).result = .ok () →
    ∃ serverFirst serverFinal, ∃ c : Challenge,
      saslRound conn (clientFirst username nonce) = .ok serverFirst ∧
        c.ReadFrom limit nonce serverFirst ∧
        saslRound conn (c.reply H username password nonce serverFirst) = .ok serverFinal ∧
        CarriesVerifier (c.verifier H username password nonce serverFirst) serverFinal

/-- A server that has no account answers any message with a nonce, a salt and a count. -/
theorem scramExchange_unverified :
    let H : HashFunctions := ⟨1, fun b => [b.foldl (· + ·) 7], fun key msg =>
      [(key ++ msg).foldl (3 * · + ·) 1], fun _ => rfl, fun _ _ => rfl⟩
    let conn : Requester := fun _ _ _ =>
      .ok ((⟨0, none, ascii "r=abcxyz,s=AQI=,i=2", 0⟩ : SaslResponse).frame 1)
    (scramExchange H 4096 (ascii "user") (ascii "secret") (ascii "abc") conn).result = .ok () ∧
      ¬ Verified H 4096 (ascii "user") (ascii "secret") (ascii "abc") conn := by
  intro H conn
  have hround : ∀ msg, saslRound conn msg = .ok (ascii "r=abcxyz,s=AQI=,i=2") := by
    intro msg
    exact @parseAuthBytes_short ⟨0, none, ascii "r=abcxyz,s=AQI=,i=2", 0⟩
      ⟨by decide, by decide⟩ rfl rfl (by decide) (by decide) 1
  have hok : (scramExchange H 4096 (ascii "user") (ascii "secret") (ascii "abc") conn).result =
      .ok () := by
    rfl
  refine ⟨hok, fun hverified => ?_⟩
  obtain ⟨serverFirst, serverFinal, c, -, -, hfinal, hcarries⟩ := hverified hok
  cases (hround _).symm.trans hfinal
  -- the message has no attribute `v`
  cases hcarries

end Exchange

end GoKafka
