import GoKafka.Lib.Mutex
import GoKafka.Auth.Scram

/-!
# The SASL handshake

`Handshake` of `internal/auth/auth.go` for all mechanisms. It sends its requests through the
interface `requester`, which is `Conn.Request` in the program: a request takes the mutex of its
connection. So the handshake is a program of a goroutine, over a requester that is such a program.
What is outside of the program (the network, the token providers, the state that the calls share) is
asked for; each place of the source that asks has its own name, so that the answers are free.

The handshake takes no mutex itself: it leaves the mutexes as its requests do (`locks_handshake`),
and as its first one does where that fails (`locks_handshake_error`).
-/

namespace GoKafka

open Mutexes BigEndian

/-! ## Configuration -/

inductive SecurityProtocol where
  | plaintext
  | ssl
  | saslPlaintext
  | saslSSL
  | other (name : Bytes)
  deriving DecidableEq

inductive SASLMechanism where
  | plain
  | scram256
  | scram512
  | gssapi
  | oauth
  | other (name : Bytes)
  deriving DecidableEq

/-- The mechanism as a string. -/
def SASLMechanism.name : SASLMechanism → Bytes
  | .plain => ascii "PLAIN"
  | .scram256 => ascii "SCRAM-SHA-256"
  | .scram512 => ascii "SCRAM-SHA-512"
  | .gssapi => ascii "GSSAPI"
  | .oauth => ascii "OAUTHBEARER"
  | .other name => name

/-- `auth.KerberosConfig`; of a token provider it matters whether there is one. -/
structure KerberosConfig where
  initToken : Bytes := []
  tokenProvider : Bool := false

structure SASLConfig where
  mechanism : SASLMechanism
  username : Bytes := []
  password : Bytes := []
  token : Bytes := []
  tokenProvider : Bool := false
  kerberos : KerberosConfig := {}

/-- `auth.Config`, with the hash functions of SCRAM and `limits.MaxSCRAMIterations()`. -/
structure AuthConfig where
  protocol : SecurityProtocol
  sasl : SASLConfig
  sha256 : HashFunctions
  sha512 : HashFunctions
  maxSCRAMIterations : Int64

def AuthConfig.saslEnabled (sec : AuthConfig) : Bool :=
  sec.protocol = .saslPlaintext || sec.protocol = .saslSSL

/-- The configuration with another token. -/
def AuthConfig.withToken (sec : AuthConfig) (token : Bytes) : AuthConfig :=
  { sec with sasl := { sec.sasl with token := token } }

/-! ## Mutexes and answers -/

/-- The mutex of the cluster, and those of the connections. -/
inductive MutexName where
  | cluster
  | conn (k : Nat)
  deriving DecidableEq

/-- Where a handshake is called. -/
inductive HandshakeSite where
  | dial
  | reauthenticate

/-- Where a request is sent: those of `requestOnce`, and the rounds of a handshake. -/
inductive RequestSite where
  | first
  | again
  | handshake (site : HandshakeSite) (round : Nat)

/-- Where the token provider is called. -/
inductive TokenSite where
  | refresh
  | reauthenticate
  | handshake (site : HandshakeSite)

/-- What a call asks for: a token, a nonce, an exchange of frames on a connection (`requestLocked`),
the pool and the address of a broker, a connection, and to read and to write what is shared. -/
inductive Asked where
  | token (site : TokenSite)
  | kerberosToken (site : HandshakeSite) (round : Nat) (challenge : Bytes)
  | nonce (site : HandshakeSite)
  | exchange (k : Nat) (site : RequestSite) (apiKey apiVersion : Int16) (body : Bytes)
  | pooled (nodeID : Int32)
  | address (nodeID : Int32)
  | netConn (address : Bytes)
  | store (nodeID : Int32) (k : Nat)
  | clusterToken
  | storeClusterToken (token : Bytes)
  | connToken (k : Nat)
  | storeConnToken (k : Nat) (token : Bytes)

/-- The answers. -/
abbrev Asked.Answer : Asked → Type
  | .token _ | .kerberosToken .. | .address _ => Except Error Bytes
  | .nonce _ | .clusterToken | .connToken _ => Bytes
  | .exchange .. => Except ConnError Bytes
  | .pooled _ => Option Nat
  | .netConn _ => Except Error Nat
  | .store .. | .storeClusterToken _ | .storeConnToken .. => Unit

/-- What a goroutine of the client does. -/
abbrev Go := Prog MutexName Asked Asked.Answer

/-- The interface `requester`, with the round of the request. -/
abbrev GoRequester := Nat → Int16 → Int16 → Bytes → Go (Except Error Bytes)

/-! ## The program -/

def verSaslHandshake : Int16 := 1

def encodeSaslHandshake (mechanism : Bytes) : Bytes :=
  beBytes 2 (mechanism.length % 2 ^ 16) ++ mechanism

def decodeSaslHandshakeErr (body : Bytes) : Except Error Unit := do
  if body.length < 2 then throw (.other "auth: short sasl handshake response")
  let code := (UInt16.ofNat (beNat (body.take 2))).toInt16
  if code ≠ 0 then
    throw (.other ("auth: sasl handshake error code " ++ toString code.toInt))

def buildPlainMessage (user pass : Bytes) : Bytes := wrapSasl ([0] ++ user ++ [0] ++ pass)

def buildOAuthMessage (token : Bytes) : Bytes := wrapSasl (ascii "n,,auth=Bearer " ++ token)

namespace AuthConfig

variable (sec : AuthConfig) (site : HandshakeSite) (request : GoRequester)

/-- `saslAuthenticate`. -/
def authenticate (payload : Bytes) : Go (Except Error Unit) := do
  let resp ← request 1 apiSaslAuthenticate verSaslAuthenticate payload
  return saslAuthenticate (fun _ _ _ => resp) payload

/-- `saslRound`. -/
def round (n : Nat) (msg : Bytes) : Go (Except Error Bytes) := do
  let resp ← request n apiSaslAuthenticate verSaslAuthenticate (wrapSasl msg)
  return saslRound (fun _ _ _ => resp) msg

/-- `scramSHA256` and `scramSHA512`. -/
def scram (H : HashFunctions) : Go (Except Error Unit) := do
  let nonce ← Prog.ask (Asked.nonce site)
  match ← round request 1 (clientFirst sec.sasl.username nonce) with
  | .error e => return .error e
  | .ok serverFirst =>
    match clientFinal H sec.maxSCRAMIterations sec.sasl.username sec.sasl.password nonce
      serverFirst with
    | .error e => return .error e
    | .ok final => do
      let serverFinal ← round request 2 final
      return serverFinal.map fun _ => ()

/-- The loop of `gssapi`, with the number of rounds that are left. -/
def gssapiLoop : Nat → Bytes → Go (Except Error Unit)
  | 0, _ => return .error (.other "auth: GSSAPI handshake exceeded round limit")
  | left + 1, token => do
    match ← round request (32 - left) token with
    | .error e => return .error e
    | .ok [] => return .ok ()
    | .ok challenge =>
      if sec.sasl.kerberos.tokenProvider then
        match ← Prog.ask (Asked.kerberosToken site (32 - left) challenge) with
        | .error e => return .error (.other ("auth: GSSAPI token provider: " ++ Error.message e))
        | .ok token => gssapiLoop left token
      else
        return .error
          (.other "auth: GSSAPI challenge received but KerberosConfig.TokenProvider is nil")

def gssapi : Go (Except Error Unit) :=
  if sec.sasl.kerberos.tokenProvider = false ∧ sec.sasl.kerberos.initToken = [] then
    return .error (.other "auth: GSSAPI requires InitToken or TokenProvider")
  else gssapiLoop sec site request 32 sec.sasl.kerberos.initToken

/-- The token of OAUTHBEARER in `Handshake`. -/
def oauthToken : Go (Except Error Bytes) :=
  if sec.sasl.token = [] ∧ sec.sasl.tokenProvider then Prog.ask (Asked.token (.handshake site))
  else return .ok sec.sasl.token

/-- The case of OAUTHBEARER of `Handshake`. -/
def oauth : Go (Except Error Unit) := do
  match ← oauthToken sec site with
  | .error e => return .error (.other ("auth: oauth token provider: " ++ Error.message e))
  | .ok [] => return .error (.other "auth: OAUTHBEARER requires Token or TokenProvider")
  | .ok token => authenticate request (buildOAuthMessage token)

/-- The part of `Handshake` that depends on the mechanism. -/
def mechanism : Go (Except Error Unit) :=
  match sec.sasl.mechanism with
  | .scram256 => scram sec site request sec.sha256
  | .scram512 => scram sec site request sec.sha512
  | .gssapi => gssapi sec site request
  | .oauth => oauth sec site request
  | .plain | .other _ =>
    authenticate request (buildPlainMessage sec.sasl.username sec.sasl.password)

def handshake : Go (Except Error Unit) := do
  let mech := if sec.sasl.mechanism.name = [] then ascii "PLAIN" else sec.sasl.mechanism.name
  let resp ← request 0 apiSaslHandshake verSaslHandshake (encodeSaslHandshake mech)
  match resp >>= responseBody >>= decodeSaslHandshakeErr with
  | .error e => return .error e
  | .ok () => mechanism sec site request

end AuthConfig

/-! ## The mutexes of a handshake -/

namespace AuthConfig

open Prog

variable {request : GoRequester}

section Leaves

variable (hrequest : ∀ n apiKey apiVersion body,
  (request n apiKey apiVersion body).locks rank answers held = .ok held)
include hrequest

theorem locks_authenticate (payload : Bytes) :
    (authenticate request payload).locks rank answers held = .ok held :=
  locks_bind_ok (hrequest ..) _

theorem locks_round (n : Nat) (msg : Bytes) :
    (round request n msg).locks rank answers held = .ok held :=
  locks_bind_ok (hrequest ..) _

theorem locks_scram (H : HashFunctions) :
    (scram sec site request H).locks rank answers held = .ok held := by
  refine (locks_bind_ok (locks_round hrequest 1 _) _).trans ?_
  split
  · rfl
  · split
    · rfl
    · exact locks_bind_ok (locks_round hrequest 2 _) _

theorem locks_gssapiLoop (left : Nat) (token : Bytes) :
    (gssapiLoop sec site request left token).locks rank answers held = .ok held := by
  induction left generalizing token with
  | zero => rfl
  | succ left ih =>
    refine (locks_bind_ok (locks_round hrequest _ token) _).trans ?_
    split
    · rfl
    · rfl
    · split_ifs
      · refine (locks_bind_ok locks_ask _).trans ?_
        split
        · rfl
        · exact ih _
      · rfl

theorem locks_oauth : (oauth sec site request).locks rank answers held = .ok held := by
  have htoken : (oauthToken sec site).locks rank answers held = .ok held := by
    unfold oauthToken
    split_ifs
    · rfl
    · rfl
  refine (locks_bind_ok htoken _).trans ?_
  split
  · rfl
  · rfl
  · exact locks_authenticate hrequest _

/-- The handshake leaves the mutexes as its requests do. -/
theorem locks_handshake : (handshake sec site request).locks rank answers held = .ok held := by
  refine (locks_bind_ok (hrequest ..) _).trans ?_
  split
  · rfl
  · unfold mechanism
    split
    · exact locks_scram hrequest _
    · exact locks_scram hrequest _
    · unfold gssapi
      split_ifs
      · rfl
      · exact locks_gssapiLoop hrequest 32 _
    · exact locks_oauth hrequest
    · exact locks_authenticate hrequest _
    · exact locks_authenticate hrequest _

end Leaves

/-- The handshake begins with a request. -/
theorem locks_handshake_error (hrequest : ∀ n apiKey apiVersion body,
      (request n apiKey apiVersion body).locks rank answers held = .error fault) :
    (handshake sec site request).locks rank answers held = .error fault :=
  locks_bind_error (hrequest ..) _

end AuthConfig

end GoKafka
