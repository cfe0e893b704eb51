import GoKafka.Auth.Handshake

/-!
# Re-authentication and the mutex of a connection

`Cluster.requestOnce` (`internal/broker/cluster.go`) sends a request on a connection, and if that
fails and there is a token provider, it authenticates anew and sends it once more. A request takes
the mutex of its connection (`Conn.Request` in `internal/transport/conn.go`), and a handshake is
made of requests. `Dial` calls it without the mutex. `Conn.Reauthenticate` takes the mutex first and
then calls it, so that the first request of the handshake waits for a mutex that its own goroutine
holds.

`requestOnce_returns_iff` says for which calls this does not come about, for any number of calls on
any connections: in no schedule a goroutine waits for a mutex that it holds, and all calls return,
exactly if no call comes to the handshake of `Reauthenticate`. A call does not come there if its
request succeeds, or if the token provider of OAUTHBEARER fails.
-/

namespace GoKafka

open Mutexes Prog

/-! ## The program -/

/-- `Conn.Request`. -/
def connRequest (k : Nat) (site : RequestSite) (apiKey apiVersion : Int16) (body : Bytes) :
    Go (Except ConnError Bytes) := do
  acquire (.conn k)
  let resp ← ask (Asked.exchange k site apiKey apiVersion body)
  release (.conn k)
  return resp

/-- A connection as the requester of a handshake. -/
def connRequester (k : Nat) (site : HandshakeSite) : GoRequester :=
  fun round apiKey apiVersion body => do
    let resp ← connRequest k (.handshake site round) apiKey apiVersion body
    return resp.mapError (·.err)

namespace AuthConfig

variable (sec : AuthConfig)

def dial (address : Bytes) : Go (Except Error Nat) := do
  match ← ask (Asked.netConn address) with
  | .error e => return .error e
  | .ok k =>
    if sec.saslEnabled then
      let result ← sec.handshake .dial (connRequester k .dial)
      return result.map fun _ => k
    else return .ok k

def refreshSASLToken : Go Unit := do
  acquire .cluster
  if sec.sasl.tokenProvider ∧ sec.sasl.mechanism = .oauth then
    match ← ask (Asked.token .refresh) with
    | .error _ => release .cluster
    | .ok token => do
      ask (Asked.storeClusterToken token)
      release .cluster
  else release .cluster

/-- `Cluster.Conn` under the mutex. -/
def connLocked (nodeID : Int32) : Go (Except Error Nat) := do
  match ← ask (Asked.pooled nodeID) with
  | some k => return .ok k
  | none =>
    match ← ask (Asked.address nodeID) with
    | .error e => return .error e
    | .ok address =>
      let token ← ask Asked.clusterToken
      match ← (sec.withToken token).dial address with
      | .error e => return .error e
      | .ok k => do
        ask (Asked.store nodeID k)
        return .ok k

def conn (nodeID : Int32) : Go (Except Error Nat) := do
  sec.refreshSASLToken
  acquire .cluster
  let result ← sec.connLocked nodeID
  release .cluster
  return result

/-- `Conn.Reauthenticate` under the mutex. -/
def reauthenticateLocked (k : Nat) : Go (Except Error Unit) := do
  if sec.sasl.tokenProvider ∧ sec.sasl.mechanism = .oauth then
    match ← ask (Asked.token .reauthenticate) with
    | .error e => return .error (.other ("transport: oauth token refresh: " ++ Error.message e))
    | .ok token =>
      ask (Asked.storeConnToken k token)
      (sec.withToken token).handshake .reauthenticate (connRequester k .reauthenticate)
  else
    let token ← ask (Asked.connToken k)
    (sec.withToken token).handshake .reauthenticate (connRequester k .reauthenticate)

/-- `Conn.Reauthenticate`; the connection has the configuration of the cluster, but for the
token. -/
def reauthenticate (k : Nat) : Go (Except Error Unit) := do
  if sec.saslEnabled then
    acquire (.conn k)
    let result ← sec.reauthenticateLocked k
    release (.conn k)
    return result
  else return .ok ()

def requestOnce (nodeID : Int32) (call : RequestCall) : Go (Except ConnError Bytes) := do
  match ← sec.conn nodeID with
  | .error e => return .error { err := e }
  | .ok k =>
    match ← connRequest k .first call.apiKey call.apiVersion call.body with
    | .ok resp => return .ok resp
    | .error e =>
      if sec.saslEnabled ∧ sec.sasl.tokenProvider then
        match ← sec.reauthenticate k with
        | .error _ => return .error e
        | .ok () => connRequest k .again call.apiKey call.apiVersion call.body
      else return .error e

end AuthConfig

/-! ## Calls -/

/-- A call of `requestOnce`, with all that it is answered. -/
structure OnceCall where
  nodeID : Int32
  call : RequestCall
  answers : ∀ e, Asked.Answer e

/-- The goroutine of a call. -/
def OnceCall.goroutine (sec : AuthConfig) (c : OnceCall) :
    Goroutine MutexName Asked Asked.Answer (Except ConnError Bytes) where
  prog := sec.requestOnce c.nodeID c.call
  answers := c.answers

/-- The outcome of the call's request on a connection. -/
def OnceCall.outcome (c : OnceCall) (k : Nat) : Except ConnError Bytes :=
  c.answers (.exchange k .first c.call.apiKey c.call.apiVersion c.call.body)

/-- The mechanism is OAUTHBEARER, and its token provider fails in `Reauthenticate`. -/
def TokenFails (sec : AuthConfig) (answers : ∀ e, Asked.Answer e) : Prop :=
  sec.sasl.mechanism = .oauth ∧ ∃ e, answers (.token .reauthenticate) = .error e

/-- If the request fails and the call is to authenticate anew, the token provider fails. -/
def OnceCall.Meets (sec : AuthConfig) (c : OnceCall) : Prop :=
  ∀ k e, (sec.conn c.nodeID).value c.answers = .ok k → c.outcome k = .error e →
    sec.saslEnabled → sec.sasl.tokenProvider → TokenFails sec c.answers

/-- The mutex of the cluster comes before those of the connections. -/
def MutexName.rank : MutexName → Nat
  | .cluster => 0
  | .conn _ => 1

/-! ## The mutexes of a request -/

section Locks

variable {answers : ∀ e, Asked.Answer e} {held : List MutexName} {k : Nat}

/-- A request on a connection, by a goroutine that holds at most the mutex of the cluster. -/
theorem locks_connRequest (hheld : ∀ m ∈ held, m = .cluster) :
    (connRequest k site apiKey apiVersion body).locks MutexName.rank answers held = .ok held := by
  have hnew : MutexName.conn k ∉ held := fun hmem => nomatch hheld _ hmem
  have hrank : ∀ m ∈ held, m.rank < (MutexName.conn k).rank := by
    intro m hm
    rw [hheld m hm]
    exact Nat.zero_lt_one
  refine (locks_bind_ok (locks_acquire hnew hrank) _).trans ?_
  exact locks_bind_ok locks_release _

/-- A request by a goroutine that holds the mutex of the connection. -/
theorem locks_connRequest_held (hheld : MutexName.conn k ∈ held) :
    (connRequest k site apiKey apiVersion body).locks MutexName.rank answers held =
      .error (.relock (.conn k)) :=
  locks_bind_error (locks_acquire_held hheld) _

variable (sec : AuthConfig)

theorem locks_dial (hheld : ∀ m ∈ held, m = .cluster) (address : Bytes) :
    (sec.dial address).locks MutexName.rank answers held = .ok held := by
  refine (locks_bind_ok locks_ask _).trans ?_
  split
  · rfl
  · next k _ =>
    split_ifs
    · have hhandshake : (sec.handshake .dial (connRequester k .dial)).locks MutexName.rank answers
          held = .ok held :=
        AuthConfig.locks_handshake fun _ _ _ _ => locks_bind_ok (locks_connRequest hheld ..) _
      exact locks_bind_ok hhandshake _
    · rfl

theorem locks_refreshSASLToken : sec.refreshSASLToken.locks MutexName.rank answers [] = .ok [] := by
  refine (locks_bind_ok (locks_acquire List.not_mem_nil nofun) _).trans ?_
  split_ifs
  · refine (locks_bind_ok locks_ask _).trans ?_
    split
    · exact locks_release
    · exact (locks_bind_ok locks_ask _).trans locks_release
  · exact locks_release

theorem locks_connLocked (hheld : ∀ m ∈ held, m = .cluster) (nodeID : Int32) :
    (sec.connLocked nodeID).locks MutexName.rank answers held = .ok held := by
  refine (locks_bind_ok locks_ask _).trans ?_
  split
  · rfl
  · refine (locks_bind_ok locks_ask _).trans ?_
    split
    · rfl
    · refine (locks_bind_ok (locks_dial _ hheld _) _).trans ?_
      split
      · rfl
      · rfl

theorem locks_conn (nodeID : Int32) :
    (sec.conn nodeID).locks MutexName.rank answers [] = .ok [] := by
  refine (locks_bind_ok (locks_refreshSASLToken sec) _).trans ?_
  have hlocked := @locks_connLocked answers [.cluster] sec (by simp) nodeID
  refine (locks_bind_ok hlocked _).trans ?_
  exact locks_bind_ok locks_release _

/-- A handshake by a goroutine that holds the mutex of the connection. -/
theorem locks_handshake_held (token : Bytes) :
    ((sec.withToken token).handshake .reauthenticate (connRequester k .reauthenticate)).locks
      MutexName.rank answers [.conn k] = .error (.relock (.conn k)) :=
  AuthConfig.locks_handshake_error fun _ _ _ _ =>
    locks_bind_error (locks_connRequest_held (List.mem_singleton_self _) ..) _

variable {sec}

/-- Where the token provider fails, there is no handshake. -/
theorem reauthenticateLocked_of_fails (hprovider : sec.sasl.tokenProvider)
    (h : TokenFails sec answers) :
    (sec.reauthenticateLocked k).locks MutexName.rank answers held = .ok held ∧
      ∃ e, (sec.reauthenticateLocked k).value answers = .error e := by
  obtain ⟨hmech, e, htoken⟩ := h
  rw [AuthConfig.reauthenticateLocked, if_pos ⟨hprovider, hmech⟩, locks_bind_ok locks_ask,
    value_bind, value_ask, htoken]
  exact ⟨rfl, _, rfl⟩

theorem locks_reauthenticateLocked (h : ¬ TokenFails sec answers) :
    (sec.reauthenticateLocked k).locks MutexName.rank answers [.conn k] =
      .error (.relock (.conn k)) := by
  unfold AuthConfig.reauthenticateLocked
  split_ifs with hoauth
  · rw [locks_bind_ok locks_ask, value_ask]
    cases htoken : answers (.token .reauthenticate) with
    | error e => exact absurd ⟨hoauth.2, e, htoken⟩ h
    | ok token => exact (locks_bind_ok locks_ask _).trans (locks_handshake_held sec token)
  · exact (locks_bind_ok locks_ask _).trans (locks_handshake_held sec _)

theorem reauthenticate_of_fails (hprovider : sec.sasl.tokenProvider) (h : TokenFails sec answers)
    (hsasl : sec.saslEnabled) :
    (sec.reauthenticate k).locks MutexName.rank answers [] = .ok [] ∧
      ∃ e, (sec.reauthenticate k).value answers = .error e := by
  obtain ⟨hlocked, e, hvalue⟩ := @reauthenticateLocked_of_fails answers [.conn k] k sec hprovider h
  rw [AuthConfig.reauthenticate, if_pos hsasl]
  constructor
  · refine (locks_bind_ok hlocked _).trans ?_
    exact locks_bind_ok locks_release _
  · exact ⟨e, by simp only [value_bind, value_pure, hvalue]⟩

/-- The handshake of `Reauthenticate` waits for the mutex that `Reauthenticate` holds. -/
theorem locks_reauthenticate (h : ¬ TokenFails sec answers) (hsasl : sec.saslEnabled) :
    (sec.reauthenticate k).locks MutexName.rank answers [] = .error (.relock (.conn k)) := by
  rw [AuthConfig.reauthenticate, if_pos hsasl]
  exact locks_bind_error (locks_reauthenticateLocked h) _

/-- A call that meets the condition gives back all mutexes, and one that does not comes to lock a
mutex that it holds. -/
theorem locks_requestOnce (c : OnceCall) :
    (c.Meets sec ∧ (sec.requestOnce c.nodeID c.call).locks MutexName.rank c.answers [] = .ok []) ∨
      (¬ c.Meets sec ∧ ∃ k, (sec.requestOnce c.nodeID c.call).locks MutexName.rank c.answers [] =
        .error (.relock (.conn k))) := by
  have hnone : ∀ m ∈ ([] : List MutexName), m = .cluster := nofun
  rw [AuthConfig.requestOnce, locks_bind_ok (locks_conn sec c.nodeID)]
  cases hconn : (sec.conn c.nodeID).value c.answers with
  | error e => exact .inl ⟨fun k _ hk => (nomatch hconn.symm.trans hk), rfl⟩
  | ok k =>
    have hsame : ∀ {k'}, (sec.conn c.nodeID).value c.answers = .ok k' → k' = k := fun hk' =>
      Except.ok.inj (hk'.symm.trans hconn)
    have hvalue : (connRequest k .first c.call.apiKey c.call.apiVersion c.call.body).value
        c.answers = c.outcome k := rfl
    rw [locks_bind_ok (locks_connRequest hnone ..), hvalue]
    cases houtcome : c.outcome k with
    | ok resp =>
      refine .inl ⟨fun k' e hk' he => ?_, rfl⟩
      rw [hsame hk', houtcome] at he
      exact nomatch he
    | error e =>
      dsimp only
      by_cases hreauth : sec.saslEnabled ∧ sec.sasl.tokenProvider
      · rw [if_pos hreauth]
        by_cases htoken : TokenFails sec c.answers
        · obtain ⟨hlocks, e', hvalue⟩ := @reauthenticate_of_fails c.answers k sec hreauth.2 htoken
            hreauth.1
          refine .inl ⟨fun _ _ _ _ _ _ => htoken, ?_⟩
          rw [locks_bind_ok hlocks, hvalue]
          rfl
        · have hlocks := @locks_reauthenticate c.answers k sec htoken hreauth.1
          refine .inr ⟨fun hmeets => ?_, k, locks_bind_error hlocks _⟩
          exact htoken (hmeets k e hconn houtcome hreauth.1 hreauth.2)
      · rw [if_neg hreauth]
        exact .inl ⟨fun _ _ _ _ hsasl hprovider => absurd ⟨hsasl, hprovider⟩ hreauth, rfl⟩

end Locks

/-! ## Calls side by side -/

/-- However the calls are scheduled, no goroutine waits for a mutex that it holds, and all calls
return, if and only if no call comes to the handshake of `Reauthenticate`: where its request fails
and it is to authenticate anew, the token provider fails. -/
theorem requestOnce_returns_iff (sec : AuthConfig) (calls : List OnceCall) :
    ((∀ schedule, ∀ s ∈ Run.states System.step (System.start (calls.map (·.goroutine sec)))
          schedule, ∀ i, ¬ s.WaitsForOwn i) ∧
      (System.start (calls.map (·.goroutine sec))).Returns) ↔
      ∀ c ∈ calls, c.Meets sec := by
  have hgs : ∀ g ∈ calls.map (·.goroutine sec), g.prog.locks MutexName.rank g.answers [] = .ok [] ∨
        ∃ m, g.prog.locks MutexName.rank g.answers [] = .error (.relock m) := by
    intro g hg
    obtain ⟨c, -, rfl⟩ := List.mem_map.1 hg
    exact (locks_requestOnce c).imp And.right fun ⟨_, k, hk⟩ => ⟨.conn k, hk⟩
  rw [Mutexes.returns_iff hgs, List.forall_mem_map]
  refine forall₂_congr fun c _ => ⟨fun hok => ?_, fun hmeets => ?_⟩
  · exact (locks_requestOnce c).elim And.left fun ⟨_, k, hk⟩ => nomatch hok.symm.trans hk
  · exact (locks_requestOnce c).elim And.right fun h => absurd hmeets h.1

/-- OAUTHBEARER with a token provider. -/
def oauthSecurity : AuthConfig :=
  let H : HashFunctions := ⟨0, fun _ => [], fun _ _ => [], fun _ => rfl, fun _ _ => rfl⟩
  { protocol := .saslSSL, sasl := { mechanism := .oauth, tokenProvider := true }
    sha256 := H, sha512 := H, maxSCRAMIterations := 4096 }

/-- A call that has a connection from the pool on which all requests fail, and a token provider that
does not fail. -/
def expiredCall : OnceCall where
  nodeID := 1
  call := ⟨apiMetadata, 12, []⟩
  answers
    | .token _ | .kerberosToken .. | .address _ => .ok (ascii "token")
    | .nonce _ | .clusterToken | .connToken _ => []
    | .exchange .. => .error { err := .transport "transport: read size" }
    | .pooled _ => some 0
    | .netConn _ => .ok 0
    | .store .. | .storeClusterToken _ | .storeConnToken .. => ()

/-- After its request has failed, the call waits for the mutex of its connection, which it holds,
and nothing can go on. -/
theorem requestOnce_relocks :
    let s := (List.replicate 13 0).foldl System.step
      (System.start [expiredCall.goroutine oauthSecurity])
    s.WaitsForOwn 0 ∧ ∀ i, ¬ s.CanMove i := by
  refine ⟨⟨_, .conn 0, _, rfl, rfl, rfl⟩, ?_⟩
  rintro (_ | i) ⟨g, hg, hmove⟩
  · cases hg
    exact nomatch hmove
  · exact nomatch hg

end GoKafka
