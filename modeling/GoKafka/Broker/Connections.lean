import GoKafka.Lib.Run
import GoKafka.Broker.Request

/-!
# Calls that share a connection

`Cluster.Request` calls of any number of callers to one broker, with the pool of `cluster.go` and
the connections of `internal/transport/conn.go`. A call takes the pooled connection (or dials one),
waits for its lock, writes its frame and reads one frame; `Conn.Request` is one step, since it holds
the lock throughout. When it fails the lock is free again, and only afterwards the call drops the
connection from the pool, so that another call that has taken the connection before can write on it.

The broker answers the requests of a connection in order, each with its correlation id
(`ConnAnswers`), and the answers are one stream of bytes: what is read begins where the last read
stopped. The correlation id of what is read is not looked at. `request_own` says that along runs in
which no request is written on an open connection with unread answers, a call that returns a body
returns that of its own answer; a caller that waits behind one whose read times out gets the other
one's answer (`request_stale`).

With a token provider a failed request authenticates anew. `Reauthenticate` holds the lock of the
connection and calls `Conn.Request`, which waits for it: the call and the connection stand still,
unless the provider fails.
-/

namespace GoKafka

open BigEndian Reading List

/-! ## Connections -/

/-- A request that was written on a connection. -/
structure SentRequest where
  caller : Option Nat
  header : RequestHeader
  body : Bytes

/-- `transport.Conn`: the requests written on it, the number of bytes read from it, the last
correlation id, whether it is closed, and whether its lock is held for good. -/
structure Conn where
  sent : List SentRequest := []
  consumed : Nat := 0
  correlationID : Int32 := 0
  closed : Bool := false
  stuck : Bool := false

/-- What the broker answers to the `j`-th request of the `k`-th connection, after the correlation
id; the size of a frame is an int32. -/
structure ConnAnswers where
  payload : Nat → Nat → Bytes
  fits : ∀ k j, (payload k j).length + 4 < 2 ^ 31

/-- The callers' requests, and what all connections share. -/
structure ConnConfig where
  answers : ConnAnswers
  calls : Nat → RequestCall
  versions : NegotiatedVersions := none
  clientID : Bytes := []
  maxResponseBytes : Nat
  tokenProvider : Bool := false

/-- The frame of an answer. -/
def responseFrame (correlationID : Int32) (payload : Bytes) : Bytes :=
  patchLength (writeInt32 correlationID ++ payload)

variable (cfg : ConnConfig)

/-- The answer to the `j`-th request of a connection. -/
def ConnConfig.response (k j : Nat) (r : SentRequest) : Bytes :=
  responseFrame r.header.correlationID (cfg.answers.payload k j)

/-- The answers to requests of a connection, from the `j`-th on. -/
def ConnConfig.stream (k : Nat) : Nat → List SentRequest → Bytes
  | _, [] => []
  | j, r :: rs => cfg.response k j r ++ stream k (j + 1) rs

/-- What the answers to all requests of a connection leave to be read. -/
def Conn.unread (k : Nat) (c : Conn) : Bytes := (cfg.stream k 0 c.sent).drop c.consumed

/-- All answers have been read. -/
def Conn.AllRead (k : Nat) (c : Conn) : Prop := c.consumed = (cfg.stream k 0 c.sent).length

/-- How the network treats a request: the write fails, the connection breaks or the deadline passes
after some bytes of the answer, or the read goes on until it has a frame. -/
inductive ConnIo where
  | notSent
  | broken (n : Nat)
  | read

/-- `ErrNotSent`, with its cause. -/
def errNotSent : ConnError := { err := .transport "transport: request not sent", notSent := true }

def errRead : ConnError := { err := .transport "transport: read size" }

def errSize : ConnError := { err := .transport "transport: response size exceeds limit" }

/-- The reads of `requestLocked`. -/
def Conn.readFrame (k : Nat) (c : Conn) : Except ConnError Bytes × Conn :=
  let unread := c.unread cfg k
  let size := beNat (unread.take 4)
  if unread.length < 4 then (.error errRead, { c with consumed := c.consumed + unread.length })
  else if cfg.maxResponseBytes < size then (.error errSize, { c with consumed := c.consumed + 4 })
  else if unread.length < 4 + size then
    (.error errRead, { c with consumed := c.consumed + unread.length })
  else (.ok (unread.take (4 + size)), { c with consumed := c.consumed + (4 + size) })

def Conn.request (k : Nat) (c : Conn) (caller : Option Nat) (call : RequestCall) (io : ConnIo) :
    Except ConnError Bytes × Conn :=
  let corr := c.correlationID + 1
  let r : SentRequest :=
    ⟨caller, ⟨call.apiKey, call.apiVersion, corr, cfg.clientID⟩, call.body⟩
  let written := { c with correlationID := corr, sent := c.sent ++ [r] }
  match c.closed, io with
  | true, _ | _, .notSent => (.error errNotSent, { c with correlationID := corr })
  | false, .broken n =>
    (.error errRead, { written with
      consumed := c.consumed + min n (written.unread cfg k).length })
  | false, .read => written.readFrame cfg k

/-! ## Calls -/

/-- Where a call of `Cluster.Request` stands: before `Conn`, waiting for the lock of a connection,
before `Reauthenticate`, before `Invalidate`, in `Reauthenticate` for good, with the frame it has
read, or returned. The flag says that the request is being sent for the second time. -/
inductive CallPhase where
  | start (resent : Bool)
  | waiting (k : Nat) (resent : Bool)
  | failed (k : Nat) (err : ConnError) (resent : Bool)
  | dropping (err : ConnError) (resent : Bool)
  | stuck
  | answered (raw : Bytes)
  | returned (result : Except Error Bytes)

/-- The connections in the order in which they were dialled, the one in the pool, and the calls. -/
structure CallSystem where
  conns : List Conn := []
  pool : Option Nat := none
  phase : Nat → CallPhase := fun _ => .start false

/-- What happens next. A call dials with the requests of the SASL handshake or fails to; a token
provider may fail. -/
inductive CallAct where
  | connect (i : Nat) (dial : Except Error (List RequestCall))
  | serve (i : Nat) (io : ConnIo)
  | reauthenticate (i : Nat) (tokenFails : Bool)
  | drop (i : Nat) (ctxLive : Bool)
  | finish (i : Nat)
  | invalidate

/-- The request of a call, with the version that `Cluster.Request` puts into the header. -/
def ConnConfig.call (i : Nat) : RequestCall :=
  let call := cfg.calls i
  { call with apiVersion := cfg.versions.lowered call.apiKey call.apiVersion }

/-- A connection after its SASL handshake: all answers are read. -/
def Conn.dialled (k : Nat) (handshake : List RequestCall) : Conn :=
  let sent := handshake.zipIdx.map fun (call, j) => SentRequest.mk none
    ⟨call.apiKey, call.apiVersion, Int32.ofNat (j + 1), cfg.clientID⟩ call.body
  { sent := sent, consumed := (cfg.stream k 0 sent).length
    correlationID := Int32.ofNat handshake.length }

def Conn.close (c : Conn) : Conn := { c with closed := true }

/-- The lock is taken, and never given back. -/
def Conn.hold (c : Conn) : Conn := { c with stuck := true }

namespace CallSystem

def invalidate (s : CallSystem) : CallSystem :=
  match s.pool with
  | none => s
  | some k => { s with pool := none, conns := s.conns.modify k Conn.close }

/-- A call moves on. -/
def moveTo (s : CallSystem) (i : Nat) (phase : CallPhase) : CallSystem :=
  { s with phase := Function.update s.phase i phase }

/-- An act; one that is not ready changes nothing. -/
def next (s : CallSystem) : CallAct → CallSystem
  | .connect i dial =>
    match s.phase i with
    | .start resent =>
      match s.pool, dial with
      | some k, _ => s.moveTo i (.waiting k resent)
      | none, .error e => s.moveTo i (.dropping { err := e } resent)
      | none, .ok handshake =>
        let k := s.conns.length
        { s with conns := s.conns ++ [Conn.dialled cfg k handshake], pool := some k }.moveTo i
          (.waiting k resent)
    | _ => s
  | .serve i io =>
    match s.phase i with
    | .waiting k resent =>
      match s.conns[k]? with
      | none => s
      | some c =>
        if c.stuck then s
        else
          let (result, c') := c.request cfg k (some i) (cfg.call i) io
          { s with conns := s.conns.set k c' }.moveTo i
            (match result with
            | .ok raw => .answered raw
            | .error e => if cfg.tokenProvider then .failed k e resent else .dropping e resent)
    | _ => s
  | .reauthenticate i tokenFails =>
    match s.phase i with
    | .failed k e resent =>
      if tokenFails then s.moveTo i (.dropping e resent)
      else { s with conns := s.conns.modify k Conn.hold }.moveTo i .stuck
    | _ => s
  | .drop i ctxLive =>
    match s.phase i with
    | .dropping e resent =>
      s.invalidate.moveTo i
        (if e.notSent ∧ ¬ resent ∧ ctxLive then .start true else .returned (.error e.err))
    | _ => s
  | .finish i =>
    match s.phase i with
    | .answered raw =>
      s.moveTo i (.returned (responseBodyForAPI raw (cfg.call i).apiKey (cfg.call i).apiVersion))
    | _ => s
  | .invalidate => s.invalidate

/-- The frame is the broker's answer to a request of the caller. -/
def Answered (s : CallSystem) (i : Nat) (raw : Bytes) : Prop :=
  ∃ k j c r, s.conns[k]? = some c ∧ c.sent[j]? = some r ∧ r.caller = some i ∧
    raw = cfg.response k j r

/-- A request is written only where all answers have been read, or where the write fails. -/
def Clean (s : CallSystem) : CallAct → Prop
  | .serve i _ => ∀ k resent c, s.phase i = .waiting k resent → s.conns[k]? = some c →
      c.closed ∨ c.AllRead cfg k
  | _ => True

end CallSystem

/-! ## Reading one's own answer -/

variable {cfg}

theorem ConnConfig.stream_concat :
    cfg.stream k j (rs ++ [r]) = cfg.stream k j rs ++ cfg.response k (j + rs.length) r := by
  induction rs generalizing j with
  | nil => simp [ConnConfig.stream]
  | cons r' rs ih =>
    simp [ConnConfig.stream, ih, Nat.add_right_comm, Nat.add_assoc]

/-- The size in the frame of an answer is that of the rest. -/
theorem beNat_take_response :
    4 + beNat ((cfg.response k j r).take 4) = (cfg.response k j r).length := by
  have hfits := cfg.answers.fits k j
  have hrest : (writeInt32 r.header.correlationID ++ cfg.answers.payload k j).length =
      4 + (cfg.answers.payload k j).length := by
    rw [length_append, writeInt32, length_beBytes]
  rw [ConnConfig.response, responseFrame, patchLength, hrest, take_left' (length_beBytes ..),
    beNat_beBytes, length_append, length_beBytes]
  omega

/-- Where the unread bytes are one answer, this is what is read. -/
theorem Conn.readFrame_ok {k j : Nat} {c c' : Conn} {r : SentRequest} {raw : Bytes}
    (hunread : c.unread cfg k = cfg.response k j r) (h : c.readFrame cfg k = (.ok raw, c')) :
    raw = cfg.response k j r ∧ c'.sent = c.sent := by
  unfold Conn.readFrame at h
  simp only [hunread, beNat_take_response, take_length] at h
  split_ifs at h
  · cases h
  · cases h
  · cases h
  · cases h
    exact ⟨rfl, rfl⟩

theorem Conn.request_ok {k : Nat} {c c' : Conn} {caller : Option Nat} {call : RequestCall}
    {io : ConnIo} {raw : Bytes} (hclean : c.closed ∨ c.AllRead cfg k)
    (h : c.request cfg k caller call io = (.ok raw, c')) :
    ∃ r, c'.sent = c.sent ++ [r] ∧ r.caller = caller ∧ raw = cfg.response k c.sent.length r := by
  unfold Conn.request at h
  dsimp only at h
  split at h
  · cases h
  · cases h
  · cases h
  · next hopen =>
    have hread : c.AllRead cfg k := hclean.resolve_left (by simp [hopen])
    -- the stream goes on with the answer to the request that was just written
    have hunread : ∀ r, (cfg.stream k 0 (c.sent ++ [r])).drop c.consumed =
        cfg.response k c.sent.length r := by
      intro r
      rw [ConnConfig.stream_concat, Nat.zero_add]
      exact drop_left' hread.symm
    generalize hr : SentRequest.mk caller _ _ = r at h
    have hown := @Conn.readFrame_ok cfg k c.sent.length
      { c with correlationID := c.correlationID + 1, sent := c.sent ++ [r] } c' r raw (hunread r) h
    exact ⟨r, hown.2, by rw [← hr], hown.1⟩

theorem Conn.request_sent (k : Nat) (c : Conn) (caller : Option Nat) (call : RequestCall)
    (io : ConnIo) : c.sent <+: (c.request cfg k caller call io).2.sent := by
  unfold Conn.request
  split
  · exact prefix_rfl
  · exact prefix_rfl
  · exact prefix_append _ _
  · unfold Conn.readFrame
    dsimp only
    split_ifs <;> exact prefix_append _ _

namespace CallSystem

/-- Connections stay, with more requests. -/
def Grows (s s' : CallSystem) : Prop :=
  ∀ (k : Nat) (c : Conn), s.conns[k]? = some c →
    ∃ c' : Conn, s'.conns[k]? = some c' ∧ c.sent <+: c'.sent

/-- What a call has read or returned is its own. -/
def Sound (cfg : ConnConfig) (s : CallSystem) (i : Nat) : CallPhase → Prop
  | .answered raw => s.Answered cfg i raw
  | .returned (.ok body) => ∃ raw, s.Answered cfg i raw ∧
      responseBodyForAPI raw (cfg.call i).apiKey (cfg.call i).apiVersion = .ok body
  | _ => True

variable {s : CallSystem}

theorem Answered.mono (hgrows : Grows s s') (h : s.Answered cfg i raw) : s'.Answered cfg i raw := by
  obtain ⟨k, j, c, r, hc, hr, hcaller, hraw⟩ := h
  obtain ⟨c', hc', hprefix⟩ := hgrows k c hc
  obtain ⟨more, hmore⟩ := hprefix
  refine ⟨k, j, c', r, hc', ?_, hcaller, hraw⟩
  obtain ⟨hj, -⟩ := List.getElem?_eq_some_iff.1 hr
  rw [← hmore, List.getElem?_append_left hj, hr]

theorem Sound.mono (hgrows : Grows s s') (h : s.Sound cfg i p) : s'.Sound cfg i p := by
  cases p with
  | answered raw => exact Answered.mono hgrows h
  | returned result =>
    cases result with
    | error e => trivial
    | ok body =>
      obtain ⟨raw, hraw, hbody⟩ := h
      exact ⟨raw, hraw.mono hgrows, hbody⟩
  | start resent => trivial
  | waiting k resent => trivial
  | failed k e resent => trivial
  | dropping e resent => trivial
  | stuck => trivial

theorem Grows.refl (s : CallSystem) : Grows s s := fun _ c hc => ⟨c, hc, List.prefix_rfl⟩

variable {phase : Nat → CallPhase}

/-- A change of one connection that writes at most more requests. -/
theorem Grows.of_set (hc : s.conns[k]? = some c) (hsent : c.sent <+: c'.sent) {pool : Option Nat} :
    Grows s ⟨s.conns.set k c', pool, phase⟩ := by
  intro k' d hd
  by_cases hk : k = k'
  · subst hk
    obtain rfl : c = d := Option.some.inj (hc.symm.trans hd)
    obtain ⟨hlt, -⟩ := List.getElem?_eq_some_iff.1 hc
    exact ⟨c', List.getElem?_set_self hlt, hsent⟩
  · exact ⟨d, (List.getElem?_set_ne hk).trans hd, prefix_rfl⟩

theorem Grows.of_modify (hf : ∀ c, (f c).sent = c.sent) {pool : Option Nat} :
    Grows s ⟨s.conns.modify k f, pool, phase⟩ := by
  intro k' d hd
  simp only [List.getElem?_modify, hd]
  by_cases hk : k = k'
  · exact ⟨f d, by simp [hk], (hf d).symm ▸ prefix_rfl⟩
  · exact ⟨d, by simp [hk], prefix_rfl⟩

theorem Grows.of_append {pool : Option Nat} : Grows s ⟨s.conns ++ [c], pool, phase⟩ := by
  intro k d hd
  obtain ⟨hk, -⟩ := List.getElem?_eq_some_iff.1 hd
  exact ⟨d, (List.getElem?_append_left hk).trans hd, prefix_rfl⟩

theorem Grows.invalidate (s : CallSystem) : Grows s s.invalidate := by
  unfold CallSystem.invalidate
  split
  · exact .refl s
  · exact .of_modify fun c => show c.close.sent = c.sent from rfl

theorem phase_invalidate (s : CallSystem) : s.invalidate.phase = s.phase := by
  unfold CallSystem.invalidate
  split <;> rfl

/-- Every call is sound. -/
def AllSound (cfg : ConnConfig) (s : CallSystem) : Prop := ∀ i, s.Sound cfg i (s.phase i)

theorem AllSound.moveTo (h : s.AllSound cfg) (hgrows : Grows s s') (hphase : s'.phase = s.phase)
    (hp : s'.Sound cfg i p) : (s'.moveTo i p).AllSound cfg := by
  intro i'
  show s'.Sound cfg i' (Function.update s'.phase i p i')
  by_cases hi : i' = i
  · subst hi
    rwa [Function.update_self]
  · rw [Function.update_of_ne hi, hphase]
    exact (h i').mono hgrows

theorem AllSound.serve (h : s.AllSound cfg) (hclean : s.Clean cfg (.serve i io)) :
    (s.next cfg (.serve i io)).AllSound cfg := by
  rw [next]
  split
  · next k resent hphase =>
    cases hc : s.conns[k]? with
    | none => exact h
    | some c =>
      dsimp only
      by_cases hstuck : c.stuck = true
      · rwa [if_pos hstuck]
      rw [if_neg hstuck]
      have hsent := @Conn.request_sent cfg k c (some i) (cfg.call i) io
      have hown := fun raw c' => @Conn.request_ok cfg k c c' (some i) (cfg.call i) io raw
        (hclean k resent c hphase hc)
      generalize c.request cfg k (some i) (cfg.call i) io = out at hsent hown ⊢
      obtain ⟨result, c'⟩ := out
      refine h.moveTo (.of_set hc hsent) rfl ?_
      cases result with
      | ok raw =>
        obtain ⟨r, hr, hcaller, hraw⟩ := hown raw c' rfl
        obtain ⟨hlt, -⟩ := List.getElem?_eq_some_iff.1 hc
        refine ⟨k, c.sent.length, c', r, List.getElem?_set_self hlt, ?_, hcaller, hraw⟩
        rw [hr, List.getElem?_concat_length]
      | error e =>
        split_ifs <;> trivial
  · exact h

theorem AllSound.next (h : s.AllSound cfg) (hclean : s.Clean cfg act) :
    (s.next cfg act).AllSound cfg := by
  cases act with
  | connect i dial =>
    rw [CallSystem.next]
    split
    · split
      · exact h.moveTo (.refl s) rfl trivial
      · exact h.moveTo (.refl s) rfl trivial
      · exact h.moveTo (.of_append) rfl trivial
    · exact h
  | serve i io => exact h.serve hclean
  | reauthenticate i tokenFails =>
    rw [CallSystem.next]
    split
    · split_ifs
      · exact h.moveTo (.refl s) rfl trivial
      · exact h.moveTo (.of_modify fun c => show c.hold.sent = c.sent from rfl) rfl trivial
    · exact h
  | drop i ctxLive =>
    rw [CallSystem.next]
    split
    · refine h.moveTo (.invalidate s) (phase_invalidate s) ?_
      split_ifs <;> trivial
    · exact h
  | finish i =>
    rw [CallSystem.next]
    split
    · next raw hphase =>
      refine h.moveTo (.refl s) rfl ?_
      have hraw := h i
      rw [hphase] at hraw
      cases hbody : responseBodyForAPI raw (cfg.call i).apiKey (cfg.call i).apiVersion with
      | error e => trivial
      | ok body => exact ⟨raw, hraw, hbody⟩
    · exact h
  | invalidate =>
    intro i
    show s.invalidate.Sound cfg i (s.invalidate.phase i)
    rw [phase_invalidate]
    exact (h i).mono (.invalidate s)

/-- In every state of a run in which requests are written only on connections whose answers are all
read, a call that has returned a body has that of the broker's answer to its own request. -/
theorem request_own (cfg : ConnConfig) (acts : List CallAct)
    (hclean : Run.Along (CallSystem.next cfg) (Clean cfg) {} acts) :
    ∀ s ∈ Run.states (CallSystem.next cfg) {} acts, ∀ i body, s.phase i = .returned (.ok body) →
      ∃ raw, s.Answered cfg i raw ∧
        responseBodyForAPI raw (cfg.call i).apiKey (cfg.call i).apiVersion = .ok body := by
  intro s hs i body hphase
  have hsound : s.AllSound cfg := by
    refine hclean.states ?_ ?_ s hs
    · exact fun s act h hact => h.next hact
    · exact fun i => trivial
  have hi := hsound i
  rwa [hphase] at hi

/-- Callers of one broker, which answers with the number of the request on its connection. -/
def twoCallers : ConnConfig where
  answers := ⟨fun _ j => [UInt8.ofNat j], fun _ _ => by simp⟩
  calls i := ⟨apiHeartbeat, 3, [UInt8.ofNat i]⟩
  maxResponseBytes := 1000

/-- Two calls share a connection and get their answers. The read of a third one times out, and it
drops the connection before the fourth one writes its request, on a new connection. -/
theorem request_own_dropped :
    let acts := [CallAct.connect 0 (.ok []), .connect 1 (.ok []), .serve 0 .read, .serve 1 .read,
      .finish 0, .finish 1, .connect 2 (.ok []), .serve 2 (.broken 0), .drop 2 true,
      .connect 3 (.ok []), .serve 3 .read, .finish 3]
    let s := acts.foldl (CallSystem.next twoCallers) {}
    (s.phase 1 = .returned (.ok [1]) ∧ s.phase 2 = .returned (.error errRead.err) ∧
      s.phase 3 = .returned (.ok [0])) ∧
    (∃ raw, s.Answered twoCallers 1 raw ∧ responseBodyForAPI raw apiHeartbeat 3 = .ok [1]) ∧
    ∃ raw, s.Answered twoCallers 3 raw ∧ responseBodyForAPI raw apiHeartbeat 3 = .ok [0] := by
  intro acts s
  have hclean {s : CallSystem} {i k : Nat} {resent : Bool} {c : Conn} {io : ConnIo}
      (hphase : s.phase i = .waiting k resent) (hc : s.conns[k]? = some c)
      (hread : c.closed ∨ c.AllRead twoCallers k) : s.Clean twoCallers (.serve i io) := by
    intro k' resent' c' hphase' hc'
    cases hphase.symm.trans hphase'
    cases hc.symm.trans hc'
    exact hread
  have halong : Run.Along (CallSystem.next twoCallers) (Clean twoCallers) {} acts :=
    ⟨trivial, trivial, hclean rfl rfl (.inr rfl), hclean rfl rfl (.inr rfl), trivial, trivial,
      trivial, hclean rfl rfl (.inr rfl), trivial, trivial, hclean rfl rfl (.inr rfl), trivial,
      trivial⟩
  have hown := request_own twoCallers acts halong s (Run.foldl_mem_states _ _ _)
  exact ⟨⟨rfl, rfl, rfl⟩, hown 1 [1] rfl, hown 3 [0] rfl⟩

/-- The read of the first caller times out while the second one waits for the lock; the second one
then writes its request, reads the first one's answer and returns its body. -/
theorem request_stale :
    let acts := [CallAct.connect 0 (.ok []), .connect 1 (.ok []), .serve 0 (.broken 0),
      .serve 1 .read, .finish 1]
    let s := acts.foldl (CallSystem.next twoCallers) {}
    s.phase 1 = .returned (.ok [0]) ∧
      ∀ raw, s.Answered twoCallers 1 raw → responseBodyForAPI raw apiHeartbeat 3 = .ok [1] := by
  refine ⟨rfl, ?_⟩
  rintro raw ⟨k, j, c, r, hc, hr, hcaller, rfl⟩
  match k with
  | 0 =>
    obtain rfl := Option.some.inj hc
    match j with
    | 0 =>
      obtain rfl := Option.some.inj hr
      cases hcaller
    | 1 =>
      obtain rfl := Option.some.inj hr
      rfl

end CallSystem

end GoKafka
