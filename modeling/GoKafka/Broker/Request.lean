import GoKafka.Wire.Flex

/-!
# Requests and their versions

A caller encodes the body of a request for a version of its API, and gives both to
`Cluster.Request` or `requestSeed` (`internal/broker/cluster.go`), which write a frame around the
body (`EncodeRequest` in `internal/protocol/header.go`) and strip the header of the answer
(`ResponseBodyForAPI`). The version in the header is lowered to the one that `NegotiateVersions`
found for the broker, when that is lower, although the body exists by then. `request_version_iff`
says when the versions agree; a caller that asks for the negotiated version first is safe
(`agrees_negotiated`), and one with a version of its own is not (`findCoordinator_lowered`).
-/

namespace GoKafka

open BigEndian Reading

/-! ## API keys and versions -/

def apiProduce : Int16 := 0
def apiFetch : Int16 := 1
def apiListOffsets : Int16 := 2
def apiMetadata : Int16 := 3
def apiOffsetCommit : Int16 := 8
def apiOffsetFetch : Int16 := 9
def apiFindCoordinator : Int16 := 10
def apiJoinGroup : Int16 := 11
def apiHeartbeat : Int16 := 12
def apiLeaveGroup : Int16 := 13
def apiSyncGroup : Int16 := 14
def apiDescribeGroups : Int16 := 15
def apiListGroups : Int16 := 16
def apiSaslHandshake : Int16 := 17
def apiApiVersions : Int16 := 18
def apiCreateTopics : Int16 := 19
def apiDeleteTopics : Int16 := 20
def apiDeleteRecords : Int16 := 21
def apiInitProducerID : Int16 := 22
def apiAddPartitionsTxn : Int16 := 24
def apiAddOffsetsToTxn : Int16 := 25
def apiEndTxn : Int16 := 26
def apiTxnOffsetCommit : Int16 := 28
def apiDescribeAcls : Int16 := 29
def apiCreateAcls : Int16 := 30
def apiDeleteAcls : Int16 := 31
def apiDescribeConfigs : Int16 := 32
def apiAlterConfigs : Int16 := 33
def apiDescribeLogDirs : Int16 := 35
def apiSaslAuthenticate : Int16 := 36
def apiCreatePartitions : Int16 := 37
def apiCreateDelegationToken : Int16 := 38
def apiRenewDelegationToken : Int16 := 39
def apiExpireDelegationToken : Int16 := 40
def apiDescribeDelegationToken : Int16 := 41
def apiDeleteGroups : Int16 := 42
def apiElectLeaders : Int16 := 43
def apiIncrementalAlterConfigs : Int16 := 44
def apiAlterPartitionReassign : Int16 := 45
def apiListPartitionReassign : Int16 := 46
def apiOffsetDelete : Int16 := 47
def apiDescribeClientQuotas : Int16 := 48
def apiAlterClientQuotas : Int16 := 49
def apiDescribeUserScramCreds : Int16 := 50
def apiAlterUserScramCreds : Int16 := 51
def apiDescribeCluster : Int16 := 60
def apiDescribeTransactions : Int16 := 65
def apiListTransactions : Int16 := 66
def apiConsumerGroupHeartbeat : Int16 := 68
def apiShareGroupHeartbeat : Int16 := 76
def apiShareGroupDescribe : Int16 := 77
def apiShareFetch : Int16 := 78
def apiShareAcknowledge : Int16 := 79
def apiDescribeShareGroupOffsets : Int16 := 90
def apiAlterShareGroupOffsets : Int16 := 91
def apiDeleteShareGroupOffsets : Int16 := 92

/-- `protocol.ClientVersion`: the highest version that the client implements of an API; it is -1 for
the others. -/
def clientVersion (apiKey : Int16) : Int16 :=
  ([(apiProduce, 12), (apiFetch, 13), (apiListOffsets, 3), (apiMetadata, 12), (apiOffsetCommit, 8),
    (apiOffsetFetch, 9), (apiFindCoordinator, 3), (apiJoinGroup, 6), (apiHeartbeat, 4),
    (apiLeaveGroup, 5), (apiSyncGroup, 5), (apiCreateTopics, 4), (apiDeleteTopics, 6),
    (apiApiVersions, 3), (apiListGroups, 2), (apiDescribeGroups, 5), (apiDescribeConfigs, 4),
    (apiAlterConfigs, 2), (apiCreatePartitions, 2), (apiDeleteGroups, 2), (apiDeleteRecords, 2),
    (apiElectLeaders, 2), (apiAlterPartitionReassign, 0), (apiListPartitionReassign, 0),
    (apiCreateDelegationToken, 3), (apiRenewDelegationToken, 2), (apiExpireDelegationToken, 2),
    (apiDescribeDelegationToken, 3), (apiDescribeLogDirs, 5), (apiDescribeClientQuotas, 1),
    (apiAlterClientQuotas, 1), (apiAlterUserScramCreds, 0), (apiDescribeUserScramCreds, 0),
    (apiDescribeTransactions, 0), (apiListTransactions, 2), (apiIncrementalAlterConfigs, 0),
    (apiOffsetDelete, 0), (apiCreateAcls, 1), (apiDescribeAcls, 1), (apiDeleteAcls, 1),
    (apiDescribeCluster, 1), (apiSaslHandshake, 1), (apiSaslAuthenticate, 1),
    (apiInitProducerID, 0), (apiAddOffsetsToTxn, 3), (apiTxnOffsetCommit, 3),
    (apiAddPartitionsTxn, 1), (apiEndTxn, 5), (apiConsumerGroupHeartbeat, 1),
    (apiShareGroupHeartbeat, 1), (apiShareGroupDescribe, 1), (apiShareFetch, 2),
    (apiShareAcknowledge, 2), (apiDescribeShareGroupOffsets, 0), (apiAlterShareGroupOffsets, 0),
    (apiDeleteShareGroupOffsets, 0)].lookup apiKey).getD (-1)

/-- `flexibleRequestHeader`: the version from which the header of an API's requests has tagged
fields. -/
def flexibleRequestHeader (apiKey apiVersion : Int16) : Bool :=
  ([(apiMetadata, 9), (apiApiVersions, 3), (apiProduce, 9), (apiFetch, 12), (apiListOffsets, 6),
    (apiOffsetCommit, 8), (apiOffsetFetch, 6), (apiFindCoordinator, 3), (apiJoinGroup, 6),
    (apiSyncGroup, 4), (apiHeartbeat, 4), (apiLeaveGroup, 4), (apiCreateTopics, 5),
    (apiDeleteTopics, 4), (apiListGroups, 3), (apiDescribeGroups, 5), (apiDescribeConfigs, 4),
    (apiAlterConfigs, 2), (apiCreatePartitions, 2), (apiDeleteGroups, 2), (apiDeleteRecords, 2),
    (apiElectLeaders, 2), (apiAlterPartitionReassign, 0), (apiListPartitionReassign, 0),
    (apiCreateDelegationToken, 2), (apiDescribeDelegationToken, 2), (apiRenewDelegationToken, 2),
    (apiExpireDelegationToken, 2), (apiDescribeLogDirs, 2), (apiDescribeClientQuotas, 1),
    (apiAlterClientQuotas, 1), (apiAlterUserScramCreds, 0), (apiDescribeUserScramCreds, 0),
    (apiDescribeTransactions, 0), (apiListTransactions, 0), (apiIncrementalAlterConfigs, 1),
    (apiCreateAcls, 2), (apiDescribeAcls, 2), (apiDeleteAcls, 2), (apiSaslAuthenticate, 3),
    (apiDescribeCluster, 1), (apiInitProducerID, 2), (apiAddOffsetsToTxn, 3),
    (apiTxnOffsetCommit, 3), (apiAddPartitionsTxn, 3), (apiEndTxn, 3),
    (apiConsumerGroupHeartbeat, 0), (apiShareGroupHeartbeat, 1), (apiShareGroupDescribe, 1),
    (apiShareFetch, 1), (apiShareAcknowledge, 1), (apiDescribeShareGroupOffsets, 0),
    (apiAlterShareGroupOffsets, 0), (apiDeleteShareGroupOffsets, 0)].lookup apiKey).any
      (· ≤ apiVersion)

/-- `flexibleResponseHeader`: the header of an answer to ApiVersions never has tagged fields. -/
def flexibleResponseHeader (apiKey apiVersion : Int16) : Bool :=
  apiKey ≠ apiApiVersions && flexibleRequestHeader apiKey apiVersion

/-! ## Frames -/

structure RequestHeader where
  apiKey : Int16
  apiVersion : Int16
  correlationID : Int32
  clientID : Bytes
  deriving DecidableEq

def requestHeaderVersion (apiKey apiVersion : Int16) : Int16 :=
  if flexibleRequestHeader apiKey apiVersion then 2 else 1

/-- The length of a frame, as `PatchLength` writes it before the rest. -/
def patchLength (rest : Bytes) : Bytes := beBytes 4 (rest.length % 2 ^ 32) ++ rest

def responseBodyForAPI (raw : Bytes) (apiKey apiVersion : Int16) : Except Error Bytes := do
  if raw.length < 8 then throw .shortBuffer
  let size := (UInt32.ofNat (beNat (raw.take 4))).toInt32.toInt
  if (raw.length : Int) < 4 + size then throw .shortBuffer
  if size < 0 then throw (.panic "slice bounds out of range")
  let body := (raw.drop 4).take size.toNat
  let strip : Read Unit := do
    let _ ← readInt32
    if flexibleResponseHeader apiKey apiVersion then skipTagSection
  let ((), buf) ← strip (fromBytes body)
  return buf.rest

/-! ## Negotiated versions -/

structure ApiVersion where
  apiKey : Int16
  minVersion : Int16
  maxVersion : Int16

def negotiateVersion (versions : List ApiVersion) (apiKey clientMax : Int16) : Int16 :=
  if clientMax ≤ 0 then 0
  else
    match versions.find? (·.apiKey = apiKey) with
    | none => clientMax
    | some v =>
      if clientMax < v.minVersion then 0
      else if v.maxVersion < clientMax then v.maxVersion
      else clientMax

/-- `Cluster.apiVersions`; before `NegotiateVersions` the map is nil. -/
abbrev NegotiatedVersions := Option (AList fun _ : Int16 => Int16)

/-- The map that `NegotiateVersions` stores for the ranges that the broker has advertised. -/
def negotiateVersions (versions : List ApiVersion) : NegotiatedVersions :=
  some (versions.foldl (fun negotiated v =>
    let clientMax := clientVersion v.apiKey
    if clientMax < 0 ∨ clientMax < v.minVersion then negotiated
    else negotiated.insert v.apiKey (negotiateVersion versions v.apiKey clientMax)) ∅)

/-- `Cluster.negotiatedVersion`. -/
def NegotiatedVersions.get (t : NegotiatedVersions) (apiKey fallback : Int16) : Int16 :=
  (t.bind (·.lookup apiKey)).getD fallback

/-- The version that `Request` and `requestSeed` put into the header. -/
def NegotiatedVersions.lowered (t : NegotiatedVersions) (apiKey apiVersion : Int16) : Int16 :=
  let v := t.get apiKey apiVersion
  if 0 < v ∧ v < apiVersion then v else apiVersion

/-! ## Sending a request -/

/-- A request of a caller: the body is encoded for the version, and the answer is decoded with it.
-/
structure RequestCall where
  apiKey : Int16
  apiVersion : Int16
  body : Bytes

/-- An error of a connection; `notSent` says that it is `ErrNotSent`. -/
structure ConnError where
  err : Error
  notSent : Bool := false

/-- What a call meets: the connections it gets, what the requests on them come to (`Conn.Request`),
whether it can authenticate anew, and whether its context is still live. -/
structure RequestEnv where
  clientID : Bytes
  correlationID : Nat → Int32
  conn : Nat → Except Error Unit
  trip : Nat → RequestHeader → Bytes → Except ConnError Bytes
  reauthenticate : Nat → Bool := fun _ => false
  ctxLive : Bool := true

/-- The headers that a call has sent, and how it stands. -/
structure RequestTrip where
  sent : List RequestHeader
  result : Except ConnError Bytes

/-- `Conn.Request`, the `n`-th one of the call. -/
def RequestEnv.connRequest (env : RequestEnv) (n : Nat) (apiKey apiVersion : Int16) (body : Bytes) :
    RequestTrip :=
  let h : RequestHeader := ⟨apiKey, apiVersion, env.correlationID n, env.clientID⟩
  ⟨[h], env.trip n h body⟩

/-- `Cluster.requestOnce`, the `n`-th one of the call. -/
def RequestEnv.requestOnce (env : RequestEnv) (n : Nat) (apiKey apiVersion : Int16)
    (body : Bytes) : RequestTrip :=
  match env.conn n with
  | .error e => ⟨[], .error { err := e }⟩
  | .ok () =>
    let first := env.connRequest (2 * n) apiKey apiVersion body
    match first.result with
    | .ok _ => first
    | .error _ =>
      if env.reauthenticate n then
        let second := env.connRequest (2 * n + 1) apiKey apiVersion body
        ⟨first.sent ++ second.sent, second.result⟩
      else first

/-- A call that has returned: the headers it sent, the version with which it stripped the header of
the answer, and its result. -/
structure RequestDone where
  sent : List RequestHeader
  stripped : Option Int16 := none
  result : Except Error Bytes

/-- The end of `Request` and `requestSeed`. -/
def RequestTrip.finish (t : RequestTrip) (apiKey apiVersion : Int16) : RequestDone :=
  match t.result with
  | .error e => { sent := t.sent, result := .error e.err }
  | .ok raw =>
    { sent := t.sent, stripped := some apiVersion
      result := responseBodyForAPI raw apiKey apiVersion }

def NegotiatedVersions.request (t : NegotiatedVersions) (call : RequestCall) (env : RequestEnv) :
    RequestDone :=
  let apiVersion := t.lowered call.apiKey call.apiVersion
  let first := env.requestOnce 0 call.apiKey apiVersion call.body
  match first.result with
  | .error { notSent := true, .. } =>
    if env.ctxLive then
      let second := env.requestOnce 1 call.apiKey apiVersion call.body
      RequestTrip.finish ⟨first.sent ++ second.sent, second.result⟩ call.apiKey apiVersion
    else first.finish call.apiKey apiVersion
  | _ => first.finish call.apiKey apiVersion

/-- `Cluster.requestSeed`; the connections are those to a seed. -/
def NegotiatedVersions.requestSeed (t : NegotiatedVersions) (call : RequestCall) (env : RequestEnv)
    (retry : Bool) : RequestDone :=
  let apiVersion := t.lowered call.apiKey call.apiVersion
  match env.conn 0 with
  | .error e => { sent := [], result := .error e }
  | .ok () =>
    let first := env.connRequest 0 call.apiKey apiVersion call.body
    match first.result, retry, env.conn 1 with
    | .error _, true, .ok () =>
      let second := env.connRequest 1 call.apiKey apiVersion call.body
      RequestTrip.finish ⟨first.sent ++ second.sent, second.result⟩ call.apiKey apiVersion
    | _, _, _ => first.finish call.apiKey apiVersion

/-- The versions that a call has used: in the headers, and for the header of the answer. -/
def RequestDone.versions (d : RequestDone) : List Int16 :=
  d.sent.map (·.apiVersion) ++ d.stripped.toList

/-! ## When the versions agree -/

/-- The broker's version of the API is not a lower one; a version of 0 does not count. -/
def NegotiatedVersions.Agrees (t : NegotiatedVersions) (apiKey apiVersion : Int16) : Prop :=
  ∀ v, t.bind (·.lookup apiKey) = some v → v ≤ 0 ∨ apiVersion ≤ v

theorem lowered_eq_iff (t : NegotiatedVersions) :
    t.lowered apiKey apiVersion = apiVersion ↔ t.Agrees apiKey apiVersion := by
  unfold NegotiatedVersions.lowered NegotiatedVersions.Agrees NegotiatedVersions.get
  cases t.bind (·.lookup apiKey) with
  | none => simp
  | some v =>
    simp only [Option.some.injEq, forall_eq']
    split_ifs with hlower
    · refine iff_of_false (Int16.ne_of_lt hlower.2) ?_
      rw [not_or, Int16.not_le, Int16.not_le]
      exact hlower
    · refine iff_of_true rfl ?_
      rwa [not_and_or, Int16.not_lt, Int16.not_lt] at hlower

/-- A caller that encodes the body for the negotiated version. -/
theorem agrees_negotiated (t : NegotiatedVersions) : t.Agrees apiKey (t.get apiKey fallback) := by
  intro v hv
  rw [NegotiatedVersions.get, hv]
  exact .inr (Int16.le_refl v)

variable {t : NegotiatedVersions} {env : RequestEnv} {apiKey apiVersion : Int16} {body : Bytes}

theorem connRequest_sent :
    ∀ h ∈ (env.connRequest n apiKey apiVersion body).sent, h.apiVersion = apiVersion := by
  intro h hh
  rw [List.mem_singleton.1 hh]

theorem requestOnce_sent :
    ∀ h ∈ (env.requestOnce n apiKey apiVersion body).sent, h.apiVersion = apiVersion := by
  unfold RequestEnv.requestOnce
  cases env.conn n with
  | error e => exact nofun
  | ok _ =>
    dsimp only
    split
    · exact connRequest_sent
    · split_ifs
      · exact List.forall_mem_append.2 ⟨connRequest_sent, connRequest_sent⟩
      · exact connRequest_sent

theorem finish_versions {trip : RequestTrip} (hsent : ∀ h ∈ trip.sent, h.apiVersion = apiVersion) :
    ∀ v ∈ (trip.finish apiKey apiVersion).versions, v = apiVersion := by
  have hmap : ∀ v ∈ trip.sent.map (·.apiVersion), v = apiVersion :=
    List.forall_mem_map.2 hsent
  unfold RequestTrip.finish RequestDone.versions
  split
  · exact List.forall_mem_append.2 ⟨hmap, nofun⟩
  · refine List.forall_mem_append.2 ⟨hmap, fun v hv => ?_⟩
    exact List.mem_singleton.1 hv

theorem versions_request :
    ∀ v ∈ (t.request call env).versions, v = t.lowered call.apiKey call.apiVersion := by
  unfold NegotiatedVersions.request
  dsimp only
  split
  · split_ifs
    · exact finish_versions (List.forall_mem_append.2 ⟨requestOnce_sent, requestOnce_sent⟩)
    · exact finish_versions requestOnce_sent
  · exact finish_versions requestOnce_sent

theorem versions_requestSeed :
    ∀ v ∈ (t.requestSeed call env retry).versions, v = t.lowered call.apiKey call.apiVersion := by
  unfold NegotiatedVersions.requestSeed
  dsimp only
  split
  · exact nofun
  · split
    · exact finish_versions (List.forall_mem_append.2 ⟨connRequest_sent, connRequest_sent⟩)
    · exact finish_versions connRequest_sent

/-- The version of every header that a call sends, and the one with which it strips the header of
the answer, are the version of the body exactly if the negotiated version is not a lower one. -/
theorem request_version_iff (t : NegotiatedVersions) (call : RequestCall) (env : RequestEnv)
    (retry : Bool) (v : Int16)
    (hv : v ∈ (t.request call env).versions ++ (t.requestSeed call env retry).versions) :
    v = call.apiVersion ↔ t.Agrees call.apiKey call.apiVersion := by
  rw [← lowered_eq_iff]
  rcases List.mem_append.1 hv with hv | hv
  · rw [versions_request v hv]
  · rw [versions_requestSeed v hv]

/-- `Cluster.FindCoordinator`'s request: `EncodeFindCoordinatorRequest` writes the body of version
3, whatever the broker has. -/
def findCoordinatorCall (key : Bytes) (keyType : Int8) : RequestCall where
  apiKey := apiFindCoordinator
  apiVersion := 3
  body := writeCompactString key ++ writeInt8 keyType ++ writeEmptyTagSection

/-- Requests that are answered at once. -/
def answering (raw : Bytes) : RequestEnv where
  clientID := [99]
  correlationID _ := 1
  conn _ := .ok ()
  trip _ _ _ := .ok raw

/-- A broker with version 3 of FindCoordinator. -/
theorem request_version_iff_three :
    ((negotiateVersions [⟨apiFindCoordinator, 0, 4⟩]).requestSeed (findCoordinatorCall [103] 0)
      (answering []) false).versions = [3, 3] ∧
    (negotiateVersions [⟨apiFindCoordinator, 0, 4⟩]).Agrees apiFindCoordinator 3 :=
  ⟨by decide, (request_version_iff _ (findCoordinatorCall [103] 0) (answering []) false 3
    (by decide)).1 rfl⟩

/-- A broker whose versions of FindCoordinator end at 2: the header says version 2 and has no tagged
fields, and the body is that of version 3. -/
theorem findCoordinator_lowered :
    ((negotiateVersions [⟨apiFindCoordinator, 0, 2⟩]).requestSeed (findCoordinatorCall [103] 0)
      (answering []) false).versions = [2, 2] ∧
    (findCoordinatorCall [103] 0).apiVersion = 3 ∧
    requestHeaderVersion apiFindCoordinator 2 = 1 ∧
    requestHeaderVersion apiFindCoordinator 3 = 2 := by
  decide

end GoKafka
