import GoKafka.Consumer.Assignment
import GoKafka.Consumer.Seek
import GoKafka.Protocol.JoinGroup

/-!
# Joining the group

`Consumer.joinAndAssign` in `consumer.go` and `joinAndAssign848` in `consumer848.go`: a member joins
the group and takes over the partitions it is assigned (`joinAndAssign`), starting from the offsets
the group has committed (`loadCommittedOffsets`). `rejoin`, `cooperativeRejoin`, `rejoin848` and
`rebalance` are the calls that join again.

What a call meets outside the consumer is its `JoinEnv`. Which broker coordinates the group is not
modelled, only whether a lookup of the coordinator fails; nor are the requests, except the
assignments that a leader sends. The metadata that the seeks of `loadCommittedOffsets` refresh are
kept within the call: every call that joins begins with a refresh of its own.
-/

namespace GoKafka

open Assoc

/-! ## Error codes -/

def coordinatorRetriable (code : Int16) : Bool :=
  code = errCodeCoordinatorLoad ∨ code = errCodeCoordinatorNotAvailable ∨
    code = errCodeNotCoordinator

/-- `protocol.APIErrorCode`. -/
def Error.apiCode : Error → Option Int16
  | .api _ code => some code
  | _ => none

def protocolErrorCode : Error → Int16
  | .api _ code => code
  | .kafka e => e.code
  | _ => 0

/-- The code `shouldRejoin` looks at. -/
def Error.code? : Error → Option Int16
  | .api _ code => some code
  | .kafka e => some e.code
  | _ => none

/-- `Consumer.shouldRejoin`. The numbers are UNKNOWN_MEMBER_ID and ILLEGAL_GENERATION. -/
def shouldRejoin (e : Error) : Bool :=
  match e.code? with
  | none => false
  | some code =>
    decide (code = errCodeRebalanceInProg ∨ code = errCodeNotCoordinator ∨ code = 25 ∨ code = 22) ||
      coordinatorRetriable code

/-- `Consumer.shouldRejoin848`: UNKNOWN_MEMBER_ID, FENCED_MEMBER_EPOCH, STALE_MEMBER_EPOCH. -/
def shouldRejoin848 (e : Error) : Bool :=
  protocolErrorCode e = 25 ∨ protocolErrorCode e = 110 ∨ protocolErrorCode e = 112

def offsetFetchRetriable (code : Int16) : Bool :=
  code = errCodeCoordinatorLoad ∨ code = errCodeCoordinatorNotAvailable ∨
    code = errCodeNotCoordinator ∨ code = errCodeUnstableOffsetCommit

/-! ## Members -/

/-- The fields of `Consumer` that joining a group reads and writes. -/
structure GroupMember extends GroupConsumer where
  nextGen : Bool := false
  topicRegex : Bytes := []
  reset : OffsetReset := {}
  memberID : Bytes := []
  generation : Int32 := 0

/-- `Consumer.notifyAssignedLocked`. -/
def GroupConsumer.notifyAssigned (c : GroupConsumer) : List RebalanceEvent :=
  if c.listening then [.assigned c.assignments] else []

/-! ## Committed offsets -/

/-- What loading the offsets meets: the answer to each OffsetFetch, what the seek of a partition
meets and the timestamp `OffsetResetDuration` before it, and whether a wait is cancelled; and
`Retry.MaxAttempts`, which the seeks read. -/
structure LoadEnv where
  fetched : Nat → Except Error (List CommittedOffset)
  listing : PartKey → ListEnv := fun _ => unreachable
  since : PartKey → Int64 := fun _ => 0
  slept : Nat → Except Error Unit := fun _ => .ok ()
  maxAttempts : Int64 := 0

/-- What `applyCommittedOffset` reads and meets for a partition. -/
def LoadEnv.resetCall (env : LoadEnv) (r : OffsetReset) (pk : PartKey) : ResetCall where
  reset := r
  since := env.since pk
  maxAttempts := env.maxAttempts
  env := env.listing pk

/-- A call of `applyCommittedOffset`: the entry, and the state it is called in. -/
structure Application where
  entry : CommittedOffset
  before : Seeking

/-- The variables of `loadCommittedOffsets`: the partitions without an offset so far, the
assignments and the metadata; and what it has done: the requests sent and the calls of
`applyCommittedOffset`. -/
structure Loading extends Seeking where
  need : Finset PartKey
  requests : Nat := 0
  applied : List Application := []

/-- `applyCommittedOffset` on an entry, whose partition is resolved if it succeeds. -/
def Loading.apply (env : LoadEnv) (r : OffsetReset) (co : CommittedOffset) (st : Loading) :
    Option Error × Loading :=
  let (err, s) := (env.resetCall r co.partKey).applyCommittedOffset co st.toSeeking
  (err, { st with
    toSeeking := s, need := if err = none then st.need.erase co.partKey else st.need
    applied := st.applied ++ [⟨co, st.toSeeking⟩] })

/-- The loop over the entries of an OffsetFetch answer. -/
def applyAnswers (env : LoadEnv) (r : OffsetReset) :
    List CommittedOffset → Loading → Except Error Unit × Loading
  | [], st => (.ok (), st)
  | co :: committed, st =>
    -- already resolved, or not an assigned partition
    if co.partKey ∉ st.need then applyAnswers env r committed st
    else if co.errorCode ≠ 0 then
      if offsetFetchRetriable co.errorCode then applyAnswers env r committed st
      else (.error (.kafka ⟨co.errorCode, co.topic, co.partition, "offset fetch failed"⟩), st)
    else
      match st.apply env r co with
      | (some e, st) => (.error e, st)
      | (none, st) => applyAnswers env r committed st

/-- A round of `loadCommittedOffsets`: a request and the loop over its answer. -/
def loadRound (env : LoadEnv) (r : OffsetReset) (st : Loading) : Except Error Unit × Loading :=
  match env.fetched st.requests with
  | .error e => (.error e, { st with requests := st.requests + 1 })
  | .ok committed => applyAnswers env r committed { st with requests := st.requests + 1 }

/-- The loop of `loadCommittedOffsets`, with the number of rounds that may follow. -/
def loadLoop (env : LoadEnv) (r : OffsetReset) (left : Nat) (st : Loading) :
    Except Error Unit × Loading :=
  match loadRound env r st with
  | (.error e, st) => (.error e, st)
  | (.ok (), st) =>
    if st.need = ∅ then (.ok (), st)
    else
      match left with
      | 0 =>
        (.error (.other ("gokafka: offset fetch left " ++ toString st.need.card ++
          " assigned partition(s) unresolved after 20 attempts (coordinator still loading?)")), st)
      | left + 1 =>
        match env.slept st.requests with
        | .error e => (.error e, st)
        | .ok () => loadLoop env r left st

/-- The variables of `loadCommittedOffsets` before its loop. -/
def GroupMember.loading (m : GroupMember) : Loading where
  cluster := m.cluster
  assignments := m.assignments
  need := (m.assignments.map (·.partKey)).toFinset

/-- `Consumer.loadCommittedOffsets`: its result, with the assignments, the partitions that are left
without an offset and what it has done. -/
def GroupMember.loadCommittedOffsets (m : GroupMember) (env : LoadEnv) :
    Except Error Unit × Loading :=
  if m.assignments = [] then (.ok (), m.loading) else loadLoop env m.reset 19 m.loading

/-! ## The classic protocol -/

/-- What a round of the join loop meets: the member ids of the answers that ask to join again with
an id, the JoinGroup answer after them, the orders of the leader's loops over maps, the brokers its
refresh talks to, the SyncGroup answer to the assignments sent, and the coordinator lookup of a
round that is repeated. -/
structure JoinAttempt where
  required : List Bytes := []
  joined : Except Error JoinGroupResponse
  memberOrder : MapOrder Bytes := ⟨id, Assoc.perm_id⟩
  topicOrder : MapOrder Bytes := ⟨id, Assoc.perm_id⟩
  brokers : Cluster.Brokers := fun _ _ => .seedError (.other "")
  now : Time := ⟨0, 0⟩
  sync : (AList fun _ : Bytes => Bytes) → Except Error Bytes
  coordinator : Except Error Unit := .ok ()

/-- The subscription of a member of the group. -/
def memberSubscription (mid raw : Bytes) : Except Error MemberSubscription :=
  match h : decodeConsumerSubscription raw with
  | .error e => .error e
  | .ok topics =>
    .ok ⟨mid, topics, (decodeConsumerSubscription_ok h).1, (decodeConsumerSubscription_ok h).2⟩

/-- The partitions of the topics in the metadata. -/
def topicParts (md : MetadataResponse) : AList fun _ : Bytes => List Int32 :=
  index (·.name) (fun t : TopicMeta => t.partitions.map (·.partition)) md.topics

/-- What a member sends with SyncGroup, and the metadata after it: the leader refreshes the topics
of all members and computes their assignments, and the others send an empty one. -/
def GroupMember.syncAssignments (m : GroupMember) (a : JoinAttempt) (joined : JoinGroupResponse) :
    Except Error ((AList fun _ : Bytes => Bytes) × Cluster) :=
  let empty := (∅ : AList fun _ : Bytes => Bytes).insert joined.memberID []
  if joined.memberID ≠ joined.leaderID then .ok (empty, m.cluster)
  else do
    let members ← (a.memberOrder.keys joined.assignments).mapM fun mid =>
      memberSubscription mid ((joined.assignments.lookup mid).getD [])
    if members.isEmpty then return (empty, m.cluster)
    else
      let allTopics := a.topicOrder.order (members.flatMap (·.topics)).dedup
      let cluster ← m.cluster.refresh (some allTopics) a.brokers a.now
      let out ← computeGroupAssignments a.topicOrder joined.protocolName members
        (topicParts cluster.md)
      return (out, cluster)

/-- How a round of the join loop ends: the loop goes on, the call fails, or the group is in sync, in
a generation and with the assignment of the member. -/
inductive Attempted where
  | again
  | failed (e : Error)
  | synced (generation : Int32) (raw : Bytes)

/-- A round that is repeated looks the coordinator up again. -/
def lookupAgain : Except Error Unit → Attempted
  | .error e => .failed e
  | .ok () => .again

/-- A round of the join loop. -/
def GroupMember.joinAttempt (m : GroupMember) (a : JoinAttempt) : Attempted × GroupMember :=
  let m := { m with memberID := a.required.getLast?.getD m.memberID }
  match a.joined with
  | .error e =>
    (if e.apiCode.any coordinatorRetriable then lookupAgain a.coordinator else .failed e, m)
  | .ok joined =>
    let m := { m with memberID := joined.memberID, generation := joined.generationID }
    match m.syncAssignments a joined with
    | .error e => (.failed e, m)
    | .ok (assignments, cluster) =>
      let m := { m with cluster := cluster }
      match a.sync assignments with
      | .error e => (if shouldRejoin e then lookupAgain a.coordinator else .failed e, m)
      | .ok raw => (.synced joined.generationID raw, m)

/-- How the join loop ends: its error or the assignment bytes, which are nil when the rounds are
used up; the member; and the SyncGroup requests that succeeded, each with the generation of the
JoinGroup before it. -/
structure JoinLoop where
  result : Except Error Bytes
  member : GroupMember
  syncs : List (Int32 × Bytes) := []

/-- The join loop, with the rounds that are left. -/
def joinLoop (attempt : Nat → JoinAttempt) : Nat → Nat → GroupMember → JoinLoop
  | 0, _, m => { result := .ok [], member := m }
  | left + 1, i, m =>
    match m.joinAttempt (attempt i) with
    | (.failed e, m) => { result := .error e, member := m }
    | (.synced generation raw, m) =>
      { result := .ok raw, member := m, syncs := [(generation, raw)] }
    | (.again, m) => joinLoop attempt left (i + 1) m

/-! ## Taking the assignment -/

/-- How a call that joins ends: its result, the member, the listener's calls, the SyncGroup requests
that succeeded, whether an assignment was taken and the partitions whose offset was loaded. -/
structure JoinCall where
  result : Except Error Unit
  member : GroupMember
  events : List RebalanceEvent := []
  syncs : List (Int32 × Bytes) := []
  applied : Bool := false
  loaded : Finset PartKey := ∅

/-- The end of `joinAndAssign` and of `joinAndAssign848`'s loop: take the assignment, load the
committed offsets and tell the listener, unless taking it has. The heartbeat that follows is not
part of the model. -/
def GroupMember.takeAssignment (m : GroupMember) (raw : Bytes) (env : LoadEnv) : JoinCall :=
  match m.applyAssignment raw with
  | .error e => { result := .error e, member := m }
  | .ok (listenersNotified, c, events) =>
    let m := { m with toGroupConsumer := c }
    let (result, st) := m.loadCommittedOffsets env
    let m := { m with assignments := st.assignments }
    let loaded := (m.assignments.map (·.partKey)).toFinset \ st.need
    match result with
    | .error e =>
      { result := .error e, member := m, events := events, applied := true, loaded := loaded }
    | .ok () =>
      { result := .ok (), member := m, applied := true, loaded := loaded
        events := events ++ if listenersNotified then [] else m.notifyAssigned }

/-! ## The next generation protocol -/

/-- `protocol.ConsumerGroupHeartbeatResponse`. -/
structure HeartbeatResponse where
  memberID : Bytes
  memberEpoch : Int32
  assignment : List (UUID × List Int32)

/-- What a round of the loop of `joinAndAssign848` meets: the heartbeat's answer, the coordinator
lookup of a round that is repeated, and whether the wait is cancelled. -/
structure HeartbeatAttempt where
  answer : Except Error HeartbeatResponse
  coordinator : Except Error Unit := .ok ()
  waited : Except Error Unit := .ok ()

def assignment848ToMemberBytes (cluster : Cluster) (assign : List (UUID × List Int32)) :
    Except Error Bytes := do
  let parsed ← assign.mapM fun tp =>
    match cluster.topicNameByID tp.1 with
    | none => .error (.other "gokafka: unknown topic id in assignment")
    | some name => .ok { topic := name, partitions := tp.2 }
  encodeMemberAssignment parsed

/-- The loop of `joinAndAssign848`, with the rounds that are left. -/
def join848Loop (attempt : Nat → HeartbeatAttempt) (memberID : Bytes) (load : LoadEnv) :
    Nat → Nat → GroupMember → JoinCall
  | 0, _, m =>
    { result := .error (.other "gokafka: consumer group heartbeat join: no partition assignment")
      member := m }
  | left + 1, i, m =>
    match (attempt i).answer with
    | .error e =>
      if shouldRejoin848 e ∨ coordinatorRetriable (protocolErrorCode e) then
        let m := { m with generation := if shouldRejoin848 e then 0 else m.generation }
        match (attempt i).coordinator with
        | .error e => { result := .error e, member := m }
        | .ok () => join848Loop attempt memberID load left (i + 1) m
      else { result := .error e, member := m }
    | .ok resp =>
      let m := { m with
        memberID := if resp.memberID = [] then memberID else resp.memberID
        generation := resp.memberEpoch }
      if resp.assignment = [] then
        match (attempt i).waited with
        | .error e => { result := .error e, member := m }
        | .ok () => join848Loop attempt memberID load left (i + 1) m
      else
        match assignment848ToMemberBytes m.cluster resp.assignment with
        | .error e => { result := .error e, member := m }
        | .ok raw => m.takeAssignment raw load

/-! ## Joining -/

/-- What a call that joins meets. -/
structure JoinEnv where
  brokers : Cluster.Brokers
  now : Time := ⟨0, 0⟩
  coordinator : Except Error Unit := .ok ()
  attempt : Nat → JoinAttempt
  load : LoadEnv
  heartbeat : Nat → HeartbeatAttempt := fun _ => { answer := .error (.other "") }
  /-- The id of `newMemberUUID`. -/
  uuid : Bytes := []

/-- The beginning of both protocols: refresh the metadata and look the coordinator up. -/
def GroupMember.prepare (m : GroupMember) (env : JoinEnv) : Except Error GroupMember := do
  let cluster ← m.cluster.refresh (some m.topics) env.brokers env.now
  let _ ← env.coordinator
  return { m with cluster := cluster }

/-- `Consumer.joinAndAssign848` up to its closing heartbeat. -/
def GroupMember.joinAndAssign848 (m : GroupMember) (env : JoinEnv) : JoinCall :=
  match m.prepare env with
  | .error e => { result := .error e, member := m }
  | .ok m =>
    let m := { m with memberID := if m.memberID = [] then env.uuid else m.memberID }
    join848Loop env.heartbeat m.memberID env.load 30 0 m

def GroupMember.joinAndAssign (m : GroupMember) (env : JoinEnv) : JoinCall :=
  if m.nextGen then m.joinAndAssign848 env
  else if m.topicRegex ≠ [] then
    { result := .error (.other
        "gokafka: regex subscription (ConsumerPattern) requires GroupProtocolNextGen")
      member := m }
  else
    match m.prepare env with
    | .error e => { result := .error e, member := m }
    | .ok m =>
      let loop := joinLoop env.attempt 20 0 m
      match loop.result with
      | .error e => { result := .error e, member := loop.member, syncs := loop.syncs }
      | .ok raw => { loop.member.takeAssignment raw env.load with syncs := loop.syncs }

/-! ## Joining again -/

def GroupMember.rejoin (m : GroupMember) (env : JoinEnv) : JoinCall :=
  { m with assignments := [] }.joinAndAssign env

def GroupMember.rejoin848 (m : GroupMember) (env : JoinEnv) : JoinCall :=
  { m with assignments := [], generation := 0 }.joinAndAssign848 env

/-- Events before a call. -/
def JoinCall.after (events : List RebalanceEvent) (call : JoinCall) : JoinCall :=
  { call with events := events ++ call.events }

def GroupMember.cooperativeRejoin (m : GroupMember) (env : JoinEnv) : JoinCall :=
  (m.joinAndAssign env).after m.notifyRevoked

/-- `Consumer.Rebalance`; `left` is the answer to LeaveGroup. -/
def GroupMember.rebalance (m : GroupMember) (left : Except Error Unit) (env : JoinEnv) : JoinCall :=
  if m.cooperative then (m.joinAndAssign env).after m.notifyRevoked
  else
    match left with
    | .error e => { result := .error e, member := m, events := m.notifyRevoked }
    | .ok () =>
      ({ m with assignments := [], memberID := [], generation := 0 }.joinAndAssign env).after
        m.notifyRevoked

/-! ## Steps -/

/-- The calls of a consumer that may join: `Poll`, `Rebalance`, the rebalance after a fetch, and the
rejoins of the heartbeat and of a commit. -/
inductive GroupStep where
  | poll (env : JoinEnv)
  | rebalance (left : Except Error Unit) (env : JoinEnv)
  | fetchRebalance (left : Except Error Unit) (env : JoinEnv)
  | heartbeat (env : JoinEnv)
  | commit (env : JoinEnv)

/-- What a step does to the group membership. The positions that `Poll` moves are not part of it,
and the rejoin of the heartbeat that closes `joinAndAssign848` is a step of its own. -/
def GroupStep.call (m : GroupMember) : GroupStep → JoinCall
  | .poll env =>
    if m.assignments = [] then m.joinAndAssign env else { result := .ok (), member := m }
  | .rebalance left env => m.rebalance left env
  | .fetchRebalance left env =>
    if m.cooperative then m.cooperativeRejoin env else m.rebalance left env
  | .heartbeat env => if m.nextGen then m.rejoin848 env else m.rejoin env
  | .commit env => m.rejoin env

end GoKafka
