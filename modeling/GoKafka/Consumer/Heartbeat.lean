import GoKafka.Consumer.GroupSpec

/-!
# Heartbeats of the next generation protocol

`consumer848.go` and `internal/protocol/consumer_group_heartbeat.go`. In the protocol of KIP-848 the
answer to a heartbeat carries the member's epoch and, when it changed, the partitions the member is
to own. The loop of `joinAndAssign848` takes both from the answer that ends it
(`joinAndAssign848_takes`). `heartbeat848`, which then runs periodically, sends what the member has
and drops the answer, so the member keeps the epoch and the partitions it joined with
(`heartbeat848_answered`).

What the coordinator has told a member is the fold of the answers (`Told`).
`GroupMember.Follows` says that a member follows it along a run, and `heartbeats_follow_iff` when it
does.
-/

namespace GoKafka

open Assoc Reading List

/-! ## The answer on the wire -/

/-- An answer without an error, as the protocol lays it out; the assignment is absent when it did
not change. -/
structure HeartbeatAnswer where
  throttleTimeMs : Int32 := 0
  errorMessage : NilBytes := none
  memberID : NilBytes := none
  memberEpoch : Int32
  heartbeatIntervalMs : Int32 := 0
  assignment : Option (List (UUID × List Int32)) := none

/-- The partitions of a topic. -/
def topicIDPartitionsBytes (tp : UUID × List Int32) : Bytes :=
  writeUUID tp.1 ++ (writeCompactArrayLen tp.2.length ++ (tp.2.flatMap writeInt32
    ++ writeEmptyTagSection))

/-- A nullable assignment: -1, or 1 and its fields. -/
def assignmentBytes : Option (List (UUID × List Int32)) → Bytes
  | none => writeInt8 (-1)
  | some assign => writeInt8 1 ++ (writeCompactArrayLen assign.length ++
      (assign.flatMap topicIDPartitionsBytes ++ writeEmptyTagSection))

/-- The body of an answer. -/
def HeartbeatAnswer.body (r : HeartbeatAnswer) : Bytes :=
  writeInt32 r.throttleTimeMs ++ (writeInt16 0 ++ (writeCompactNullableString r.errorMessage ++
    (writeCompactNullableString r.memberID ++ (writeInt32 r.memberEpoch ++
      (writeInt32 r.heartbeatIntervalMs ++ (assignmentBytes r.assignment ++
        writeEmptyTagSection))))))

/-- The sizes of an answer are what the reader's length prefixes can hold. -/
structure HeartbeatAnswer.Fits (r : HeartbeatAnswer) : Prop where
  errorMessage : r.errorMessage.bytes.length + 1 < 2 ^ 29
  memberID : r.memberID.bytes.length + 1 < 2 ^ 29
  topics : ∀ a, r.assignment = some a → a.length + 1 < 2 ^ 29
  partitions : ∀ a, r.assignment = some a → ∀ tp ∈ a, tp.2.length + 1 < 2 ^ 29

/-- What the client makes of an answer: no assignment and an empty one are the same to it. -/
def HeartbeatAnswer.response (r : HeartbeatAnswer) : HeartbeatResponse where
  memberID := r.memberID.bytes
  memberEpoch := r.memberEpoch
  assignment := r.assignment.getD []

def readTopicIDPartitions : Read (UUID × List Int32) := do
  let topicID ← readUUID
  let n ← readUvarint
  let partitions ← readN readInt32 (n - 1)
  skipTagSection
  return (topicID, partitions)

/-- The assignment in `DecodeConsumerGroupHeartbeatResponse`. -/
def readHeartbeatAssignment : Read (List (UUID × List Int32)) := do
  let presence ← readInt8
  if 0 ≤ presence then do
    let nTP ← readUvarint
    let assignment ← readN readTopicIDPartitions (nTP - 1)
    skipTagSection
    return assignment
  else return []

/-- The fields that `DecodeConsumerGroupHeartbeatResponse` reads. -/
def readHeartbeatResponse : Read (Int16 × HeartbeatResponse) := do
  let _throttleTimeMs ← readInt32
  let errorCode ← readInt16
  let _errorMessage ← readCompactNullableString
  let memberID ← readCompactNullableString
  let memberEpoch ← readInt32
  let _heartbeatIntervalMs ← readInt32
  let assignment ← readHeartbeatAssignment
  skipTagSection
  return (errorCode, { memberID, memberEpoch, assignment })

def decodeConsumerGroupHeartbeatResponse (body : Bytes) : Except Error HeartbeatResponse := do
  let (errorCode, out) ← Prod.fst <$> readHeartbeatResponse (fromBytes body)
  if errorCode ≠ 0 then .error (.api "consumer group heartbeat" errorCode) else .ok out

theorem consumes_readTopicIDPartitions (h : tp.2.length + 1 < 2 ^ 29) :
    Consumes readTopicIDPartitions (topicIDPartitionsBytes tp) tp := by
  refine (consumes_readUUID).bind ?_
  refine (consumes_readUvarint_arrayLen h).bind ?_
  exact (Consumes.readN fun v _ => consumes_readInt32 v).bind
    (consumes_skipTagSection_empty.map fun _ => tp)

theorem consumes_readHeartbeatAssignment (htopics : ∀ a, assign = some a → a.length + 1 < 2 ^ 29)
    (hparts : ∀ a, assign = some a → ∀ tp ∈ a, tp.2.length + 1 < 2 ^ 29) :
    Consumes readHeartbeatAssignment (assignmentBytes assign) (assign.getD []) := by
  cases assign with
  | none =>
    exact (consumes_readInt8).bind (Consumes.pure [])
  | some a =>
    refine (consumes_readInt8).bind ?_
    refine (consumes_readUvarint_arrayLen (htopics a rfl)).bind ?_
    exact (Consumes.readN fun tp htp => consumes_readTopicIDPartitions (hparts a rfl tp htp)).bind
      (consumes_skipTagSection_empty.map fun _ => a)

theorem consumes_readCompactNullableString_bytes (h : s.bytes.length + 1 < 2 ^ 29) :
    Consumes readCompactNullableString (writeCompactNullableString s) s.bytes := by
  cases s with
  | none => exact consumes_readCompactNullableString_null
  | some s => exact consumes_readCompactNullableString h

/-- The client reads an answer. -/
theorem decodeConsumerGroupHeartbeatResponse_body {r : HeartbeatAnswer} (h : r.Fits) :
    decodeConsumerGroupHeartbeatResponse r.body = .ok r.response := by
  have hread : Consumes readHeartbeatResponse r.body (0, r.response) :=
    (consumes_readInt32 _).bind <| (consumes_readInt16).bind <|
      (consumes_readCompactNullableString_bytes h.errorMessage).bind <|
      (consumes_readCompactNullableString_bytes h.memberID).bind <|
      (consumes_readInt32 _).bind <| (consumes_readInt32 _).bind <|
      (consumes_readHeartbeatAssignment h.topics h.partitions).bind <|
      consumes_skipTagSection_empty.map fun _ => ((0 : Int16), r.response)
  exact bind_eq_ok.2 ⟨_, hread.run, rfl⟩

/-! ## A heartbeat -/

/-- The fields of `protocol.ConsumerGroupHeartbeatRequest` that a heartbeat after the join sets. -/
structure HeartbeatRequest where
  memberID : Bytes
  memberEpoch : Int32
  topicPartitions : List (UUID × List Int32)
  deriving DecidableEq

/-- What a heartbeat meets: the coordinator lookup, the body of the answer, the reading of it that
is tried when `DecodeConsumerGroupHeartbeatResponse` fails
(`DecodeConsumerGroupHeartbeatResponseLegacy`), the order of the loop over the owned topics, and
what a rejoin meets. -/
structure BeatEnv where
  coordinator : Except Error Unit := .ok ()
  reply : Except Error Bytes
  legacy : Bytes → Except Error HeartbeatResponse := fun _ => .error (.other "")
  order : MapOrder UUID := ⟨id, Assoc.perm_id⟩
  rejoin : JoinEnv

def sendGroupHeartbeat848 (env : BeatEnv) : Except Error HeartbeatResponse := do
  let rb ← env.reply
  match decodeConsumerGroupHeartbeatResponse rb with
  | .ok resp => return resp
  | .error e =>
    match env.legacy rb with
    | .ok legacy => return legacy
    | .error _ => .error e

def GroupMember.ownedTopicPartitions848 (m : GroupMember) (order : MapOrder UUID) :
    List (UUID × List Int32) :=
  let byTopic := group (·.1) (m.assignments.filterMap fun a =>
    (m.cluster.topicIDByName a.topic).map fun id => (id, a.partition))
  (order.keys byTopic).map fun id => (id, ((byTopic.lookup id).getD []).map (·.2))

/-- How a heartbeat ends: the request sent, the result and the member. -/
structure BeatCall where
  sent : Option HeartbeatRequest := none
  result : Except Error Unit
  member : GroupMember

def GroupMember.heartbeat848 (m : GroupMember) (env : BeatEnv) : BeatCall :=
  if m.memberID = [] then { result := .ok (), member := m }
  else
    match env.coordinator with
    | .error e => { result := .error e, member := m }
    | .ok () =>
      let req : HeartbeatRequest :=
        { memberID := m.memberID, memberEpoch := m.generation
          topicPartitions := m.ownedTopicPartitions848 env.order }
      match sendGroupHeartbeat848 env with
      | .error e =>
        if shouldRejoin848 e then
          let call := m.rejoin848 env.rejoin
          { sent := some req, result := call.result, member := call.member }
        else { sent := some req, result := .error e, member := m }
      -- the response is dropped
      | .ok _ => { sent := some req, result := .ok (), member := m }

/-- The heartbeat is answered so. -/
structure BeatEnv.Answers (env : BeatEnv) (r : HeartbeatAnswer) : Prop where
  coordinator : env.coordinator = .ok ()
  reply : env.reply = .ok r.body
  fits : r.Fits

variable {m : GroupMember}

/-- An answered heartbeat has sent the member's epoch and leaves the member as it was. -/
theorem heartbeat848_answered (hid : m.memberID ≠ []) (h : env.Answers r) :
    m.heartbeat848 env =
      { sent := some { memberID := m.memberID, memberEpoch := m.generation
                       topicPartitions := m.ownedTopicPartitions848 env.order }
        result := .ok (), member := m } := by
  have hsend : sendGroupHeartbeat848 env = .ok r.response := by
    rw [sendGroupHeartbeat848, h.reply]
    simp only [bind, Except.bind, decodeConsumerGroupHeartbeatResponse_body h.fits]
    rfl
  rw [GroupMember.heartbeat848, if_neg hid, h.coordinator]
  simp only [hsend]

/-! ## What the join takes -/

/-- The member owns the partitions of an assignment: the topics are known, and it holds their
partitions and no others. -/
structure GroupMember.Owns (m : GroupMember) (assign : List (UUID × List Int32)) : Prop where
  known : ∀ tp ∈ assign, (m.cluster.topicNameByID tp.1).isSome
  held : ∀ topic p, ⟨topic, p⟩ ∈ m.held ↔
    ∃ tp ∈ assign, m.cluster.topicNameByID tp.1 = some topic ∧ p ∈ tp.2

theorem assignment848ToMemberBytes_ok (h : assignment848ToMemberBytes c assign = .ok raw)
    (hcount : assign.length < 2 ^ 31) (hparts : ∀ tp ∈ assign, tp.2.length < 2 ^ 31) :
    ∃ parsed, parseMemberAssignment raw = .ok parsed ∧
      List.Forall₂ (fun tp a => c.topicNameByID tp.1 = some a.topic ∧ a.partitions = tp.2)
        assign parsed := by
  obtain ⟨parsed, hparsed, hraw⟩ := bind_eq_ok.1 h
  have hnamed : List.Forall₂ (fun tp (a : TopicPartitionAssignment) =>
        c.topicNameByID tp.1 = some a.topic ∧ a.partitions = tp.2) assign parsed := by
    refine (forall₂_of_mapM_ok hparsed).imp fun tp a ha => ?_
    cases hname : c.topicNameByID tp.1 with
    | none =>
      rw [hname] at ha
      cases ha
    | some name =>
      rw [hname] at ha
      cases ha
      exact ⟨rfl, rfl⟩
  have hfits : Fits parsed := by
    obtain ⟨raws, hraws, -⟩ := bind_eq_ok.1 hraw
    refine ⟨hnamed.length_eq ▸ hcount, fun a ha => ?_, fun a ha => ?_⟩
    · -- a name that is too long cannot be written
      obtain ⟨bs, -, hbs⟩ := forall₂_exists_left (forall₂_of_mapM_ok hraws).flip ha
      obtain ⟨topic, htopic, -⟩ := bind_eq_ok.1 hbs
      rw [writeString] at htopic
      split_ifs at htopic with hlong
      exact not_lt.1 hlong
    · obtain ⟨tp, htp, -, heq⟩ := forall₂_exists_left hnamed ha
      rw [heq]
      exact hparts tp htp
  obtain ⟨raw', hraw', hparse⟩ := parseMemberAssignment_encode hfits
  rw [hraw] at hraw'
  cases hraw'
  exact ⟨parsed, hparse, hnamed⟩

/-- The assignment that a round of the join takes. -/
def HeartbeatAttempt.assigned (a : HeartbeatAttempt) : Option HeartbeatResponse :=
  match a.answer with
  | .error _ => none
  | .ok resp => if resp.assignment = [] then none else some resp

/-- The response that ends the join: the first one with an assignment. -/
def JoinEnv.assigned (env : JoinEnv) : Option HeartbeatResponse :=
  (List.range 30).findSome? fun i => (env.heartbeat i).assigned

/-- A join loop that succeeds ends with the first response that has an assignment: the member has
its epoch and takes its partitions. -/
theorem join848Loop_ok {attempt : Nat → HeartbeatAttempt}
    (h : (join848Loop attempt memberID load left i m).result = .ok ()) :
    ∃ (resp : HeartbeatResponse) (raw : Bytes) (m' : GroupMember),
      (List.range' i left).findSome? (fun i => (attempt i).assigned) = some resp ∧
      m'.generation = resp.memberEpoch ∧
      m'.memberID = (if resp.memberID = [] then memberID else resp.memberID) ∧
      resp.assignment ≠ [] ∧ assignment848ToMemberBytes m'.cluster resp.assignment = .ok raw ∧
      join848Loop attempt memberID load left i m = m'.takeAssignment raw load := by
  fun_induction join848Loop with
  | case1 | case2 | case4 | case5 | case7 => cases h
  | case3 _ _ _ _ hanswer _ _ _ ih =>
    -- a round without an assignment leaves the rest of the loop
    rw [List.range'_succ, List.findSome?_cons, HeartbeatAttempt.assigned, hanswer]
    exact ih h
  | case6 _ _ _ _ hanswer _ hnil _ ih =>
    rw [List.range'_succ, List.findSome?_cons, HeartbeatAttempt.assigned, hanswer]
    dsimp only
    rw [if_pos hnil]
    exact ih h
  | case8 _ _ _ resp hanswer m' hnil raw hraw =>
    refine ⟨resp, raw, m', ?_, rfl, rfl, hnil, hraw, rfl⟩
    rw [List.range'_succ, List.findSome?_cons, HeartbeatAttempt.assigned, hanswer]
    dsimp only
    rw [if_neg hnil]

/-- Taking the bytes of an assignment keeps the member's id and epoch and makes it own the
partitions. -/
theorem takeAssignment_owns (hne : assign ≠ [])
    (hraw : assignment848ToMemberBytes m.cluster assign = .ok raw) (hcount : assign.length < 2 ^ 31)
    (hparts : ∀ tp ∈ assign, tp.2.length < 2 ^ 31) :
    (m.takeAssignment raw load).member.memberID = m.memberID ∧
      (m.takeAssignment raw load).member.generation = m.generation ∧
      (m.takeAssignment raw load).member.Owns assign := by
  obtain ⟨parsed, hparse, hnamed⟩ := assignment848ToMemberBytes_ok hraw hcount hparts
  have hparsed : parsed ≠ [] := by
    rintro rfl
    cases hnamed
    exact hne rfl
  cases happly : m.applyAssignment raw with
  | error e =>
    rw [GroupConsumer.applyAssignment, hparse] at happly
    simp only [bind, Except.bind] at happly
    split_ifs at happly <;> cases happly
  | ok applied =>
    obtain ⟨notified, c, events⟩ := applied
    obtain ⟨m', loaded, rfl, rfl, heq⟩ := takeAssignment_of_ok load happly
    obtain ⟨assignments, rfl⟩ := applyAssignment_consumer happly
    obtain ⟨parsed', hparse', hheld⟩ := applyAssignment_held happly
    obtain rfl : parsed = parsed' := Except.ok.inj (hparse.symm.trans hparse')
    replace hheld := (hheld.resolve_left fun hall => hparsed hall.2.1).2
    rw [heq]
    refine ⟨rfl, rfl, ?_, fun topic p => ?_⟩
    · intro tp htp
      obtain ⟨a, -, hname, -⟩ := forall₂_exists_left hnamed.flip htp
      exact Option.isSome_iff_exists.2 ⟨_, hname⟩
    · rw [GroupConsumer.held, map_partKey_loadCommittedOffsets]
      refine (hheld _).trans (mem_encodedPartitions.trans ?_)
      constructor
      · rintro ⟨a, ha, rfl, hp⟩
        obtain ⟨tp, htp, hname, hpartitions⟩ := forall₂_exists_left hnamed ha
        exact ⟨tp, htp, hname, hpartitions ▸ hp⟩
      · rintro ⟨tp, htp, hname, hp⟩
        obtain ⟨a, ha, hname', hpartitions⟩ := forall₂_exists_left hnamed.flip htp
        rw [hname, Option.some_inj] at hname'
        exact ⟨a, ha, hname'.symm, hpartitions ▸ hp⟩

/-- The rounds of a join are answered as the protocol lays it out, and a new member id is not
empty. -/
structure JoinEnv.Answered (env : JoinEnv) : Prop where
  uuid : env.uuid ≠ []
  answer : ∀ i resp, (env.heartbeat i).answer = .ok resp →
    ∃ r : HeartbeatAnswer, r.Fits ∧ resp = r.response

/-- A member that has joined has the epoch of the response that ended the join and owns its
partitions. -/
theorem joinAndAssign848_takes (henv : env.Answered)
    (h : (m.joinAndAssign848 env).result = .ok ()) :
    ∃ resp, env.assigned = some resp ∧ resp.assignment ≠ [] ∧
      (m.joinAndAssign848 env).member.memberID ≠ [] ∧
      (m.joinAndAssign848 env).member.generation = resp.memberEpoch ∧
      (m.joinAndAssign848 env).member.Owns resp.assignment := by
  rw [GroupMember.joinAndAssign848] at h ⊢
  cases hprepare : m.prepare env with
  | error e =>
    rw [hprepare] at h
    cases h
  | ok prepared =>
    rw [hprepare] at h
    dsimp only at h ⊢
    obtain ⟨resp, raw, m', hassigned, hgen, hid, hne, hraw, heq⟩ := join848Loop_ok h
    obtain ⟨i, -, hround⟩ := exists_of_findSome?_eq_some hassigned
    obtain ⟨r, hfits, hresp⟩ : ∃ r : HeartbeatAnswer, r.Fits ∧ resp = r.response := by
      refine henv.answer i resp ?_
      rw [HeartbeatAttempt.assigned] at hround
      split at hround
      · cases hround
      · next hanswer =>
        split_ifs at hround
        rw [hanswer, Option.some.inj hround]
    have hassignment : r.assignment = some resp.assignment := by
      subst hresp
      cases ha : r.assignment with
      | none => exact (hne (by rw [HeartbeatAnswer.response, ha]; rfl)).elim
      | some a => rw [HeartbeatAnswer.response, ha, Option.getD_some]
    have hcount := hfits.topics _ hassignment
    have hparts := hfits.partitions _ hassignment
    obtain ⟨hid', hgen', howns⟩ := takeAssignment_owns hne hraw (by omega)
      fun tp htp => by have := hparts tp htp; omega
    rw [heq]
    refine ⟨resp, hassigned, hne, ?_, hgen'.trans hgen, howns⟩
    rw [hid', hid]
    split_ifs with hempty hold
    · exact henv.uuid
    · exact hold
    · exact hempty

/-! ## Runs -/

/-- What the coordinator has told a member: the epoch of the last answer, and the last assignment
that came. -/
structure Told where
  epoch : Int32
  owned : List (UUID × List Int32)

def Told.next (t : Told) (r : HeartbeatAnswer) : Told :=
  ⟨r.memberEpoch, r.assignment.getD t.owned⟩

/-- The member owns what it has been told, now and after each heartbeat of a run, and each heartbeat
sends the epoch it has been told. -/
def GroupMember.Follows (m : GroupMember) (t : Told) : List (BeatEnv × HeartbeatAnswer) → Prop
  | [] => m.Owns t.owned
  | (env, r) :: beats =>
    m.Owns t.owned ∧ (m.heartbeat848 env).sent.map (·.memberEpoch) = some t.epoch ∧
      (m.heartbeat848 env).member.Follows (t.next r) beats

/-- A member follows what it is told along a run when it has the epochs of all answers but the last
and owns every assignment that comes. -/
theorem GroupMember.follows_iff (hid : m.memberID ≠ []) (hbeats : ∀ b ∈ beats, b.1.Answers b.2) :
    m.Follows t beats ↔ m.Owns t.owned ∧
      (∀ e ∈ (t.epoch :: beats.map (·.2.memberEpoch)).dropLast, e = m.generation) ∧
      ∀ b ∈ beats, ∀ a, b.2.assignment = some a → m.Owns a := by
  induction beats generalizing t with
  | nil => simp [GroupMember.Follows]
  | cons b beats ih =>
    obtain ⟨env, r⟩ := b
    obtain ⟨hb, hrest⟩ := forall_mem_cons.1 hbeats
    -- owning what is told next is owning the assignment of this answer, if it has one
    have hnext : m.Owns t.owned → (m.Owns (t.next r).owned ↔
        ∀ a, r.assignment = some a → m.Owns a) := by
      intro howns
      rw [Told.next]
      cases r.assignment with
      | none => simp [howns]
      | some a => simp
    rw [GroupMember.Follows, heartbeat848_answered hid hb, ih hrest, map_cons,
      dropLast_cons_cons, forall_mem_cons, forall_mem_cons]
    dsimp only [Option.map_some, Told.next] at hnext ⊢
    rw [Option.some_inj]
    constructor
    · rintro ⟨howns, hepoch, hown, hepochs, hrest⟩
      exact ⟨howns, ⟨hepoch.symm, hepochs⟩, (hnext howns).1 hown, hrest⟩
    · rintro ⟨howns, ⟨hepoch, hepochs⟩, hown, hrest⟩
      exact ⟨howns, hepoch.symm, (hnext howns).2 hown, hepochs, hrest⟩

/-- After a join, a member follows what it is told along a run of answered heartbeats if and only if
no answer but the last has another epoch than the one that ended the join, and no answer assigns
other partitions. -/
theorem heartbeats_follow_iff {m : GroupMember} {env : JoinEnv} (henv : env.Answered)
    (hjoin : (m.joinAndAssign848 env).result = .ok ()) {joined : HeartbeatResponse}
    (hjoined : env.assigned = some joined) {beats : List (BeatEnv × HeartbeatAnswer)}
    (hbeats : ∀ b ∈ beats, b.1.Answers b.2) :
    (m.joinAndAssign848 env).member.Follows ⟨joined.memberEpoch, joined.assignment⟩ beats ↔
      (∀ b ∈ beats.dropLast, b.2.memberEpoch = joined.memberEpoch) ∧
        ∀ b ∈ beats, ∀ a, b.2.assignment = some a → (m.joinAndAssign848 env).member.Owns a := by
  obtain ⟨resp, hresp, -, hid, hgen, howns⟩ := joinAndAssign848_takes henv hjoin
  obtain rfl : resp = joined := Option.some.inj (hresp.symm.trans hjoined)
  rw [GroupMember.follows_iff hid hbeats, hgen, and_iff_right howns]
  refine and_congr_left' ?_
  cases beats with
  | nil => simp
  | cons b beats =>
    have hmap : (b.2.memberEpoch :: beats.map (·.2.memberEpoch)).dropLast =
        (b :: beats).dropLast.map (·.2.memberEpoch) := by
      rw [map_dropLast, map_cons]
    rw [map_cons, dropLast_cons_cons, hmap, forall_mem_cons, forall_mem_map]
    exact and_iff_right rfl

/-! ## A member that is told of a new epoch -/

/-- The topic id of topic `t`. -/
def idT : UUID := Vector.replicate 16 1

/-- A join that is answered with epoch 1 and partition 0 of topic `t`, which has two partitions. -/
def joinT0 : JoinEnv where
  brokers _ _ :=
    .answer { topics := [{ name := [116], topicID := idT, partitions := [⟨0, 1, 0⟩, ⟨1, 1, 0⟩] }] }
  attempt _ := { joined := .error (.other ""), sync := fun _ => .error (.other "") }
  load := { fetched := fun _ => .ok [{ topic := [116], partition := 0, offset := 5 }] }
  heartbeat _ := { answer := .ok { memberID := [], memberEpoch := 1, assignment := [(idT, [0])] } }
  uuid := [97]

theorem joinT0_answered : joinT0.Answered where
  uuid := by decide
  answer i resp h := by
    refine ⟨{ memberEpoch := 1, assignment := some [(idT, [0])] }, ?_, (Except.ok.inj h).symm⟩
    constructor <;> simp

/-- A new member of the next generation protocol. -/
def memberT : GroupMember where
  topics := [[116]]
  cluster := { seeds := [] }
  nextGen := true

/-- A heartbeat answered so. -/
def answeredBeat (r : HeartbeatAnswer) : BeatEnv where
  reply := .ok r.body
  rejoin := joinT0

/-- Heartbeats whose answers carry the epoch of the join are followed. -/
theorem heartbeats_follow_same_epoch :
    (memberT.joinAndAssign848 joinT0).member.Follows ⟨1, [(idT, [0])]⟩
      [(answeredBeat { memberEpoch := 1 }, { memberEpoch := 1 }),
        (answeredBeat { memberEpoch := 1 }, { memberEpoch := 1 })] := by
  refine (heartbeats_follow_iff joinT0_answered (by decide) rfl ?_).2 ⟨?_, ?_⟩
  · have hbeat : (answeredBeat { memberEpoch := 1 }).Answers { memberEpoch := 1 } :=
      ⟨rfl, rfl, by constructor <;> simp⟩
    simp [hbeat]
  · simp
  · simp

/-- The answer to the first heartbeat moves the member to epoch 2 and partition 1. The next
heartbeat sends epoch 1 and partition 0, which the member still owns. -/
theorem heartbeats_keep_epoch :
    let m := (memberT.joinAndAssign848 joinT0).member
    let told : HeartbeatAnswer := { memberEpoch := 2, assignment := some [(idT, [1])] }
    let first := m.heartbeat848 (answeredBeat told)
    first.sent = some { memberID := [97], memberEpoch := 1, topicPartitions := [(idT, [0])] } ∧
      first.result = .ok () ∧
      (first.member.heartbeat848 (answeredBeat told)).sent =
        some { memberID := [97], memberEpoch := 1, topicPartitions := [(idT, [0])] } ∧
      first.member.held = [⟨[116], 0⟩] := by
  intro m told
  have hbeat : (answeredBeat told).Answers told := by
    refine ⟨rfl, rfl, ?_⟩
    constructor <;> simp [told]
  have hid : m.memberID ≠ [] := by decide
  simp only [heartbeat848_answered hid hbeat]
  decide

end GoKafka
