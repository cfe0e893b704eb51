import GoKafka.Protocol.GroupAssign
import GoKafka.Protocol.GroupOffsets

/-!
# Joining a group on the wire

The flexible JoinGroup and SyncGroup requests and answers of `internal/protocol/groups.go`, and the
subscription that a JoinGroup request carries. The subscription has legacy strings, which panic when
they are too long; `decodeConsumerSubscription_encode` is its round trip.
-/

namespace GoKafka

open Assoc Reading

/-! ## The program -/

def encodeConsumerSubscription (topics : List Bytes) (cooperative : Bool) : Except Error Bytes := do
  let names ← topics.mapM writeString
  return writeInt16 (if cooperative then 3 else 0)
    ++ (writeInt32 (Int32.ofNat topics.length)
    ++ (names.flatten
    ++ writeInt32 (-1))) -- user_data

/-- `strPtr`: the empty string is null. -/
def strPtr (s : Bytes) : NilBytes := if s = [] then none else some s

/-- The arguments of `EncodeJoinGroupRequest`. -/
structure JoinGroupRequest where
  group : Bytes
  memberID : Bytes := []
  assignor : Bytes := []
  instanceID : Bytes := []
  topics : List Bytes
  sessionTimeoutMs : Int32 := 0
  rebalanceTimeoutMs : Int32 := 0
  cooperative : Bool := false

/-- The assignor that a request asks for. -/
def JoinGroupRequest.assignorName (r : JoinGroupRequest) : Bytes :=
  if r.assignor = [] then ascii "range" else r.assignor

def encodeJoinGroupRequestFlex (r : JoinGroupRequest) : Except Error Bytes := do
  let sessionTimeoutMs := if r.sessionTimeoutMs ≤ 0 then 45000 else r.sessionTimeoutMs
  let rebalanceTimeoutMs :=
    if r.rebalanceTimeoutMs ≤ 0 then sessionTimeoutMs else r.rebalanceTimeoutMs
  let metadata ← encodeConsumerSubscription r.topics r.cooperative
  return writeCompactString r.group
    ++ (writeInt32 sessionTimeoutMs
    ++ (writeInt32 rebalanceTimeoutMs
    ++ (writeCompactString r.memberID
    ++ (writeGroupInstanceID r.instanceID
    ++ (writeCompactString (ascii "consumer")
    ++ (writeCompactArrayLen 1
    ++ ((writeCompactString r.assignorName ++ (writeCompactBytes (some metadata)
      ++ writeEmptyTagSection))
    ++ writeEmptyTagSection)))))))

structure JoinGroupResponse where
  generationID : Int32
  memberID : Bytes
  leaderID : Bytes
  protocolName : String
  assignments : AList fun _ : Bytes => Bytes

def errorCodeMemberIDRequired : Int16 := 79

def errMemberIDRequired : Error := .other "protocol: member id required"

/-- A member in a JoinGroup answer. -/
def readJoinMember (ver : Int16) : Read (Bytes × Bytes) := do
  let mid ← readCompactString
  if ver ≥ 5 then let _groupInstanceID ← readCompactNullableString
  let metadata ← readCompactBytes
  skipTagSection
  return (mid, metadata.bytes)

/-- The body of `decodeJoinGroupResponseFlex`. -/
def readJoinGroupResponse (ver : Int16) : Read (JoinGroupResponse × Option Error) := do
  let _throttleTimeMs ← readInt32
  let errCode ← readInt16
  if errCode ≠ 0 ∧ errCode ≠ errorCodeMemberIDRequired then throw (.api "join group" errCode)
  let gen ← readInt32
  let protocolName ← readCompactString
  let leader ← readCompactString
  let memberID ← readCompactString
  let nMembers ← readUvarint
  let members ← readN (readJoinMember ver) (nMembers - 1)
  skipTagSection
  return ({ generationID := gen, memberID := memberID, leaderID := leader
            protocolName := protocolName.text, assignments := index Prod.fst Prod.snd members },
    if errCode = errorCodeMemberIDRequired then some errMemberIDRequired else none)

/-- `decodeJoinGroupResponseFlex`: the response, and the error that comes with it when the broker
asks for a member id. -/
def decodeJoinGroupResponseFlex (ver : Int16) (body : Bytes) :
    Except Error (JoinGroupResponse × Option Error) :=
  Prod.fst <$> readJoinGroupResponse ver (fromBytes body)

/-- A member's assignment in a SyncGroup request. -/
def writeSyncAssignment (e : Bytes × Bytes) : Bytes :=
  writeCompactString e.1 ++ (writeCompactBytes (some e.2) ++ writeEmptyTagSection)

def encodeSyncGroupRequestFlex (ver : Int16) (group memberID : Bytes) (protocolName : String)
    (groupInstanceID : Bytes) (generation : Int32) (order : MapOrder Bytes)
    (assignments : AList fun _ : Bytes => Bytes) : Bytes :=
  writeCompactString group
    ++ (writeInt32 generation
    ++ (writeCompactString memberID
    ++ ((if ver ≥ 3 then writeCompactNullableString (strPtr groupInstanceID) else [])
    ++ ((if ver ≥ 5 then
        writeCompactString (ascii "consumer") ++ writeCompactString (ascii protocolName) else [])
    ++ (writeCompactArrayLen assignments.keys.length
    ++ (((order.keys assignments).map fun mid => (mid, (assignments.lookup mid).getD [])).flatMap
        writeSyncAssignment
    ++ writeEmptyTagSection))))))

/-- The body of `decodeSyncGroupResponseFlex`. -/
def readSyncGroupResponse (ver : Int16) : Read NilBytes := do
  let _throttleTimeMs ← readInt32
  let errCode ← readInt16
  if errCode ≠ 0 then throw (.api "sync group" errCode)
  if ver ≥ 5 then
    let _protocolType ← readCompactNullableString
    let _protocolName ← readCompactNullableString
  let assignment ← readCompactBytes
  skipTagSection
  return assignment

def decodeSyncGroupResponseFlex (ver : Int16) (body : Bytes) : Except Error NilBytes :=
  Prod.fst <$> readSyncGroupResponse ver (fromBytes body)

/-! ## Subscriptions -/

/-- The size of a subscription on the wire. -/
def subscriptionSize (topics : List Bytes) : Nat := 10 + (topics.map fun t => 2 + t.length).sum

theorem decodeConsumerSubscription_encode (hnames : ∀ t ∈ topics, t.length ≤ maxInt16)
    (hcount : topics.length < 2 ^ 31) :
    ∃ raw, encodeConsumerSubscription topics cooperative = .ok raw ∧
      raw.length = subscriptionSize topics ∧ decodeConsumerSubscription raw = .ok topics := by
  have hnamesOk := mapM_eq_ok (f := writeString) fun t ht => writeString_eq (hnames t ht)
  refine ⟨_, bind_eq_ok.2 ⟨_, hnamesOk, rfl⟩, ?_, ?_⟩
  · simp [subscriptionSize, List.length_flatten, stringBytes, Function.comp_def]
    omega
  · have hread : Consumes (do
        let _version ← readInt16
        let nTopics ← readInt32
        readN readString nTopics.toInt.toNat)
        (writeInt16 (if cooperative then 3 else 0) ++ (writeInt32 (Int32.ofNat topics.length)
          ++ topics.flatMap stringBytes)) topics := by
      refine (consumes_readInt16).bind ((consumes_readInt32 _).bind ?_)
      rw [toNat_ofNat_int32 hcount]
      exact Consumes.readN fun t ht => consumes_readString_stringBytes (hnames t ht)
    refine bind_eq_ok.2 ⟨_, hread (fromBytes _) (writeInt32 (-1)) (Cursor.valid_start _) ?_, rfl⟩
    simp [fromBytes, List.flatMap_def]

end GoKafka
