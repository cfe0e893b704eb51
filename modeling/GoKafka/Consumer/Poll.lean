import GoKafka.Protocol.RecordBatch
import GoKafka.Broker.Cluster
import GoKafka.Lib.Cut

/-!
# A round of Poll

`Consumer.Poll` in `consumer.go` for a consumer that has its assignments: build one Fetch per
leader (`buildFetches`), decode each response and cap it (`fetchFromBroker`), take records off the
responses up to the poll limit (`aggregateFetches`) and move the positions past what was delivered
(`advanceDelivered`).

A Fetch response is modelled from its partition sections on (`FetchedPartition`): the reading of
their fields off the wire, and the request that asks for them, are below the model. What a round
meets outside the consumer is its `PollEnv`. Joining the group, and the rebalance that a
REBALANCE_IN_PROGRESS answer starts, are not part of a round.
-/

namespace GoKafka

open Assoc

structure FetchPartition where
  topic : Bytes
  topicID : UUID
  partition : Int32
  offset : Int64
  leaderEpoch : Int32
  maxBytes : Int32
  deriving DecidableEq

/-- The section of a Fetch response for one partition. -/
structure FetchedPartition where
  topic : Bytes
  partition : Int32
  errorCode : Int16 := 0
  aborted : List AbortedTxn := []
  records : Bytes
  deriving DecidableEq

/-- `fetchItem`: a data record, or the offset of a marker. -/
structure FetchItem where
  topic : Bytes
  partition : Int32
  offset : Int64
  record : Option Record
  deriving DecidableEq

/-- `partitionOffset`: the position of a partition. -/
structure PartitionOffset where
  topic : Bytes
  partition : Int32
  offset : Int64
  deriving DecidableEq

abbrev FetchPartition.partKey (p : FetchPartition) : PartKey := ⟨p.topic, p.partition⟩
abbrev FetchedPartition.partKey (p : FetchedPartition) : PartKey := ⟨p.topic, p.partition⟩
abbrev FetchedRecord.partKey (r : FetchedRecord) : PartKey := ⟨r.topic, r.partition⟩
abbrev FetchItem.partKey (i : FetchItem) : PartKey := ⟨i.topic, i.partition⟩
abbrev PartitionOffset.partKey (a : PartitionOffset) : PartKey := ⟨a.topic, a.partition⟩

/-! ## Fetch responses -/

/-- The body of `DecodeFetchResponse`'s partition loop. -/
def decodeFetchPartition (C : Codecs) (p : FetchedPartition) : Except Error (List FetchedRecord) :=
  if p.errorCode = 27 then .error .rebalanceInProgress
  else if p.errorCode = 6 ∨ p.errorCode = 74 ∨ p.errorCode = 75 then .error .leaderEpochChanged
  else if p.errorCode = 100 then .error .unknownTopicID
  else if p.errorCode ≠ 0 then
    .error (.other ("protocol: fetch partition error " ++ toString p.errorCode.toInt))
  else decodeRecordBatch C p.topic p.partition p.records p.aborted

/-- The partition loops of `DecodeFetchResponse`. -/
def decodeFetchResponse (C : Codecs) :
    List FetchedPartition → Except Error (List FetchedRecord)
  | [] => .ok []
  | p :: ps => do
    let recs ← decodeFetchPartition C p
    let out ← decodeFetchResponse C ps
    return recs ++ out

/-- The item of a fetched record. -/
def fetchItem (fr : FetchedRecord) : FetchItem where
  topic := fr.topic
  partition := fr.partition
  offset := fr.offset
  record :=
    if fr.control then none
    else some { topic := fr.topic, partition := fr.partition, offset := fr.offset, key := fr.key
                value := fr.value, headers := fetchHeaders fr.headers
                timestamp := .ofUnixMilli fr.timestamp }

/-- The loop of `fetchFromBroker`: items up to the limit of data records. -/
def fetchItems (maxRecords : Nat) : Nat → List FetchedRecord → List FetchItem
  | _, [] => []
  | data, fr :: fetched =>
    let data := if fr.control then data else data + 1
    if 0 < maxRecords ∧ maxRecords ≤ data then [fetchItem fr]
    else fetchItem fr :: fetchItems maxRecords data fetched

/-- `Consumer.fetchFromBroker`, on the sections of the node's response. -/
def fetchFromBroker (C : Codecs) (response : Except Error (List FetchedPartition))
    (maxRecords : Nat) : Except Error (List FetchItem) := do
  let parts ← response
  let fetched ← decodeFetchResponse C parts
  return fetchItems maxRecords 0 fetched

/-! ## Aggregation -/

/-- The variables of `aggregateFetches`. -/
structure Aggregate where
  out : List Record := []
  cursor : AList (fun _ : PartKey => Int64) := ∅
  full : Bool := false

/-- One item: the cursor moves past it, and a record is delivered. -/
def Aggregate.deliver (maxPoll : Nat) (g : Aggregate) (it : FetchItem) : Aggregate :=
  let cursor := g.cursor.insert it.partKey (it.offset + 1)
  match it.record with
  | none => { g with cursor := cursor }
  | some rec =>
    let out := g.out ++ [rec]
    { out := out, cursor := cursor, full := 0 < maxPoll ∧ maxPoll ≤ out.length }

/-- The inner loop, which breaks when the poll is full. -/
def aggregateItems (maxPoll : Nat) : Aggregate → List FetchItem → Aggregate
  | g, [] => g
  | g, it :: items =>
    let g := g.deliver maxPoll it
    if g.full then g else aggregateItems maxPoll g items

/-- The outer loop. -/
def aggregateNodes (maxPoll : Nat) : Aggregate → List (List FetchItem) → Aggregate
  | g, [] => g
  | g, items :: rest =>
    if g.full then g else aggregateNodes maxPoll (aggregateItems maxPoll g items) rest

/-- The most records a slice can have: a `Record` takes 136 bytes. -/
def maxRecordSlice : Nat := maxAlloc / 136

/-- `aggregateFetches`, which first makes a slice with room for `maxPoll` records. -/
def aggregateFetches (nodeItems : List (List FetchItem)) (maxPoll : Nat) :
    Except Error (List Record × AList fun _ : PartKey => Int64) :=
  if maxRecordSlice < maxPoll then .error (.panic "runtime error: makeslice: cap out of range")
  else
    let g := aggregateNodes maxPoll {} nodeItems
    .ok (g.out, g.cursor)

/-! ## Positions -/

/-- A consumer's assignments: every partition at most once. -/
structure Assignments where
  list : List PartitionOffset
  nodup : (list.map (·.partKey)).Nodup

/-- The loop of `bumpOffset` and of `Seek`, which ends at the first entry of the partition. -/
def putOffset (pk : PartKey) (offset : Int64) : List PartitionOffset → List PartitionOffset
  | [] => []
  | a :: assignments =>
    if a.partKey = pk then { a with offset := offset } :: assignments
    else a :: putOffset pk offset assignments

theorem map_partKey_putOffset :
    (putOffset pk offset assignments).map (·.partKey) = assignments.map (·.partKey) := by
  induction assignments with
  | nil => rfl
  | cons a assignments ih =>
    rw [putOffset]
    split_ifs
    · rfl
    · rw [List.map_cons, List.map_cons, ih]

def seek (topic : Bytes) (partition : Int32) (offset : Int64)
    (assignments : List PartitionOffset) : Except Error (List PartitionOffset) :=
  if ⟨topic, partition⟩ ∈ assignments.map (·.partKey) then
    .ok (putOffset ⟨topic, partition⟩ offset assignments)
  else
    .error (.other ("gokafka: partition " ++ topic.text ++ "-" ++ toString partition.toInt ++
      " not assigned"))

/-- The update of one position in `advanceDelivered`: a compare-and-set against the offset the
fetch was issued from. -/
def PartitionOffset.advance (start cursor : AList fun _ : PartKey => Int64)
    (a : PartitionOffset) : PartitionOffset :=
  match cursor.lookup a.partKey with
  | none => a
  | some next =>
    if start.lookup a.partKey = some a.offset ∧ a.offset < next then { a with offset := next }
    else a

theorem PartitionOffset.partKey_advance (start cursor : AList fun _ : PartKey => Int64)
    (a : PartitionOffset) : (a.advance start cursor).partKey = a.partKey := by
  rw [PartitionOffset.advance]
  split
  · rfl
  · split_ifs <;> rfl

def advanceDelivered (s : Assignments) (fetchedFrom : List PartitionOffset)
    (cursor : AList fun _ : PartKey => Int64) : Assignments where
  list := s.list.map (·.advance (index (·.partKey) (·.offset) fetchedFrom) cursor)
  nodup := by
    rw [List.map_map]
    simpa only [Function.comp_def, PartitionOffset.partKey_advance] using s.nodup

/-! ## Poll -/

/-- What a round meets: the cached metadata, the paused partitions, the order in which the loop
over the nodes' map visits it, and the nodes' responses. -/
structure PollEnv where
  cluster : Cluster
  paused : Finset PartKey
  order : MapOrder Int32
  respond : Int32 → List FetchPartition → Except Error (List FetchedPartition)

/-- `Config.Consumer.MaxPollRecords`, with its default. -/
def maxPollRecords (configured : Int) : Nat := if configured ≤ 0 then 500 else configured.toNat

/-- The loop of `Poll` over the assignments: the fetch of each partition that is not paused, with
the node that leads it. -/
def buildFetches (env : PollEnv) :
    List PartitionOffset → Except Error (List (Int32 × FetchPartition))
  | [] => .ok []
  | a :: rest =>
    if a.partKey ∈ env.paused then buildFetches env rest
    else do
      let b ← env.cluster.leaderBroker a.topic a.partition
      let fp : FetchPartition :=
        { topic := a.topic, partition := a.partition, offset := a.offset, maxBytes := 1048576
          leaderEpoch := env.cluster.leaderEpoch a.topic a.partition
          topicID := (env.cluster.topicIDByName a.topic).getD (Vector.replicate 16 0) }
      let fetches ← buildFetches env rest
      return (b.nodeID, fp) :: fetches

/-- The nodes a round asks, each with its partitions, in the order of the loop. -/
def nodeFetches (env : PollEnv) (fetches : List (Int32 × FetchPartition)) :
    List (Int32 × List FetchPartition) :=
  let byNode := group (·.1) fetches
  (env.order.keys byNode).map fun node => (node, ((byNode.lookup node).getD []).map (·.2))

/-- The first error of the nodes' fetches, or the items of all of them. -/
def collect : List (Except Error (List FetchItem)) → Except Error (List (List FetchItem))
  | [] => .ok []
  | f :: fs => do
    let items ← f
    let rest ← collect fs
    return items :: rest

/-- `Consumer.Poll` while other calls move the positions: its fetches are issued from `s`, and
`moved` are the assignments when the responses have arrived. What it returns, and the positions
after it. -/
def pollAmid (C : Codecs) (maxPoll : Nat) (env : PollEnv) (s moved : Assignments) :
    Except Error (List Record) × Assignments :=
  match buildFetches env s.list with
  | .error e => (.error e, moved)
  | .ok fetches =>
    let responses := (nodeFetches env fetches).map fun n =>
      fetchFromBroker C (env.respond n.1 n.2) maxPoll
    match collect responses with
    | .error .leaderEpochChanged | .error .unknownTopicID =>
      -- the metadata is refreshed and the round returns nothing
      (.ok [], moved)
    | .error e => (.error e, moved)
    | .ok nodeItems =>
      match aggregateFetches nodeItems maxPoll with
      | .error e => (.error e, moved)
      | .ok (out, cursor) => (.ok out, advanceDelivered moved s.list cursor)

/-- `Consumer.Poll` where no other call meets it. -/
def poll (C : Codecs) (maxPoll : Nat) (env : PollEnv) (s : Assignments) :
    Except Error (List Record) × Assignments :=
  pollAmid C maxPoll env s s

end GoKafka
