import GoKafka.Broker.Cluster
import GoKafka.Producer.Sequences
import GoKafka.Protocol.Produce

/-!
# Sending records

`sendRecords` of `producer.go` and the functions under it: records are routed to the leaders of
their partitions (`resolvePartition`), sequence numbers are reserved per partition, each broker gets
one request (`produceToBroker`), and the partitions that failed give their numbers back.

Everything outside the producer is an `AttemptEnv`: metadata, clocks, the order of map loops and the
brokers' answers. An `Exchange` is what passed between the producer and a broker; `SendSpec` says
what a send comes to in terms of its exchanges.
-/

namespace GoKafka

open Assoc

structure ProduceRecordResult where
  record : Record := { topic := [], partition := 0 }
  topic : Bytes := []
  partition : Int32 := 0
  offset : Int64 := 0
  deriving DecidableEq

structure ProducerID where
  id : Int64
  epoch : Int16
  deriving DecidableEq

/-- The configuration a producer reads: `NegotiatedVersion` of the produce API, the compression and
`Retry.MaxAttempts`; and whether the send is part of a transaction. -/
structure ProducerConfig where
  codecs : Codecs
  apiVersion : Int16
  compression : Int8 := 0
  compressionLevel : Int := 0
  maxAttempts : Int := 3
  transactional : Bool := false

/-- What an attempt to send meets outside the producer. -/
structure AttemptEnv where
  /-- The error of `RefreshIfStale`. -/
  refreshErr : Option Error := none
  /-- The metadata that `freezePartitions` reads. -/
  freezing : Cluster
  /-- The metadata while records are grouped. -/
  cluster : Cluster
  /-- The partitioner's choice for a record, by its index, when partitions are frozen. -/
  partition : Nat → NilBytes → Nat → Int32
  /-- The partitioner's choice for a record when records are grouped. -/
  repartition : Nat → NilBytes → Nat → Int32
  /-- `time.Now` for a record, and as the encoder of a partition reads it. -/
  now : Nat → Time
  clock : PartKey → Nat → Time
  /-- The orders of the loops over maps. -/
  keyOrder : MapOrder PartKey
  nodeOrder : MapOrder Int32
  /-- A broker's decoded answer to a request, or the error of `Cluster.Request` or of
  `DecodeProduceResponse`. -/
  respond : Int32 → List PartitionBatch → Except Error (List ProduceResult)
  /-- `ctx.Err()` before the attempt, and the end of the context in the wait after it. -/
  ctxErr : Option Error := none
  waitErr : Option Error := none

/-! ## Partitions and leaders -/

def resolvePartition (c : Cluster) (partition : NilBytes → Nat → Int32) (r : Record) :
    Except Error (Int32 × Int32) :=
  let parts := ((c.md.topics.find? (·.name = r.topic)).map (·.partitions)).getD []
  if parts = [] then .error (.unknownTopic r.topic)
  else if 0 ≤ r.partition then
    match c.leaderNodeID r.topic r.partition with
    | (leader, true) => .ok (r.partition, leader)
    | (_, false) =>
      .error (.kafka ⟨errCodeLeaderNotAvail, r.topic, r.partition, "leader not available"⟩)
  else
    let idx := partition r.key parts.length
    match if idx < 0 then none else parts[idx.toNatClampNeg]? with
    | some pm => .ok (pm.partition, pm.leader)
    | none => .error (.panic "runtime error: index out of range")

/-- The body of `freezePartitions`' loop. -/
def freezeRecord (c : Cluster) (partition : NilBytes → Nat → Int32) (r : Record) :
    Except Error Record :=
  if r.partition < 0 then do
    let (part, _) ← resolvePartition c partition r
    pure { r with partition := part }
  else .ok r

/-- `Producer.freezePartitions`, from a record's index on. -/
def freezePartitions (c : Cluster) (partition : Nat → NilBytes → Nat → Int32) :
    Nat → List Record → Except Error (List Record)
  | _, [] => .ok []
  | i, r :: rs => do
    let r ← freezeRecord c (partition i) r
    let rs ← freezePartitions c partition (i + 1) rs
    pure (r :: rs)

/-- A record of a send with the partition and the leader it is routed to: an entry of `inputByKey`
and of `byBroker`. -/
structure RoutedRecord where
  idx : Nat
  record : Record
  part : Int32
  leader : Int32

/-- The partition a routed record goes to. -/
abbrev RoutedRecord.partKey (r : RoutedRecord) : PartKey := ⟨r.record.topic, r.part⟩

/-- The resolving loop of `sendRecords`, from a record's index on. -/
def routeRecords (c : Cluster) (partition : Nat → NilBytes → Nat → Int32) :
    Nat → List Record → Except Error (List RoutedRecord)
  | _, [] => .ok []
  | i, r :: rs => do
    let (part, leader) ← resolvePartition c (partition i) r
    let routed ← routeRecords c partition (i + 1) rs
    pure (⟨i, r, part, leader⟩ :: routed)

def timeNow (now ts : Time) : Time := if ts.isZero then now else ts

/-- The record handed to the encoder. -/
def RoutedRecord.produceRecord (now : Nat → Time) (r : RoutedRecord) : ProduceRecord :=
  { topic := r.record.topic, partition := r.part, key := r.record.key, value := r.record.value
    headers := recordHeaders r.record.headers, timestamp := timeNow (now r.idx) r.record.timestamp }

/-! ## One broker -/

abbrev InputByKey := AList fun _ : PartKey => List RoutedRecord

/-- `inputByKey[k]`. -/
def InputByKey.get (inputs : InputByKey) (k : PartKey) : List RoutedRecord :=
  (inputs.lookup k).getD []

/-- What passed between the producer and a broker: the request, if it could be encoded, and the
broker's answer, if there was one. -/
structure Exchange where
  node : Int32
  request : Except Error (List PartitionBatch)
  answer : Except Error (List ProduceResult)

/-- What `produceToBroker` returns, and the results it has filled in. -/
structure BrokerOut where
  failed : List PartKey
  err : Option Error
  results : List ProduceRecordResult

/-- The variables of the loop over a broker's answer. -/
structure AnswerLoop where
  results : List ProduceRecordResult
  failed : List PartKey := []
  firstErr : Option Error := none
  fatalErr : Option Error := none

/-- The results of a partition's records when the broker has acknowledged it. -/
def ackResults (res : ProduceResult) (inputs : List RoutedRecord) :
    List (Nat × ProduceRecordResult) :=
  inputs.mapIdx fun i inp =>
    (inp.idx, ⟨inp.record, res.topic, res.partition,
      if inputs.length > 1 then res.offset + Int64.ofNat i else res.offset⟩)

/-- A round of the loop over a broker's answer. -/
def AnswerLoop.step (inputs : InputByKey) (l : AnswerLoop) (res : ProduceResult) : AnswerLoop :=
  if res.errorCode ≠ 0 then
    let ke : Error := .kafka ⟨res.errorCode, res.topic, res.partition, "produce failed"⟩
    { l with
      failed := l.failed ++ [res.partKey]
      firstErr := l.firstErr.or (some ke)
      fatalErr := if isRetriable ke then l.fatalErr else some ke }
  else { l with results := store (ackResults res (inputs.get res.partKey)) l.results }

def brokerPartKeys (batch : List ProduceRecord) : List PartKey := firstKeys (·.partKey) batch

/-- `produceToBroker` once the broker has answered, or the exchange has failed. -/
def readAnswer (inputs : InputByKey) (batch : List ProduceRecord)
    (results : List ProduceRecordResult) : Except Error (List ProduceResult) → BrokerOut
  | .error e => ⟨brokerPartKeys batch, some e, results⟩
  | .ok brokerResults =>
    let l := brokerResults.foldl (AnswerLoop.step inputs) { results := results }
    ⟨l.failed, l.fatalErr.or l.firstErr, l.results⟩

def produceSettings (cfg : ProducerConfig) (pid : Option ProducerID) : ProduceSettings :=
  let settings : ProduceSettings :=
    { compression := cfg.compression, compressionLevel := cfg.compressionLevel
      transactional := cfg.transactional }
  match pid with
  | none => settings
  | some pid =>
    { settings with producerID := pid.id, producerEpoch := pid.epoch, sequenced := true }

def produceToBroker (cfg : ProducerConfig) (env : AttemptEnv) (settings : ProduceSettings)
    (inputs : InputByKey) (node : Int32) (batch : List ProduceRecord)
    (results : List ProduceRecordResult) (cur : SeqCursor) : BrokerOut × Exchange × SeqCursor :=
  let (request, cur) :=
    encodeProduceRequest cfg.codecs env.clock cfg.apiVersion settings batch cur
  let answer := request >>= env.respond node
  (readAnswer inputs batch results answer, ⟨node, request, answer⟩, cur)

/-! ## All brokers -/

/-- The idempotent producer's id and sequence counters: `pid` and `idState`. -/
structure ProducerIdentity where
  pid : ProducerID
  state : ProduceState := {}

/-- The loop of `sendRecords` that reserves a block per partition. -/
def reserveBlocks (inputs : InputByKey) (keys : List PartKey) (st : ProduceState) :
    SeqCursor × ProduceState :=
  keys.foldl (fun (cur, st) k =>
    let (base, st) := st.reserveBlock k (inputs.get k).length
    (cur.insert k base, st)) (∅, st)

def rollbackPartitions (failed : AList fun _ : PartKey => Nat) (keys : List PartKey)
    (st : ProduceState) : ProduceState :=
  keys.foldl (fun st k => st.rollbackBlock k ((failed.lookup k).getD 0)) st

/-- The variables of `sendRecords` that the brokers' answers change. -/
structure Sending where
  results : List ProduceRecordResult
  cursor : SeqCursor
  failed : AList (fun _ : PartKey => Nat) := ∅
  err : Option Error := none
  exchanges : List Exchange := []

/-- The partitions `markFailed` adds. Keys the send knows nothing of are left out. -/
def markFailed (inputs : InputByKey) (failed : AList fun _ : PartKey => Nat)
    (keys : List PartKey) : AList fun _ : PartKey => Nat :=
  keys.foldl (fun failed k => match inputs.lookup k with
    | some recs => failed.insert k recs.length
    | none => failed) failed

/-- The error `markFailed` keeps: the first one, unless a fatal one follows a retriable one. -/
def keepError : Option Error → Option Error → Option Error
  | sendErr, none => sendErr
  | none, some err => some err
  | some sendErr, some err =>
    if isRetriable sendErr && !isRetriable err then some err else some sendErr

/-- `byBroker[node]`. -/
def brokerBatch (now : Nat → Time) (routed : List RoutedRecord) (node : Int32) :
    List ProduceRecord :=
  (((group (·.leader) routed).lookup node).getD []).map (·.produceRecord now)

/-- The exchange with a broker, and its outcome marked. The source sends to several brokers at once
and marks the outcomes after that in the order of the brokers; an answer about the partitions that
were asked for touches nothing that another broker's exchange reads. -/
def sendTo (cfg : ProducerConfig) (env : AttemptEnv) (settings : ProduceSettings)
    (routed : List RoutedRecord) (inputs : InputByKey) (s : Sending) (node : Int32) : Sending :=
  let (out, exchange, cursor) := produceToBroker cfg env settings inputs node
    (brokerBatch env.now routed node) s.results s.cursor
  { results := out.results
    cursor := cursor
    failed := markFailed inputs s.failed out.failed
    err := keepError s.err out.err
    exchanges := s.exchanges ++ [exchange] }

/-- What `sendRecords` returns, the identity after it, and the exchanges: none if a leader was not
found. -/
structure SendOut where
  results : List ProduceRecordResult
  err : Option Error
  identity : Option ProducerIdentity
  sent : Option (List Exchange)

/-- `sendRecords` once every record is routed. -/
def sendRouted (cfg : ProducerConfig) (env : AttemptEnv) (routed : List RoutedRecord)
    (identity : Option ProducerIdentity) : SendOut :=
  let inputs : InputByKey := group (·.partKey) routed
  let reserved :=
    identity.map fun id => (id, reserveBlocks inputs (env.keyOrder.keys inputs) id.state)
  let cursor := (reserved.map (·.2.1)).getD ∅
  let settings := produceSettings cfg (identity.map (·.pid))
  let nodes := env.nodeOrder.keys (group (·.leader) routed)
  let s := nodes.foldl (sendTo cfg env settings routed inputs)
    { results := List.replicate routed.length {}, cursor := cursor }
  { results := s.results
    err := s.err
    identity := reserved.map fun (id, _, st) =>
      { id with state := rollbackPartitions s.failed (env.keyOrder.keys s.failed) st }
    sent := some s.exchanges }

def sendRecords (cfg : ProducerConfig) (env : AttemptEnv) (records : List Record)
    (identity : Option ProducerIdentity) : SendOut :=
  match routeRecords env.cluster env.repartition 0 records with
  | .error e => { results := [], err := some e, identity := identity, sent := none }
  | .ok routed => sendRouted cfg env routed identity

end GoKafka
