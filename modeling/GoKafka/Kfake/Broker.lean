import GoKafka.Lib.Handler
import GoKafka.Protocol.ProduceFlex
import GoKafka.Protocol.FetchFlex
import GoKafka.Protocol.GroupOffsets

/-!
# The mock broker

`kfake` keeps, for each partition, the record batches it was sent and the log end offset. Its
`handleProduce` (`kfake/produce.go`) stores a batch while it parses the request: it writes the log
end offset over the first eight bytes, and counts the batch's records by the field of its header. An
error further on in the request keeps what was stored. `handleFetch` (`kfake/fetch.go`) answers with
the stored bytes, whole batches from the fetch offset on.

`handleProduce_write` and `handleFetch_encode` are the specifications of the two, on the requests of
the client: a produce request is a sequence of `storeBatch` steps (`storeTopics_flatten`), whose
results the client decodes (`decodeProduceResponseFlex_write`), and a fetch is answered with the
sections of `collectBatches`.
-/

namespace GoKafka.Kfake

open Reading BigEndian List

/-! ## The program -/

structure PartitionLog where
  batches : List Bytes := []
  leo : Int64 := 0
  deriving DecidableEq

structure TopicState where
  name : Bytes
  id : UUID
  partitions : List PartitionLog

/-- `Broker`, the fields that the requests about topics use: its address and the topics of the
store, each under its name. -/
structure TopicBroker where
  nodeID : Int32 := 0
  host : Bytes
  port : Int32
  topics : AList fun _ : Bytes => TopicState := ∅
  nextUUID : UInt8 := 0
  named : ∀ name ts, topics.lookup name = some ts → ts.name = name := by
    exact fun _ _ h => nomatch h
  host_length : host.length + 1 < 2 ^ 29

/-- A topic of the store is put in place. -/
def TopicBroker.putTopic (b : TopicBroker) (ts : TopicState) : TopicBroker :=
  { b with
    topics := b.topics.insert ts.name ts
    named := by
      intro name' ts' h
      by_cases hname : name' = ts.name
      · subst hname
        rw [AList.lookup_insert] at h
        cases h
        rfl
      · rw [AList.lookup_insert_ne hname] at h
        exact b.named name' ts' h }

def TopicBroker.createTopic (b : TopicBroker) (name : Bytes) (n : Int32) : Bool × TopicBroker :=
  if name ∈ b.topics then (false, b)
  else
    let n := if n ≤ 0 then 1 else n
    let nextUUID := b.nextUUID + 1
    let id : UUID := (Vector.replicate 16 0).set 15 nextUUID
    (true, { b with nextUUID := nextUUID }.putTopic
      ⟨name, id, List.replicate n.toInt.toNat {}⟩)

structure GroupState where
  offsets : OffsetMap := ∅
  memberID : Bytes := []
  metadata : NilBytes := none
  assignor : Bytes := []
  generation : Int32 := 0

/-- `Broker`, the fields that the requests of groups use: the groups of the store and the fault to
inject into offset fetches. -/
structure GroupBroker where
  groups : AList fun _ : Bytes => GroupState
  offsetFetchFailN : Int := 0
  offsetFetchFailCode : Int16 := 0

structure ProduceFault where
  code : Int16
  all : Bool
  topic : Bytes
  part : Int32
  deriving DecidableEq

/-- `Broker`: its topics with the partition logs, its groups, and the faults to inject into produce
requests. -/
structure Broker extends TopicBroker, GroupBroker where
  produceFailN : Int := 0
  produceFailCode : Int16 := 0
  produceFailTopic : Bytes := []
  produceFailPart : Int32 := 0

/-- `b.store.topics[name].partitions[part]`, with the check that it exists. -/
def Broker.log (b : Broker) (k : PartKey) : Option PartitionLog :=
  (b.topics.lookup k.topic).bind fun ts =>
    if k.part.toInt < 0 then none else ts.partitions[k.part.toInt.toNat]?

/-- An update of a partition's log. -/
def Broker.setLog (b : Broker) (k : PartKey) (pl : PartitionLog) : Broker :=
  match b.topics.lookup k.topic with
  | none => b
  | some ts =>
    { b with toTopicBroker :=
        b.putTopic { ts with partitions := ts.partitions.set k.part.toInt.toNat pl } }

/-- The topics of a broker as it starts, on a loopback port. -/
def newTopicBroker : TopicBroker where
  host := [49, 50, 55, 46, 48, 46, 48, 46, 49]
  port := 9092
  host_length := by decide

/-- The groups of a broker as it starts. -/
def newGroupBroker : GroupBroker where
  groups := ∅

/-- `NewBroker`, with `newStore`. -/
def newBroker : Broker where
  toTopicBroker := newTopicBroker
  toGroupBroker := newGroupBroker

def Broker.addTopic (b : Broker) (name : Bytes) (partitions : Int32) : Broker :=
  { b with toTopicBroker := (b.createTopic name partitions).2 }

def batchRecordCount (batch : Bytes) : Int32 :=
  if batch.length < 61 then 0 else (UInt32.ofNat (beNat ((batch.drop 57).take 4))).toInt32

def patchBaseOffset (batch : Bytes) (off : Int64) : Bytes :=
  if 8 ≤ batch.length then writeInt64 off ++ batch.drop 8 else batch

/-- A batch is stored at the end of a log. -/
def PartitionLog.append (pl : PartitionLog) (batch : Bytes) : PartitionLog where
  batches := pl.batches ++ [patchBaseOffset batch pl.leo]
  leo := pl.leo + (batchRecordCount batch).toInt64

def takeProduceFault (b : Broker) : Option ProduceFault × Broker :=
  if b.produceFailN ≤ 0 then (none, b)
  else
    (some ⟨b.produceFailCode, b.produceFailTopic = [], b.produceFailTopic, b.produceFailPart⟩,
      { b with produceFailN := b.produceFailN - 1 })

/-- The loop of `skipTags` with fields left. Unlike the client's it does not check the sizes. -/
def skipTagsLoop : Nat → Read Unit
  | 0 => return ()
  | n + 1 => do
    let _tag ← readUvarint
    let sz ← readUvarint
    modify (·.advance sz)
    skipTagsLoop n

def skipTags : Read Unit := do skipTagsLoop (← readUvarint)

/-- `pres`: what `handleProduce` answers for a partition. -/
structure PartResult where
  part : Int32
  code : Int16
  base : Int64
  deriving DecidableEq

/-- The fault is for this partition. -/
def ProduceFault.Hits (f : ProduceFault) (name : Bytes) (part : Int32) : Prop :=
  f.all ∨ name = f.topic ∧ part = f.part

instance ProduceFault.decidableHits (f : ProduceFault) (name : Bytes) (part : Int32) :
    Decidable (f.Hits name part) :=
  inferInstanceAs (Decidable (_ ∨ _))

/-- A partition of a produce request, after it was read. -/
def storePart (fault : Option ProduceFault) (name : Bytes) (part : Int32) (batch : Bytes)
    (b : Broker) : PartResult × Broker :=
  match fault.filter (·.Hits name part) with
  | some f => (⟨part, f.code, -1⟩, b)
  | none =>
    match b.log ⟨name, part⟩ with
    | none => (⟨part, 3, -1⟩, b) -- UNKNOWN_TOPIC_OR_PARTITION
    | some pl => (⟨part, 0, pl.leo⟩, b.setLog ⟨name, part⟩ (pl.append batch))

/-- The loop over the partitions of a topic. -/
def handlePart (fault : Option ProduceFault) (name : Bytes) :
    Handler Error Broker UInt8 PartResult := do
  let part ← Handler.read readInt32
  let batch ← Handler.read readCompactBytes
  Handler.read skipTags
  Handler.update (storePart fault name part batch.bytes)

/-- The loop over the topics. -/
def handleTopic (fault : Option ProduceFault) :
    Handler Error Broker UInt8 (TopicEntries PartResult) := do
  let name ← Handler.read readCompactString
  let nParts ← Handler.read readUvarint
  let parts ← handleN (handlePart fault name) (nParts - 1)
  Handler.read skipTags
  return ⟨name, parts⟩

/-- The parsing of `handleProduce`, which stores the batches. -/
def produceHandler : Handler Error Broker UInt8 (List (TopicEntries PartResult)) := do
  let _transactionalID ← Handler.read readCompactNullableString
  let _acks ← Handler.read readInt16
  let _timeoutMs ← Handler.read readInt32
  let nTopics ← Handler.read readUvarint
  let fault ← Handler.update takeProduceFault
  handleN (handleTopic fault) (nTopics - 1)

/-- A partition of the answer. -/
def writePartResult (pr : PartResult) : Bytes :=
  writeInt32 pr.part
    ++ (writeInt16 pr.code
    ++ (writeInt64 pr.base
    ++ (writeInt64 (-1) -- log_append_time_ms
    ++ (writeInt64 0 -- log_start_offset
    ++ (writeCompactArrayLen 0 -- record_errors
    ++ (writeCompactNullableString none -- error_message
    ++ writeEmptyTagSection))))))

/-- The answer of `handleProduce`. -/
def writeProduceResponse (results : List (TopicEntries PartResult)) : Bytes :=
  writeTopics writePartResult results
    ++ (writeInt32 0 -- throttle_time_ms
    ++ writeEmptyTagSection)

def handleProduce (b : Broker) (body : Bytes) : Except Error Bytes × Broker :=
  match produceHandler (fromBytes body) b with
  | (.error e, b) => (.error e, b)
  | (.ok (results, _), b) => (.ok (writeProduceResponse results), b)

/-- `preq`: a partition of a fetch request. -/
structure PartRequest where
  part : Int32
  offset : Int64
  deriving DecidableEq

/-- The loop over the partitions of a topic. -/
def readPartRequest : Read PartRequest := do
  let part ← readInt32
  let _currentLeaderEpoch ← readInt32
  let offset ← readInt64
  let _lastFetchedEpoch ← readInt32
  let _logStartOffset ← readInt64
  let _partitionMaxBytes ← readInt32
  skipTags
  return ⟨part, offset⟩

/-- The parsing of `handleFetch`. -/
def readFetchRequest : Read (List (TopicEntries PartRequest)) := do
  let _replicaID ← readInt32
  let _maxWaitMs ← readInt32
  let _minBytes ← readInt32
  let _maxBytes ← readInt32
  let _isolationLevel ← readInt8
  let _sessionID ← readInt32
  let _sessionEpoch ← readInt32
  readTopics readCompactString skipTags fun _ => readPartRequest

/-- The base offset in the bytes of a batch. -/
def baseOffset (batch : Bytes) : Int64 := (UInt64.ofNat (beNat (batch.take 8))).toInt64

/-- The batches of a log from an offset on. -/
def PartitionLog.batchesFrom (pl : PartitionLog) (fetchOffset : Int64) : List Bytes :=
  pl.batches.filter fun batch => 8 ≤ batch.length ∧ baseOffset batch ≥ fetchOffset

/-- `collectBatches`. Appending nothing to a nil slice leaves it nil. -/
def Broker.collectBatches (b : Broker) (k : PartKey) (fetchOffset : Int64) : NilBytes × Int64 :=
  match b.log k with
  | none => (none, 0)
  | some pl =>
    let out := (pl.batchesFrom fetchOffset).flatten
    (if out = [] then none else some out, pl.leo)

/-- The section of a fetch answer for a partition of the request. -/
def Broker.section (b : Broker) (topic : Bytes) (pr : PartRequest) : PlainSection :=
  let (records, hwm) := b.collectBatches ⟨topic, pr.part⟩ pr.offset
  ⟨pr.part, hwm, records⟩

def handleFetch (b : Broker) (body : Bytes) : Except Error Bytes := do
  let (reqs, _) ← readFetchRequest (fromBytes body)
  return writeFetchResponse (reqs.map fun t => ⟨t.topic, t.parts.map (b.section t.topic)⟩)

/-! ## Logs -/

section Logs

variable {b : Broker}

/-- A broker has no logs when it starts. -/
theorem log_newBroker (k : PartKey) : newBroker.log k = none := by
  simp [Broker.log, newBroker, newTopicBroker]

theorem Broker.produceFailN_setLog (b : Broker) (k : PartKey) (pl : PartitionLog) :
    (b.setLog k pl).produceFailN = b.produceFailN := by
  rw [setLog]
  split
  · rfl
  · rfl

/-- The update of a log that exists. -/
theorem Broker.setLog_of_log (h : b.log k = some pl) (pl' : PartitionLog) :
    ∃ ts, b.topics.lookup k.topic = some ts ∧ ¬ k.part.toInt < 0 ∧
      ts.partitions[k.part.toInt.toNat]? = some pl ∧
      (b.setLog k pl').topics = b.topics.insert k.topic
        { ts with partitions := ts.partitions.set k.part.toInt.toNat pl' } := by
  obtain ⟨ts, hts, h⟩ := Option.bind_eq_some_iff.1 h
  split_ifs at h with hneg
  refine ⟨ts, hts, hneg, h, ?_⟩
  simp only [setLog, hts, TopicBroker.putTopic, b.named k.topic ts hts]

theorem Broker.log_setLog_self (h : b.log k = some pl) : (b.setLog k pl').log k = some pl' := by
  obtain ⟨ts, hts, hneg, hpl, hset⟩ := Broker.setLog_of_log h pl'
  obtain ⟨hlt, -⟩ := List.getElem?_eq_some_iff.1 hpl
  simp only [log, hset, AList.lookup_insert, Option.bind_some, if_neg hneg]
  exact List.getElem?_set_self hlt

/-- The other partitions are left alone. -/
theorem Broker.log_setLog_of_ne (h : b.log k = some pl) (hne : k' ≠ k) :
    (b.setLog k pl').log k' = b.log k' := by
  obtain ⟨ts, hts, hneg, -, hset⟩ := Broker.setLog_of_log h pl'
  by_cases htopic : k'.topic = k.topic
  · simp only [log, hset]
    rw [htopic, hts, AList.lookup_insert, Option.bind_some, Option.bind_some]
    split_ifs with hneg'
    · rfl
    · refine List.getElem?_set_ne fun hidx => hne ?_
      have hpart : k'.part = k.part := Int32.toInt_inj.1 (by omega)
      exact congrArg₂ PartKey.mk htopic hpart
  · simp only [log, hset, AList.lookup_insert_ne htopic]

/-- A new topic has empty logs, and the others keep theirs. -/
theorem Broker.log_addTopic (h : (b.addTopic name partitions).log k = some pl) :
    b.log k = some pl ∨ pl = {} := by
  simp only [Broker.addTopic, TopicBroker.createTopic] at h
  by_cases hname : name ∈ b.topics
  · rw [if_pos hname] at h
    exact .inl h
  rw [if_neg hname] at h
  by_cases hk : k.topic = name
  · subst hk
    simp only [Broker.log, TopicBroker.putTopic, AList.lookup_insert, Option.bind_some] at h
    by_cases hneg : k.part.toInt < 0
    · rw [if_pos hneg] at h
      cases h
    · rw [if_neg hneg] at h
      exact .inr (mem_replicate.1 (mem_of_getElem? h)).2
  · simp only [Broker.log, TopicBroker.putTopic, AList.lookup_insert_ne hk] at h
    exact .inl h

end Logs

/-! ## Stored batches -/

section Stored

variable {h : BatchHeader}

theorem length_patchBaseOffset : (patchBaseOffset raw off).length = raw.length := by
  unfold patchBaseOffset
  split
  · rw [length_append, length_writeInt64, length_drop]
    omega
  · rfl

/-- The number of records stands behind the base offset. -/
theorem batchRecordCount_patch (raw : Bytes) (off : Int64) :
    batchRecordCount (patchBaseOffset raw off) = batchRecordCount raw := by
  have hdrop : 61 ≤ raw.length → (patchBaseOffset raw off).drop 57 = raw.drop 57 := by
    intro hlen
    rw [patchBaseOffset, if_pos (by omega), drop_append, length_writeInt64,
      drop_of_length_le (by simp), nil_append, drop_drop]
  rw [batchRecordCount, batchRecordCount, length_patchBaseOffset]
  split
  · rfl
  · next hlen => rw [hdrop (by omega)]

theorem baseOffset_patch (h : 8 ≤ raw.length) (off : Int64) :
    baseOffset (patchBaseOffset raw off) = off := by
  rw [baseOffset, patchBaseOffset, if_pos h, take_left' length_writeInt64, writeInt64,
    beNat_beBytes]
  have hlt := off.toUInt64.toNat_lt
  rw [Nat.mod_eq_of_lt (by omega), UInt64.ofNat_toNat, Int64.toInt64_toUInt64]

/-- The patch gives a batch another base offset. The checksum does not cover it. -/
theorem patchBaseOffset_frame :
    patchBaseOffset (h.frame payload) off =
      ({ h with baseOffset := off } : BatchHeader).frame payload := by
  have hbody : ({ h with baseOffset := off } : BatchHeader).body payload = h.body payload := rfl
  rw [patchBaseOffset, if_pos (by rw [BatchHeader.length_frame]; omega), BatchHeader.frame,
    BatchHeader.frame, drop_left' length_writeInt64, hbody]

theorem baseOffset_frame : baseOffset (h.frame payload) = h.baseOffset := by
  rw [baseOffset, BatchHeader.frame, take_left' length_writeInt64, writeInt64, beNat_beBytes]
  have hlt := h.baseOffset.toUInt64.toNat_lt
  rw [Nat.mod_eq_of_lt (by omega), UInt64.ofNat_toNat, Int64.toInt64_toUInt64]

theorem batchRecordCount_frame : batchRecordCount (h.frame payload) = h.numRecords := by
  have hpre : h.frame payload = (writeInt64 h.baseOffset
      ++ writeInt32 (Int32.ofNat (49 + payload.length)) ++ writeInt32 h.leaderEpoch ++ writeInt8 2
      ++ writeInt32 (crc32c (h.body payload)).toInt32 ++ writeInt16 h.attributes
      ++ writeInt32 h.lastOffsetDelta ++ writeInt64 h.firstTimestamp ++ writeInt64 h.maxTimestamp
      ++ writeInt64 h.producerID ++ writeInt16 h.producerEpoch ++ writeInt32 h.baseSequence)
      ++ (writeInt32 h.numRecords ++ payload) := by
    simp [BatchHeader.frame, BatchHeader.body]
  rw [batchRecordCount, if_neg (by rw [BatchHeader.length_frame]; omega), hpre,
    drop_left' (by simp), take_left' length_writeInt32, writeInt32, beNat_beBytes]
  have hlt := h.numRecords.toUInt32.toNat_lt
  rw [Nat.mod_eq_of_lt (by omega), UInt32.ofNat_toNat, Int32.toInt32_toUInt32]

end Stored

/-! ## Produce requests -/

section Produce

variable {b : Broker} {ts : List (TopicEntries PartitionBatch)}

theorem consumes_skipTags_empty : Consumes skipTags writeEmptyTagSection () := by
  have h := (consumes_readUvarint (n := 0) (by decide)).bind (f := skipTagsLoop) (Consumes.pure ())
  rwa [append_nil] at h

/-- A partition's answer as the client has it. -/
def PartResult.result (topic : Bytes) (pr : PartResult) : ProduceResult where
  topic := topic
  partition := pr.part
  offset := pr.base
  errorCode := pr.code

/-- A batch of a request without a fault: what the client hears of it and what it does. -/
def storeBatch (pb : PartitionBatch) (b : Broker) : ProduceResult × Broker :=
  let (pr, b) := storePart none pb.topic pb.partition pb.raw b
  (pr.result pb.topic, b)

/-- A topic of a request without a fault. -/
def storeTopic (t : TopicEntries PartitionBatch) (b : Broker) : TopicEntries PartResult × Broker :=
  let (prs, b) := runAll (fun pb => storePart none t.topic pb.partition pb.raw) t.parts b
  (⟨t.topic, prs⟩, b)

theorem handles_handlePart (hsize : pb.raw.length + 1 < 2 ^ 29) (b : Broker) :
    Handles (handlePart none name) (writeProducePart pb) b
      (storePart none name pb.partition pb.raw b).1
      (storePart none name pb.partition pb.raw b).2 := by
  refine ((consumes_readInt32 _).handles b).bind ?_
  refine ((consumes_readCompactBytes (b := some pb.raw) hsize).handles b).bind ?_
  have hstore := (consumes_skipTags_empty.handles b).bind
    (f := fun _ => Handler.update (storePart none name pb.partition pb.raw)) (Handles.update _ b)
  rwa [append_nil] at hstore

variable {settings : ProduceRequestSettings}

/-- The header of a request without a fault is read and ignored. -/
theorem run_produceHandler (hfault : b.produceFailN ≤ 0)
    (hid : settings.transactionalID.length + 1 < 2 ^ 29) (hn : n + 1 < 2 ^ 29) :
    ∃ c : Buffer, c.Valid ∧ c.rest = r ∧
      produceHandler (fromBytes (writeProduceHeader settings ++ (writeCompactArrayLen n ++ r))) b =
        handleN (handleTopic none) n c b := by
  obtain ⟨name, hname⟩ : ∃ name, Consumes readCompactNullableString
      (writeTransactionalID settings) name := by
    unfold writeTransactionalID
    split_ifs
    · exact ⟨_, consumes_readCompactNullableString hid⟩
    · exact ⟨_, consumes_readCompactNullableString_null⟩
  have hc : (fromBytes (writeProduceHeader settings ++ (writeCompactArrayLen n ++ r))).Valid :=
    Cursor.valid_start _
  have hr : (fromBytes (writeProduceHeader settings ++ (writeCompactArrayLen n ++ r))).rest =
      writeTransactionalID settings ++ (writeInt16 settings.acks ++ (writeInt32
        (if settings.timeoutMs ≤ 0 then 30000 else settings.timeoutMs)
        ++ (writeCompactArrayLen n ++ r))) := by
    show writeProduceHeader settings ++ _ = _
    rw [writeProduceHeader, append_assoc, append_assoc]
  obtain ⟨c₁, hc₁, hr₁, e₁⟩ := (hname.handles b).run_bind hc hr
  obtain ⟨c₂, hc₂, hr₂, e₂⟩ := ((consumes_readInt16).handles b).run_bind hc₁ hr₁
  obtain ⟨c₃, hc₃, hr₃, e₃⟩ := ((consumes_readInt32 _).handles b).run_bind hc₂ hr₂
  obtain ⟨c₄, hc₄, hr₄, e₄⟩ :=
    ((consumes_readUvarint_arrayLen hn).handles b).run_bind hc₃ hr₃
  have htake : takeProduceFault b = (none, b) := if_pos hfault
  have hupdate : Handles (Handler.update takeProduceFault : Handler Error Broker UInt8 _) [] b
      none b := by
    have h := @Handles.update Error Broker UInt8 _ takeProduceFault b
    rwa [htake] at h
  obtain ⟨c₅, hc₅, hr₅, e₅⟩ := hupdate.run_bind hc₄ hr₄
  refine ⟨c₅, hc₅, hr₅, ?_⟩
  rw [produceHandler, e₁, e₂, e₃, e₄, e₅, Nat.add_sub_cancel]

/-- A request without a fault stores its topics one after the other. -/
theorem handleProduce_write (hfault : b.produceFailN ≤ 0)
    (hid : settings.transactionalID.length + 1 < 2 ^ 29) (hfit : TopicsFit ts)
    (hsize : ∀ t ∈ ts, ∀ pb ∈ t.parts, pb.raw.length + 1 < 2 ^ 29) (tail : Bytes) :
    handleProduce b (writeProduceHeader settings ++ (writeTopics writeProducePart ts ++ tail)) =
      (.ok (writeProduceResponse (runAll storeTopic ts b).1), (runAll storeTopic ts b).2) := by
  have htopic : ∀ t ∈ ts, ∀ b, Handles (handleTopic none)
      (writeCompactString t.topic ++ (writeCompactArrayLen t.parts.length
        ++ (t.parts.flatMap writeProducePart ++ writeEmptyTagSection))) b
      (storeTopic t b).1 (storeTopic t b).2 := by
    intro t ht b
    refine ((consumes_readCompactString (hfit.topic t ht)).handles b).bind ?_
    refine ((consumes_readUvarint_arrayLen (hfit.parts t ht)).handles b).bind ?_
    refine (Handles.handleN (fun pb hpb => handles_handlePart (hsize t ht pb hpb)) b).bind ?_
    have hret := (consumes_skipTags_empty.handles (storeTopic t b).2).bind
      (f := fun _ => pure (storeTopic t b).1) (Handles.pure _ _)
    rwa [append_nil] at hret
  rw [writeTopics, append_assoc]
  obtain ⟨c, hc, hr, hrun⟩ := run_produceHandler hfault hid hfit.count
  rw [handleProduce, hrun, Handles.handleN htopic b c tail hc hr]

/-- A request whose first topic has too long a name is refused before anything is stored. -/
theorem handleProduce_longName (hfault : b.produceFailN ≤ 0)
    (hid : settings.transactionalID.length + 1 < 2 ^ 29) {t : TopicEntries PartitionBatch}
    (hcount : (t :: ts).length + 1 < 2 ^ 29) (hlong : 2 ^ 29 ≤ t.topic.length + 1) (tail : Bytes) :
    ∃ e, handleProduce b (writeProduceHeader settings
      ++ (writeTopics writeProducePart (t :: ts) ++ tail)) = (.error e, b) := by
  rw [writeTopics, append_assoc, flatMap_cons, append_assoc, append_assoc]
  obtain ⟨c, -, hr, hrun⟩ := run_produceHandler hfault hid hcount
  obtain ⟨e, he⟩ := readCompactString_long hlong hr
  refine ⟨e, ?_⟩
  have htopic : handleTopic none c b = (.error e, b) := Handler.read_bind_error he
  rw [handleProduce, hrun, length_cons, handleN, Handler.bind_apply, htopic]

/-- Arrays whose topics have the same names and sizes fit alike. -/
theorem topicsFit_congr {β γ : Type} {ts : List (TopicEntries β)} {ts' : List (TopicEntries γ)}
    (h : ts'.map (fun t => (t.topic, t.parts.length)) = ts.map fun t => (t.topic, t.parts.length))
    (hfit : TopicsFit ts) : TopicsFit ts' := by
  have hmem : ∀ t' ∈ ts', ∃ t ∈ ts, t.topic = t'.topic ∧ t.parts.length = t'.parts.length := by
    intro t' ht'
    have hin := mem_map_of_mem (f := fun t => (t.topic, t.parts.length)) ht'
    rw [h] at hin
    obtain ⟨t, ht, heq⟩ := mem_map.1 hin
    exact ⟨t, ht, congrArg Prod.fst heq, congrArg Prod.snd heq⟩
  refine ⟨?_, fun t' ht' => ?_, fun t' ht' => ?_⟩
  · have hlen := congrArg List.length h
    rw [length_map, length_map] at hlen
    exact hlen ▸ hfit.count
  · obtain ⟨t, ht, htopic, -⟩ := hmem t' ht'
    exact htopic ▸ hfit.topic t ht
  · obtain ⟨t, ht, -, hparts⟩ := hmem t' ht'
    exact hparts ▸ hfit.parts t ht

theorem topicsFit_storeTopics (hfit : TopicsFit ts) : TopicsFit (runAll storeTopic ts b).1 := by
  refine topicsFit_congr ?_ hfit
  clear hfit
  induction ts generalizing b with
  | nil => rfl
  | cons t ts ih =>
    simp only [runAll, map_cons, ih]
    simp [storeTopic]

/-- The answer is decoded to its entries. -/
theorem decodeProduceResponseFlex_write (hfit : TopicsFit results) :
    decodeProduceResponseFlex (writeProduceResponse results) =
      .ok (results.flatMap fun t => t.parts.map (·.result t.topic)) := by
  have hpart : ∀ t ∈ results, ∀ pr ∈ t.parts,
      Consumes (readProduceResult t.topic) (writePartResult pr) (pr.result t.topic) := by
    intro t ht pr hpr
    refine (consumes_readInt32 _).bind ((consumes_readInt16).bind ?_)
    refine (consumes_readInt64).bind ((consumes_readInt64).bind ?_)
    refine (consumes_readInt64).bind ?_
    refine (consumes_readUvarint_arrayLen (n := 0) (by decide)).bind ?_
    have hnone : Consumes (readN readRecordError 0) [] [] := Consumes.pure []
    refine hnone.bind ?_
    exact consumes_readCompactNullableString_null.bind (consumes_skipTagSection_empty.map _)
  have hflat : (results.map fun t => (⟨t.topic, t.parts.map (·.result t.topic)⟩ :
      TopicEntries ProduceResult)).flatMap (·.parts) =
        results.flatMap fun t => t.parts.map (·.result t.topic) := flatMap_map _ _ results
  have hread : Consumes readProduceResponse (writeProduceResponse results)
      (results.flatMap fun t => t.parts.map (·.result t.topic)) := by
    rw [← hflat]
    exact (consumes_readTopics consumes_skipTagSection_empty hfit hpart).bind
      ((consumes_readInt32 0).bind (consumes_skipTagSection_empty.map _))
  exact hread.run

/-- What the client hears of a request's topics: the answers for its batches, in their order. -/
theorem storeTopics_flatten (hts : ∀ t ∈ ts, HasBatches t) (b : Broker) :
    ((runAll storeTopic ts b).1.flatMap fun t => t.parts.map (·.result t.topic),
      (runAll storeTopic ts b).2) = runAll storeBatch (ts.flatMap (·.parts)) b := by
  have hparts : ∀ (topic : Bytes) (parts : List PartitionBatch) (b : Broker),
      (∀ pb ∈ parts, pb.topic = topic) →
      ((runAll (fun pb => storePart none topic pb.partition pb.raw) parts b).1.map
          (·.result topic),
        (runAll (fun pb => storePart none topic pb.partition pb.raw) parts b).2) =
      runAll storeBatch parts b := by
    intro topic parts
    induction parts with
    | nil => exact fun b _ => rfl
    | cons pb parts ih =>
      intro b htopic
      obtain ⟨hpb, hrest⟩ := forall_mem_cons.1 htopic
      simp [runAll, ← ih _ hrest, storeBatch, hpb]
  induction ts generalizing b with
  | nil => rfl
  | cons t ts ih =>
    obtain ⟨ht, hts⟩ := forall_mem_cons.1 hts
    simp only [flatMap_cons, runAll_append, ← ih hts, ← hparts t.topic t.parts _ ht.topic]
    rfl

end Produce

/-! ## Fetch requests -/

section Fetch

variable {b : Broker} {parts : List FetchPartition}

/-- The partitions of a request, its names among them, fit in their length prefixes. -/
theorem topicsFit_groupFetches (hlen : parts.length + 1 < 2 ^ 29)
    (hnames : ∀ p ∈ parts, p.topic.length + 1 < 2 ^ 29) : TopicsFit (groupFetches parts) := by
  rw [groupFetches_eq]
  refine ⟨?_, ?_, ?_⟩
  · have hsub : Assoc.firstKeys (·.topic) parts ⊆ parts.map (·.topic) := fun t ht =>
      Assoc.mem_firstKeys.1 ht
    have hnodup : (Assoc.firstKeys (·.topic) parts).Nodup := Assoc.nodup_firstKeys
    have hle := (hnodup.subperm hsub).length_le
    rw [length_map] at hle ⊢
    omega
  · intro t ht
    obtain ⟨name, hname, rfl⟩ := mem_map.1 ht
    obtain ⟨p, hp, rfl⟩ := mem_map.1 (Assoc.mem_firstKeys.1 hname)
    exact hnames p hp
  · intro t ht
    obtain ⟨name, -, rfl⟩ := mem_map.1 ht
    have hle := length_filter_le (fun p : FetchPartition => decide (p.topic = name)) parts
    exact Nat.lt_of_le_of_lt (Nat.succ_le_succ hle) hlen

/-- The sections that answer a request. -/
def Broker.sections (b : Broker) (parts : List FetchPartition) :
    List (TopicEntries PlainSection) :=
  (groupFetches parts).map fun t =>
    ⟨t.topic, t.parts.map fun p => b.section t.topic ⟨p.partition, p.offset⟩⟩

theorem handleFetch_encode (hfit : TopicsFit (groupFetches parts)) :
    handleFetch b (encodeFetchRequestFlex 12 parts maxWaitMs minBytes maxBytes isolationLevel) =
      .ok (writeFetchResponse (b.sections parts)) := by
  let request (_ : Bytes) (p : FetchPartition) : PartRequest := ⟨p.partition, p.offset⟩
  have hpart : ∀ t ∈ groupFetches parts, ∀ p ∈ t.parts,
      Consumes readPartRequest (writeFetchPartition p) (request t.topic p) := by
    intro t ht p hp
    refine (consumes_readInt32 _).bind ((consumes_readInt32 _).bind ?_)
    refine (consumes_readInt64).bind ((consumes_readInt32 _).bind ?_)
    refine (consumes_readInt64).bind ((consumes_readInt32 _).bind ?_)
    exact consumes_skipTags_empty.map _
  have hread : Consumes readFetchRequest (writeInt32 (-1) ++ (writeInt32 maxWaitMs
      ++ (writeInt32 minBytes ++ (writeInt32 maxBytes ++ (writeInt8 isolationLevel
      ++ (writeInt32 0 ++ (writeInt32 (-1) ++ writeTopics writeFetchPartition
        (groupFetches parts)))))))) _ :=
    (consumes_readInt32 _).bind ((consumes_readInt32 _).bind ((consumes_readInt32 _).bind
      ((consumes_readInt32 _).bind ((consumes_readInt8).bind ((consumes_readInt32 _).bind
        ((consumes_readInt32 _).bind
          (consumes_readTopics consumes_skipTags_empty hfit hpart)))))))
  have hrun := hread (fromBytes (encodeFetchRequestFlex 12 parts maxWaitMs minBytes maxBytes
    isolationLevel)) fetchTail (Cursor.valid_start _) (by
      rfl)
  rw [handleFetch, hrun]
  simp only [Bind.bind, Except.bind, map_map, Function.comp_def]
  rfl

end Fetch

end GoKafka.Kfake
