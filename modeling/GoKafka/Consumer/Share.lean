import GoKafka.Protocol.ShareFetch

/-!
# A share consumer

`share_consumer.go`: a share consumer takes records of its group's partitions under a lock and
acknowledges them. `poll` is `ShareConsumer.Poll` in full: with implicit acknowledgement it first
accepts what the last Poll returned (`acknowledge`), and then asks the brokers for records, round by
round, until a round has some (`shareRound`). What a call meets outside is given with it: how
joining the group went (`ShareJoin`), what the brokers answer (`AckEnv`, `ShareVisit`), and where
the deadline stands at each round (`ShareRound`). A Poll that has used up its rounds is still
running.

The records of a round are held back until the round is over. `poll_keeps_iff` says when a Poll
returns all records that its fetches returned: no broker ends the round with an error, or with the
context's end, after another one has returned records (`poll_drops`), and the brokers do not return
more than the limit of a poll.
-/

namespace GoKafka

open Assoc List

/-! ## Data -/

inductive ShareAckType where
  | gap | accept | release | reject | renew
  deriving DecidableEq

structure ShareAckBatch where
  firstOffset : Int64
  lastOffset : Int64
  type : ShareAckType
  deriving DecidableEq

structure ShareFetchPartition where
  topicID : UUID
  partition : Int32
  ackBatches : List ShareAckBatch := []
  deriving DecidableEq

structure ShareFetchRequest where
  groupID : Bytes
  memberID : Bytes
  shareSessionEpoch : Int32
  maxWaitMs : Int32
  minBytes : Int32 := 1
  maxBytes : Int32 := 52428800
  maxRecords : Int32
  batchSize : Int32 := 1
  partitions : List ShareFetchPartition

structure ShareAcknowledgeRequest where
  groupID : Bytes
  memberID : Bytes
  shareSessionEpoch : Int32
  partitions : List ShareFetchPartition

structure ShareAssignment where
  topic : Bytes
  partition : Int32
  topicID : UUID
  leader : Int32

/-- `ShareConsumer`: its group, its member id, the assignments, the epochs of its sessions with the
brokers, and the records that await implicit acceptance. -/
structure ShareConsumer where
  group : Bytes := []
  memberID : Bytes := []
  assignments : List ShareAssignment := []
  shareSession : AList (fun _ : Int32 => Int32) := ∅
  pendingAccept : List Record := []

/-- The configuration of a share consumer; `implicit` is `ShareAckImplicit`. -/
structure ShareConfig where
  shareGroup : Bytes
  implicit : Bool
  maxPollRecords : Int64 := 0

/-- The limit of a poll. -/
def ShareConfig.maxPoll (cfg : ShareConfig) : Nat :=
  if cfg.maxPollRecords ≤ 0 then 500 else cfg.maxPollRecords.toInt.toNat

theorem ShareConfig.maxPoll_pos (cfg : ShareConfig) : 0 < cfg.maxPoll := by
  unfold maxPoll
  split_ifs with hpos
  · decide
  · rw [Int64.le_iff_toInt_le, Int64.toInt_zero] at hpos
    omega

/-- `rk` of `clearPending`: what identifies a record of the group. -/
structure RecordKey where
  topic : Bytes
  partition : Int32
  offset : Int64
  deriving DecidableEq

/-- The key of a record. -/
def Record.key3 (r : Record) : RecordKey := ⟨r.topic, r.partition, r.offset⟩

/-! ## Acknowledging -/

/-- The loop of `coalesceAckBatches`. -/
def coalesceLoop (type : ShareAckType) : Int64 → Int64 → List Int64 → List ShareAckBatch
  | first, last, [] => [⟨first, last, type⟩]
  | first, last, o :: os =>
    if o = last ∨ o = last + 1 then coalesceLoop type first o os
    else ⟨first, last, type⟩ :: coalesceLoop type o o os

def coalesceAckBatches (offsets : List Int64) (type : ShareAckType) : List ShareAckBatch :=
  match offsets.insertionSort (· ≤ ·) with
  | [] => []
  | o :: os => coalesceLoop type o o os

/-- A record of `acknowledge` with its topic's id and its partition's leader. -/
structure AckEntry where
  record : Record
  topicID : UUID
  leader : Int32

/-- The loop of `acknowledge` over the records. -/
def ackEntries (c : Cluster) : List Record → Except Error (List AckEntry)
  | [] => .ok []
  | r :: rs => do
    match c.topicIDByName r.topic with
    | none => throw (.other ("gokafka: unknown topic \"" ++ r.topic.text ++ "\""))
    | some id =>
      let leader ← c.leaderBroker r.topic r.partition
      let entries ← ackEntries c rs
      return ⟨r, id, leader.nodeID⟩ :: entries

/-- What `acknowledge` meets: the metadata, the order of its loops over maps, and what a request to
a broker and the decoding of its answer come to. -/
structure AckEnv where
  cluster : Cluster
  brokerOrder : MapOrder Int32
  partOrder : MapOrder PartKey
  respond : Int32 → ShareAcknowledgeRequest → Except Error Unit

/-- The partitions of a broker's request. -/
def ackPartitions (env : AckEnv) (type : ShareAckType) (entries : List AckEntry) :
    List ShareFetchPartition :=
  let parts := Assoc.group (·.record.partKey) entries
  (env.partOrder.keys parts).map fun k =>
    let acks := (parts.lookup k).getD []
    { topicID := (acks.head?.map (·.topicID)).getD (Vector.replicate 16 0)
      partition := k.part
      ackBatches := coalesceAckBatches (acks.map (·.record.offset)) type }

/-- How `acknowledge` ends; `sent` are its requests, each with its broker, and `acked` the records
of those that succeeded. -/
structure AckOut where
  err : Option Error
  consumer : ShareConsumer
  acked : List RecordKey := []
  sent : List (Int32 × ShareAcknowledgeRequest) := []

/-- The loop of `acknowledge` over the brokers. -/
def sendAcks (env : AckEnv) (type : ShareAckType) (grouped : AList fun _ : Int32 => List AckEntry) :
    List Int32 → ShareConsumer → AckOut
  | [], s => { err := none, consumer := s }
  | broker :: brokers, s =>
    let entries := (grouped.lookup broker).getD []
    let epoch := (s.shareSession.lookup broker).getD 0
    let request : ShareAcknowledgeRequest :=
      ⟨s.group, s.memberID, epoch, ackPartitions env type entries⟩
    match env.respond broker request with
    | .error e => { err := some e, consumer := s, sent := [(broker, request)] }
    | .ok () =>
      let rest := sendAcks env type grouped brokers
        { s with shareSession := s.shareSession.insert broker (epoch + 1) }
      { rest with
        acked := entries.map (·.record.key3) ++ rest.acked
        sent := (broker, request) :: rest.sent }

def ShareConsumer.clearPending (s : ShareConsumer) (cfg : ShareConfig) (records : List Record) :
    ShareConsumer :=
  if cfg.implicit then
    { s with pendingAccept := s.pendingAccept.filter (·.key3 ∉ records.map (·.key3)) }
  else s

def ShareConsumer.acknowledge (s : ShareConsumer) (cfg : ShareConfig) (env : AckEnv)
    (type : ShareAckType) (records : List Record) : AckOut :=
  if records = [] then { err := none, consumer := s }
  else
    match ackEntries env.cluster records with
    | .error e => { err := some e, consumer := s }
    | .ok entries =>
      let grouped := Assoc.group (·.leader) entries
      let out := sendAcks env type grouped (env.brokerOrder.keys grouped) s
      match out.err with
      | some _ => out
      | none =>
        if type = .renew then out
        else { out with consumer := out.consumer.clearPending cfg records }

/-! ## Fetching -/

/-- A fetched record as `fetchShare` hands it on. -/
def FetchedRecord.shared (fr : FetchedRecord) : Record :=
  { topic := fr.topic, partition := fr.partition, offset := fr.offset, key := fr.key
    value := fr.value, headers := fetchHeaders fr.headers, timestamp := .ofUnixMilli fr.timestamp
    deliveryCount := fr.deliveryCount }

/-- `ShareConsumer.fetchShare`, with what the request to the broker comes to. -/
def ShareConsumer.fetchShare (C : Codecs) (s : ShareConsumer) (broker : Int32)
    (parts : List ShareAssignment) (maxRecords maxWaitMs : Int64)
    (topicName : UUID → Option Bytes) (answer : ShareFetchRequest → Except Error Bytes) :
    Except Error (List Record) × ShareConsumer :=
  let epoch := (s.shareSession.lookup broker).getD 0
  let request : ShareFetchRequest :=
    { groupID := s.group, memberID := s.memberID, shareSessionEpoch := epoch
      maxWaitMs := maxWaitMs.toInt32, maxRecords := maxRecords.toInt32
      partitions := parts.map fun p => { topicID := p.topicID, partition := p.partition } }
  match answer request >>= decodeShareFetchResponse C topicName with
  | .error e => (.error e, s)
  | .ok resp =>
    (.ok ((resp.records.filter (!·.control)).map (·.shared)),
      { s with shareSession := s.shareSession.insert broker (epoch + 1) })

def ShareConsumer.resetShareSession (s : ShareConsumer) (broker : Int32) : ShareConsumer :=
  { s with shareSession := s.shareSession.insert broker 0 }

/-- What Poll meets at a broker: how topic ids are resolved, what the request comes to and, if the
session has to be begun again, the second one, and whether the context has ended when an error is
looked at. -/
structure ShareVisit where
  topicName : UUID → Option Bytes
  answer : ShareFetchRequest → Except Error Bytes
  again : ShareFetchRequest → Except Error Bytes
  ctxDone : Bool := false
  ctxDoneAgain : Bool := false

/-- How Poll leaves a broker: without records for this round, with records, or with its return, of
an error or of nothing. -/
inductive VisitEnd where
  | skipped
  | fetched (records : List Record)
  | ended (err : Option Error)
  deriving DecidableEq

/-- The records of a fetch that succeeded. -/
def VisitEnd.records : VisitEnd → List Record
  | .fetched records => records
  | _ => []

def apiErrorCode : Error → Option Int16
  | .api _ code => some code
  | _ => none

/-- The body of Poll's loop over the brokers, up to the records. -/
def ShareConsumer.visit (C : Codecs) (s : ShareConsumer) (broker : Int32)
    (parts : List ShareAssignment) (maxRecords maxWaitMs : Int64) (v : ShareVisit) :
    VisitEnd × ShareConsumer :=
  match s.fetchShare C broker parts maxRecords maxWaitMs v.topicName v.answer with
  | (.ok records, s) => (.fetched records, s)
  | (.error e, s) =>
    if v.ctxDone then (.ended none, s)
    else if apiErrorCode e = some 5 ∨ apiErrorCode e = some 6 then (.skipped, s)
    else if apiErrorCode e = some 122 ∨ apiErrorCode e = some 123 then
      match (s.resetShareSession broker).fetchShare C broker parts maxRecords maxWaitMs
          v.topicName v.again with
      | (.ok records, s) => (.fetched records, s)
      | (.error e, s) => (.ended (if v.ctxDoneAgain then none else some e), s)
    else (.ended (if v.ctxDoneAgain then none else some e), s)

/-- How a round ends: with the return of an error or of nothing, with as many records as a poll may
have, or with the last broker. -/
inductive ShareRoundEnd where
  | ended (err : Option Error)
  | full
  | complete

/-- A round: how it ends, the records that it has, and how it left the brokers it visited. -/
structure ShareRoundOut where
  result : ShareRoundEnd
  out : List Record
  consumer : ShareConsumer
  visits : List VisitEnd := []

/-- A round of Poll, from a broker on. -/
def shareRound (C : Codecs) (maxPoll : Nat) (waitMs : Int64)
    (byBroker : AList fun _ : Int32 => List ShareAssignment) (visit : Int32 → ShareVisit) :
    List Int32 → List Record → ShareConsumer → ShareRoundOut
  | [], out, s => { result := .complete, out := out, consumer := s }
  | broker :: brokers, out, s =>
    match s.visit C broker ((byBroker.lookup broker).getD []) (Int64.ofInt (maxPoll - out.length))
        waitMs (visit broker) with
    | (.ended err, s) => { result := .ended err, out := out, consumer := s, visits := [.ended err] }
    | (.skipped, s) =>
      let rest := shareRound C maxPoll waitMs byBroker visit brokers out s
      { rest with visits := .skipped :: rest.visits }
    | (.fetched records, s) =>
      if maxPoll ≤ (out ++ records).length then
        { result := .full, out := out ++ records, consumer := s, visits := [.fetched records] }
      else
        let rest := shareRound C maxPoll waitMs byBroker visit brokers (out ++ records) s
        { rest with visits := .fetched records :: rest.visits }

/-- `shareFetchMaxWaitMs`, and `shareFetchSlack` in nanoseconds. -/
def shareFetchMaxWaitMs : Int64 := 500
def shareFetchSlack : Int64 := 250000000

/-- How long a fetch of a round waits, given the time that is left until the deadline; nothing if
too little is left. -/
def shareWaitMs : Option Int64 → Option Int64
  | none => some shareFetchMaxWaitMs
  | some remain =>
    if remain ≤ shareFetchSlack then none
    else
      let b := (remain - shareFetchSlack) / 1000000
      some (if b < shareFetchMaxWaitMs then b else shareFetchMaxWaitMs)

/-- What Poll meets in a round: the time left, the order of the brokers, the brokers, and whether
the context ends while Poll waits for the next round. -/
structure ShareRound where
  remain : Option Int64 := none
  order : MapOrder Int32
  visit : Int32 → ShareVisit
  done : Bool := false

/-- How Poll returns, if it does; the consumer, how it left the brokers, and the records that were
acknowledged. -/
structure SharePolled where
  returned : Option (List Record × Option Error)
  consumer : ShareConsumer
  visits : List VisitEnd := []
  acked : List RecordKey := []

/-- The records that the fetches of a Poll returned. -/
def SharePolled.fetched (p : SharePolled) : List Record := p.visits.flatMap (·.records)

def ShareConsumer.trackDelivered (s : ShareConsumer) (cfg : ShareConfig) (records : List Record) :
    ShareConsumer :=
  if cfg.implicit then { s with pendingAccept := records } else s

/-- The rounds of Poll. -/
def pollRounds (C : Codecs) (cfg : ShareConfig)
    (byBroker : AList fun _ : Int32 => List ShareAssignment) :
    List ShareRound → ShareConsumer → SharePolled
  | [], s => { returned := none, consumer := s }
  | r :: rounds, s =>
    match shareWaitMs r.remain with
    | none => { returned := some ([], none), consumer := s }
    | some waitMs =>
      let o := shareRound C cfg.maxPoll waitMs byBroker r.visit (r.order.keys byBroker) [] s
      match o.result with
      | .ended err => { returned := some ([], err), consumer := o.consumer, visits := o.visits }
      | .full =>
        let out := o.out.take cfg.maxPoll
        { returned := some (out, none), consumer := o.consumer.trackDelivered cfg out
          visits := o.visits }
      | .complete =>
        if o.out ≠ [] then
          { returned := some (o.out, none), consumer := o.consumer.trackDelivered cfg o.out
            visits := o.visits }
        else if r.done then
          { returned := some ([], none), consumer := o.consumer, visits := o.visits }
        else
          let rest := pollRounds C cfg byBroker rounds o.consumer
          { rest with visits := o.visits ++ rest.visits }

section Rounds

variable {C : Codecs} {cfg : ShareConfig} {byBroker : AList fun _ : Int32 => List ShareAssignment}
  {r : ShareRound} (rounds : List ShareRound) {s : ShareConsumer} {waitMs : Int64}
  {o : ShareRoundOut}
  (hwait : shareWaitMs r.remain = some waitMs)
  (hround : shareRound C cfg.maxPoll waitMs byBroker r.visit (r.order.keys byBroker) [] s = o)
include hwait hround

theorem pollRounds_ended {err : Option Error} (hres : o.result = .ended err) :
    pollRounds C cfg byBroker (r :: rounds) s =
      { returned := some ([], err), consumer := o.consumer, visits := o.visits } := by
  simp [pollRounds, hwait, hround, hres]

theorem pollRounds_over (hres : o.result = .complete) (hout : o.out ≠ []) :
    pollRounds C cfg byBroker (r :: rounds) s =
      { returned := some (o.out, none), consumer := o.consumer.trackDelivered cfg o.out
        visits := o.visits } := by
  simp only [pollRounds, hwait, hround, hres, if_pos hout]

end Rounds

/-- What `joinShareGroup` leaves behind, and its error. -/
structure ShareJoin where
  memberID : Bytes
  assignments : List ShareAssignment
  shareSession : AList fun _ : Int32 => Int32
  err : Option Error := none

/-- What Poll meets: `requireOpen`, `requireShareSupport`, joining, implicit acceptance and its
rounds. -/
structure SharePollEnv where
  opened : Except Error Unit := .ok ()
  support : Except Error Unit := .ok ()
  join : ShareJoin
  ack : AckEnv
  rounds : List ShareRound

def errNoShareGroup : Error := .other "gokafka: share group is required"

/-- `joinShareGroup`, if the consumer has no assignments. -/
def ShareConsumer.joinIfNeeded (s : ShareConsumer) (cfg : ShareConfig) (join : ShareJoin) :
    Option Error × ShareConsumer :=
  let s := { s with group := cfg.shareGroup }
  if s.assignments = [] then
    (join.err, { s with
      memberID := join.memberID, assignments := join.assignments
      shareSession := join.shareSession })
  else (none, s)

/-- The implicit acceptance of the records of the last Poll. -/
def ShareConsumer.acceptPending (s : ShareConsumer) (cfg : ShareConfig) (env : AckEnv) : AckOut :=
  if cfg.implicit then
    ShareConsumer.acknowledge { s with pendingAccept := [] } cfg env .accept s.pendingAccept
  else { err := none, consumer := s }

def ShareConsumer.poll (C : Codecs) (s : ShareConsumer) (cfg : ShareConfig) (env : SharePollEnv) :
    SharePolled :=
  match env.opened with
  | .error e => { returned := some ([], some e), consumer := s }
  | .ok () =>
    if cfg.shareGroup = [] then { returned := some ([], some errNoShareGroup), consumer := s }
    else
      match env.support with
      | .error e => { returned := some ([], some e), consumer := s }
      | .ok () =>
        match s.joinIfNeeded cfg env.join with
        | (some e, s) => { returned := some ([], some e), consumer := s }
        | (none, s) =>
          let accepted := s.acceptPending cfg env.ack
          match accepted.err with
          | some e =>
            { returned := some ([], some e), consumer := accepted.consumer
              acked := accepted.acked }
          | none =>
            let byBroker := Assoc.group (·.leader) accepted.consumer.assignments
            { pollRounds C cfg byBroker env.rounds accepted.consumer with acked := accepted.acked }

/-! ## What a Poll returns of what it fetched -/

/-- A round that began with fewer records than a poll may have: it has kept what was fetched, a
visit that ends it is its last, and it stops before the last broker only when it is full. -/
structure ShareRoundOut.Keeps (o : ShareRoundOut) (maxPoll : Nat) (before : List Record) :
    Prop where
  out : o.out = before ++ o.visits.flatMap (·.records)
  ended : ∀ err, o.result = .ended err → .ended err ∈ o.visits
  goes_on : (∀ err, o.result ≠ .ended err) → ∀ err, .ended err ∉ o.visits
  short : (∀ err, o.result ≠ .ended err) → o.result = .full ∨ o.out.length < maxPoll

variable {C : Codecs} {cfg : ShareConfig} {byBroker : AList fun _ : Int32 => List ShareAssignment}

theorem ShareRoundOut.Keeps.cons {o : ShareRoundOut} {maxPoll : Nat} {before : List Record}
    {v : VisitEnd} (hv : ∀ err, v ≠ .ended err) (h : o.Keeps maxPoll (before ++ v.records)) :
    ShareRoundOut.Keeps { o with visits := v :: o.visits } maxPoll before where
  out := by
    rw [h.out, flatMap_cons, append_assoc]
  ended err herr := mem_cons_of_mem _ (h.ended err herr)
  goes_on hgo err hmem := by
    cases mem_cons.mp hmem with
    | inl heq => exact hv err heq.symm
    | inr hrest => exact h.goes_on hgo err hrest
  short := h.short

theorem shareRound_keeps (maxPoll : Nat) (waitMs : Int64) (visit : Int32 → ShareVisit)
    (brokers : List Int32) (before : List Record) (s : ShareConsumer)
    (hbefore : before.length < maxPoll) :
    (shareRound C maxPoll waitMs byBroker visit brokers before s).Keeps maxPoll before := by
  fun_induction shareRound with
  | case1 => exact ⟨(append_nil _).symm, nofun, fun _ _ => not_mem_nil, fun _ => .inr hbefore⟩
  | case2 _ _ _ _ err =>
    refine ⟨by simp [VisitEnd.records], ?_, fun hgo => absurd rfl (hgo err),
      fun hgo => absurd rfl (hgo err)⟩
    rintro err' ⟨⟩
    exact mem_singleton.mpr rfl
  | case3 _ _ _ _ _ _ _ ih =>
    refine ShareRoundOut.Keeps.cons nofun ?_
    simpa [VisitEnd.records] using ih hbefore
  | case4 => exact ⟨by simp [VisitEnd.records], nofun, fun _ _ => by simp, fun _ => .inl rfl⟩
  | case5 _ _ _ _ _ _ _ hfull _ ih =>
    exact ShareRoundOut.Keeps.cons nofun (ih (Nat.lt_of_not_le hfull))

/-- How a Poll that has returned `out` stands to its fetches: it has ended in a visit and returned
nothing, or it has returned what was fetched up to its limit. -/
def SharePolled.Returns (p : SharePolled) (maxPoll : Nat) (out : List Record) : Prop :=
  (∃ err, .ended err ∈ p.visits) ∧ out = [] ∨
    (∀ err, .ended err ∉ p.visits) ∧ out = p.fetched.take maxPoll

variable {err : Option Error}

/-- What returns before the first visit has fetched nothing. -/
theorem SharePolled.Returns.of_early {acked : List RecordKey}
    (h : some (([] : List Record), e) = some (out, err)) :
    SharePolled.Returns ⟨some ([], e), s, [], acked⟩ maxPoll out := by
  obtain ⟨rfl, -⟩ : [] = out ∧ e = err := by simpa using h
  exact .inr ⟨fun _ => not_mem_nil, take_nil.symm⟩

theorem pollRounds_returns {rounds : List ShareRound} (s : ShareConsumer)
    (h : (pollRounds C cfg byBroker rounds s).returned = some (out, err)) :
    (pollRounds C cfg byBroker rounds s).Returns cfg.maxPoll out := by
  have hkeeps (r : ShareRound) (waitMs : Int64) (s : ShareConsumer) :=
    @shareRound_keeps C byBroker cfg.maxPoll waitMs r.visit (r.order.keys byBroker) [] s
      cfg.maxPoll_pos
  fun_induction pollRounds with
  | case1 => cases h
  | case2 => exact .of_early h
  | case3 r _ s waitMs _ o _ hres =>
    cases h
    exact .inl ⟨⟨_, (hkeeps r waitMs s).ended _ hres⟩, rfl⟩
  | case4 r _ s waitMs _ o hres =>
    refine .inr ⟨(hkeeps r waitMs s).goes_on (by simp [o, hres]), ?_⟩
    rw [SharePolled.fetched, ← nil_append (flatMap _ _), ← (hkeeps r waitMs s).out]
    exact (congrArg Prod.fst (Option.some.inj h)).symm
  | case5 r _ s waitMs _ o hres hout =>
    cases h
    have hshort : o.out.length < cfg.maxPoll := by
      simpa [o, hres] using (hkeeps r waitMs s).short (by simp [o, hres])
    refine .inr ⟨(hkeeps r waitMs s).goes_on (by simp [o, hres]), ?_⟩
    rw [SharePolled.fetched, ← nil_append (flatMap _ _), ← (hkeeps r waitMs s).out,
      take_of_length_le hshort.le]
  | case6 r _ s waitMs _ o hres hout hdone =>
    cases h
    refine .inr ⟨(hkeeps r waitMs s).goes_on (by simp [o, hres]), ?_⟩
    rw [SharePolled.fetched, ← nil_append (flatMap _ _), ← (hkeeps r waitMs s).out,
      not_not.1 hout, take_nil]
  | case7 r _ s waitMs _ o hres hout hdone rest ih =>
    -- a round that has nothing adds nothing to what the rest of the rounds return
    have hnone : ∀ err, .ended err ∉ o.visits :=
      (hkeeps r waitMs s).goes_on (by simp [o, hres])
    have hnil : o.visits.flatMap (·.records) = [] :=
      (hkeeps r waitMs s).out.symm.trans (not_not.1 hout)
    simpa only [SharePolled.Returns, SharePolled.fetched, flatMap_append, hnil, nil_append,
      mem_append, hnone, false_or] using ih h

/-- Poll comes to the implicit acceptance, and it fails. -/
structure ShareConsumer.AcceptFails (s : ShareConsumer) (cfg : ShareConfig) (env : SharePollEnv) :
    Prop where
  opened : env.opened = .ok ()
  group : cfg.shareGroup ≠ []
  support : env.support = .ok ()
  joined : (s.joinIfNeeded cfg env.join).1 = none
  failed : ((s.joinIfNeeded cfg env.join).2.acceptPending cfg env.ack).err ≠ none

theorem ShareConsumer.pendingAccept_joinIfNeeded (s : ShareConsumer) (cfg : ShareConfig)
    (join : ShareJoin) : (s.joinIfNeeded cfg join).2.pendingAccept = s.pendingAccept := by
  unfold joinIfNeeded
  by_cases hassigned : s.assignments = [] <;> simp [hassigned]

/-- How Poll goes: it fails before the implicit acceptance, in it, or it comes to its rounds. -/
theorem ShareConsumer.poll_cases (s : ShareConsumer) :
    (¬ s.AcceptFails cfg env ∧ ∃ (e : Error) (s' : ShareConsumer),
      s'.pendingAccept = s.pendingAccept ∧
      s.poll C cfg env = { returned := some ([], some e), consumer := s' }) ∨
    ∃ accepted : AckOut, (s.joinIfNeeded cfg env.join).2.acceptPending cfg env.ack = accepted ∧
      ((s.AcceptFails cfg env ∧ ∃ e, accepted.err = some e ∧ s.poll C cfg env =
          { returned := some ([], some e), consumer := accepted.consumer
            acked := accepted.acked }) ∨
        ¬ s.AcceptFails cfg env ∧ accepted.err = none ∧ s.poll C cfg env =
          { pollRounds C cfg (Assoc.group (·.leader) accepted.consumer.assignments) env.rounds
              accepted.consumer with acked := accepted.acked }) := by
  have hpending := s.pendingAccept_joinIfNeeded cfg env.join
  fun_cases ShareConsumer.poll C s cfg env with
  | case1 e hopened =>
    exact .inl ⟨fun h => (nomatch hopened.symm.trans h.opened), e, s, rfl, rfl⟩
  | case2 _ hgroup => exact .inl ⟨fun h => h.group hgroup, errNoShareGroup, s, rfl, rfl⟩
  | case3 _ _ e hsupport =>
    exact .inl ⟨fun h => (nomatch hsupport.symm.trans h.support), e, s, rfl, rfl⟩
  | case4 _ _ _ e s' hjoin =>
    rw [hjoin] at hpending
    refine .inl ⟨fun h => ?_, e, s', hpending, rfl⟩
    exact nomatch (congrArg Prod.fst hjoin).symm.trans h.joined
  | case5 hopened hgroup hsupport s' hjoin accepted e haccept =>
    rw [hjoin]
    refine .inr
      ⟨accepted, rfl, .inl ⟨⟨hopened, hgroup, hsupport, by rw [hjoin], ?_⟩, e, haccept, rfl⟩⟩
    rw [hjoin]
    exact fun hnone => nomatch haccept.symm.trans hnone
  | case6 _ _ _ s' hjoin accepted haccept =>
    rw [hjoin]
    refine .inr ⟨accepted, rfl, .inr ⟨fun h => ?_, haccept, rfl⟩⟩
    have hfailed := h.failed
    rw [hjoin] at hfailed
    exact hfailed haccept

theorem ShareConsumer.poll_returns {s : ShareConsumer}
    (h : (s.poll C cfg env).returned = some (out, err)) :
    (s.poll C cfg env).Returns cfg.maxPoll out := by
  obtain ⟨-, e, s', -, hpoll⟩ | ⟨accepted, -, ⟨-, e, -, hpoll⟩ | ⟨-, -, hpoll⟩⟩ :=
    s.poll_cases
  · rw [hpoll] at h ⊢
    exact .of_early h
  · rw [hpoll] at h ⊢
    exact .of_early h
  · rw [hpoll] at h ⊢
    exact pollRounds_returns accepted.consumer h

/-- A Poll that returns has all records that its fetches returned, each as often as it was fetched,
exactly if no visit ended it after others had returned records and there are not more of them than
its limit. -/
theorem ShareConsumer.poll_keeps_iff (C : Codecs) (cfg : ShareConfig) (s : ShareConsumer)
    (env : SharePollEnv) (out : List Record) (err : Option Error)
    (h : (s.poll C cfg env).returned = some (out, err)) :
    (s.poll C cfg env).fetched.Subperm out ↔
      (∀ e, VisitEnd.ended e ∈ (s.poll C cfg env).visits → (s.poll C cfg env).fetched = []) ∧
        (s.poll C cfg env).fetched.length ≤ cfg.maxPoll := by
  have hret := ShareConsumer.poll_returns h
  rcases hret with ⟨⟨e, hended⟩, rfl⟩ | ⟨hgoes, rfl⟩
  · rw [subperm_nil]
    constructor
    · intro hnil
      exact ⟨fun _ _ => hnil, by simp [hnil]⟩
    · intro hcond
      exact hcond.1 e hended
  · constructor
    · intro hsub
      have hlen := hsub.length_le
      rw [length_take] at hlen
      exact ⟨fun e he => absurd he (hgoes e), hlen.trans (Nat.min_le_left _ _)⟩
    · intro hcond
      rw [take_of_length_le hcond.2]

/-- Two partitions of topic `t`, on brokers 1 and 2. -/
def twoLeaders : ShareConsumer where
  group := [103]
  memberID := [109]
  assignments := [⟨[116], 0, Vector.replicate 16 1, 1⟩, ⟨[116], 1, Vector.replicate 16 1, 2⟩]

/-- The records of `sharedAnswer`, as Poll returns them. -/
def sharedRecords : List Record :=
  [{ sharedRecord 7 with deliveryCount := 1 }.shared,
    { sharedRecord 8 with deliveryCount := 1 }.shared]

/-- A broker whose request comes to `answer`. -/
def visitAnswering (answer : Except Error Bytes) : ShareVisit where
  topicName _ := some [116]
  answer _ := answer
  again _ := answer

/-- The broker answers with offsets 7 and 8. -/
def visitShared : ShareVisit :=
  visitAnswering (.ok (sharedAnswer [⟨7, 8, 1⟩] (length_singleton_fits _)).bytes)

theorem fetchShare_shared (s : ShareConsumer) :
    s.fetchShare shortCodecs broker parts maxRecords waitMs visitShared.topicName
        visitShared.answer =
      (.ok sharedRecords, { s with
        shareSession :=
          s.shareSession.insert broker ((s.shareSession.lookup broker).getD 0 + 1) }) := by
  have hdecode : decodeShareFetchResponse shortCodecs (fun _ => some [116])
      (sharedAnswer [⟨7, 8, 1⟩] (length_singleton_fits _)).bytes =
        .ok ⟨0, [{ sharedRecord 7 with deliveryCount := 1 },
          { sharedRecord 8 with deliveryCount := 1 }]⟩ :=
    decodeShareFetchResponse_sharedAnswer _
  show (match decodeShareFetchResponse shortCodecs (fun _ => some [116])
    (sharedAnswer [⟨7, 8, 1⟩] _).bytes with | .error e => _ | .ok resp => _) = _
  rw [hdecode]
  rfl

theorem visit_shared (s : ShareConsumer) :
    s.visit shortCodecs broker parts maxRecords waitMs visitShared =
      (.fetched sharedRecords, { s with
        shareSession :=
          s.shareSession.insert broker ((s.shareSession.lookup broker).getD 0 + 1) }) := by
  rw [ShareConsumer.visit, fetchShare_shared]

/-- A round in which the first broker answers with records and the request to the second fails. -/
def twoRound (e : Error) : ShareRound where
  order := ⟨List.reverse, List.reverse_perm⟩
  visit broker := if broker = 1 then visitShared else visitAnswering (.error e)
  done := true

/-- Poll by a member with a partition on each of the two brokers. -/
def pollTwo (e : Error) : SharePolled :=
  twoLeaders.poll shortCodecs ⟨[103], false, 0⟩
    { join := ⟨[109], [], ∅, none⟩
      ack := ⟨⟨[], 0, {}, ∅, ∅, ⟨0, 0⟩⟩, ⟨id, .refl⟩, ⟨id, .refl⟩, fun _ _ => .ok ()⟩
      rounds := [twoRound e] }

section Two

variable {e : Error} {err : Option Error}

theorem pollTwo_round
    (hend : v = .skipped ∧ result = .complete ∨ ∃ err, v = .ended err ∧ result = .ended err)
    (hvisit : ∀ s parts maxRecords waitMs, ShareConsumer.visit shortCodecs s 2 parts maxRecords
      waitMs (visitAnswering (.error e)) = (v, s)) :
    shareRound shortCodecs 500 500 byBroker (twoRound e).visit [1, 2] [] s' =
      ⟨result, sharedRecords, { s' with
        shareSession := s'.shareSession.insert 1 ((s'.shareSession.lookup 1).getD 0 + 1) },
        [.fetched sharedRecords, v]⟩ := by
  have hsecond : (2 : Int32) ≠ 1 := by decide
  simp only [shareRound, twoRound, if_true, visit_shared, if_neg hsecond, hvisit]
  obtain ⟨rfl, rfl⟩ | ⟨err, rfl, rfl⟩ := hend <;> rfl

/-- The second broker's error ends the Poll. -/
theorem pollTwo_ended
    (hvisit : ∀ s parts maxRecords waitMs, ShareConsumer.visit shortCodecs s 2 parts maxRecords
      waitMs (visitAnswering (.error e)) = (.ended err, s)) :
    (pollTwo e).returned = some ([], err) ∧
      (pollTwo e).visits = [.fetched sharedRecords, .ended err] := by
  have hpoll := @pollRounds_ended shortCodecs ⟨[103], false, 0⟩
    (Assoc.group (·.leader) twoLeaders.assignments) (twoRound e) [] twoLeaders 500 _ rfl
    (pollTwo_round (.inr ⟨err, rfl, rfl⟩) hvisit) err rfl
  exact ⟨congrArg (·.returned) hpoll, congrArg (·.visits) hpoll⟩

/-- The second broker is left out, and the Poll returns the records of the first. -/
theorem pollTwo_skipped
    (hvisit : ∀ s parts maxRecords waitMs, ShareConsumer.visit shortCodecs s 2 parts maxRecords
      waitMs (visitAnswering (.error e)) = (.skipped, s)) :
    (pollTwo e).returned = some (sharedRecords, none) ∧
      (pollTwo e).visits = [.fetched sharedRecords, .skipped] := by
  have hpoll := @pollRounds_over shortCodecs ⟨[103], false, 0⟩
    (Assoc.group (·.leader) twoLeaders.assignments) (twoRound e) [] twoLeaders 500 _ rfl
    (pollTwo_round (.inl ⟨rfl, rfl⟩) hvisit) rfl nofun
  exact ⟨congrArg (·.returned) hpoll, congrArg (·.visits) hpoll⟩

end Two

/-- The second broker is not the leader any more, and the Poll has what the first one returned. -/
theorem ShareConsumer.poll_keeps_iff_two :
    (pollTwo (.api "ShareFetch" 6)).returned = some (sharedRecords, none) ∧
      (pollTwo (.api "ShareFetch" 6)).fetched.Subperm sharedRecords := by
  obtain ⟨hret, hvisits⟩ := @pollTwo_skipped (.api "ShareFetch" 6) fun _ _ _ _ => rfl
  refine ⟨hret, (ShareConsumer.poll_keeps_iff _ _ _ _ _ _ hret).2 ⟨?_, ?_⟩⟩
  · intro e he
    change _ ∈ (pollTwo (.api "ShareFetch" 6)).visits at he
    rw [hvisits] at he
    simp at he
  · change (pollTwo (.api "ShareFetch" 6)).fetched.length ≤ _
    rw [SharePolled.fetched, hvisits]
    decide

/-- The request to the second broker fails, and the two records of the first one are dropped. -/
theorem ShareConsumer.poll_drops : (pollTwo (.transport "EOF")).fetched = sharedRecords ∧
      (pollTwo (.transport "EOF")).returned = some ([], some (.transport "EOF")) ∧
      sharedRecords.length = 2 := by
  obtain ⟨hret, hvisits⟩ := @pollTwo_ended (.transport "EOF") _ fun _ _ _ _ => rfl
  refine ⟨?_, hret, rfl⟩
  rw [SharePolled.fetched, hvisits]
  rfl

end GoKafka
