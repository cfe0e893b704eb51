import GoKafka.Broker.ListOffsets
import GoKafka.Consumer.Poll
import GoKafka.Protocol.GroupOffsets

/-!
# Seeking by timestamp

`seekByTimestamp` of `offset.go`, which `SeekToBeginning`, `SeekToEnd` and `SeekToTime` call for any
partitions of a topic. Each attempt looks up the leader of the first partition and asks it for the
offsets of all of them; the positions are then set from the entries of the answer, one after the
other.

So a request names partitions of other leaders unless the partitions have one (`routed_iff`), and
since a broker answers an error for a partition that it does not lead, the call succeeds only when
one broker leads all of them (`exists_leader_of_ok`). And what the answer does not say is not looked
at: a partition without an entry keeps its position, and one whose entry has the offset -1, as there
is no record at or after the timestamp, is put there (`positioned_iff`). `applyCommittedOffset` of
`consumer.go` seeks one partition; where each answer lists just that partition (`ListEnv.Lists`), it
moves no other one (`puts_applyCommittedOffset`).
-/

namespace GoKafka

open List

open Retry (Loop)

/-! ## The program -/

/-- A ListOffsets request that was sent, with the metadata in which its node was looked up. -/
structure SentList where
  node : Int32
  parts : List ListOffsetsPartition
  cluster : Cluster

/-- The state of a call: the metadata and the assignments, and what was sent and answered so far. -/
structure Seeking where
  cluster : Cluster
  assignments : List PartitionOffset
  sent : List SentList := []
  answers : List (List ListedOffset) := []

/-- A call of `seekByTimestamp`: its arguments, the configuration that it reads
(`Retry.MaxAttempts`, and whether `IsolationLevel` is read_committed), and what it meets. -/
structure SeekCall where
  topic : Bytes
  timestamp : Int64
  partitions : List Int32
  maxAttempts : Int64 := 0
  readCommitted : Bool := false
  env : ListEnv

namespace SeekCall

variable (call : SeekCall)

/-- The partitions of a call: without any, those of the topic that are assigned. -/
def targets (assignments : List PartitionOffset) : List Int32 :=
  if call.partitions = [] then (assignments.filter (·.topic = call.topic)).map (·.partition)
  else call.partitions

/-- The request for partitions. -/
def request (parts : List Int32) : List ListOffsetsPartition :=
  parts.map fun p => ⟨call.topic, p, call.timestamp⟩

/-- The loop over the entries of an answer in an attempt. -/
def applyListed (i : Nat) : List ListedOffset → Seeking → Option Error × Seeking
  | [], s => (none, s)
  | o :: offs, s =>
    if o.errorCode ≠ 0 then
      (some o.error,
        if isRetriable o.error then { s with cluster := call.env.refresh i [call.topic] s.cluster }
        else s)
    else
      match seek o.topic o.partition o.offset s.assignments with
      | .error e => (some e, s)
      | .ok assignments => applyListed i offs { s with assignments := assignments }

/-- The closure of `seekByTimestamp`; the leader of the first partition gets the request. -/
def attempt (first : Int32) (rest : List Int32) (body : Bytes) (i : Nat) (s : Seeking) :
    Option Error × Seeking :=
  let c := call.env.cacheAt i s.cluster
  match c.leaderBroker call.topic first with
  | .error _ =>
    (some (errLeaderUnavailable call.topic first),
      { s with cluster := call.env.refresh i [call.topic] c })
  | .ok leader =>
    let s := { s with
      cluster := c, sent := s.sent ++ [⟨leader.nodeID, call.request (first :: rest), c⟩] }
    match call.env.list i leader.nodeID body with
    | .error e => (some e, s)
    | .ok offs => call.applyListed i offs { s with answers := s.answers ++ [offs] }

/-- The body of the requests of a call. -/
def body (parts : List Int32) : Except Error Bytes :=
  encodeListOffsetsRequest (call.request parts) (if call.readCommitted then 1 else 0)

def seekByTimestamp (s : Seeking) : Option Error × Seeking :=
  match call.targets s.assignments with
  | [] => (some (.other ("gokafka: no partitions for topic " ++ call.topic.text)), s)
  | first :: rest =>
    match call.body (first :: rest) with
    | .error e => (some e, s)
    | .ok body =>
      (call.env.loop (call.attempt first rest body)).run (coordinatorAttempts call.maxAttempts) 0 s

/-- The attempts of a call, with the states they begin in. -/
def begun (s : Seeking) : List (Nat × Seeking) :=
  match call.targets s.assignments with
  | [] => []
  | first :: rest =>
    match call.body (first :: rest) with
    | .error _ => []
    | .ok body =>
      (call.env.loop (call.attempt first rest body)).begun
        (coordinatorAttempts call.maxAttempts) 0 s

end SeekCall

/-- The configuration that says where a partition without a committed offset starts. -/
structure OffsetReset where
  /-- `OffsetResetDuration`. -/
  duration : Int64 := 0
  /-- `ConsumeFromBeginning`. -/
  fromBeginning : Bool := false
  /-- `IsolationLevel` is read_committed. -/
  readCommitted : Bool := false

/-- What `applyCommittedOffset` reads and meets: the configuration of a reset, the timestamp
`OffsetResetDuration` ago, and what its seek meets. -/
structure ResetCall where
  reset : OffsetReset
  since : Int64 := 0
  maxAttempts : Int64 := 0
  env : ListEnv

namespace ResetCall

/-- The call of `seekByTimestamp` for a partition. -/
def seekCall (call : ResetCall) (timestamp : Int64) (pk : PartKey) : SeekCall where
  topic := pk.topic
  timestamp := timestamp
  partitions := [pk.part]
  maxAttempts := call.maxAttempts
  readCommitted := call.reset.readCommitted
  env := call.env

def applyCommittedOffset (call : ResetCall) (co : CommittedOffset) (s : Seeking) :
    Option Error × Seeking :=
  if 0 ≤ co.offset then
    (none, { s with assignments := putOffset co.partKey co.offset s.assignments })
  else if 0 < call.reset.duration then (call.seekCall call.since co.partKey).seekByTimestamp s
  else if call.reset.fromBeginning then
    if call.reset.readCommitted then
      match seek co.topic co.partition 0 s.assignments with
      | .error e => (some e, s)
      | .ok assignments => (none, { s with assignments := assignments })
    else (call.seekCall (-2) co.partKey).seekByTimestamp s
  else (call.seekCall (-1) co.partKey).seekByTimestamp s

end ResetCall

/-! ## What a call can do -/

/-- The position of a partition: the offset of its first entry. -/
def offsetOf (assignments : List PartitionOffset) (pk : PartKey) : Option Int64 :=
  (assignments.find? (·.partKey = pk)).map (·.offset)

theorem offsetOf_cons {a : PartitionOffset} {assignments : List PartitionOffset} {pk : PartKey} :
    offsetOf (a :: assignments) pk =
      if a.partKey = pk then some a.offset else offsetOf assignments pk := by
  rw [offsetOf]
  by_cases h : a.partKey = pk
  · simp [h]
  · simp [h, offsetOf]

/-- A position that is put is the one of its partition, if that is assigned. -/
theorem offsetOf_putOffset {assignments : List PartitionOffset} {pk pk' : PartKey}
    {offset : Int64} :
    offsetOf (putOffset pk offset assignments) pk' =
      if pk = pk' ∧ pk ∈ assignments.map (·.partKey) then some offset
      else offsetOf assignments pk' := by
  induction assignments with
  | nil => simp [putOffset]
  | cons a assignments ih =>
    rw [putOffset]
    by_cases ha : a.partKey = pk
    · rw [if_pos ha, offsetOf_cons, offsetOf_cons]
      by_cases hpk : pk = pk'
      · simp [ha, hpk]
      · have ha' : a.partKey ≠ pk' := fun h => hpk (ha.symm.trans h)
        simp only [ha', if_false, hpk, false_and]
    · rw [if_neg ha, offsetOf_cons, offsetOf_cons, ih]
      by_cases ha' : a.partKey = pk'
      · have hpk : pk ≠ pk' := fun h => ha (ha'.trans h.symm)
        simp only [hpk, false_and, if_false]
      · simp [ha', Ne.symm ha]

theorem seek_eq_ok {partition : Int32}
    (h : seek topic partition offset assignments = .ok assignments') :
    ⟨topic, partition⟩ ∈ assignments.map (·.partKey) ∧
      assignments' = putOffset ⟨topic, partition⟩ offset assignments := by
  unfold seek at h
  split_ifs at h with hassigned
  cases h
  exact ⟨hassigned, rfl⟩

namespace SeekCall

/-- A call fails before its first attempt, or it is the loop of its attempts. -/
inductive Cases (call : SeekCall) (s : Seeking) : Prop
  | fails (e : Error) (hseek : call.seekByTimestamp s = (some e, s)) (hbegun : call.begun s = [])
  | tries (first : Int32) (rest : List Int32) (body : Bytes)
      (htargets : call.targets s.assignments = first :: rest)
      (hseek : call.seekByTimestamp s = (call.env.loop (call.attempt first rest body)).run
        (coordinatorAttempts call.maxAttempts) 0 s)
      (hbegun : call.begun s = (call.env.loop (call.attempt first rest body)).begun
        (coordinatorAttempts call.maxAttempts) 0 s)

variable {call : SeekCall} {s : Seeking}

theorem cases (call : SeekCall) (s : Seeking) : Cases call s := by
  rcases htargets : call.targets s.assignments with _ | ⟨first, rest⟩
  · exact .fails (.other ("gokafka: no partitions for topic " ++ call.topic.text))
      (by simp only [seekByTimestamp, htargets]) (by simp only [begun, htargets])
  · cases hbody : call.body (first :: rest) with
    | error e =>
      exact .fails e (by simp only [seekByTimestamp, htargets, hbody])
        (by simp only [begun, htargets, hbody])
    | ok body =>
      exact .tries first rest body htargets (by simp only [seekByTimestamp, htargets, hbody])
        (by simp only [begun, htargets, hbody])

/-- The loop over an answer moves positions and may refresh the metadata. -/
theorem applyListed_frame (i : Nat) (offs : List ListedOffset) (s : Seeking) :
    (call.applyListed i offs s).2.sent = s.sent ∧
      (call.applyListed i offs s).2.answers = s.answers := by
  fun_induction call.applyListed i offs s with
  | case1 => exact ⟨rfl, rfl⟩
  | case2 => split_ifs <;> exact ⟨rfl, rfl⟩
  | case3 => exact ⟨rfl, rfl⟩
  | case4 _ _ _ _ _ _ ih => exact ih

theorem map_partKey_applyListed (i : Nat) (offs : List ListedOffset) (s : Seeking) :
    (call.applyListed i offs s).2.assignments.map (·.partKey) =
      s.assignments.map (·.partKey) := by
  fun_induction call.applyListed i offs s with
  | case1 => rfl
  | case2 => split_ifs <;> rfl
  | case3 => rfl
  | case4 _ _ _ _ assignments hseek ih =>
    obtain ⟨-, rfl⟩ := seek_eq_ok hseek
    exact ih.trans map_partKey_putOffset

theorem map_partKey_attempt (body : Bytes) (i : Nat) (s : Seeking) :
    (call.attempt first rest body i s).2.assignments.map (·.partKey) =
      s.assignments.map (·.partKey) := by
  fun_cases call.attempt first rest body i s with
  | case1 | case2 => rfl
  | case3 _ _ _ _ offs => exact map_partKey_applyListed i offs _

/-- A call keeps the partitions. -/
theorem map_partKey_seekByTimestamp (call : SeekCall) (s : Seeking) :
    (call.seekByTimestamp s).2.assignments.map (·.partKey) = s.assignments.map (·.partKey) := by
  cases call.cases s with
  | fails e hseek => rw [hseek]
  | tries first rest body _ hseek =>
    rw [hseek]
    refine @Retry.run_induct _ _ (call.env.loop (call.attempt first rest body)) _ _ _
      (fun t => t.assignments.map (·.partKey) = s.assignments.map (·.partKey)) ?_ rfl
    exact fun i t h => (map_partKey_attempt body i t).trans h

/-- The assignments after the entries of an answer. -/
def putListed (offs : List ListedOffset) (assignments : List PartitionOffset) :
    List PartitionOffset :=
  offs.foldl (fun assignments o => putOffset o.partKey o.offset assignments) assignments

/-- The last entry of an answer for a partition. -/
def lastListed (offs : List ListedOffset) (pk : PartKey) : Option ListedOffset :=
  (offs.filter (·.partKey = pk)).getLast?

variable {offs : List ListedOffset} {s' : Seeking}

/-- After the entries of an answer each partition is where its last entry says. -/
theorem offsetOf_putListed (h : ∀ o ∈ offs, o.partKey ∈ assignments.map (·.partKey)) :
    offsetOf (putListed offs assignments) pk =
      ((lastListed offs pk).map (·.offset)).or (offsetOf assignments pk) := by
  induction offs generalizing assignments with
  | nil => rfl
  | cons o offs ih =>
    obtain ⟨hassigned, hoffs⟩ := forall_mem_cons.1 h
    rw [putListed, foldl_cons, ← putListed,
      ih (by rwa [map_partKey_putOffset]), offsetOf_putOffset, lastListed, lastListed,
      filter_cons]
    by_cases hpk : o.partKey = pk
    · subst hpk
      rw [if_pos ⟨rfl, hassigned⟩, if_pos (decide_eq_true rfl), List.getLast?_cons]
      cases (offs.filter (·.partKey = o.partKey)).getLast? with
      | none => rfl
      | some last => rfl
    · rw [if_neg fun hand => hpk hand.1, if_neg (by simpa using hpk)]

/-- If all entries of an answer are applied, none has an error code, and each is for a partition
that is assigned. -/
theorem applyListed_ok (h : call.applyListed i offs s = (none, s')) :
    (∀ o ∈ offs, o.errorCode = 0) ∧
      (∀ o ∈ offs, o.partKey ∈ s.assignments.map (·.partKey)) ∧
      s'.assignments = putListed offs s.assignments := by
  fun_induction call.applyListed i offs s with
  | case1 =>
    cases h
    exact ⟨nofun, nofun, rfl⟩
  | case2 | case3 => cases h
  | case4 _ _ _ hcode assignments hseek ih =>
    obtain ⟨hassigned, rfl⟩ := seek_eq_ok hseek
    obtain ⟨hcodes, hassigneds, hput⟩ := ih h
    rw [map_partKey_putOffset] at hassigneds
    exact ⟨forall_mem_cons.2 ⟨not_not.1 hcode, hcodes⟩,
      forall_mem_cons.2 ⟨hassigned, hassigneds⟩, hput⟩

/-- The requests that an attempt sends. -/
def sends (call : SeekCall) (first : Int32) (rest : List Int32) (i : Nat) (s : Seeking) :
    List SentList :=
  match (call.env.cacheAt i s.cluster).leaderBroker call.topic first with
  | .error _ => []
  | .ok leader =>
    [⟨leader.nodeID, call.request (first :: rest), call.env.cacheAt i s.cluster⟩]

theorem sent_attempt (body : Bytes) (i : Nat) (s : Seeking) :
    (call.attempt first rest body i s).2.sent = s.sent ++ call.sends first rest i s := by
  rw [sends]
  fun_cases call.attempt first rest body i s with
  | case1 c e hleader => rw [hleader, append_nil]
  | case2 c leader hleader => rw [hleader]
  | case3 c leader hleader t offs =>
    rw [hleader]
    exact (applyListed_frame i offs _).1

/-- What an attempt that succeeds was answered, and where it leaves the partitions. -/
structure Accepted (call : SeekCall) (first : Int32) (body : Bytes) (i : Nat) (s s' : Seeking)
    (offs : List ListedOffset) : Prop where
  listed : ∃ leader, (call.env.cacheAt i s.cluster).leaderBroker call.topic first = .ok leader ∧
    call.env.list i leader.nodeID body = .ok offs
  answers : s'.answers = s.answers ++ [offs]
  codes : ∀ o ∈ offs, o.errorCode = 0
  assigned : ∀ o ∈ offs, o.partKey ∈ s.assignments.map (·.partKey)
  assignments : s'.assignments = putListed offs s.assignments

theorem Accepted.offset {body : Bytes} (h : call.Accepted first body i s s' offs) (pk : PartKey) :
    offsetOf s'.assignments pk =
      ((lastListed offs pk).map (·.offset)).or (offsetOf s.assignments pk) := by
  rw [h.assignments, offsetOf_putListed h.assigned]

theorem Accepted.getLast?_answers {body : Bytes} (h : call.Accepted first body i s s' offs) :
    s'.answers.getLast? = some offs := by
  rw [h.answers, List.getLast?_concat]

theorem attempt_ok {body : Bytes} (h : call.attempt first rest body i s = (none, s')) :
    ∃ offs, call.Accepted first body i s s' offs := by
  revert h
  fun_cases call.attempt first rest body i s with
  | case1 | case2 => exact nofun
  | case3 c leader hleader t offs hlist =>
    intro h
    obtain ⟨hcodes, hassigned, hput⟩ := applyListed_ok h
    have hanswers := (@applyListed_frame call i offs _).2.symm.trans
      (congrArg (fun r => r.2.answers) h)
    exact ⟨offs, ⟨leader, hleader, hlist⟩, hanswers.symm, hcodes, hassigned, hput⟩

theorem seekByTimestamp_ok (h : (call.seekByTimestamp s).1 = none) :
    ∃ first body i t offs, call.Accepted first body i t (call.seekByTimestamp s).2 offs := by
  cases call.cases s with
  | fails e hseek =>
    rw [hseek] at h
    cases h
  | tries first rest body _ hseek =>
    rw [hseek] at h ⊢
    obtain ⟨i, t, -, -, -, hattempt⟩ := @Retry.run_ok _ _ _ _ _ _ (fun _ _ => True)
      (coordinatorAttempts_ne_zero _) (fun _ _ _ _ _ _ _ _ => trivial) trivial h
    obtain ⟨offs, haccepted⟩ := attempt_ok hattempt
    exact ⟨first, body, i, t, offs, haccepted⟩

end SeekCall

/-- Each answer lists just the partition, at the offset unless it has an error code. -/
def ListEnv.Lists (env : ListEnv) (pk : PartKey) (offset : Int64) : Prop :=
  ∀ i node body offs, env.list i node body = .ok offs →
    ∃ o, offs = [o] ∧ o.partKey = pk ∧ (o.errorCode = 0 → o.offset = offset)

/-- What a seek comes to that moves only this partition: it puts the partition at the offset, or it
fails and moves nothing. -/
def Puts (pk : PartKey) (offset : Int64) (assignments : List PartitionOffset)
    (out : Option Error × Seeking) : Prop :=
  out.2.assignments = if out.1 = none then putOffset pk offset assignments else assignments

namespace SeekCall

variable {call : SeekCall} {s : Seeking} {pk : PartKey} {offset : Int64}

theorem puts_attempt (hlists : call.env.Lists pk offset)
    (hassigned : pk ∈ s.assignments.map (·.partKey)) (body : Bytes) (i : Nat) :
    Puts pk offset s.assignments (call.attempt first rest body i s) := by
  fun_cases call.attempt first rest body i s with
  | case1 | case2 => rfl
  | case3 _ leader _ _ offs hlist =>
    obtain ⟨o, rfl, rfl, hoffset⟩ := hlists i leader.nodeID body offs hlist
    rw [applyListed]
    by_cases hcode : o.errorCode = 0
    · have hseek : seek o.topic o.partition o.offset s.assignments =
          .ok (putOffset o.partKey o.offset s.assignments) := if_pos hassigned
      rw [if_neg (not_not_intro hcode), hseek, ← hoffset hcode]
      rfl
    · rw [if_pos hcode]
      split_ifs <;> rfl

/-- A call moves the position of the partition listed, if it succeeds, and no other one. -/
theorem puts_seekByTimestamp (hlists : call.env.Lists pk offset)
    (hassigned : pk ∈ s.assignments.map (·.partKey)) :
    Puts pk offset s.assignments (call.seekByTimestamp s) := by
  cases call.cases s with
  | fails e hseek =>
    rw [hseek]
    rfl
  | tries first rest body _ hseek =>
    rw [hseek, Puts]
    -- the attempts before the last one fail
    have hkeeps : ∀ i (t : Seeking), t.assignments = s.assignments →
        (call.attempt first rest body i t).1 ≠ none →
        (call.attempt first rest body i t).2.assignments = s.assignments := by
      intro i t ht hfailed
      rw [puts_attempt hlists (ht ▸ hassigned) body i, if_neg hfailed, ht]
    split_ifs with hok
    · obtain ⟨i, t, ht, -, -, hattempt⟩ := @Retry.run_ok _ _
        (call.env.loop (call.attempt first rest body)) _ _ _
        (fun _ t => t.assignments = s.assignments) (coordinatorAttempts_ne_zero _)
        (fun i t e ht _ _ herr _ => hkeeps i t ht fun hnone => by cases hnone.symm.trans herr)
        rfl hok
      have hput := @puts_attempt call t pk offset first rest hlists (ht ▸ hassigned) body i
      rw [show call.attempt first rest body i t = _ from hattempt, Puts, if_pos rfl, ht] at hput
      exact hput
    · exact @Retry.run_failed _ _ (call.env.loop (call.attempt first rest body)) _ _ _
        (fun t => t.assignments = s.assignments) hkeeps rfl hok

end SeekCall

/-! ## Leaders -/

/-- A request names only partitions that its node leads, in the metadata it was sent from. -/
def SentList.Led (q : SentList) : Prop :=
  ∀ p ∈ q.parts, q.cluster.leaderBroker p.topic p.partition = .ok ⟨q.node⟩

/-- The leader of the first of some partitions, if it is known, leads them all. -/
def Cluster.LedTogether (c : Cluster) (topic : Bytes) (parts : List Int32) : Prop :=
  ∀ first ∈ parts.head?, ∀ leader, c.leaderBroker topic first = .ok leader →
    ∀ p ∈ parts, c.leaderBroker topic p = .ok leader

namespace SeekCall

variable {call : SeekCall}

theorem sends_led_iff :
    (∀ q ∈ call.sends first rest i s, q.Led) ↔
      (call.env.cacheAt i s.cluster).LedTogether call.topic (first :: rest) := by
  rw [sends]
  cases hleader : (call.env.cacheAt i s.cluster).leaderBroker call.topic first with
  | error e =>
    refine ⟨fun _ first' hfirst leader hok => ?_, nofun⟩
    cases hfirst
    rw [hleader] at hok
    cases hok
  | ok leader =>
    simp only [mem_singleton, forall_eq, SentList.Led, request, mem_map,
      forall_exists_index, and_imp, forall_apply_eq_imp_iff₂]
    constructor
    · intro hled first' hfirst leader' hok
      cases hfirst
      rw [hleader] at hok
      cases hok
      exact hled
    · exact fun h => h first rfl leader hleader

/-- In every call, the requests name only partitions that their broker leads exactly if in the
metadata of each attempt the leader of the first partition, if it is known, leads all of them. -/
theorem routed_iff (call : SeekCall) (cluster : Cluster) (assignments : List PartitionOffset) :
    (∀ q ∈ (call.seekByTimestamp { cluster := cluster, assignments := assignments }).2.sent,
      q.Led) ↔
      ∀ a ∈ call.begun { cluster := cluster, assignments := assignments },
        (call.env.cacheAt a.1 a.2.cluster).LedTogether call.topic (call.targets assignments) := by
  cases call.cases { cluster := cluster, assignments := assignments } with
  | fails e hseek hbegun =>
    rw [hseek, hbegun]
    exact ⟨nofun, nofun⟩
  | tries first rest body htargets hseek hbegun =>
    have htrace := @Retry.trace_run _ _ (call.env.loop (call.attempt first rest body))
      (coordinatorAttempts call.maxAttempts) 0 { cluster := cluster, assignments := assignments }
      _ Seeking.sent (call.sends first rest) (sent_attempt body)
    rw [hseek, hbegun, htrace, htargets]
    simp only [nil_append, mem_flatMap, forall_exists_index, and_imp]
    constructor
    · exact fun h a ha => sends_led_iff.1 fun q hq => h q a ha hq
    · exact fun h q a ha hq => sends_led_iff.2 (h a ha) q hq

/-- Where brokers answer with an error code for a partition that they do not lead, a call succeeds
only if one broker leads all its partitions. -/
theorem exists_leader_of_ok {leads : Nat → Int32 → Int32 → Prop}
    (hhonest : ∀ i node body offs, call.env.list i node body = .ok offs →
      ∀ p ∈ call.targets s.assignments, ¬ leads i node p → ∃ o ∈ offs, o.errorCode ≠ 0)
    (h : (call.seekByTimestamp s).1 = none) :
    ∃ i node, ∀ p ∈ call.targets s.assignments, leads i node p := by
  obtain ⟨first, body, i, t, offs, haccepted⟩ := seekByTimestamp_ok h
  obtain ⟨leader, -, hlist⟩ := haccepted.listed
  refine ⟨i, leader.nodeID, fun p hp => ?_⟩
  by_contra hforeign
  obtain ⟨o, ho, hcode⟩ := hhonest i leader.nodeID body offs hlist p hp hforeign
  exact hcode (haccepted.codes o ho)

end SeekCall

/-- The metadata of topic `t` with partitions 0 and 1, whose leaders are nodes 1 and 2. -/
def splitTopic : MetadataResponse where
  brokers := [⟨1⟩, ⟨2⟩]
  topics := [{ name := [116], partitions := [⟨0, 1, -1⟩, ⟨1, 2, -1⟩] }]

/-- A broker of that topic answers offset 5 for its partition, and that it is not the leader of the
other one. -/
def splitEnv : ListEnv where
  brokers _ _ _ := .answer splitTopic
  respond _ node _ := .ok (writeListOffsetsResponse
    [⟨[116], 0, 5, if node = 1 then 0 else 6⟩, ⟨[116], 1, 5, if node = 2 then 0 else 6⟩])

/-- `SeekToEnd` of both partitions asks node 1 for both in each of 25 attempts and fails. -/
theorem SeekCall.seek_split :
    let call : SeekCall :=
      { topic := [116], timestamp := -1, partitions := [0, 1], env := splitEnv }
    let out := call.seekByTimestamp
      { cluster := Cluster.storeMetadata { seeds := [] } splitTopic
        assignments := [⟨[116], 0, 0⟩, ⟨[116], 1, 0⟩] }
    out.1 = some (.kafka ⟨6, [116], 1, "list offsets failed"⟩) ∧
    out.2.sent.map (·.node) = List.replicate 25 1 ∧
    (∀ q ∈ out.2.sent, q.parts.map (·.partition) = [0, 1] ∧
      q.cluster.leaderBroker [116] 1 = .ok ⟨2⟩) := by
  refine ⟨by decide +kernel, by decide +kernel, by decide +kernel⟩

/-! ## Positions -/

/-- The position of a partition is a non-negative offset that an answer gave for it. -/
def GivenBy (offs : List ListedOffset) (assignments : List PartitionOffset) (pk : PartKey) : Prop :=
  ∃ o ∈ offs, o.partKey = pk ∧ 0 ≤ o.offset ∧ offsetOf assignments pk = some o.offset

/-- An answer has an entry for a partition, and the last one has a non-negative offset. -/
def Listed (offs : List ListedOffset) (pk : PartKey) : Prop :=
  ∃ o ∈ SeekCall.lastListed offs pk, 0 ≤ o.offset

theorem SeekCall.Accepted.givenBy_iff {call : SeekCall} {body : Bytes}
    (h : call.Accepted first body i s s' offs) :
    GivenBy offs s'.assignments pk ↔ Listed offs pk := by
  have hoffset := h.offset pk
  cases hlast : lastListed offs pk with
  | none =>
    -- without an entry nothing was given
    constructor
    · rintro ⟨o, ho, hpk, -⟩
      have hnil := List.getLast?_eq_none_iff.1 hlast
      exact absurd (decide_eq_true hpk) (filter_eq_nil_iff.1 hnil o ho)
    · rintro ⟨o, ho, -⟩
      rw [hlast] at ho
      cases ho
  | some last =>
    rw [hlast] at hoffset
    constructor
    · rintro ⟨o, -, -, hnonneg, hput⟩
      have heq : last.offset = o.offset := Option.some.inj (hoffset.symm.trans hput)
      exact ⟨last, hlast, heq ▸ hnonneg⟩
    · rintro ⟨o, ho, hnonneg⟩
      obtain rfl := Option.some.inj (hlast.symm.trans ho)
      obtain ⟨hmem, hpk⟩ := mem_filter.1 (mem_of_getLast? hlast)
      exact ⟨last, hmem, of_decide_eq_true hpk, hnonneg, hoffset⟩

/-- Where a partition starts: at its committed offset or, without one, where the configuration
says: at 0, or at the offset that a broker lists. -/
def startOf (r : OffsetReset) (committed listed : Int64) : Int64 :=
  if 0 ≤ committed then committed
  else if ¬ 0 < r.duration ∧ r.fromBeginning ∧ r.readCommitted then 0
  else listed

namespace ResetCall

/-- `applyCommittedOffset` seeks without asking a broker: the offset is committed, or a consumer
that reads only what is committed begins at 0. -/
def Direct (call : ResetCall) (co : CommittedOffset) : Prop :=
  0 ≤ co.offset ∨ (¬ 0 < call.reset.duration ∧ call.reset.fromBeginning ∧ call.reset.readCommitted)

/-- The partition is at its committed offset, at the offset 0 that was asked for, or at a
non-negative offset that the last answer gave for it. -/
def Placed (call : ResetCall) (co : CommittedOffset) (s : Seeking) : Prop :=
  (0 ≤ co.offset ∧ offsetOf s.assignments co.partKey = some co.offset) ∨
    (co.offset < 0 ∧ call.Direct co ∧ offsetOf s.assignments co.partKey = some 0) ∨
    (¬ call.Direct co ∧ ∃ offs ∈ s.answers.getLast?, GivenBy offs s.assignments co.partKey)

variable {call : ResetCall}

/-- Without a committed offset it seeks for a timestamp. -/
theorem applyCommittedOffset_seeks (h : ¬ call.Direct co) : ∃ timestamp,
    call.applyCommittedOffset co s = (call.seekCall timestamp co.partKey).seekByTimestamp s := by
  fun_cases call.applyCommittedOffset co s with
  | case1 hcommitted => exact absurd (.inl hcommitted) h
  | case3 _ hduration hbeginning hread | case4 _ hduration hbeginning hread =>
    exact absurd (.inr ⟨hduration, hbeginning, hread⟩) h
  | case2 | case5 | case6 => exact ⟨_, rfl⟩

theorem offsetOf_putOffset_self (h : pk ∈ assignments.map (·.partKey)) :
    offsetOf (putOffset pk offset assignments) pk = some offset := by
  rw [offsetOf_putOffset, if_pos ⟨rfl, h⟩]

theorem applyCommittedOffset_direct (h : call.Direct co)
    (hassigned : co.partKey ∈ s.assignments.map (·.partKey)) :
    call.Placed co (call.applyCommittedOffset co s).2 := by
  fun_cases call.applyCommittedOffset co s with
  | case1 hcommitted => exact .inl ⟨hcommitted, offsetOf_putOffset_self hassigned⟩
  | case2 hcommitted hduration => exact absurd hduration (h.resolve_left hcommitted).1
  | case3 _ _ _ _ e hseek => cases (if_pos hassigned).symm.trans hseek
  | case4 hcommitted _ _ _ assignments hseek =>
    obtain ⟨-, rfl⟩ := seek_eq_ok hseek
    exact .inr (.inl ⟨Int64.not_le.1 hcommitted, h, offsetOf_putOffset_self hassigned⟩)
  | case5 hcommitted _ _ hread => exact absurd (h.resolve_left hcommitted).2.2 hread
  | case6 hcommitted _ hbeginning => exact absurd (h.resolve_left hcommitted).2.1 hbeginning

/-- `applyCommittedOffset` keeps the partitions. -/
theorem map_partKey_applyCommittedOffset (call : ResetCall) (co : CommittedOffset) (s : Seeking) :
    (call.applyCommittedOffset co s).2.assignments.map (·.partKey) =
      s.assignments.map (·.partKey) := by
  fun_cases call.applyCommittedOffset co s with
  | case1 => exact map_partKey_putOffset
  | case3 => rfl
  | case4 _ _ _ _ assignments hseek =>
    obtain ⟨-, rfl⟩ := seek_eq_ok hseek
    exact map_partKey_putOffset
  | case2 | case5 | case6 => exact SeekCall.map_partKey_seekByTimestamp _ s

/-- `applyCommittedOffset` puts the partition where it starts, if it succeeds, and moves no other
one. -/
theorem puts_applyCommittedOffset {listed : Int64} (hlists : call.env.Lists co.partKey listed)
    (hassigned : co.partKey ∈ s.assignments.map (·.partKey)) :
    Puts co.partKey (startOf call.reset co.offset listed) s.assignments
      (call.applyCommittedOffset co s) := by
  fun_cases call.applyCommittedOffset co s with
  | case1 hcommitted =>
    rw [startOf, if_pos hcommitted]
    rfl
  | case3 _ _ _ _ e hseek => cases (if_pos hassigned).symm.trans hseek
  | case4 hcommitted hduration hbeginning hread assignments hseek =>
    obtain ⟨-, rfl⟩ := seek_eq_ok hseek
    rw [startOf, if_neg hcommitted, if_pos ⟨hduration, hbeginning, hread⟩]
    rfl
  | case2 hcommitted hduration =>
    rw [startOf, if_neg hcommitted, if_neg fun h => h.1 hduration]
    exact SeekCall.puts_seekByTimestamp hlists hassigned
  | case5 hcommitted _ _ hread =>
    rw [startOf, if_neg hcommitted, if_neg fun h => hread h.2.2]
    exact SeekCall.puts_seekByTimestamp hlists hassigned
  | case6 hcommitted _ hbeginning =>
    rw [startOf, if_neg hcommitted, if_neg fun h => hbeginning h.2.1]
    exact SeekCall.puts_seekByTimestamp hlists hassigned

end ResetCall

/-- If `seekByTimestamp` returns nil, the positions of all its partitions are non-negative offsets
that the answer it accepted gave for them exactly if the answer has an entry for each of them, the
last of which has a non-negative offset; and if `applyCommittedOffset` returns nil for an assigned
partition, the partition is where it should be exactly if no broker was asked or the answer has such
an entry. -/
theorem positioned_iff (call : SeekCall) (reset : ResetCall) (co : CommittedOffset) (s : Seeking) :
    ((call.seekByTimestamp s).1 = none →
      ∃ offs, (call.seekByTimestamp s).2.answers.getLast? = some offs ∧
        ((∀ p ∈ call.targets s.assignments,
            GivenBy offs (call.seekByTimestamp s).2.assignments ⟨call.topic, p⟩) ↔
          ∀ p ∈ call.targets s.assignments, Listed offs ⟨call.topic, p⟩)) ∧
    ((reset.applyCommittedOffset co s).1 = none → co.partKey ∈ s.assignments.map (·.partKey) →
      (reset.Placed co (reset.applyCommittedOffset co s).2 ↔
        reset.Direct co ∨ ∃ offs ∈ (reset.applyCommittedOffset co s).2.answers.getLast?,
          Listed offs co.partKey)) := by
  refine ⟨fun hok => ?_, fun hok hassigned => ?_⟩
  · obtain ⟨first, body, i, t, offs, haccepted⟩ := SeekCall.seekByTimestamp_ok hok
    exact ⟨offs, haccepted.getLast?_answers,
      forall₂_congr fun p _ => haccepted.givenBy_iff⟩
  · by_cases hdirect : reset.Direct co
    · exact ⟨fun _ => .inl hdirect, fun _ =>
        ResetCall.applyCommittedOffset_direct hdirect hassigned⟩
    · obtain ⟨timestamp, hseek⟩ := ResetCall.applyCommittedOffset_seeks (s := s) hdirect
      rw [hseek] at hok ⊢
      obtain ⟨first, body, i, t, offs, haccepted⟩ := SeekCall.seekByTimestamp_ok hok
      have hlast := haccepted.getLast?_answers
      constructor
      · rintro (⟨hcommitted, -⟩ | ⟨-, hdirect', -⟩ | ⟨-, offs', hoffs', hgiven⟩)
        · exact .inl (.inl hcommitted)
        · exact .inl hdirect'
        · obtain rfl := Option.some.inj (hlast.symm.trans hoffs')
          exact .inr ⟨offs, hlast, (haccepted.givenBy_iff).1 hgiven⟩
      · rintro (hdirect' | ⟨offs', hoffs', hlisted⟩)
        · exact absurd hdirect' hdirect
        · obtain rfl := Option.some.inj (hlast.symm.trans hoffs')
          exact .inr (.inr ⟨hdirect, offs, hlast, (haccepted.givenBy_iff).2 hlisted⟩)

/-- A consumer that is assigned the partition of `leadTopic`, at the position that `applyAssignment`
gives it. -/
def justAssigned : Seeking where
  cluster := Cluster.storeMetadata { seeds := [] } leadTopic
  assignments := [⟨[116], 0, 0⟩]

theorem positioned_iff_one :
    let call : SeekCall :=
      { topic := [116], timestamp := -1, partitions := [0], env := oneLeaderEnv [⟨[116], 0, 7, 0⟩] }
    let reset : ResetCall := { reset := {}, env := oneLeaderEnv [⟨[116], 0, 7, 0⟩] }
    (call.seekByTimestamp justAssigned).1 = none ∧
    (∃ offs, (call.seekByTimestamp justAssigned).2.answers.getLast? = some offs ∧
      ((∀ p ∈ call.targets justAssigned.assignments,
          GivenBy offs (call.seekByTimestamp justAssigned).2.assignments ⟨[116], p⟩) ↔
        ∀ p ∈ call.targets justAssigned.assignments, Listed offs ⟨[116], p⟩)) ∧
    (reset.Placed ⟨[116], 0, -1, 0⟩ (reset.applyCommittedOffset ⟨[116], 0, -1, 0⟩ justAssigned).2 ↔
      reset.Direct ⟨[116], 0, -1, 0⟩ ∨
        ∃ offs ∈ (reset.applyCommittedOffset ⟨[116], 0, -1, 0⟩ justAssigned).2.answers.getLast?,
          Listed offs ⟨[116], 0⟩) := by
  intro call reset
  have h := positioned_iff call reset ⟨[116], 0, -1, 0⟩ justAssigned
  exact ⟨by decide +kernel, h.1 (by decide +kernel), h.2 (by decide +kernel) (by decide)⟩

/-- A seek to a time after which there is no record puts the partition at -1, an answer without an
entry leaves it where it was, and `applyCommittedOffset` does the same; all return nil. -/
theorem seek_unlisted :
    let seekTime (offs : List ListedOffset) : SeekCall :=
      { topic := [116], timestamp := 1000, partitions := [0], env := oneLeaderEnv offs }
    let reset (offs : List ListedOffset) : ResetCall :=
      { reset := { duration := 1 }, since := 1000, env := oneLeaderEnv offs }
    let unset : CommittedOffset := ⟨[116], 0, -1, 0⟩
    ((seekTime [⟨[116], 0, -1, 0⟩]).seekByTimestamp justAssigned).1 = none ∧
    ((seekTime [⟨[116], 0, -1, 0⟩]).seekByTimestamp justAssigned).2.assignments = [⟨[116], 0, -1⟩] ∧
    ((seekTime []).seekByTimestamp justAssigned).1 = none ∧
    ((seekTime []).seekByTimestamp justAssigned).2.assignments = [⟨[116], 0, 0⟩] ∧
    ((reset [⟨[116], 0, -1, 0⟩]).applyCommittedOffset unset justAssigned).1 = none ∧
    ((reset [⟨[116], 0, -1, 0⟩]).applyCommittedOffset unset justAssigned).2.assignments =
      [⟨[116], 0, -1⟩] ∧
    ((reset []).applyCommittedOffset unset justAssigned).1 = none ∧
    ((reset []).applyCommittedOffset unset justAssigned).2.assignments = [⟨[116], 0, 0⟩] := by
  decide +kernel

end GoKafka
