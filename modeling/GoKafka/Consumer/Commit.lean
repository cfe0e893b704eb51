import GoKafka.Consumer.Positions
import GoKafka.Consumer.Listener

/-!
# Commits and generations

`Consumer.commitOffsets` in `consumer.go` retries a commit that is fenced after it has joined the
group again, with the records it was given and the generation the rejoin ended in. An OffsetCommit
is `Owned` when the consumer took its partitions under the generation it is sent with. Two things
break that: a rejoin in the middle of a commit can take a partition of the records away, and a
cooperative member whose join fails between JoinGroup and SyncGroup keeps its partitions and has
another generation. `commit_owned` says that all requests of a run are owned where neither happens.
-/

namespace GoKafka

open Assoc

/-! ## Committing -/

/-- The offsets of a commit by a member with these assignments. -/
def offsetsOf (assignments : List PartitionOffset) (records : List Record) :
    AList fun _ : PartKey => Int64 :=
  if records = [] then index (·.partKey) (·.offset) assignments
  else index (·.partKey) (·.offset + 1) records

theorem mem_offsetsOf (h : pk ∈ offsetsOf assignments records) :
    (records = [] ∧ pk ∈ assignments.map (·.partKey)) ∨ pk ∈ records.map (·.partKey) := by
  have hmem : ∀ {α : Type} {key : α → PartKey} {val : α → Int64} {xs : List α},
      pk ∈ index key val xs → pk ∈ xs.map key := by
    intro α key val xs hpk
    by_contra hnot
    have hsome := AList.lookup_isSome.2 hpk
    rw [lookup_index_eq_none.2 hnot] at hsome
    cases hsome
  rw [offsetsOf] at h
  split_ifs at h with hrecords
  · exact .inl ⟨hrecords, hmem h⟩
  · exact .inr (hmem h)

/-- A member, with the assignment it took last: the generation it was taken under and its
partitions. -/
structure Committer where
  member : GroupMember
  taken : Option (Int32 × List PartKey) := none

/-- The member after a call that may join. -/
def Committer.join (s : Committer) (call : JoinCall) : Committer where
  member := call.member
  taken := if call.applied then some (call.member.generation, call.member.held) else s.taken

/-- An OffsetCommit request, with the assignment taken last when it was sent. -/
structure OffsetCommitRequest where
  generation : Int32
  offsets : AList fun _ : PartKey => Int64
  taken : Option (Int32 × List PartKey)

/-- The request of an attempt. -/
def Committer.request (s : Committer) (records : List Record) : OffsetCommitRequest :=
  ⟨s.member.generation, offsetsOf s.member.assignments records, s.taken⟩

/-- What an attempt to commit meets. -/
structure CommitAttempt where
  /-- The client is not closed. -/
  opened : Except Error Unit := .ok ()
  coordinator : Except Error Unit := .ok ()
  /-- The code of the answer. -/
  answer : Except Error Int16
  slept : Except Error Unit := .ok ()
  rejoin : JoinEnv

/-- How `commitOffsets` ends: its result, the member, the requests and the member after each rejoin
that succeeded. -/
structure CommitCall where
  result : Except Error Unit
  state : Committer
  requests : List OffsetCommitRequest := []
  rejoined : List Committer := []

/-- `Consumer.commitOffsets`, with the attempts that may follow. -/
def Committer.commitOffsets (attempt : Nat → CommitAttempt) (records : List Record) :
    Nat → Nat → Committer → CommitCall
  | left, i, s =>
    match (attempt i).opened with
    | .error e => { result := .error e, state := s }
    | .ok () =>
      match (attempt i).coordinator with
      | .error e => { result := .error e, state := s }
      | .ok () =>
        let request := s.request records
        match (attempt i).answer with
        | .error e => { result := .error e, state := s, requests := [request] }
        | .ok code =>
          let failed := Error.kafka ⟨code, [], 0, "offset commit failed"⟩
          if code = 0 then { result := .ok (), state := s, requests := [request] }
          else
            match left with
            | 0 => { result := .error failed, state := s, requests := [request] }
            | left + 1 =>
              if code = errCodeRebalanceInProg then
                match (attempt i).slept with
                | .error e => { result := .error e, state := s, requests := [request] }
                | .ok () =>
                  let call := commitOffsets attempt records left (i + 1) s
                  { call with requests := request :: call.requests }
              else if shouldRejoin failed then
                match (attempt i).slept with
                | .error e => { result := .error e, state := s, requests := [request] }
                | .ok () =>
                  let join := s.member.rejoin (attempt i).rejoin
                  match join.result with
                  | .error e => { result := .error e, state := s.join join, requests := [request] }
                  | .ok () =>
                    let call := commitOffsets attempt records left (i + 1) (s.join join)
                    { call with
                      requests := request :: call.requests
                      rejoined := s.join join :: call.rejoined }
              else { result := .error failed, state := s, requests := [request] }

def Committer.commit (s : Committer) (records : List Record) (attempt : Nat → CommitAttempt) :
    CommitCall :=
  s.commitOffsets attempt records 19 0

/-! ## Runs -/

/-- A step of a consumer: a call that may join, a call that moves positions, or a Commit. -/
inductive CommitterStep where
  | group (step : GroupStep)
  | moved (offset : PartKey → Int64)
  | commit (records : List Record) (attempt : Nat → CommitAttempt)

/-- The consumer after a step. -/
def Committer.next (s : Committer) : CommitterStep → Committer
  | .group step => s.join (step.call s.member)
  | .moved offset =>
    { s with member.assignments := s.member.assignments.map fun a =>
        { a with offset := offset a.partKey } }
  | .commit records attempt => (s.commit records attempt).state

/-- The OffsetCommit requests of a step. -/
def Committer.requests (s : Committer) : CommitterStep → List OffsetCommitRequest
  | .commit records attempt => (s.commit records attempt).requests
  | _ => []

/-- The consumer took the partitions of the request under its generation. -/
def OffsetCommitRequest.Owned (r : OffsetCommitRequest) : Prop :=
  ∀ pk ∈ r.offsets, ∃ held, r.taken = some (r.generation, held) ∧ pk ∈ held

/-- The records of a Commit belong to partitions that are assigned when the call starts. -/
def CommitterStep.Assigned (s : Committer) : CommitterStep → Prop
  | .commit records _ => ∀ r ∈ records, r.partKey ∈ s.member.held
  | _ => True

/-- No step leaves partitions under a generation they were not taken in: a call that joins takes an
assignment, or ends without partitions or in the generation it started in, and a rejoin inside a
Commit keeps the partitions of the records. -/
def CommitterStep.Kept (s : Committer) : CommitterStep → Prop
  | .group step =>
    (step.call s.member).applied = true ∨ (step.call s.member).member.assignments = [] ∨
      (step.call s.member).member.generation = s.member.generation
  | .moved _ => True
  | .commit records attempt =>
    ∀ s' ∈ (s.commit records attempt).rejoined, ∀ r ∈ records, r.partKey ∈ s'.member.held

/-- The assignments are those taken last, under the current generation. -/
def Committer.Current (s : Committer) : Prop :=
  s.member.assignments = [] ∨ s.taken = some (s.member.generation, s.member.held)

/-! ## Joining -/

theorem takeAssignment_applied (m : GroupMember) :
    (m.takeAssignment raw load).applied = true ∨
      (m.takeAssignment raw load).member = m ∧ (m.takeAssignment raw load).result ≠ .ok () := by
  fun_cases m.takeAssignment raw load with
  | case1 => exact .inr ⟨rfl, fun h => by cases h⟩
  | case2 | case3 => exact .inl rfl

/-- A call that takes no assignment fails and keeps the assignments. -/
theorem GroupMember.Joins.applied {m : GroupMember} (h : m.Joins load call) :
    call.applied = true ∨ call.member.assignments = m.assignments ∧ call.result ≠ .ok () := by
  obtain ⟨m', ⟨_, _, _, rfl⟩, ⟨e, rfl⟩ | ⟨raw, syncs, rfl⟩⟩ := h
  · exact .inr ⟨rfl, fun hok => by cases hok⟩
  · refine (takeAssignment_applied _).imp_right fun h => ⟨?_, h.2⟩
    exact congrArg (·.assignments) h.1

/-- A step that takes no assignment keeps the assignments or drops them all. -/
theorem GroupStep.applied (m : GroupMember) (step : GroupStep) :
    (step.call m).applied = true ∨ (step.call m).member.assignments = m.assignments ∨
      (step.call m).member.assignments = [] := by
  have hrebalance : ∀ left env, (m.rebalance left env).applied = true ∨
      (m.rebalance left env).member.assignments = m.assignments ∨
      (m.rebalance left env).member.assignments = [] := by
    intro left env
    cases hcoop : m.cooperative with
    | true =>
      rw [rebalance_of_cooperative hcoop]
      exact (joinAndAssign_joins m env).applied.imp_right fun h => .inl h.1
    | false =>
      rw [rebalance_of_eager hcoop]
      cases left with
      | error e => exact .inr (.inl rfl)
      | ok u => exact (joinAndAssign_joins _ env).applied.imp_right fun h => .inr h.1
  cases step with
  | poll env =>
    rw [GroupStep.call]
    split_ifs
    · exact (joinAndAssign_joins m env).applied.imp_right fun h => .inl h.1
    · exact .inr (.inl rfl)
  | rebalance left env => exact hrebalance left env
  | fetchRebalance left env =>
    rw [GroupStep.call]
    split_ifs with hcoop
    · exact (joinAndAssign_joins m env).applied.imp_right fun h => .inl h.1
    · exact hrebalance left env
  | heartbeat env =>
    rw [GroupStep.call]
    split_ifs
    · exact (joinAndAssign848_joins).applied.imp_right fun h => .inr h.1
    · exact (joinAndAssign_joins _ env).applied.imp_right fun h => .inr h.1
  | commit env => exact (joinAndAssign_joins _ env).applied.imp_right fun h => .inr h.1

section Current

variable {s : Committer}

theorem current_of_applied (h : call.applied = true) : (s.join call).Current :=
  .inr (if_pos h)

/-- A rejoin drops the assignments first, so that whatever it ends with was taken by it. -/
theorem current_rejoin : (s.join (s.member.rejoin env)).Current :=
  (joinAndAssign_joins { s.member with assignments := [] } env).applied.elim current_of_applied
    fun h => .inl h.1

theorem Committer.Current.group (h : s.Current) (hkept : CommitterStep.Kept s (.group step)) :
    (s.join (step.call s.member)).Current := by
  cases happlied : (step.call s.member).applied with
  | true => exact current_of_applied happlied
  | false =>
    rcases hkept with h' | hnil | hgeneration
    · rw [happlied] at h'
      cases h'
    · exact .inl hnil
    · rcases step.applied s.member with h' | hsame | hnil
      · rw [happlied] at h'
        cases h'
      · rcases h with hnil | htaken
        · exact .inl (hsame.trans hnil)
        · refine .inr ?_
          rw [Committer.join, happlied, if_neg Bool.false_ne_true, htaken]
          rw [hgeneration, GroupConsumer.held, GroupConsumer.held, hsame]
      · exact .inl hnil

/-! ## Requests -/

/-- The request of a consumer that has the partitions of the records. -/
theorem Committer.Current.owned (h : s.Current)
    (hrecords : ∀ r ∈ records, r.partKey ∈ s.member.held) : (s.request records).Owned := by
  intro pk hpk
  have hheld : pk ∈ s.member.held := by
    rcases mem_offsetsOf hpk with ⟨-, hpk⟩ | hpk
    · exact hpk
    · obtain ⟨r, hr, rfl⟩ := List.mem_map.1 hpk
      exact hrecords r hr
  rcases h with hnil | htaken
  · rw [GroupConsumer.held, hnil] at hheld
    cases hheld
  · exact ⟨s.member.held, htaken, hheld⟩

/-- A Commit whose rejoins keep the partitions of the records: by induction on the attempts that are
left, each of which starts with the partitions of the records assigned. -/
theorem commitOffsets_owned {attempt : Nat → CommitAttempt} (i : Nat) (h : s.Current)
    (hrecords : ∀ r ∈ records, r.partKey ∈ s.member.held)
    (hkept : ∀ s' ∈ (s.commitOffsets attempt records left i).rejoined,
      ∀ r ∈ records, r.partKey ∈ s'.member.held) :
    (s.commitOffsets attempt records left i).state.Current ∧
      ∀ q ∈ (s.commitOffsets attempt records left i).requests, q.Owned := by
  fun_induction Committer.commitOffsets with
  | case1 | case2 => exact ⟨h, nofun⟩
  | case3 | case4 | case5 | case6 | case8 | case11 =>
    exact ⟨h, List.forall_mem_singleton.2 (h.owned hrecords)⟩
  | case7 _ _ _ _ _ _ _ _ _ _ ih =>
    obtain ⟨hcurrent, hrest⟩ := ih h hrecords hkept
    exact ⟨hcurrent, List.forall_mem_cons.2 ⟨h.owned hrecords, hrest⟩⟩
  | case9 => exact ⟨current_rejoin, List.forall_mem_singleton.2 (h.owned hrecords)⟩
  | case10 =>
    rename_i ih
    obtain ⟨hjoined, hkept⟩ := List.forall_mem_cons.1 hkept
    obtain ⟨hcurrent, hrest⟩ := ih current_rejoin hjoined hkept
    exact ⟨hcurrent, List.forall_mem_cons.2 ⟨h.owned hrecords, hrest⟩⟩

/-- The assignments stay those of the generation, and what a step sends is owned. -/
theorem Committer.Current.next (h : s.Current) (hassigned : step.Assigned s) (hkept : step.Kept s) :
    (s.next step).Current ∧ ∀ q ∈ s.requests step, q.Owned := by
  cases step with
  | group step => exact ⟨h.group hkept, nofun⟩
  | moved offset =>
    refine ⟨?_, nofun⟩
    rcases h with hnil | htaken
    · refine .inl ?_
      rw [Committer.next]
      rw [hnil]
      rfl
    · refine .inr ?_
      rw [Committer.next]
      rw [htaken, GroupConsumer.held, GroupConsumer.held, List.map_map]
      rfl
  | commit records attempt => exact commitOffsets_owned 0 h hassigned hkept

end Current

/-- In every run in which the records of a Commit belong to assigned partitions and no step leaves
partitions under a generation they were not taken in, every OffsetCommit is owned. -/
theorem commit_owned {m : GroupMember} (hnil : m.assignments = []) {steps : List CommitterStep}
    (hassigned : Run.Along Committer.next (fun s step => step.Assigned s) { member := m } steps)
    (hkept : Run.Along Committer.next (fun s step => step.Kept s) { member := m } steps) :
    ∀ q ∈ Run.outputs Committer.next Committer.requests { member := m } steps, q.Owned := by
  have hstart : Committer.Current { member := m } := .inl hnil
  have hnext : ∀ (s : Committer) (step : CommitterStep), s.Current → step.Assigned s ∧ step.Kept s →
      (s.next step).Current ∧ ∀ q ∈ s.requests step, q.Owned :=
    fun _ _ h hstep => h.next hstep.1 hstep.2
  exact (hassigned.and hkept).outputs (fun s step h hstep => (hnext s step h hstep).1)
    (fun s step h hstep => (hnext s step h hstep).2) hstart

/-! ## A partition taken away, and a join that fails -/

/-- A join in a generation, with a SyncGroup answer. -/
def joinIn (generation : Int32) (sync : Except Error Bytes) : JoinEnv where
  brokers := groupBrokers
  attempt _ :=
    { joined := .ok { generationID := generation, memberID := [97], leaderID := [98]
                      protocolName := "range", assignments := ∅ }
      sync := fun _ => sync }
  load := { fetched := fun _ => .ok [{ topic := [116], partition := 0, offset := 3 },
                                     { topic := [116], partition := 1, offset := 3 }] }

/-- The bytes that assign partition 1 of topic `t`. -/
def assignedT1 : Bytes := [0, 0, 0, 0, 0, 1, 0, 1, 116, 0, 0, 0, 1, 0, 0, 0, 1]

/-- A commit that is answered UNKNOWN_MEMBER_ID first; the rejoin is in generation 8. -/
def fencedOnce (raw : Bytes) : Nat → CommitAttempt
  | 0 => { answer := .ok 25, rejoin := joinIn 8 (.ok raw) }
  | _ + 1 => { answer := .ok 0, rejoin := joinIn 8 (.ok raw) }

/-- What a request names, and what was taken last. -/
def OffsetCommitRequest.summary (r : OffsetCommitRequest) :
    Int32 × List PartKey × Option (Int32 × List PartKey) :=
  (r.generation, r.offsets.keys, r.taken)

/-- A join that gives partition 0, and a Commit of one record of it. -/
def joinThenCommit (attempt : Nat → CommitAttempt) : List CommitterStep :=
  [.group (.poll (joinIn 7 (.ok assignedT0))),
    .commit [{ topic := [116], partition := 0, offset := 4 }] attempt]

/-- A fenced commit whose rejoin keeps partition 0. -/
theorem commit_owned_retry : (Run.outputs Committer.next Committer.requests { member := newMember }
        (joinThenCommit (fencedOnce assignedT0))).map OffsetCommitRequest.summary =
      [(7, [⟨[116], 0⟩], some (7, [⟨[116], 0⟩])), (8, [⟨[116], 0⟩], some (8, [⟨[116], 0⟩]))] ∧
    ∀ q ∈ Run.outputs Committer.next Committer.requests { member := newMember }
        (joinThenCommit (fencedOnce assignedT0)), q.Owned := by
  refine ⟨by decide +kernel, commit_owned rfl ⟨trivial, ?_, trivial⟩ ⟨.inl ?_, ?_, trivial⟩⟩
  · change ∀ r ∈ _, _
    decide +kernel
  · decide +kernel
  · change ∀ s' ∈ _, ∀ r ∈ _, _
    decide +kernel

/-- A rejoin inside a commit takes partition 0 away, and the commit is sent again in generation 8;
and a cooperative member whose join fails after JoinGroup commits in generation 8 what it took in
generation 7. -/
theorem commit_of_lost_partition :
    (Run.outputs Committer.next Committer.requests { member := newMember }
        (joinThenCommit (fencedOnce assignedT1))).map OffsetCommitRequest.summary =
      [(7, [⟨[116], 0⟩], some (7, [⟨[116], 0⟩])), (8, [⟨[116], 0⟩], some (8, [⟨[116], 1⟩]))] ∧
    (Run.outputs Committer.next Committer.requests
        { member := { newMember with cooperative := true } }
        [.group (.poll (joinIn 7 (.ok assignedT0))),
          .group (.rebalance (.ok ()) (joinIn 8 (.error (.other "connection reset")))),
          .commit [] fun _ => { answer := .ok 0, rejoin := joinIn 9 (.ok []) }]).map
          OffsetCommitRequest.summary =
      [(8, [⟨[116], 0⟩], some (7, [⟨[116], 0⟩]))] := by
  refine ⟨?_, ?_⟩ <;> decide +kernel

end GoKafka
