import GoKafka.Consumer.Retained

/-!
# What a successful join means

A call of `joinAndAssign` that returns nil should leave the member with the partitions of the
SyncGroup answer it got, in the generation of the JoinGroup before it (`JoinCall.Exact`). The code
after the join loop does not see how the loop was left: when all rounds are used up it takes the nil
assignment, which makes an eager member take every partition of its topics, as an answer without
partitions does. `joinAndAssign_exact_iff` says when a call that returns nil is exact.
-/

namespace GoKafka

/-- Some SyncGroup of the call succeeded, the member has exactly the partitions encoded in the last
one, and its generation is that of the JoinGroup before it. -/
def JoinCall.Exact (call : JoinCall) : Prop :=
  ∃ generation raw parsed, call.syncs.getLast? = some (generation, raw) ∧
    parseMemberAssignment raw = .ok parsed ∧
    (∀ pk, pk ∈ call.member.held ↔ pk ∈ encodedPartitions parsed) ∧
    call.member.generation = generation

/-- Taking an assignment with success: the member keeps its generation, and has the partitions of
the assignment, or of all its topics if it is eager and the assignment is empty. -/
theorem takeAssignment_ok {m : GroupMember} (hok : (m.takeAssignment raw env).result = .ok ()) :
    (m.takeAssignment raw env).member.generation = m.generation ∧
    (m.takeAssignment raw env).member.allPartitions = m.allPartitions ∧
    ∃ parsed, parseMemberAssignment raw = .ok parsed ∧
      ((m.cooperative = false ∧ parsed = [] ∧
          (m.takeAssignment raw env).member.held = m.allPartitions.map (·.partKey)) ∨
        ((m.cooperative = true ∨ parsed ≠ []) ∧
          ∀ pk, pk ∈ (m.takeAssignment raw env).member.held ↔ pk ∈ encodedPartitions parsed)) := by
  revert hok
  fun_cases m.takeAssignment raw env with
  | case1 | case2 => exact nofun
  | case3 notified c events happly _ st _ _ hload =>
    intro _
    have hkeys := map_partKey_loadCommittedOffsets { m with toGroupConsumer := c } env
    rw [show _ = _ from hload] at hkeys
    have hafter : st.assignments.map (·.partKey) = c.held := hkeys
    obtain ⟨parsed, hparse, hheld⟩ := applyAssignment_held happly
    obtain ⟨assignments, rfl⟩ := applyAssignment_consumer happly
    refine ⟨rfl, rfl, parsed, hparse, ?_⟩
    rw [GroupConsumer.held, hafter]
    rcases hheld with ⟨heager, hnil, hall⟩ | hexact
    · exact .inl ⟨heager, hnil, by rw [GroupConsumer.held, hall]⟩
    · exact .inr hexact

/-- A call of the classic protocol that returns nil is exact if and only if a SyncGroup succeeded
and its assignment is not an empty one that an eager member with partitions in its metadata takes.
-/
theorem joinAndAssign_exact_iff {m : GroupMember} (hclassic : m.nextGen = false) (env : JoinEnv)
    (hok : (m.joinAndAssign env).result = .ok ()) :
    (m.joinAndAssign env).Exact ↔
      ∃ generation raw parsed, (m.joinAndAssign env).syncs.getLast? = some (generation, raw) ∧
        parseMemberAssignment raw = .ok parsed ∧
        (m.cooperative = true ∨ parsed ≠ [] ∨ (m.joinAndAssign env).member.allPartitions = []) := by
  obtain ⟨m', ⟨cluster, memberID, generation, rfl⟩, hends⟩ := joinAndAssign_classic hclassic
  generalize hm' : ({ m with cluster := cluster, memberID := memberID,
                             generation := generation } : GroupMember) = m' at hends
  have hcoop : m'.cooperative = m.cooperative := by rw [← hm']
  rcases hends with ⟨e, hfailed⟩ | ⟨raw, htaken⟩ | hexhausted
  · rw [hfailed] at hok
    cases hok
  · rw [htaken] at hok ⊢
    obtain ⟨hgeneration, hall, parsed, hparse, hheld⟩ := takeAssignment_ok hok
    refine exists₃_congr fun g raw' parsed' =>
      and_congr_right fun hlast => and_congr_right fun hparse' => ?_
    cases hlast
    obtain rfl := Except.ok.inj (hparse.symm.trans hparse')
    rw [and_iff_left hgeneration]
    rcases hheld with ⟨heager, rfl, heq⟩ | ⟨hsome, hexact⟩
    · -- nothing is encoded, so nothing may be held
      have hnil : (∀ pk, pk ∈ m'.allPartitions.map (·.partKey) ↔ pk ∈ encodedPartitions []) ↔
          m'.allPartitions = [] := by
        rw [← List.map_eq_nil_iff (f := (·.partKey)), List.eq_nil_iff_forall_not_mem]
        exact forall_congr' fun pk => iff_false_right List.not_mem_nil
      rw [heq, hnil, hall, ← hcoop, heager]
      simp
    · exact iff_of_true hexact (hsome.elim (fun h => .inl (hcoop ▸ h)) fun h => .inr (.inl h))
  · rw [hexhausted]
    constructor
    · rintro ⟨g, raw, parsed, hlast, -⟩
      cases hlast
    · rintro ⟨g, raw, parsed, hlast, -⟩
      cases hlast

/-! ## Rounds used up, and an empty answer -/

/-- A member that follows, in a group without partitions so far. -/
def newMember : GroupMember where
  topics := [[116]]
  cluster := { seeds := [] }

/-- A join with a SyncGroup answer. -/
def joinWith (raw : Bytes) : JoinEnv where
  brokers := groupBrokers
  attempt _ :=
    { joined := .ok { generationID := 7, memberID := [97], leaderID := [98]
                      protocolName := "range", assignments := ∅ }
      sync := fun _ => .ok raw }
  load := { fetched := fun _ => .ok [{ topic := [116], partition := 0, offset := 3 }] }

/-- A join whose coordinator is not available in any round. -/
def neverJoins : JoinEnv :=
  { joinWith [] with
    attempt := fun _ => { joined := .error (.api "join group" 15), sync := fun _ => .ok [] } }

/-- A join that assigns partition 0 is exact. -/
theorem joinAndAssign_exact_seven : (newMember.joinAndAssign (joinWith assignedT0)).Exact :=
  (joinAndAssign_exact_iff rfl (joinWith assignedT0) (by decide +kernel)).2
    ⟨7, assignedT0, [⟨[116], [0]⟩], by decide +kernel, by decide +kernel, .inr (.inl (by decide))⟩

/-- After twenty rounds without a SyncGroup the call returns nil and the member has partition 0; so
it does when the answer assigns it nothing. -/
theorem joinAndAssign_takes_all : ((newMember.joinAndAssign neverJoins).result = .ok () ∧
      (newMember.joinAndAssign neverJoins).syncs = [] ∧
      (newMember.joinAndAssign neverJoins).member.held = [⟨[116], 0⟩]) ∧
    (newMember.joinAndAssign (joinWith [])).result = .ok () ∧
      (newMember.joinAndAssign (joinWith [])).syncs = [(7, [])] ∧
      parseMemberAssignment [] = .ok [] ∧
      (newMember.joinAndAssign (joinWith [])).member.held = [⟨[116], 0⟩] := by
  refine ⟨⟨?_, ?_, ?_⟩, ?_, ?_, rfl, ?_⟩ <;> decide +kernel

end GoKafka
