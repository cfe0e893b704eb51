import GoKafka.Consumer.GroupSpec

/-!
# The positions of retained partitions

A cooperative member that joins again keeps the partitions it still owns, with their positions
(`offsetOf_applyAssignment`). The committed offsets are then loaded for all its partitions, also for
those it kept, so a retained partition goes back or forward to where the group has it:
`joinAndAssign_retains_iff` says when that is where it was, provided that a ListOffsets answer lists
just the partition asked for, and `joinAndAssign_rewinds` is a member that has read more than the
group has committed.
-/

namespace GoKafka

open Assoc List

variable {a : PartitionOffset}

theorem offsetOf_append_of_mem (hnodup : (assignments.map (·.partKey)).Nodup) (ha : a ∈ assignments)
    (more : List PartitionOffset) : offsetOf (assignments ++ more) a.partKey = some a.offset := by
  induction assignments with
  | nil => cases ha
  | cons b assignments ih =>
    have ⟨hnot, hnodup⟩ := nodup_cons.1 hnodup
    rw [cons_append, offsetOf_cons]
    rcases mem_cons.1 ha with rfl | ha
    · exact if_pos rfl
    · have hne : b.partKey ≠ a.partKey := fun heq => hnot (mem_map.2 ⟨a, ha, heq.symm⟩)
      rw [if_neg hne]
      exact ih hnodup ha

theorem offsetOf_of_mem (hnodup : (assignments.map (·.partKey)).Nodup) (ha : a ∈ assignments) :
    offsetOf assignments a.partKey = some a.offset := by
  have happend := offsetOf_append_of_mem hnodup ha []
  rwa [append_nil] at happend

/-- Taking an assignment leaves a cooperative member the positions of the partitions it keeps. -/
theorem offsetOf_applyAssignment {c : GroupConsumer} (hcoop : c.cooperative = true)
    (hnodup : (c.assignments.map (·.partKey)).Nodup)
    (h : c.applyAssignment raw = .ok (notified, c', events)) (ha : a ∈ c.assignments)
    (hheld : a.partKey ∈ c'.held) : offsetOf c'.assignments a.partKey = some a.offset := by
  obtain ⟨parsed, -, h⟩ := bind_eq_ok.1 h
  by_cases hparsed : parsed = []
  · rw [if_neg (fun h => h.2 hparsed), if_neg (not_not_intro hparsed), if_pos hcoop] at h
    cases h
    cases hheld
  · rw [if_pos ⟨hcoop, hparsed⟩] at h
    cases h
    have hkept : a ∈ c.assignments.filter (·.partKey ∈ (partitionsOf parsed).map (·.partKey)) := by
      refine mem_filter.2 ⟨ha, decide_eq_true ?_⟩
      rw [GroupConsumer.held, map_append, mem_append] at hheld
      rcases hheld with hheld | hheld
      · obtain ⟨b, hb, heq⟩ := mem_map.1 hheld
        exact heq ▸ of_decide_eq_true (mem_filter.1 hb).2
      · exact (filter_sublist.map _).subset hheld
    exact offsetOf_append_of_mem (hnodup.sublist (filter_sublist.map _)) hkept _

/-- How a call leaves the partitions a member had: those whose offset was loaded are where they
start, the others where they were; in a call that succeeds all are loaded. -/
structure JoinCall.Positioned (call : JoinCall) (committed listed : PartKey → Int64)
    (m : GroupMember) : Prop where
  loaded : ∀ pk ∈ call.loaded, pk ∈ call.member.held ∧
    offsetOf call.member.assignments pk = some (startOf m.reset (committed pk) (listed pk))
  kept : ∀ a ∈ m.assignments, a.partKey ∈ call.member.held → a.partKey ∉ call.loaded →
    offsetOf call.member.assignments a.partKey = some a.offset
  complete : call.result = .ok () → ∀ pk ∈ call.member.held, pk ∈ call.loaded

section Positioned

variable {m : GroupMember} {env : LoadEnv} {committed listed : PartKey → Int64}

theorem positioned_of_failed (hnodup : (m.assignments.map (·.partKey)).Nodup) (e : Error) :
    JoinCall.Positioned { result := .error e, member := m } committed listed m :=
  ⟨fun pk hpk => (Finset.notMem_empty pk hpk).elim, fun _ ha _ _ => offsetOf_of_mem hnodup ha,
    fun hok => by cases hok⟩

theorem positioned_takeAssignment (hcoop : m.cooperative = true)
    (hnodup : (m.assignments.map (·.partKey)).Nodup)
    (htells : env.Tells fun pk c => c = committed pk) (hlists : env.Lists listed) (raw : Bytes) :
    (m.takeAssignment raw env).Positioned committed listed m := by
  cases happly : m.applyAssignment raw with
  | error e =>
    rw [takeAssignment_of_error happly]
    exact positioned_of_failed hnodup e
  | ok applied =>
    obtain ⟨notified, c, events⟩ := applied
    obtain ⟨m', load, hm', hload, htaken⟩ := takeAssignment_of_ok env happly
    have hassignments : m'.assignments = c.assignments := by rw [hm']
    have hreset : m'.reset = m.reset := by rw [hm']
    have hinv := @loadCommittedOffsets_inv env _ listed m' htells hlists
    have hcomplete := @need_loadCommittedOffsets m' env
    rw [← hload, hreset] at hinv
    rw [← hload] at hcomplete
    rw [htaken]
    have hheld : ∀ pk, pk ∈ load.2.assignments.map (·.partKey) ↔ pk ∈ c.held := by
      intro pk
      rw [hinv.keys, hassignments]
      rfl
    refine ⟨?_, ?_, ?_⟩
    · intro pk hpk
      obtain ⟨hmem, hneed⟩ := Finset.mem_sdiff.1 hpk
      obtain ⟨_, rfl, hoffset⟩ := hinv.loaded pk (mem_toFinset.1 hmem) hneed
      refine ⟨?_, hoffset⟩
      rw [mem_toFinset, hassignments] at hmem
      exact (hheld pk).2 hmem
    · intro a ha hafter hloaded
      have hc : a.partKey ∈ c.held := (hheld _).1 hafter
      have hneed : a.partKey ∈ load.2.need := by
        by_contra hnot
        refine hloaded (Finset.mem_sdiff.2 ⟨mem_toFinset.2 ?_, hnot⟩)
        rw [hassignments]
        exact hc
      rw [show offsetOf load.2.assignments a.partKey = _ from (hinv.need _ hneed).2, hassignments]
      exact offsetOf_applyAssignment hcoop hnodup happly ha hc
    · intro hok pk hpk
      refine Finset.mem_sdiff.2 ⟨mem_toFinset.2 ?_, ?_⟩
      · rw [hassignments]
        exact (hheld pk).1 hpk
      · rw [hcomplete hok]
        exact Finset.notMem_empty pk

theorem positioned_joinAndAssign (hcoop : m.cooperative = true)
    (hnodup : (m.assignments.map (·.partKey)).Nodup) {env : JoinEnv}
    (htells : env.load.Tells fun pk c => c = committed pk) (hlists : env.load.Lists listed) :
    (m.joinAndAssign env).Positioned committed listed m := by
  obtain ⟨m', ⟨cluster, memberID, generation, rfl⟩, hends⟩ := joinAndAssign_joins m env
  rcases hends with ⟨e, hfailed⟩ | ⟨raw, syncs, htaken⟩
  · rw [hfailed]
    have hpositioned := @positioned_of_failed
      { m with cluster := cluster, memberID := memberID, generation := generation }
      committed listed hnodup e
    exact ⟨hpositioned.loaded, hpositioned.kept, hpositioned.complete⟩
  · rw [htaken]
    have hpositioned := @positioned_takeAssignment
      { m with cluster := cluster, memberID := memberID, generation := generation }
      env.load committed listed hcoop hnodup htells hlists raw
    exact ⟨hpositioned.loaded, hpositioned.kept, hpositioned.complete⟩

end Positioned

/-- Where the ListOffsets answers list just the partition asked for, a cooperative member that joins
again has the positions of the partitions it retains where they were if and only if each of those
whose offset was loaded starts there; in a call that succeeds these are all of them. -/
theorem joinAndAssign_retains_iff {m : GroupMember} (hcoop : m.cooperative = true)
    (hnodup : (m.assignments.map (·.partKey)).Nodup) (env : JoinEnv)
    {committed listed : PartKey → Int64} (htells : env.load.Tells fun pk c => c = committed pk)
    (hlists : env.load.Lists listed) :
    ((∀ a ∈ m.assignments, a.partKey ∈ (m.joinAndAssign env).member.held →
        offsetOf (m.joinAndAssign env).member.assignments a.partKey = some a.offset) ↔
      ∀ a ∈ m.assignments, a.partKey ∈ (m.joinAndAssign env).loaded →
        startOf m.reset (committed a.partKey) (listed a.partKey) = a.offset) ∧
    ((m.joinAndAssign env).result = .ok () →
      ∀ pk ∈ (m.joinAndAssign env).member.held, pk ∈ (m.joinAndAssign env).loaded) := by
  have h := positioned_joinAndAssign hcoop hnodup htells hlists
  refine ⟨⟨?_, ?_⟩, h.complete⟩
  · intro hunchanged a ha hloaded
    obtain ⟨hheld, hoffset⟩ := h.loaded a.partKey hloaded
    rw [hunchanged a ha hheld, Option.some_inj] at hoffset
    exact hoffset.symm
  · intro hstarts a ha hheld
    by_cases hloaded : a.partKey ∈ (m.joinAndAssign env).loaded
    · rw [(h.loaded a.partKey hloaded).2, hstarts a ha hloaded]
    · exact h.kept a ha hheld hloaded

/-! ## A member ahead of the group -/

/-- Metadata with topic `t`. -/
def groupBrokers : Cluster.Brokers := fun _ _ => .answer leadTopic

/-- The bytes that assign partition 0 of topic `t`. -/
def assignedT0 : Bytes := [0, 0, 0, 0, 0, 1, 0, 1, 116, 0, 0, 0, 1, 0, 0, 0, 0]

/-- A rejoin in generation 2, led by another member, that assigns partition 0 of topic `t`; the
group has committed `committed` for it, and offset 10 is listed. -/
def rejoinT0 (committed : Int64) : JoinEnv where
  brokers := groupBrokers
  attempt _ :=
    { joined := .ok { generationID := 2, memberID := [97], leaderID := [98]
                      protocolName := "cooperative-sticky", assignments := ∅ }
      sync := fun _ => .ok assignedT0 }
  load := { fetched := fun _ => .ok [{ topic := [116], partition := 0, offset := committed }]
            listing := fun pk =>
              if pk = ⟨[116], 0⟩ then oneLeaderEnv [⟨[116], 0, 10, 0⟩] else unreachable }

/-- A cooperative member that owns partition 0 of topic `t` and has read up to offset 10. -/
def memberAt10 : GroupMember where
  topics := [[116]]
  cooperative := true
  cluster := { seeds := [] }
  assignments := [⟨[116], 0, 10⟩]
  memberID := [97]
  generation := 1

theorem rejoinT0_tells : (rejoinT0 committed).load.Tells fun _ c => c = committed := by
  intro i answers h co hco _
  cases h
  rw [mem_singleton.1 hco]

theorem rejoinT0_lists : (rejoinT0 committed).load.Lists fun _ => 10 := by
  intro pk i node body offs h
  by_cases hpk : pk = ⟨[116], 0⟩
  · subst hpk
    have hlist : decodeListOffsetsResponse (writeListOffsetsResponse [⟨[116], 0, 10, 0⟩]) =
        .ok [⟨[116], 0, 10, 0⟩] := by decide +kernel
    cases hlist.symm.trans h
    exact ⟨_, rfl, rfl, fun _ => rfl⟩
  · simp only [rejoinT0, if_neg hpk] at h
    cases h

/-- Where the group has committed nothing and the log ends at the position, it stays. -/
theorem joinAndAssign_retains_ten : (memberAt10.joinAndAssign (rejoinT0 (-1))).result = .ok () ∧
      offsetOf (memberAt10.joinAndAssign (rejoinT0 (-1))).member.assignments ⟨[116], 0⟩ =
        some 10 := by
  have hiff := (@joinAndAssign_retains_iff memberAt10 rfl (by decide) (rejoinT0 (-1)) (fun _ => -1)
    (fun _ => 10) rejoinT0_tells rejoinT0_lists).1.2
  refine ⟨by decide +kernel, hiff ?_ ⟨[116], 0, 10⟩ (by decide) (by decide +kernel)⟩
  intro a ha _
  obtain rfl : a = ⟨[116], 0, 10⟩ := mem_singleton.1 ha
  rfl

/-- Where the group has committed offset 5, the partition that the member keeps goes back to it. -/
theorem joinAndAssign_rewinds : (memberAt10.joinAndAssign (rejoinT0 5)).result = .ok () ∧
      memberAt10.assignments = [⟨[116], 0, 10⟩] ∧
      (memberAt10.joinAndAssign (rejoinT0 5)).member.assignments = [⟨[116], 0, 5⟩] :=
  ⟨by decide +kernel, rfl, by decide +kernel⟩

end GoKafka
