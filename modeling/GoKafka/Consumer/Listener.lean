import GoKafka.Consumer.Joined
import GoKafka.Lib.Run

/-!
# What the rebalance listener sees

The listener hears of partitions from `Rebalance`, `cooperativeRejoin`, `applyAssignment` and the
end of `joinAndAssign`. Its view is exact (`ViewExact`) when a partition is assigned and revoked in
turn and the last report of a partition says whether the consumer has it. `rejoin` and `rejoin848`
drop the assignments without a report, a cooperative rejoin reports everything revoked and then only
what is new, and a call can fail between taking an assignment and reporting it. A step is
`Announced` when none of this happens: `listener_exact` says that the view is exact in every state
of a run of such steps.
-/

namespace GoKafka

open List

/-! ## Reports -/

/-- The reports of a partition, in order: `true` where it was assigned, once for each time an event
lists it. -/
def reports (pk : PartKey) (history : List RebalanceEvent) : List Bool :=
  history.flatMap fun
    | .assigned partitions => List.replicate ((partitions.map (·.partKey)).count pk) true
    | .revoked partitions => List.replicate ((partitions.map (·.partKey)).count pk) false

/-- The listener's view is exact: the partitions reported assigned and not since revoked are those
held, and no partition is assigned twice or revoked twice in a row. -/
structure ViewExact (history : List RebalanceEvent) (held : List PartKey) : Prop where
  current : ∀ pk, pk ∈ held ↔ (reports pk history).getLast? = some true
  alternate : ∀ pk, (reports pk history).IsChain (· ≠ ·)

theorem viewExact_nil : ViewExact [] [] :=
  ⟨fun pk => ⟨nofun, fun h => by cases h⟩, fun pk => .nil⟩

theorem reports_append (pk : PartKey) (history events : List RebalanceEvent) :
    reports pk (history ++ events) = reports pk history ++ reports pk events :=
  List.flatMap_append

theorem replicate_count {keys : List PartKey} (hnodup : keys.Nodup) :
    List.replicate (keys.count pk) b = if pk ∈ keys then [b] else [] := by
  by_cases hpk : pk ∈ keys
  · rw [if_pos hpk, count_eq_one_of_mem hnodup hpk]
    rfl
  · rw [if_neg hpk, count_eq_zero.2 hpk]
    rfl

theorem reports_assigned (hnodup : (partitions.map (·.partKey)).Nodup) :
    reports pk [.assigned partitions] = if pk ∈ partitions.map (·.partKey) then [true] else [] :=
  (List.append_nil _).trans (replicate_count hnodup)

theorem reports_revoked (hnodup : (partitions.map (·.partKey)).Nodup) :
    reports pk [.revoked partitions] = if pk ∈ partitions.map (·.partKey) then [false] else [] :=
  (List.append_nil _).trans (replicate_count hnodup)

variable {history : List RebalanceEvent}

section View

/-- A report that turns the view of a partition. -/
theorem isChain_reports_append (h : (reports pk history).IsChain (· ≠ ·))
    (hlast : (reports pk history).getLast? ≠ some b) :
    (reports pk history ++ [b]).IsChain (· ≠ ·) := by
  refine isChain_append.2 ⟨h, .singleton b, ?_⟩
  rintro x hx y hy rfl
  cases hy
  exact hlast hx

/-- The partitions of a consumer that had none are reported. -/
theorem ViewExact.assign (h : ViewExact history []) (hnodup : (partitions.map (·.partKey)).Nodup) :
    ViewExact (history ++ [.assigned partitions]) (partitions.map (·.partKey)) := by
  have hnone : ∀ pk, (reports pk history).getLast? ≠ some true := fun pk hlast =>
    not_mem_nil ((h.current pk).2 hlast)
  constructor
  · intro pk
    rw [reports_append, reports_assigned hnodup]
    split_ifs with hpk
    · simp [hpk]
    · rw [append_nil]
      exact iff_of_false hpk (hnone pk)
  · intro pk
    rw [reports_append, reports_assigned hnodup]
    split_ifs with hpk
    · exact isChain_reports_append (h.alternate pk) (hnone pk)
    · rw [append_nil]
      exact h.alternate pk

/-- All partitions of a consumer are revoked. -/
theorem ViewExact.revoke (h : ViewExact history (partitions.map (·.partKey)))
    (hnodup : (partitions.map (·.partKey)).Nodup) :
    ViewExact (history ++ [.revoked partitions]) [] := by
  constructor
  · intro pk
    rw [reports_append, reports_revoked hnodup]
    split_ifs with hpk
    · simp
    · rw [append_nil]
      exact iff_of_false not_mem_nil fun hlast => hpk ((h.current pk).2 hlast)
  · intro pk
    rw [reports_append, reports_revoked hnodup]
    split_ifs with hpk
    · refine isChain_reports_append (h.alternate pk) ?_
      rw [(h.current pk).1 hpk]
      exact fun heq => by cases heq
    · rw [append_nil]
      exact h.alternate pk

end View

/-! ## Steps -/

/-- A member and what its listener was told. -/
structure Listened where
  member : GroupMember
  history : List RebalanceEvent := []

def Listened.next (s : Listened) (step : GroupStep) : Listened :=
  ⟨(step.call s.member).member, s.history ++ (step.call s.member).events⟩

/-- The listener hears once of each partition the step drops: the member has none, or it is an eager
one that rebalances and can leave the group. -/
def GroupStep.Revokes (m : GroupMember) : GroupStep → Prop
  | .poll _ => True
  | .rebalance left _ => m.assignments = [] ∨ m.cooperative = false ∧ left = .ok ()
  | .fetchRebalance left _ => m.assignments = [] ∨ m.cooperative = false ∧ left = .ok ()
  | .heartbeat _ => m.assignments = []
  | .commit _ => m.assignments = []

/-- The call reports what it takes: its assignment lists no partition twice, and an eager member
that takes one also loads the offsets. -/
def JoinCall.Reports (call : JoinCall) : Prop :=
  (call.member.assignments.map (·.partKey)).Nodup ∧
    (call.result = .ok () ∨ call.member.cooperative = true ∨ call.member.assignments = [])

/-- The listener hears of everything the step changes. -/
def GroupStep.Announced (m : GroupMember) (step : GroupStep) : Prop :=
  step.Revokes m ∧ (step.call m).Reports

/-! ## Joining without partitions -/

/-- A member without partitions that takes an assignment: an incremental one is reported as it is
taken, and the rest is left to the end of the call. -/
theorem applyAssignment_of_nil {c : GroupConsumer} (hlistening : c.listening = true)
    (hnil : c.assignments = []) (h : c.applyAssignment raw = .ok (notified, c', events)) :
    (notified = true ∧ events = if c'.assignments = [] then [] else [.assigned c'.assignments]) ∨
      (notified = false ∧ events = [] ∧ (c.cooperative = true → c'.assignments = [])) := by
  have hrevoked : c.notifyRevoked = [] := if_pos (.inr hnil)
  obtain ⟨parsed, -, h⟩ := bind_eq_ok.1 h
  split_ifs at h with hincremental hparsed hcoop
  · cases h
    simp [hnil, hlistening]
  · cases h
    exact .inr ⟨rfl, hrevoked, fun hcoop => (hincremental ⟨hcoop, hparsed⟩).elim⟩
  · cases h
    exact .inr ⟨rfl, hrevoked, fun _ => rfl⟩
  · cases h
    exact .inr ⟨rfl, hrevoked, fun h => (hcoop h).elim⟩

section Join

variable {m : GroupMember}

theorem Relabelled.quiet (h : Relabelled m m') (hlistening : m.listening = true)
    (hnil : m.assignments = []) : m'.listening = true ∧ m'.assignments = [] := by
  obtain ⟨_, _, _, rfl⟩ := h
  exact ⟨hlistening, hnil⟩

theorem takeAssignment_exact (hlistening : m.listening = true) (hnil : m.assignments = [])
    (hview : ViewExact history []) (hreports : (m.takeAssignment raw env).Reports) :
    ViewExact (history ++ (m.takeAssignment raw env).events)
      (m.takeAssignment raw env).member.held := by
  cases happly : m.applyAssignment raw with
  | error e =>
    rw [takeAssignment_of_error happly, append_nil]
    rw [GroupConsumer.held, hnil]
    exact hview
  | ok applied =>
    obtain ⟨notified, c, events⟩ := applied
    obtain ⟨m', load, rfl, rfl, htaken⟩ := takeAssignment_of_ok env happly
    obtain ⟨assignments, hc⟩ := applyAssignment_consumer happly
    have hkeys := map_partKey_loadCommittedOffsets { m with toGroupConsumer := c } env
    rw [htaken] at hreports ⊢
    obtain ⟨hnodup, hreported⟩ := hreports
    dsimp only at hnodup hreported hkeys ⊢
    rcases applyAssignment_of_nil hlistening hnil happly with
      ⟨rfl, hevents⟩ | ⟨rfl, hevents, hcoop⟩
    · -- reported by the incremental assignment, before the offsets are loaded
      rw [if_pos (.inl rfl), append_nil, hevents, GroupConsumer.held, hkeys]
      by_cases hempty : c.assignments = []
      · rw [if_pos hempty, append_nil, hempty]
        exact hview
      · rw [if_neg hempty]
        exact hview.assign (hkeys ▸ hnodup)
    · rw [hevents, nil_append, GroupConsumer.held]
      by_cases hok :
          (GroupMember.loadCommittedOffsets { m with toGroupConsumer := c } env).1 = .ok ()
      · rw [if_neg (by simp [hok]), GroupConsumer.notifyAssigned,
          if_pos (by rw [hc]; exact hlistening)]
        exact hview.assign hnodup
      · -- the offsets are not loaded: nothing is reported, and nothing was taken
        rw [if_pos (.inr hok), append_nil, hkeys]
        have hempty : c.assignments.map (·.partKey) = [] := by
          rcases hreported with h | h | h
          · exact (hok h).elim
          · rw [hcoop (by rw [hc] at h; exact h)]
            rfl
          · rw [← hkeys, h]
            rfl
        rw [hempty]
        exact hview

/-- A call that joins, from no partitions and an exact view. -/
theorem GroupMember.Joins.exact (h : m.Joins load call) (hlistening : m.listening = true)
    (hnil : m.assignments = []) (hview : ViewExact history []) (hreports : call.Reports) :
    ViewExact (history ++ call.events) call.member.held := by
  obtain ⟨m', hm', hends⟩ := h
  obtain ⟨hlistening, hnil⟩ := hm'.quiet hlistening hnil
  rcases hends with ⟨e, rfl⟩ | ⟨raw, syncs, rfl⟩
  · rw [append_nil, GroupConsumer.held, hnil]
    exact hview
  · exact takeAssignment_exact hlistening hnil hview hreports

end Join

/-! ## Runs -/

/-- The view is exact and no partition is held twice. -/
structure Listened.Inv (s : Listened) : Prop where
  listening : s.member.listening = true
  nodup : s.member.held.Nodup
  view : ViewExact s.history s.member.held

section Step

variable {s : Listened}

/-- No call that joins takes the listener away. -/
theorem listening_takeAssignment (m : GroupMember) (env : LoadEnv) :
    (m.takeAssignment raw env).member.listening = m.listening := by
  fun_cases m.takeAssignment raw env with
  | case1 => rfl
  | case2 _ c _ happly | case3 _ c _ happly =>
    obtain ⟨assignments, rfl⟩ := applyAssignment_consumer happly
    rfl

variable {m : GroupMember}

theorem GroupMember.Joins.listening (h : m.Joins load call) :
    call.member.listening = m.listening := by
  obtain ⟨m', ⟨_, _, _, rfl⟩, ⟨e, rfl⟩ | ⟨raw, syncs, rfl⟩⟩ := h
  · rfl
  · exact listening_takeAssignment _ load

/-- A join by a member that has no partitions and whose listener knows. -/
theorem GroupMember.Joins.inv (h : m.Joins load call) (hlistening : m.listening = true)
    (hnil : m.assignments = []) (hview : ViewExact history []) (hreports : call.Reports) :
    Listened.Inv ⟨call.member, history ++ call.events⟩ :=
  ⟨h.listening.trans hlistening, hreports.1, h.exact hlistening hnil hview hreports⟩

/-- A member whose listener was told that all partitions are revoked. -/
theorem Listened.Inv.revoked (h : s.Inv) : ViewExact (s.history ++ s.member.notifyRevoked) [] := by
  rw [GroupConsumer.notifyRevoked]
  by_cases hnil : s.member.assignments = []
  · rw [if_pos (.inr hnil), append_nil]
    have hview := h.view
    rw [GroupConsumer.held, hnil] at hview
    exact hview
  · rw [if_neg (by simp [h.listening, hnil])]
    exact h.view.revoke h.nodup

theorem rebalance_of_cooperative (hcoop : m.cooperative = true) :
    m.rebalance left env = m.cooperativeRejoin env := if_pos hcoop

theorem rebalance_of_eager (heager : m.cooperative = false) :
    m.rebalance left env =
      match left with
      | .error e => { result := .error e, member := m, events := m.notifyRevoked }
      | .ok () =>
        ({ m with assignments := [], memberID := [], generation := 0 }.joinAndAssign env).after
          m.notifyRevoked := if_neg (by rw [heager]; exact Bool.false_ne_true)

/-- An announced `Rebalance`. -/
theorem Listened.Inv.rebalance (h : s.Inv)
    (hrevokes : s.member.assignments = [] ∨ s.member.cooperative = false ∧ left = .ok ())
    (hreports : (s.member.rebalance left env).Reports) :
    Listened.Inv ⟨(s.member.rebalance left env).member,
      s.history ++ (s.member.rebalance left env).events⟩ := by
  cases hcoop : s.member.cooperative with
  | true =>
    rw [rebalance_of_cooperative hcoop] at hreports ⊢
    rw [GroupMember.cooperativeRejoin, JoinCall.after, ← append_assoc]
    have hnil : s.member.assignments = [] := by
      rcases hrevokes with hnil | ⟨heager, -⟩
      · exact hnil
      · rw [hcoop] at heager
        cases heager
    exact (joinAndAssign_joins _ env).inv h.listening hnil h.revoked hreports
  | false =>
    rw [rebalance_of_eager hcoop] at hreports ⊢
    cases left with
    | error e =>
      -- the member could not leave, and has nothing
      have hnil : s.member.assignments = [] := by
        rcases hrevokes with hnil | ⟨-, hleft⟩
        · exact hnil
        · cases hleft
      refine ⟨h.listening, h.nodup, ?_⟩
      rw [GroupConsumer.held, hnil]
      exact h.revoked
    | ok u =>
      rw [JoinCall.after, ← append_assoc]
      exact (joinAndAssign_joins _ env).inv h.listening rfl h.revoked hreports

/-- An announced step keeps the view exact. -/
theorem Listened.Inv.next (h : s.Inv) (hstep : step.Announced s.member) : (s.next step).Inv := by
  obtain ⟨hrevokes, hreports⟩ := hstep
  -- where the member has no partitions, the listener sees none
  have hnone : s.member.assignments = [] → ViewExact s.history [] := by
    intro hnil
    have hview := h.view
    rw [GroupConsumer.held, hnil] at hview
    exact hview
  rw [Listened.next]
  cases step with
  | poll env =>
    rw [GroupStep.call] at hreports ⊢
    by_cases hnil : s.member.assignments = []
    · rw [if_pos hnil] at hreports ⊢
      exact (joinAndAssign_joins _ env).inv h.listening hnil (hnone hnil) hreports
    · rw [if_neg hnil, append_nil]
      exact h
  | rebalance left env => exact h.rebalance hrevokes hreports
  | fetchRebalance left env =>
    rw [GroupStep.call] at hreports ⊢
    cases hcoop : s.member.cooperative with
    | true =>
      rw [hcoop, ← rebalance_of_cooperative hcoop] at hreports
      rw [← rebalance_of_cooperative hcoop]
      exact h.rebalance hrevokes hreports
    | false =>
      rw [hcoop] at hreports
      exact h.rebalance hrevokes hreports
  | heartbeat env =>
    rw [GroupStep.call] at hreports ⊢
    cases hgen : s.member.nextGen with
    | true =>
      rw [hgen] at hreports
      exact (joinAndAssign848_joins).inv h.listening rfl (hnone hrevokes) hreports
    | false =>
      rw [hgen] at hreports
      exact (joinAndAssign_joins _ env).inv h.listening rfl (hnone hrevokes) hreports
  | commit env =>
    exact (joinAndAssign_joins _ env).inv h.listening rfl (hnone hrevokes) hreports

end Step

/-- In every run of announced steps the listener's view is exact in every state. -/
theorem listener_exact {m : GroupMember} (hlistening : m.listening = true)
    (hnil : m.assignments = []) {steps : List GroupStep}
    (hsteps : Run.Along Listened.next (fun s step => step.Announced s.member) ⟨m, []⟩ steps) :
    ∀ s ∈ Run.states Listened.next ⟨m, []⟩ steps, ViewExact s.history s.member.held := by
  have hstart : Listened.Inv ⟨m, []⟩ := by
    have hheld : m.held = [] := by rw [GroupConsumer.held, hnil]; rfl
    refine ⟨hlistening, ?_, ?_⟩
    · rw [hheld]
      exact .nil
    · rw [hheld]
      exact viewExact_nil
  exact fun s hs => (hsteps.states (fun _ _ h => h.next) hstart s hs).view

/-! ## A rejoin with partitions -/

/-- A member with a listener. -/
def listener : GroupMember := { newMember with listening := true }

/-- A join and a `Rebalance` after it, both announced. -/
theorem listener_exact_rebalance :
    (Run.states Listened.next ⟨listener, []⟩ [.poll (joinWith assignedT0),
        .rebalance (.ok ()) (joinWith assignedT0)]).map (reports ⟨[116], 0⟩ ·.history) =
      [[], [true], [true, false, true]] ∧
    ∀ s ∈ Run.states Listened.next ⟨listener, []⟩ [.poll (joinWith assignedT0),
        .rebalance (.ok ()) (joinWith assignedT0)], ViewExact s.history s.member.held := by
  refine ⟨by decide +kernel, listener_exact rfl rfl ⟨⟨trivial, ?_, .inl ?_⟩,
    ⟨.inr ⟨rfl, rfl⟩, ?_, .inl ?_⟩, trivial⟩⟩ <;> decide +kernel

/-- After a join, the rejoin of a commit reports partition 0 as assigned again; the rebalance of a
cooperative member reports it revoked although the member keeps it. -/
theorem listener_misled : (Run.states Listened.next ⟨listener, []⟩ [.poll (joinWith assignedT0),
        .commit (joinWith assignedT0)]).map (reports ⟨[116], 0⟩ ·.history) =
      [[], [true], [true, true]] ∧
    (Run.states Listened.next ⟨{ listener with cooperative := true }, []⟩
        [.poll (joinWith assignedT0), .fetchRebalance (.ok ()) (joinWith assignedT0)]).map
          (fun s => (reports ⟨[116], 0⟩ s.history, s.member.held)) =
      [([], []), ([true], [⟨[116], 0⟩]), ([true, false], [⟨[116], 0⟩])] := by
  refine ⟨?_, ?_⟩ <;> decide +kernel

end GoKafka
