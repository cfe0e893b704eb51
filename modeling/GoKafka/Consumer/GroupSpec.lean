import GoKafka.Consumer.Group

/-!
# What a call that joins can do

`joinAndAssign_joins`: a call that joins fails before it takes an assignment, which leaves the
assignments and the listener alone, or it ends by taking one (`takeAssignment_of_ok`). Taking an
assignment replaces the partitions (`applyAssignment_held`), and loading the committed offsets keeps
them (`map_partKey_loadCommittedOffsets`) and moves their positions; where a ListOffsets answer
lists just the partition asked for, each to where it starts (`Loading.Inv`,
`loadCommittedOffsets_inv`).
-/

namespace GoKafka

open Assoc List

/-! ## The rounds of the join loop -/

/-- The member may have other metadata, another id and another generation. -/
def Relabelled (m m' : GroupMember) : Prop :=
  ∃ cluster memberID generation,
    m' = { m with cluster := cluster, memberID := memberID, generation := generation }

theorem Relabelled.refl (m : GroupMember) : Relabelled m m := ⟨_, _, _, rfl⟩

variable {m : GroupMember} {raw : Bytes}

theorem Relabelled.trans (h : Relabelled m m') (h' : Relabelled m' m'') : Relabelled m m'' := by
  obtain ⟨_, _, _, rfl⟩ := h
  obtain ⟨_, _, _, rfl⟩ := h'
  exact ⟨_, _, _, rfl⟩

theorem joinAttempt_relabelled (m : GroupMember) (a : JoinAttempt) :
    Relabelled m (m.joinAttempt a).2 := by
  rw [GroupMember.joinAttempt]
  cases a.joined with
  | error e => exact ⟨_, _, _, rfl⟩
  | ok joined =>
    dsimp only
    split
    · exact ⟨_, _, _, rfl⟩
    · split <;> exact ⟨_, _, _, rfl⟩

/-- A round in which SyncGroup succeeds: the member has the generation of the JoinGroup before
it. -/
theorem joinAttempt_synced (h : m.joinAttempt a = (.synced generation raw, m')) :
    m'.generation = generation := by
  have hagain : ∀ c, lookupAgain c ≠ .synced generation raw := by
    intro c hc
    cases c <;> cases hc
  revert h
  fun_cases m.joinAttempt a with
  | case1 | case3 =>
    intro h
    split_ifs at h
    · exact (hagain _ (Prod.mk.inj h).1).elim
    · cases (Prod.mk.inj h).1
  | case2 => exact nofun
  | case4 =>
    intro h
    obtain ⟨hsynced, rfl⟩ := Prod.mk.inj h
    cases hsynced
    rfl

/-- How the join loop ends: with an error, with the one SyncGroup that succeeds, or with all rounds
used up. -/
theorem joinLoop_cases (attempt : Nat → JoinAttempt) (i : Nat) (m : GroupMember) :
    Relabelled m (joinLoop attempt left i m).member ∧
      ((∃ e, (joinLoop attempt left i m).result = .error e ∧
          (joinLoop attempt left i m).syncs = []) ∨
        (∃ raw, (joinLoop attempt left i m).result = .ok raw ∧
          (joinLoop attempt left i m).syncs =
            [((joinLoop attempt left i m).member.generation, raw)]) ∨
        (joinLoop attempt left i m).result = .ok [] ∧ (joinLoop attempt left i m).syncs = []) := by
  have hround {i : Nat} {m m' : GroupMember} {attempted : Attempted}
      (h : m.joinAttempt (attempt i) = (attempted, m')) : Relabelled m m' := by
    have hm := joinAttempt_relabelled m (attempt i)
    rwa [h] at hm
  fun_induction joinLoop with
  | case1 _ m => exact ⟨.refl m, .inr (.inr ⟨rfl, rfl⟩)⟩
  | case2 _ _ _ e _ hfailed => exact ⟨hround hfailed, .inl ⟨e, rfl, rfl⟩⟩
  | case3 _ _ _ _ raw _ hsynced =>
    refine ⟨hround hsynced, .inr (.inl ⟨raw, rfl, ?_⟩)⟩
    rw [joinAttempt_synced hsynced]
  | case4 _ _ _ _ hagain ih => exact ⟨(hround hagain).trans ih.1, ih.2⟩

/-! ## Taking an assignment -/

/-- Taking an assignment changes the assignments only. -/
theorem applyAssignment_consumer {c : GroupConsumer}
    (h : c.applyAssignment raw = .ok (notified, c', events)) :
    ∃ assignments, c' = { c with assignments := assignments } := by
  obtain ⟨parsed, -, h⟩ := bind_eq_ok.1 h
  split_ifs at h <;> cases h <;> exact ⟨_, rfl⟩

/-- An eager member whose bytes encode nothing takes everything; otherwise a member takes the
partitions its bytes encode. -/
theorem applyAssignment_held {c : GroupConsumer}
    (h : c.applyAssignment raw = .ok (notified, c', events)) :
    ∃ parsed, parseMemberAssignment raw = .ok parsed ∧
      ((c.cooperative = false ∧ parsed = [] ∧ c'.assignments = c.allPartitions) ∨
        ((c.cooperative = true ∨ parsed ≠ []) ∧
          ∀ pk, pk ∈ c'.held ↔ pk ∈ encodedPartitions parsed)) := by
  obtain ⟨parsed, hparse, h⟩ := bind_eq_ok.1 h
  refine ⟨parsed, hparse, ?_⟩
  split_ifs at h with hincremental hparsed hcoop
  · cases h
    refine .inr ⟨.inl hincremental.1, fun pk => ?_⟩
    simp only [GroupConsumer.held, map_append, mem_append, encodedPartitions]
    constructor
    · rintro (hkept | hnew)
      · obtain ⟨a, ha, rfl⟩ := mem_map.1 hkept
        exact of_decide_eq_true (mem_filter.1 ha).2
      · exact (filter_sublist.map _).subset hnew
    · intro hpk
      by_cases hkept : pk ∈ (c.assignments.filter
          (·.partKey ∈ (partitionsOf parsed).map (·.partKey))).map (·.partKey)
      · exact .inl hkept
      · obtain ⟨a, ha, rfl⟩ := mem_map.1 hpk
        exact .inr (mem_map.2 ⟨a, mem_filter.2 ⟨ha, decide_eq_true hkept⟩, rfl⟩)
  · cases h
    exact .inr ⟨.inr hparsed, fun pk => Iff.rfl⟩
  · cases h
    rw [not_not.1 hparsed]
    exact .inr ⟨.inl hcoop, fun pk => Iff.rfl⟩
  · cases h
    exact .inl ⟨Bool.eq_false_iff.2 hcoop, not_not.1 hparsed, rfl⟩

/-! ## Loading the committed offsets -/

/-- An error that is not waited out. -/
def CommittedOffset.Fatal (co : CommittedOffset) : Prop :=
  co.errorCode ≠ 0 ∧ offsetFetchRetriable co.errorCode = false

/-- What every application keeps, loading keeps; `Q` is what is left where one fails. -/
theorem loadLoop_induct {env : LoadEnv} {r : OffsetReset} {P Q : Loading → Prop}
    (hends : ∀ st, P st → Q st) (hrequest : ∀ st n, P st → P { st with requests := n })
    (happly : ∀ i answers st, env.fetched i = .ok answers → ∀ co ∈ answers, co.errorCode = 0 →
      co.partKey ∈ st.need → P st →
      ((st.apply env r co).1 = none → P (st.apply env r co).2) ∧ Q (st.apply env r co).2)
    (left : Nat) {st : Loading} (h : P st) : Q (loadLoop env r left st).2 := by
  have hanswers : ∀ i answers, env.fetched i = .ok answers → ∀ committed ⊆ answers, ∀ st, P st →
      Q (applyAnswers env r committed st).2 ∧
        ((applyAnswers env r committed st).1 = .ok () → P (applyAnswers env r committed st).2) := by
    intro i answers hfetched committed hsub st h
    fun_induction applyAnswers with
    | case1 st => exact ⟨hends st h, fun _ => h⟩
    | case2 _ _ _ _ ih | case3 _ _ _ _ _ _ ih => exact ih (cons_subset.1 hsub).2 h
    | case4 => exact ⟨hends _ h, fun hok => by cases hok⟩
    | case5 co _ st hneed hcode e st' hst =>
      have hco := happly i answers st hfetched co (hsub mem_cons_self) (not_not.1 hcode)
        (not_not.1 hneed) h
      rw [hst] at hco
      exact ⟨hco.2, fun hok => by cases hok⟩
    | case6 co _ st hneed hcode st' hst ih =>
      have hco := happly i answers st hfetched co (hsub mem_cons_self) (not_not.1 hcode)
        (not_not.1 hneed) h
      rw [hst] at hco
      exact ih (cons_subset.1 hsub).2 (hco.1 rfl)
  have hround : ∀ st, P st → Q (loadRound env r st).2 ∧
      ((loadRound env r st).1 = .ok () → P (loadRound env r st).2) := by
    intro st h
    rw [loadRound]
    cases hfetched : env.fetched st.requests with
    | error e => exact ⟨hends _ (hrequest st _ h), fun hok => by cases hok⟩
    | ok answers =>
      exact hanswers _ answers hfetched answers (List.Subset.refl _) _ (hrequest st _ h)
  fun_induction loadLoop with
  | case1 _ _ _ _ hst | case2 _ _ _ hst | case3 _ _ hst | case4 _ _ hst =>
    have hlast := hround _ h
    rw [hst] at hlast
    exact hlast.1
  | case5 _ _ hst _ _ _ ih =>
    have hnext := hround _ h
    rw [hst] at hnext
    exact ih (hnext.2 rfl)

/-- Where the loop succeeds, no partition is left without an offset. -/
theorem need_loadLoop {env : LoadEnv} {r : OffsetReset} {left : Nat} {st : Loading}
    (h : (loadLoop env r left st).1 = .ok ()) : (loadLoop env r left st).2.need = ∅ := by
  fun_induction loadLoop with
  | case1 | case3 | case4 => cases h
  | case2 _ _ _ _ hneed => exact hneed
  | case5 _ _ _ _ _ _ ih => exact ih h

/-- Loading keeps the partitions. -/
theorem map_partKey_loadCommittedOffsets (m : GroupMember) (env : LoadEnv) :
    (m.loadCommittedOffsets env).2.assignments.map (·.partKey) =
      m.assignments.map (·.partKey) := by
  rw [GroupMember.loadCommittedOffsets]
  split_ifs
  · rfl
  · refine loadLoop_induct (P := fun st => st.assignments.map (·.partKey) =
      m.assignments.map (·.partKey)) (fun _ h => h) (fun _ _ h => h) ?_ 19 rfl
    intro _ _ st _ co _ _ _ h
    have hkeys := (ResetCall.map_partKey_applyCommittedOffset
      (env.resetCall m.reset co.partKey) co st.toSeeking).trans h
    exact ⟨fun _ => hkeys, hkeys⟩

theorem need_loadCommittedOffsets {m : GroupMember} {env : LoadEnv}
    (h : (m.loadCommittedOffsets env).1 = .ok ()) : (m.loadCommittedOffsets env).2.need = ∅ := by
  rw [GroupMember.loadCommittedOffsets] at h ⊢
  split_ifs at h ⊢ with hnil
  · rw [GroupMember.loading, hnil]
    rfl
  · exact need_loadLoop h

/-- The answers without an error tell committed offsets of the partitions; a negative one says that
there is none. -/
def LoadEnv.Tells (env : LoadEnv) (committed : PartKey → Int64 → Prop) : Prop :=
  ∀ i answers, env.fetched i = .ok answers → ∀ co ∈ answers, co.errorCode = 0 →
    committed co.partKey co.offset

/-- Each answer to a ListOffsets request lists just the partition asked for, at this offset unless
it has an error code. -/
def LoadEnv.Lists (env : LoadEnv) (listed : PartKey → Int64) : Prop :=
  ∀ pk, (env.listing pk).Lists pk (listed pk)

/-- While the offsets are loaded from `start`: the partitions stay, those that have their offset are
where they start, and the others where they were. -/
structure Loading.Inv (r : OffsetReset) (committed : PartKey → Int64 → Prop)
    (listed : PartKey → Int64) (start : List PartitionOffset) (st : Loading) : Prop where
  keys : st.assignments.map (·.partKey) = start.map (·.partKey)
  need : ∀ pk ∈ st.need, pk ∈ start.map (·.partKey) ∧
    offsetOf st.assignments pk = offsetOf start pk
  loaded : ∀ pk ∈ start.map (·.partKey), pk ∉ st.need →
    ∃ c, committed pk c ∧ offsetOf st.assignments pk = some (startOf r c (listed pk))

section Load

variable {env : LoadEnv} {r : OffsetReset} {committed : PartKey → Int64 → Prop}
  {listed : PartKey → Int64} {start : List PartitionOffset} {st : Loading}

/-- What an application does where the answers list just the partition asked for. -/
theorem Loading.apply_of_lists (hlists : env.Lists listed) {co : CommittedOffset}
    (hassigned : co.partKey ∈ st.assignments.map (·.partKey)) :
    ((st.apply env r co).1 = none → (st.apply env r co).2.need = st.need.erase co.partKey ∧
        (st.apply env r co).2.assignments =
          putOffset co.partKey (startOf r co.offset (listed co.partKey)) st.assignments) ∧
      ((st.apply env r co).1 ≠ none → (st.apply env r co).2.need = st.need ∧
        (st.apply env r co).2.assignments = st.assignments) := by
  have hput := @ResetCall.puts_applyCommittedOffset (env.resetCall r co.partKey) co st.toSeeking
    (listed co.partKey) (hlists co.partKey) hassigned
  refine ⟨fun hok => ⟨if_pos hok, ?_⟩, fun hfailed => ⟨if_neg hfailed, ?_⟩⟩
  · exact hput.trans (if_pos hok)
  · exact hput.trans (if_neg hfailed)

/-- A partition gets its offset. -/
theorem Loading.Inv.put (h : st.Inv r committed listed start) {co : CommittedOffset}
    (hneed : co.partKey ∈ st.need) (hc : committed co.partKey co.offset) {st' : Loading}
    (hst' : st'.need = st.need.erase co.partKey) (hassignments : st'.assignments =
      putOffset co.partKey (startOf r co.offset (listed co.partKey)) st.assignments) :
    st'.Inv r committed listed start := by
  have hmem : co.partKey ∈ st.assignments.map (·.partKey) :=
    h.keys.symm ▸ (h.need co.partKey hneed).1
  refine ⟨?_, ?_, ?_⟩
  · rw [hassignments]
    exact map_partKey_putOffset.trans h.keys
  · intro pk hpk
    rw [hst'] at hpk
    obtain ⟨hne, hpk⟩ := Finset.mem_erase.1 hpk
    refine ⟨(h.need pk hpk).1, ?_⟩
    rw [hassignments, offsetOf_putOffset, if_neg fun heq => hne heq.1.symm]
    exact (h.need pk hpk).2
  · intro pk hstart hpk
    rw [hassignments, offsetOf_putOffset]
    by_cases heq : co.partKey = pk
    · subst heq
      exact ⟨co.offset, hc, if_pos ⟨rfl, hmem⟩⟩
    · rw [if_neg fun h => heq h.1]
      exact h.loaded pk hstart fun hpk' => hpk (hst' ▸ Finset.mem_erase.2 ⟨Ne.symm heq, hpk'⟩)

/-- Loading moves the partitions that get an offset. -/
theorem loadCommittedOffsets_inv {m : GroupMember} (htells : env.Tells committed)
    (hlists : env.Lists listed) :
    (m.loadCommittedOffsets env).2.Inv m.reset committed listed m.assignments := by
  have hstart : m.loading.Inv m.reset committed listed m.assignments :=
    ⟨rfl, fun pk hpk => ⟨mem_toFinset.1 hpk, rfl⟩,
      fun pk hpk hneed => (hneed (mem_toFinset.2 hpk)).elim⟩
  rw [GroupMember.loadCommittedOffsets]
  split_ifs
  · exact hstart
  · refine loadLoop_induct (P := fun st => st.Inv m.reset committed listed m.assignments)
      (fun _ h => h) (fun _ _ h => ⟨h.keys, h.need, h.loaded⟩) ?_ 19 hstart
    intro i answers st hfetched co hco hcode hneed h
    obtain ⟨hok, hfailed⟩ := Loading.apply_of_lists (r := m.reset) hlists
      (h.keys.symm ▸ (h.need co.partKey hneed).1)
    have hput : (st.apply env m.reset co).1 = none →
        (st.apply env m.reset co).2.Inv m.reset committed listed m.assignments := fun herr =>
      h.put hneed (htells i answers hfetched co hco hcode) (hok herr).1 (hok herr).2
    refine ⟨hput, ?_⟩
    by_cases herr : (st.apply env m.reset co).1 = none
    · exact hput herr
    · obtain ⟨hneed', hsame⟩ := hfailed herr
      exact ⟨hsame ▸ h.keys, hneed' ▸ hsame ▸ h.need, hneed' ▸ hsame ▸ h.loaded⟩

end Load

/-! ## The whole call -/

theorem takeAssignment_of_error (h : m.applyAssignment raw = .error e) :
    m.takeAssignment raw env = { result := .error e, member := m } := by
  rw [GroupMember.takeAssignment, h]

theorem takeAssignment_of_ok (env : LoadEnv)
    (h : m.applyAssignment raw = .ok (notified, c, events)) :
    ∃ m' : GroupMember, ∃ load : Except Error Unit × Loading,
      m' = { m with toGroupConsumer := c } ∧ load = m'.loadCommittedOffsets env ∧
      m.takeAssignment raw env =
        { result := load.1, member := { m' with assignments := load.2.assignments }
          applied := true, loaded := (m'.assignments.map (·.partKey)).toFinset \ load.2.need
          events := events ++ if notified ∨ load.1 ≠ .ok () then []
            else GroupConsumer.notifyAssigned { c with assignments := load.2.assignments } } := by
  refine ⟨_, _, rfl, rfl, ?_⟩
  have hkeys := map_partKey_loadCommittedOffsets { m with toGroupConsumer := c } env
  rw [GroupMember.takeAssignment, h]
  dsimp only at hkeys ⊢
  rw [hkeys]
  cases GroupMember.loadCommittedOffsets { m with toGroupConsumer := c } env with
  | mk result st =>
    cases result with
    | error e => simp
    | ok u => simp

theorem prepare_relabelled (h : m.prepare env = .ok m') : Relabelled m m' := by
  obtain ⟨cluster, -, h⟩ := bind_eq_ok.1 h
  obtain ⟨u, -, h⟩ := bind_eq_ok.1 h
  cases h
  exact ⟨_, _, _, rfl⟩

theorem join848Loop_cases (attempt : Nat → HeartbeatAttempt) (i : Nat) (m : GroupMember) :
    ∃ m', Relabelled m m' ∧
      ((∃ e, join848Loop attempt memberID load left i m = { result := .error e, member := m' }) ∨
        ∃ raw, join848Loop attempt memberID load left i m = m'.takeAssignment raw load) := by
  fun_induction join848Loop with
  | case1 _ m | case4 _ _ m => exact ⟨m, .refl m, .inl ⟨_, rfl⟩⟩
  | case2 | case5 | case7 => exact ⟨_, ⟨_, _, _, rfl⟩, .inl ⟨_, rfl⟩⟩
  | case3 _ _ _ _ _ _ _ _ ih | case6 _ _ _ _ _ _ _ _ ih =>
    -- the round is repeated, with the member relabelled
    obtain ⟨m'', hm'', hends⟩ := ih
    exact ⟨m'', Relabelled.trans ⟨_, _, _, rfl⟩ hm'', hends⟩
  | case8 _ _ _ _ _ _ _ raw => exact ⟨_, ⟨_, _, _, rfl⟩, .inr ⟨raw, rfl⟩⟩

/-- How a call that joins can end: it fails before it takes an assignment, or it takes one at its
end. -/
def GroupMember.Joins (m : GroupMember) (load : LoadEnv) (call : JoinCall) : Prop :=
  ∃ m', Relabelled m m' ∧
    ((∃ e, call = { result := .error e, member := m' }) ∨
      ∃ raw syncs, call = { m'.takeAssignment raw load with syncs := syncs })

theorem joinAndAssign848_joins : m.Joins env.load (m.joinAndAssign848 env) := by
  rw [GroupMember.joinAndAssign848]
  cases hprepare : m.prepare env with
  | error e => exact ⟨m, .refl m, .inl ⟨e, rfl⟩⟩
  | ok prepared =>
    obtain ⟨m', hm', hends⟩ := join848Loop_cases env.heartbeat 0
      { prepared with memberID := if prepared.memberID = [] then env.uuid else prepared.memberID }
    refine ⟨m', (prepare_relabelled hprepare).trans (Relabelled.trans ⟨_, _, _, rfl⟩ hm'), ?_⟩
    rcases hends with hfailed | ⟨raw, htaken⟩
    · exact .inl hfailed
    · exact .inr ⟨raw, (m'.takeAssignment raw env.load).syncs, htaken⟩

/-- The classic protocol: the call fails before it takes an assignment, or takes one, with the
SyncGroup that succeeded or after all rounds are used up. -/
theorem joinAndAssign_classic (hclassic : m.nextGen = false) :
    ∃ m', Relabelled m m' ∧
      ((∃ e, m.joinAndAssign env = { result := .error e, member := m' }) ∨
        (∃ raw, m.joinAndAssign env =
          { m'.takeAssignment raw env.load with syncs := [(m'.generation, raw)] }) ∨
        m.joinAndAssign env = { m'.takeAssignment [] env.load with syncs := [] }) := by
  rw [GroupMember.joinAndAssign, hclassic, if_neg Bool.false_ne_true]
  split_ifs with hregex
  · exact ⟨m, .refl m, .inl ⟨_, rfl⟩⟩
  · cases hprepare : m.prepare env with
    | error e => exact ⟨m, .refl m, .inl ⟨e, rfl⟩⟩
    | ok prepared =>
      obtain ⟨hloop, hends⟩ := joinLoop_cases env.attempt 0 prepared
      refine ⟨_, (prepare_relabelled hprepare).trans hloop, ?_⟩
      dsimp only
      rcases hends with ⟨e, hresult, hsyncs⟩ | ⟨raw, hresult, hsyncs⟩ | ⟨hresult, hsyncs⟩
      · rw [hresult, hsyncs]
        exact .inl ⟨e, rfl⟩
      · rw [hresult, hsyncs]
        exact .inr (.inl ⟨raw, rfl⟩)
      · rw [hresult, hsyncs]
        exact .inr (.inr rfl)

theorem joinAndAssign_joins (m : GroupMember) (env : JoinEnv) :
    m.Joins env.load (m.joinAndAssign env) := by
  cases hgen : m.nextGen with
  | true =>
    rw [GroupMember.joinAndAssign, hgen]
    exact joinAndAssign848_joins
  | false =>
    obtain ⟨m', hm', hends⟩ := joinAndAssign_classic hgen
    refine ⟨m', hm', ?_⟩
    rcases hends with hfailed | ⟨raw, htaken⟩ | htaken
    · exact .inl hfailed
    · exact .inr ⟨raw, _, htaken⟩
    · exact .inr ⟨[], _, htaken⟩

end GoKafka
