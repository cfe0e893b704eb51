import GoKafka.Consumer.GroupSpec

/-!
# Loading the committed offsets is complete

`loadCommittedOffsets` asks until every assigned partition has its offset. What it has met so far is
the list of the entries of all answers (`LoadEnv.entries`), and what it does with them depends on
the first entry without an error of each partition (`firstOk`): such an entry is applied when it
comes, the entries of the partition before it are waited out or fatal, and those behind it are
skipped. `Loading.Loaded` is that account as an invariant of the loops, over the entries met; the
set `need` is the assigned partitions whose first such entry is yet to come. A seek for one
partition may move others, as an answer may list them; where it does not, the account includes the
positions.
-/

namespace GoKafka

open List

/-! ## What is applied -/

/-- The entries of the first answers, in the order in which they come. -/
def LoadEnv.entries (env : LoadEnv) (n : Nat) : List CommittedOffset :=
  (List.range n).flatMap fun i => ((env.fetched i).toOption).getD []

/-- The first entry of the partition without an error. -/
def firstOk (entries : List CommittedOffset) (pk : PartKey) : Option CommittedOffset :=
  entries.find? fun co => co.partKey = pk ∧ co.errorCode = 0

/-- What a call of `applyCommittedOffset` came to. -/
def Application.outcome (env : LoadEnv) (r : OffsetReset) (call : Application) :
    Option Error × Seeking :=
  (env.resetCall r call.entry.partKey).applyCommittedOffset call.entry call.before

theorem LoadEnv.entries_succ {env : LoadEnv} (h : env.fetched n = .ok committed) :
    env.entries (n + 1) = env.entries n ++ committed := by
  rw [LoadEnv.entries, range_succ, flatMap_append, ← LoadEnv.entries]
  simp [h, Except.toOption]

theorem firstOk_some (h : firstOk entries pk = some co) : co.partKey = pk ∧ co.errorCode = 0 :=
  of_decide_eq_true
    (List.find?_some (p := fun co : CommittedOffset => co.partKey = pk ∧ co.errorCode = 0) h)

theorem firstOk_concat :
    firstOk (entries ++ [co]) pk =
      (firstOk entries pk).or (if co.partKey = pk ∧ co.errorCode = 0 then some co else none) := by
  rw [firstOk, List.find?_append, ← firstOk, List.find?_singleton]
  simp

/-! ## The invariant -/

/-- While the offsets of `start` are loaded, with these entries met: an assigned partition is needed
as long as it has no entry without an error, `applyCommittedOffset` was called for the first such
entry of each partition, and for nothing else, and succeeded, and no needed partition had a fatal
entry. Where the ListOffsets answers list just the partition asked for, a partition is where its
entry says. -/
structure Loading.Loaded (env : LoadEnv) (r : OffsetReset) (start : List PartitionOffset)
    (entries : List CommittedOffset) (st : Loading) : Prop where
  keys : st.assignments.map (·.partKey) = start.map (·.partKey)
  need : ∀ pk, pk ∈ st.need ↔ pk ∈ start.map (·.partKey) ∧ firstOk entries pk = none
  first : ∀ call ∈ st.applied, firstOk entries call.entry.partKey = some call.entry
  succeeded : ∀ call ∈ st.applied, (call.outcome env r).1 = none ∧
    (0 ≤ call.entry.offset → offsetOf (call.outcome env r).2.assignments call.entry.partKey =
      some call.entry.offset)
  loaded : ∀ pk ∈ start.map (·.partKey), ∀ co, firstOk entries pk = some co →
    ∃ call ∈ st.applied, call.entry = co
  placed : ∀ listed, env.Lists listed → ∀ pk ∈ start.map (·.partKey), ∀ co,
    firstOk entries pk = some co →
    offsetOf st.assignments pk = some (startOf r co.offset (listed pk))
  fatal : ∀ before co after, entries = before ++ co :: after → co.Fatal →
    co.partKey ∈ start.map (·.partKey) → firstOk before co.partKey ≠ none

section Loaded

variable {env : LoadEnv} {r : OffsetReset} {start : List PartitionOffset} {st : Loading}
  {entries : List CommittedOffset} {co : CommittedOffset}

theorem concat_eq_append_cons {α : Type} {l before after : List α} {x y : α}
    (h : l ++ [x] = before ++ y :: after) :
    (l = before ∧ x = y) ∨ ∃ after', l = before ++ y :: after' := by
  rcases eq_nil_or_concat after with rfl | ⟨after', z, rfl⟩
  · obtain ⟨hl, hx⟩ := append_inj' h rfl
    exact .inl ⟨hl, singleton_inj.1 hx⟩
  · rw [concat_eq_append, ← cons_append, ← append_assoc] at h
    exact .inr ⟨after', (append_inj' h rfl).1⟩

/-- An entry that is passed over: its partition is not needed, or it is waited out. -/
theorem Loading.Loaded.skip (h : st.Loaded env r start entries)
    (hskip : co.partKey ∉ st.need ∨ co.errorCode ≠ 0 ∧ ¬ co.Fatal) :
    st.Loaded env r start (entries ++ [co]) := by
  have hfirst : ∀ pk ∈ start.map (·.partKey),
      firstOk (entries ++ [co]) pk = firstOk entries pk := by
    intro pk hpk
    rw [firstOk_concat]
    rcases hskip with hneed | ⟨hcode, -⟩
    · split_ifs with heq
      · rw [← heq.1] at hpk ⊢
        cases hold : firstOk entries co.partKey with
        | none => exact absurd ((h.need co.partKey).2 ⟨hpk, hold⟩) hneed
        | some _ => rfl
      · exact Option.or_none
    · rw [if_neg fun heq => hcode heq.2]
      exact Option.or_none
  refine ⟨h.keys, fun pk => ?_, fun call hcall => ?_, h.succeeded, fun pk hpk co' hco' => ?_,
    fun listed hlists pk hpk co' hco' => ?_, ?_⟩
  · rw [h.need pk]
    exact and_congr_right fun hpk => by rw [hfirst pk hpk]
  · rw [firstOk_concat, h.first call hcall]
    rfl
  · exact h.loaded pk hpk co' ((hfirst pk hpk).symm.trans hco')
  · exact h.placed listed hlists pk hpk co' ((hfirst pk hpk).symm.trans hco')
  · intro before co' after heq hfatal hpk
    rcases concat_eq_append_cons heq with ⟨rfl, rfl⟩ | ⟨after', heq'⟩
    · rcases hskip with hneed | ⟨-, hnot⟩
      · exact fun hnone => hneed ((h.need _).2 ⟨hpk, hnone⟩)
      · exact absurd hfatal hnot
    · exact h.fatal before co' after' heq' hfatal hpk

/-- An entry that is applied. -/
theorem Loading.Loaded.apply (h : st.Loaded env r start entries) (hneed : co.partKey ∈ st.need)
    (hcode : co.errorCode = 0) (hok : (st.apply env r co).1 = none) :
    (st.apply env r co).2.Loaded env r start (entries ++ [co]) := by
  obtain ⟨hpk, hnone⟩ := (h.need co.partKey).1 hneed
  have hown : firstOk (entries ++ [co]) co.partKey = some co := by
    rw [firstOk_concat, hnone, if_pos ⟨rfl, hcode⟩]
    rfl
  have hother : ∀ pk, co.partKey ≠ pk → firstOk (entries ++ [co]) pk = firstOk entries pk := by
    intro pk hne
    rw [firstOk_concat, if_neg fun heq => hne heq.1]
    exact Option.or_none
  have hmem : co.partKey ∈ st.assignments.map (·.partKey) := h.keys.symm ▸ hpk
  refine ⟨?_, fun pk => ?_, fun call hcall => ?_, fun call hcall => ?_,
    fun pk hstart co' hco' => ?_, fun listed hlists pk hstart co' hco' => ?_, ?_⟩
  · exact (ResetCall.map_partKey_applyCommittedOffset _ co st.toSeeking).trans h.keys
  · rw [show (st.apply env r co).2.need = st.need.erase co.partKey from if_pos hok]
    by_cases heq : co.partKey = pk
    · subst heq
      rw [hown]
      simp
    · rw [hother pk heq, Finset.mem_erase, h.need pk]
      exact and_iff_right (Ne.symm heq)
  · rcases mem_append.1 hcall with hcall | hcall
    · rw [firstOk_concat, h.first call hcall]
      rfl
    · rw [mem_singleton.1 hcall]
      exact hown
  · rcases mem_append.1 hcall with hcall | hcall
    · exact h.succeeded call hcall
    · rw [mem_singleton.1 hcall]
      refine ⟨hok, fun hcommitted => ?_⟩
      rw [Application.outcome, ResetCall.applyCommittedOffset, if_pos hcommitted,
        offsetOf_putOffset, if_pos ⟨rfl, hmem⟩]
  · by_cases heq : co.partKey = pk
    · rw [← heq, hown, Option.some_inj] at hco'
      exact ⟨_, mem_append_right _ (mem_singleton_self _), hco'⟩
    · rw [hother pk heq] at hco'
      obtain ⟨call, hcall, hentry⟩ := h.loaded pk hstart co' hco'
      exact ⟨call, mem_append_left _ hcall, hentry⟩
  · rw [((Loading.apply_of_lists hlists hmem).1 hok).2, offsetOf_putOffset]
    by_cases heq : co.partKey = pk
    · rw [← heq, hown, Option.some_inj] at hco'
      rw [if_pos ⟨heq, hmem⟩, ← heq, hco']
    · rw [hother pk heq] at hco'
      rw [if_neg fun hand => heq hand.1]
      exact h.placed listed hlists pk hstart co' hco'
  · intro before co' after heq hfatal hpk'
    rcases concat_eq_append_cons heq with ⟨-, rfl⟩ | ⟨after', heq'⟩
    · exact absurd hcode hfatal.1
    · exact h.fatal before co' after' heq' hfatal hpk'

theorem requests_applyAnswers (answers : List CommittedOffset) (st : Loading) :
    (applyAnswers env r answers st).2.requests = st.requests := by
  fun_induction applyAnswers with
  | case1 | case4 => rfl
  | case2 _ _ _ _ ih | case3 _ _ _ _ _ _ ih => exact ih
  | case5 co _ st _ _ e st' hst => exact (congrArg (fun p => p.2.requests) hst).symm
  | case6 co _ st _ _ st' hst ih => exact ih.trans (congrArg (fun p => p.2.requests) hst).symm

/-- The loop over an answer that succeeds. -/
theorem applyAnswers_loaded {answers : List CommittedOffset} (h : st.Loaded env r start entries)
    (hok : (applyAnswers env r answers st).1 = .ok ()) :
    (applyAnswers env r answers st).2.Loaded env r start (entries ++ answers) := by
  fun_induction applyAnswers generalizing entries with
  | case1 => rwa [append_nil]
  | case2 co answers st hneed ih =>
    rw [append_cons]
    exact ih (h.skip (.inl hneed)) hok
  | case3 co answers st hneed hcode hretry ih =>
    rw [append_cons]
    exact ih (h.skip (.inr ⟨hcode, fun hfatal => Bool.false_ne_true (hfatal.2.symm.trans hretry)⟩))
      hok
  | case4 | case5 => cases hok
  | case6 co answers st hneed hcode st' hst ih =>
    have hco := h.apply (not_not.1 hneed) (not_not.1 hcode) (by rw [hst])
    rw [hst] at hco
    rw [append_cons]
    exact ih hco hok

theorem requests_loadRound (st : Loading) :
    (loadRound env r st).2.requests = st.requests + 1 := by
  rw [loadRound]
  cases env.fetched st.requests with
  | error e => rfl
  | ok answers => exact requests_applyAnswers answers _

/-- A round that succeeds. -/
theorem loadRound_loaded (h : st.Loaded env r start (env.entries st.requests))
    (hok : (loadRound env r st).1 = .ok ()) :
    (loadRound env r st).2.Loaded env r start (env.entries (loadRound env r st).2.requests) := by
  rw [requests_loadRound]
  rw [loadRound] at hok ⊢
  cases hfetched : env.fetched st.requests with
  | error e =>
    rw [hfetched] at hok
    cases hok
  | ok answers =>
    rw [hfetched] at hok
    rw [LoadEnv.entries_succ hfetched]
    exact applyAnswers_loaded
      ⟨h.keys, h.need, h.first, h.succeeded, h.loaded, h.placed, h.fatal⟩ hok

/-- All rounds, where the loop succeeds. -/
theorem loadLoop_loaded {left : Nat} (h : st.Loaded env r start (env.entries st.requests))
    (hok : (loadLoop env r left st).1 = .ok ()) :
    (loadLoop env r left st).2.Loaded env r start
      (env.entries (loadLoop env r left st).2.requests) := by
  fun_induction loadLoop with
  | case1 | case3 | case4 => cases hok
  | case2 _ _ _ hst =>
    have hround := loadRound_loaded h (by rw [hst])
    rwa [hst] at hround
  | case5 _ _ hst _ _ _ ih =>
    have hround := loadRound_loaded h (by rw [hst])
    rw [hst] at hround
    exact ih hround hok

end Loaded

/-! ## Once, and at most twenty requests -/

section Once

variable {env : LoadEnv} {r : OffsetReset}

theorem requests_loadLoop_le (left : Nat) (st : Loading) :
    (loadLoop env r left st).2.requests ≤ st.requests + left + 1 := by
  fun_induction loadLoop with
  | case1 _ st _ _ hst | case2 _ st _ hst | case3 st _ hst | case4 st _ hst =>
    have hround := @requests_loadRound env r st
    rw [hst] at hround
    dsimp only at hround ⊢
    omega
  | case5 st _ hst _ _ _ ih =>
    have hround := @requests_loadRound env r st
    rw [hst] at hround
    dsimp only at hround
    omega

/-- `applyCommittedOffset` was called at most once for a partition. -/
def Loading.Once (st : Loading) : Prop := (st.applied.map (·.entry.partKey)).Nodup

theorem loadLoop_once (left : Nat) {st : Loading} (hnone : st.applied = []) :
    (loadLoop env r left st).2.Once := by
  refine loadLoop_induct
    (P := fun st => st.Once ∧ ∀ call ∈ st.applied, call.entry.partKey ∉ st.need)
    (fun _ h => h.1) (fun _ _ h => h) ?_ left (by simp [Loading.Once, hnone])
  intro _ _ st _ co _ _ hneed ⟨hnodup, hdone⟩
  have happlied : (st.apply env r co).2.Once := by
    rw [Loading.Once, Loading.apply, map_append]
    refine nodup_append.2 ⟨hnodup, nodup_singleton _, fun pk hpk pk' hpk' heq => ?_⟩
    obtain ⟨call, hcall, rfl⟩ := mem_map.1 hpk
    rw [mem_singleton.1 hpk'] at heq
    exact hdone call hcall (heq ▸ hneed)
  refine ⟨fun hok => ⟨happlied, fun call hcall => ?_⟩, happlied⟩
  rw [show (st.apply env r co).2.need = st.need.erase co.partKey from if_pos hok]
  rcases mem_append.1 hcall with hcall | hcall
  · exact fun hin => hdone call hcall (Finset.mem_of_mem_erase hin)
  · rw [mem_singleton.1 hcall]
    exact Finset.notMem_erase _ _

end Once

/-! ## Complete -/

theorem loaded_start (env : LoadEnv) (m : GroupMember) :
    m.loading.Loaded env m.reset m.assignments (env.entries 0) where
  keys := rfl
  need pk := by
    rw [GroupMember.loading, mem_toFinset]
    exact (and_iff_left rfl).symm
  first call hcall := absurd hcall not_mem_nil
  succeeded call hcall := absurd hcall not_mem_nil
  loaded pk _ co hco := by cases hco
  placed listed _ pk _ co hco := by cases hco
  fatal before co after heq := by
    have hlen := congrArg List.length heq
    simp [LoadEnv.entries] at hlen

/-- Loading that succeeds keeps the account. -/
theorem loadCommittedOffsets_loaded {m : GroupMember} {env : LoadEnv}
    (hok : (m.loadCommittedOffsets env).1 = .ok ()) :
    (m.loadCommittedOffsets env).2.Loaded env m.reset m.assignments
      (env.entries (m.loadCommittedOffsets env).2.requests) := by
  rw [GroupMember.loadCommittedOffsets] at hok ⊢
  split_ifs at hok ⊢ with hnil
  · exact loaded_start env m
  · exact loadLoop_loaded (loaded_start env m) hok

/-- Where `loadCommittedOffsets` returns nil, every assigned partition had an entry without an
error, `applyCommittedOffset` was called for the first of them and succeeded, which puts the
partition at the committed offset if there is one, and it was called for nothing else; and where
each ListOffsets answer lists just the partition asked for, that is where the partition is in the
end. No partition is applied twice, in any case; a fatal code of a partition that had no such entry
before it makes the call fail; and at most 20 requests are sent. -/
theorem loadCommittedOffsets_complete (m : GroupMember) (env : LoadEnv) :
    let out := (m.loadCommittedOffsets env).2
    ((m.loadCommittedOffsets env).1 = .ok () →
      (∀ a ∈ m.assignments, ∃ call ∈ out.applied,
        firstOk (env.entries out.requests) a.partKey = some call.entry ∧
        (call.outcome env m.reset).1 = none ∧
        (0 ≤ call.entry.offset →
          offsetOf (call.outcome env m.reset).2.assignments a.partKey = some call.entry.offset) ∧
        ∀ listed, env.Lists listed → offsetOf out.assignments a.partKey =
          some (startOf m.reset call.entry.offset (listed a.partKey))) ∧
      ∀ call ∈ out.applied,
        firstOk (env.entries out.requests) call.entry.partKey = some call.entry) ∧
    (out.applied.map (·.entry.partKey)).Nodup ∧
    (∀ before co after, env.entries out.requests = before ++ co :: after →
      co.Fatal → co.partKey ∈ m.assignments.map (·.partKey) → firstOk before co.partKey = none →
      ∃ e, (m.loadCommittedOffsets env).1 = .error e) ∧
    out.requests ≤ 20 := by
  intro out
  refine ⟨fun hok => ?_, ?_, fun before co after heq hfatal hpk hnone => ?_, ?_⟩
  · have hloaded := loadCommittedOffsets_loaded hok
    refine ⟨fun a ha => ?_, hloaded.first⟩
    have hpk : a.partKey ∈ m.assignments.map (·.partKey) := mem_map_of_mem ha
    cases hfirst : firstOk (env.entries out.requests) a.partKey with
    | none =>
      have hin := (hloaded.need a.partKey).2 ⟨hpk, hfirst⟩
      rw [need_loadCommittedOffsets hok] at hin
      exact absurd hin (Finset.notMem_empty _)
    | some co =>
      obtain ⟨call, hcall, rfl⟩ := hloaded.loaded a.partKey hpk co hfirst
      have hkey : call.entry.partKey = a.partKey := (firstOk_some hfirst).1
      obtain ⟨hsucceeded, hcommitted⟩ := hloaded.succeeded call hcall
      exact ⟨call, hcall, rfl, hsucceeded, hkey ▸ hcommitted,
        fun listed hlists => hloaded.placed listed hlists a.partKey hpk _ hfirst⟩
  · rw [show out = (m.loadCommittedOffsets env).2 from rfl, GroupMember.loadCommittedOffsets]
    split_ifs
    · exact nodup_nil
    · exact loadLoop_once 19 rfl
  · cases hresult : (m.loadCommittedOffsets env).1 with
    | error e => exact ⟨e, rfl⟩
    | ok u =>
      have hloaded := loadCommittedOffsets_loaded hresult
      exact absurd hnone (hloaded.fatal before co after heq hfatal hpk)
  · rw [show out = (m.loadCommittedOffsets env).2 from rfl, GroupMember.loadCommittedOffsets]
    split_ifs
    · exact Nat.zero_le 20
    · exact requests_loadLoop_le 19 m.loading

/-- A member with partitions 0 and 1 of topic `t`. -/
def memberOfTwo : GroupMember where
  topics := [[116]]
  cluster := Cluster.storeMetadata { seeds := [] } splitTopic
  assignments := [⟨[116], 0, 0⟩, ⟨[116], 1, 0⟩]

/-- The first answer has offset 7 for partition 0 and UNSTABLE_OFFSET_COMMIT for partition 1; the
second has offset 9 for partition 0, which is late, and no committed offset for partition 1. The
offset listed for it is 30. -/
def unstableOnce : LoadEnv where
  fetched
    | 0 => .ok [⟨[116], 0, 7, 0⟩, ⟨[116], 1, -1, 88⟩]
    | _ + 1 => .ok [⟨[116], 0, 9, 0⟩, ⟨[116], 1, -1, 0⟩]
  listing _ := oneLeaderEnv [⟨[116], 1, 30, 0⟩]

theorem loadCommittedOffsets_complete_unstable :
    (memberOfTwo.loadCommittedOffsets unstableOnce).1 = .ok () ∧
      (memberOfTwo.loadCommittedOffsets unstableOnce).2.requests = 2 ∧
      (memberOfTwo.loadCommittedOffsets unstableOnce).2.assignments =
        [⟨[116], 0, 7⟩, ⟨[116], 1, 30⟩] ∧
      firstOk (unstableOnce.entries 2) ⟨[116], 0⟩ = some ⟨[116], 0, 7, 0⟩ ∧
      ((memberOfTwo.loadCommittedOffsets unstableOnce).2.applied.map (·.entry.partKey)).Nodup :=
  ⟨by decide +kernel, by decide +kernel, by decide +kernel, by decide +kernel,
    (loadCommittedOffsets_complete memberOfTwo unstableOnce).2.1⟩

end GoKafka
