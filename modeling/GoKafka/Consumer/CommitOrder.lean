import GoKafka.Consumer.Runner

/-!
# The order of the records of a commit

`commitOffsets` writes one more than the offset of each record into a map, so that the last record
of a partition in the list decides what is committed for it. The workers of `Run` hand it the
records in the order in which the handler returns, and every order can occur
(`exists_processRecordsParallel`). What is committed is one more than the largest offset in every
order if and only if there is nothing to choose: no two records of a partition have different
offsets (`commitsLargest_iff`).
-/

namespace GoKafka

open Assoc Workers List

/-- The largest offset among the records of the partition. -/
def largestOffset (records : List Record) (pk : PartKey) : Option Int :=
  ((records.filter (·.partKey = pk)).map (·.offset.toInt)).max?

/-- Whatever the order of the records, each request of a Commit has for their partitions one more
than the largest offset. -/
def CommitsLargest (records : List Record) : Prop :=
  ∀ records' : List Record, records'.Perm records →
    ∀ (s : Committer) (attempt : Nat → CommitAttempt),
      ∀ q ∈ (s.commit records' attempt).requests, ∀ r ∈ records,
        (q.offsets.lookup r.partKey).map Int64.toInt =
          (largestOffset records r.partKey).map (· + 1)

/-- No two records of a partition have different offsets, and each offset has a successor. -/
structure OneOffset (records : List Record) : Prop where
  same : ∀ r ∈ records, ∀ r' ∈ records, r.partKey = r'.partKey → r.offset = r'.offset
  bounded : ∀ r ∈ records, r.offset ≠ Int64.maxValue

/-! ## What is sent -/

variable {records : List Record}

/-- The offsets of a Commit with records do not depend on the member. -/
theorem offsets_commitOffsets (hne : records ≠ []) (attempt : Nat → CommitAttempt) (i : Nat)
    (s : Committer) :
    ∀ q ∈ (s.commitOffsets attempt records left i).requests,
      q.offsets = index (·.partKey) (·.offset + 1) records := by
  have hrequest : ∀ s : Committer,
      (s.request records).offsets = index (·.partKey) (·.offset + 1) records :=
    fun s => if_neg hne
  fun_induction Committer.commitOffsets with
  | case1 | case2 => exact fun q hq => absurd hq not_mem_nil
  | case3 | case4 | case5 | case6 | case8 | case9 | case11 =>
    exact forall_mem_singleton.2 (hrequest _)
  | case7 | case10 =>
    rename_i ih
    exact forall_mem_cons.2 ⟨hrequest _, ih⟩

/-- A commit that is answered at once. -/
def answered : Nat → CommitAttempt := fun _ => { answer := .ok 0, rejoin := joinIn 7 (.ok []) }

/-- The record that comes last decides. -/
theorem lookup_index_concat :
    (index (·.partKey) (·.offset + 1) (records ++ [r])).lookup r.partKey =
      some (r.offset + 1) := by
  rw [index_concat]
  exact AList.lookup_insert _

/-! ## The largest offset -/

theorem largestOffset_eq_some :
    largestOffset records pk = some n ↔
      (∃ r ∈ records, r.partKey = pk ∧ r.offset.toInt = n) ∧
        ∀ r ∈ records, r.partKey = pk → r.offset.toInt ≤ n := by
  rw [largestOffset, List.max?_eq_some_iff]
  simp only [mem_map, mem_filter, decide_eq_true_eq, and_assoc, forall_exists_index, and_imp]
  refine and_congr_right fun _ => ⟨fun h r hr hkey => ?_, fun h n' r hr hkey hn' => ?_⟩
  · exact h _ r hr hkey rfl
  · exact hn' ▸ h r hr hkey

/-- What is committed is one more than the largest offset, in every order, if and only if the
records of a partition all have one offset. -/
theorem commitsLargest_iff (records : List Record) :
    CommitsLargest records ↔ OneOffset records := by
  constructor
  · intro h
    -- any record can come last
    have hlast : ∀ r ∈ records, r.offset ≠ Int64.maxValue ∧
        largestOffset records r.partKey = some r.offset.toInt := by
      intro r hr
      have hperm : (records.erase r ++ [r]).Perm records :=
        perm_append_comm.trans (perm_cons_erase hr).symm
      have hne : records.erase r ++ [r] ≠ [] := by simp
      have hsent := h _ hperm { member := newMember } answered _ (mem_singleton_self _) r hr
      have hoffsets : (Committer.request { member := newMember } (records.erase r ++ [r])).offsets =
          index (·.partKey) (·.offset + 1) (records.erase r ++ [r]) := if_neg hne
      rw [hoffsets, lookup_index_concat] at hsent
      obtain ⟨n, hn, hnext⟩ := Option.map_eq_some_iff.1 hsent.symm
      have hmax : r.offset ≠ Int64.maxValue := by
        intro hmax
        obtain ⟨⟨r', -, -, hr'⟩, -⟩ := largestOffset_eq_some.1 hn
        have hwrap : (r.offset + 1).toInt = -2 ^ 63 := by
          rw [hmax]
          decide
        have hle := r'.offset.le_toInt
        omega
      rw [toInt_add_one hmax] at hnext
      exact ⟨hmax, by rw [hn, add_right_cancel hnext]⟩
    refine ⟨fun r hr r' hr' hkey => ?_, fun r hr => (hlast r hr).1⟩
    have heq := (hlast r hr).2.symm.trans (hkey ▸ (hlast r' hr').2)
    exact Int64.toInt_inj.1 (Option.some.inj heq)
  · intro h records' hperm s attempt q hq r hr
    have hr' := hperm.mem_iff.2 hr
    rw [offsets_commitOffsets (ne_nil_of_mem hr') attempt 0 s q hq, lookup_index]
    have hmem : r ∈ records'.filter (·.partKey = r.partKey) :=
      mem_filter.2 ⟨hr', decide_eq_true rfl⟩
    have hlargest : largestOffset records r.partKey = some r.offset.toInt :=
      largestOffset_eq_some.2 ⟨⟨r, hr, rfl, rfl⟩, fun r' hr' hkey =>
        (congrArg Int64.toInt (h.same r' hr' r hr hkey)).le⟩
    rw [hlargest]
    cases hlast : (records'.filter (·.partKey = r.partKey)).getLast? with
    | none =>
      rw [List.getLast?_eq_none_iff.1 hlast] at hmem
      exact absurd hmem not_mem_nil
    | some last =>
      obtain ⟨hlmem, hlkey⟩ := mem_filter.1 (mem_of_getLast? hlast)
      have hsame := h.same last (hperm.mem_iff.1 hlmem) r hr (of_decide_eq_true hlkey)
      simp [hsame, toInt_add_one (h.bounded r hr)]

/-! ## Completion order -/

/-- The handlers of `processRecordsParallel` can return in any order, and the records are handed to
Commit in that order. -/
theorem exists_processRecordsParallel (hperm : records.Perm recs) :
    ∃ schedule, (processRecordsParallel recs schedule).Idle ∧
      drainResults (processRecordsParallel recs schedule).results = .ok records := by
  obtain ⟨schedule, hrun⟩ := Pool.exists_run_of_perm (p := { busy := recs }) recs.length
    (none : Option Error) rfl hperm
  have hdrain : ∀ rs : List Record, drainResults (rs.map (·, none)) = .ok rs := by
    intro rs
    induction rs with
    | nil => rfl
    | cons r rs ih =>
      rw [map_cons, drainResults, ih]
      rfl
  refine ⟨schedule, ?_, ?_⟩
  · rw [processRecordsParallel, hrun]
    exact ⟨rfl, rfl, rfl, rfl⟩
  · rw [processRecordsParallel, hrun]
    exact hdrain records

theorem map_fst_of_drainResults (h : drainResults results = .ok processed) :
    results.map Prod.fst = processed := by
  induction results generalizing processed with
  | nil => exact Except.ok.inj h
  | cons result results ih =>
    obtain ⟨r, _ | e⟩ := result
    · obtain ⟨rest, hrest, h⟩ := bind_eq_ok.1 h
      rw [← Except.ok.inj h, map_cons, ih hrest]
    · cases h

/-- The lists that `processRecordsParallel` hands to Commit when no handler fails are the orders of
the records, and each of them. -/
theorem processRecordsParallel_iff (recs records : List Record) :
    (∃ schedule, (processRecordsParallel recs schedule).Idle ∧
      drainResults (processRecordsParallel recs schedule).results = .ok records) ↔
      records.Perm recs := by
  constructor
  · rintro ⟨schedule, hidle, hdrain⟩
    obtain ⟨hlog, hresults⟩ := (Pool.conserves_busy.run _ schedule).idle hidle
    exact map_fst_of_drainResults hdrain ▸ (hresults.map Prod.fst).trans hlog
  · exact exists_processRecordsParallel

/-- Offsets 3 and 5 of a partition are polled and both are processed, 5 first: offset 4 is
committed. -/
theorem commit_completionOrder : ((Runner.run { workers := 2 }
        [{ polled := .ok [{ topic := ascii "t", partition := 0, offset := 3 },
                          { topic := ascii "t", partition := 0, offset := 5 }]
           schedule := [.finish 1 none, .report 0, .finish 0 none, .report 0]
           member := { member := newMember }
           attempt := answered }]).events.filterMap fun
      | .sent request => some (request.offsets.lookup ⟨ascii "t", 0⟩)
      | _ => none) = [some 4] ∧
    largestOffset [{ topic := ascii "t", partition := 0, offset := 3 },
      { topic := ascii "t", partition := 0, offset := 5 }] ⟨ascii "t", 0⟩ = some 5 := by
  refine ⟨?_, ?_⟩ <;> decide +kernel

end GoKafka
