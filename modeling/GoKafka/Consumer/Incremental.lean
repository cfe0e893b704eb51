import GoKafka.Consumer.Assignment
import GoKafka.Lib.Slice

/-!
# An incremental assignment, in place

`applyAssignmentIncrementalLocked` filters `c.assignments` into its own array (`kept` starts as
`c.assignments[:0]`) and appends the new partitions behind what it keeps, in the same array as long
as it has room. This is the function on slices; it computes what the function on lists does
(`applyAssignmentIncrementalLocked_eq`), and where neither the old nor the new assignment names a
partition twice, this is their exact difference (`applyAssignmentIncrementalLocked_exact`). The
listener's calls do not come back to the consumer.
-/

namespace GoKafka

open Slices List

/-! ## The program -/

/-- The last loops: the partitions that are not there yet are appended. -/
def appendNew (room : Nat → List PartitionOffset) (existing : List PartKey) :
    List PartitionOffset → Heap PartitionOffset → Slice → List PartitionOffset →
      Heap PartitionOffset × Slice × List PartitionOffset
  | [], h, kept, assigned => (h, kept, assigned)
  | a :: parts, h, kept, assigned =>
    if a.partKey ∈ existing then appendNew room existing parts h kept assigned
    else
      appendNew room existing parts (append room h kept a).1 (append room h kept a).2
        (assigned ++ [a])

/-- `Consumer.applyAssignmentIncrementalLocked`: the heap and `c.assignments` after it, and the
listener's calls. -/
def applyAssignmentIncrementalLocked (room : Nat → List PartitionOffset) (listening : Bool)
    (h : Heap PartitionOffset) (assignments : Slice) (parsed : List TopicPartitionAssignment) :
    Heap PartitionOffset × Slice × List RebalanceEvent :=
  let newSet := (partitionsOf parsed).map (·.partKey)
  let (h, kept, revoked) :=
    keep room (·.partKey ∈ newSet) assignments assignments.len 0 h (assignments.cut 0) []
  let existing := (elems h kept).map (·.partKey)
  let (h, kept, assigned) := appendNew room existing (partitionsOf parsed) h kept []
  (h, kept,
    (if listening ∧ revoked ≠ [] then [.revoked revoked] else []) ++
      if listening ∧ assigned ≠ [] then [.assigned assigned] else [])

/-! ## In place and on lists -/

/-- The loop appends the partitions that are not there, and lists them. -/
theorem appendNew_spec (room : Nat → List PartitionOffset) (existing : List PartKey)
    (hkept : Valid h kept) (assigned : List PartitionOffset) :
    let out := appendNew room existing parts h kept assigned
    Valid out.1 out.2.1 ∧
      elems out.1 out.2.1 = elems h kept ++ parts.filter (·.partKey ∉ existing) ∧
      out.2.2 = assigned ++ parts.filter (·.partKey ∉ existing) := by
  fun_induction appendNew room existing parts h kept assigned with
  | case1 => exact ⟨hkept, (append_nil _).symm, (append_nil _).symm⟩
  | case2 a parts h kept assigned ha ih =>
    rw [filter_cons_of_neg (by simpa using ha)]
    exact ih hkept
  | case3 a parts h kept assigned ha ih =>
    obtain ⟨hvalid, helems⟩ := append_spec room hkept
    obtain ⟨hvalid', helems', hassigned⟩ := ih hvalid
    rw [filter_cons_of_pos (by simpa using ha)]
    refine ⟨hvalid', ?_, ?_⟩
    · rw [helems', helems, append_assoc, singleton_append]
    · rw [hassigned, append_assoc, singleton_append]

/-- The reused array ends with the assignments of the list, and the same events are reported. -/
theorem applyAssignmentIncrementalLocked_eq (room : Nat → List PartitionOffset) (c : GroupConsumer)
    (hs : Valid h s) (hc : elems h s = c.assignments) :
    let out := applyAssignmentIncrementalLocked room c.listening h s parsed
    Valid out.1 out.2.1 ∧
      elems out.1 out.2.1 = (c.applyAssignmentIncremental parsed).1.assignments ∧
      out.2.2 = (c.applyAssignmentIncremental parsed).2 := by
  obtain ⟨hvalid, hkept, hrevoked⟩ :=
    keep_spec room (fun a : PartitionOffset => a.partKey ∈ (partitionsOf parsed).map (·.partKey)) hs
  rw [hc] at hkept hrevoked
  simp only [applyAssignmentIncrementalLocked, GroupConsumer.applyAssignmentIncremental]
  generalize keep room
    (fun a : PartitionOffset => a.partKey ∈ (partitionsOf parsed).map (·.partKey))
    s s.len 0 h (s.cut 0) [] = first at hvalid hkept hrevoked ⊢
  obtain ⟨h', kept, revoked⟩ := first
  dsimp only at hvalid hkept hrevoked ⊢
  obtain ⟨hvalid', helems, hassigned⟩ := appendNew_spec room
    ((elems h' kept).map (·.partKey)) hvalid []
  rw [hkept] at helems hassigned hvalid' ⊢
  refine ⟨hvalid', helems, ?_⟩
  have hdropped : revoked =
      c.assignments.filter (·.partKey ∉ (partitionsOf parsed).map (·.partKey)) := by
    rw [hrevoked]
    refine filter_congr fun a _ => ?_
    rw [decide_not]
  rw [hassigned, hdropped, nil_append]

/-! ## The difference -/

section Difference

variable {old : List PartitionOffset}

theorem filter_new_eq : (partitionsOf parsed).filter (·.partKey ∉
        (old.filter (·.partKey ∈ encodedPartitions parsed)).map (·.partKey)) =
      (partitionsOf parsed).filter (·.partKey ∉ old.map (·.partKey)) := by
  refine filter_congr fun a ha => decide_eq_decide.2 (not_congr ?_)
  have hnew : a.partKey ∈ encodedPartitions parsed := mem_map_of_mem ha
  constructor
  · exact fun hmem => (filter_sublist.map _).subset hmem
  · intro hmem
    obtain ⟨b, hb, heq⟩ := mem_map.1 hmem
    exact mem_map.2 ⟨b, mem_filter.2 ⟨hb, decide_eq_true (heq ▸ hnew)⟩, heq⟩

theorem nodup_keptAndNew (hold : (old.map (·.partKey)).Nodup)
    (hnew : (encodedPartitions parsed).Nodup) :
    ((old.filter (·.partKey ∈ encodedPartitions parsed) ++
      (partitionsOf parsed).filter (·.partKey ∉ old.map (·.partKey))).map (·.partKey)).Nodup := by
  rw [map_append]
  refine nodup_append.2 ⟨hold.sublist (filter_sublist.map _),
    hnew.sublist (filter_sublist.map _), fun pk hpk pk' hpk' heq => ?_⟩
  obtain ⟨b, hb, rfl⟩ := mem_map.1 hpk'
  refine of_decide_eq_true (mem_filter.1 hb).2 (heq ▸ ?_)
  exact (filter_sublist.map _).subset hpk

theorem mem_keptAndNew : pk ∈ (old.filter (·.partKey ∈ encodedPartitions parsed) ++
        (partitionsOf parsed).filter (·.partKey ∉ old.map (·.partKey))).map (·.partKey) ↔
      pk ∈ encodedPartitions parsed := by
  rw [map_append, mem_append]
  constructor
  · rintro (hpk | hpk)
    · obtain ⟨a, ha, rfl⟩ := mem_map.1 hpk
      exact of_decide_eq_true (mem_filter.1 ha).2
    · exact (filter_sublist.map _).subset hpk
  · intro hpk
    by_cases hin : pk ∈ old.map (·.partKey)
    · obtain ⟨a, ha, rfl⟩ := mem_map.1 hin
      exact .inl (mem_map_of_mem (mem_filter.2 ⟨ha, decide_eq_true hpk⟩))
    · obtain ⟨a, ha, rfl⟩ := mem_map.1 hpk
      exact .inr (mem_map_of_mem (mem_filter.2 ⟨ha, decide_eq_true hin⟩))

theorem filter_keptAndNew : (old.filter (·.partKey ∈ encodedPartitions parsed) ++
        (partitionsOf parsed).filter (·.partKey ∉ old.map (·.partKey))).filter
          (·.partKey ∈ old.map (·.partKey)) =
      old.filter (·.partKey ∈ encodedPartitions parsed) := by
  have hkept : (old.filter (·.partKey ∈ encodedPartitions parsed)).filter
      (·.partKey ∈ old.map (·.partKey)) = old.filter (·.partKey ∈ encodedPartitions parsed) := by
    refine filter_eq_self.2 fun a ha => decide_eq_true ?_
    exact mem_map_of_mem (mem_filter.1 ha).1
  have hadded : ((partitionsOf parsed).filter (·.partKey ∉ old.map (·.partKey))).filter
      (·.partKey ∈ old.map (·.partKey)) = [] := by
    refine filter_eq_nil_iff.2 fun a ha hin => ?_
    exact of_decide_eq_true (mem_filter.1 ha).2 (of_decide_eq_true hin)
  rw [filter_append, hkept, hadded, append_nil]

end Difference

/-- Afterwards `c.assignments` has each new partition exactly once and nothing else; the partitions
in both assignments have kept their offsets and their order; and the listener was told of exactly
the old partitions that are not new, with their last offsets, and of exactly the new ones that are
not old. -/
theorem applyAssignmentIncrementalLocked_exact (room : Nat → List PartitionOffset)
    (listening : Bool) {h : Heap PartitionOffset} {s : Slice} (hs : Valid h s)
    {parsed : List TopicPartitionAssignment} (hold : ((elems h s).map (·.partKey)).Nodup)
    (hnew : (encodedPartitions parsed).Nodup) :
    let old := elems h s
    let r := applyAssignmentIncrementalLocked room listening h s parsed
    let now := elems r.1 r.2.1
    let revoked := old.filter (·.partKey ∉ encodedPartitions parsed)
    let assigned := (partitionsOf parsed).filter (·.partKey ∉ old.map (·.partKey))
    (now.map (·.partKey)).Nodup ∧
      (∀ pk, pk ∈ now.map (·.partKey) ↔ pk ∈ encodedPartitions parsed) ∧
      now.filter (·.partKey ∈ old.map (·.partKey)) =
        old.filter (·.partKey ∈ encodedPartitions parsed) ∧
      r.2.2 = (if listening ∧ revoked ≠ [] then [.revoked revoked] else []) ++
        if listening ∧ assigned ≠ [] then [.assigned assigned] else [] := by
  intro old r now revoked assigned
  let c : GroupConsumer :=
    { topics := [], cluster := { seeds := [] }, listening := listening, assignments := old }
  obtain ⟨-, helems, hevents⟩ := applyAssignmentIncrementalLocked_eq room c hs rfl
  have hassigned : (partitionsOf parsed).filter (·.partKey ∉
      (old.filter (·.partKey ∈ (partitionsOf parsed).map (·.partKey))).map (·.partKey)) =
        assigned := filter_new_eq
  simp only [GroupConsumer.applyAssignmentIncremental] at helems hevents
  rw [hassigned] at helems hevents
  have hnow : now = old.filter (·.partKey ∈ encodedPartitions parsed) ++ assigned := helems
  refine ⟨?_, ?_, ?_, hevents⟩
  · rw [hnow]
    exact nodup_keptAndNew hold hnew
  · intro pk
    rw [hnow]
    exact mem_keptAndNew
  · rw [hnow]
    exact filter_keptAndNew

/-- Partitions 0, 1 and 2 of topic `t` at offsets 5, 7 and 9 in an array with no room to spare;
partitions 2, 3, 4 and 0 are assigned, so that the last append moves to a new array. -/
theorem applyAssignmentIncrementalLocked_exact_grow : elems
      (applyAssignmentIncrementalLocked (fun _ => []) true
        [[⟨ascii "t", 0, 5⟩, ⟨ascii "t", 1, 7⟩, ⟨ascii "t", 2, 9⟩]] ⟨0, 3⟩
        [⟨ascii "t", [2, 3, 4, 0]⟩]).1
      (applyAssignmentIncrementalLocked (fun _ => []) true
        [[⟨ascii "t", 0, 5⟩, ⟨ascii "t", 1, 7⟩, ⟨ascii "t", 2, 9⟩]] ⟨0, 3⟩
        [⟨ascii "t", [2, 3, 4, 0]⟩]).2.1 =
      [⟨ascii "t", 0, 5⟩, ⟨ascii "t", 2, 9⟩, ⟨ascii "t", 3, 0⟩, ⟨ascii "t", 4, 0⟩] ∧
    (applyAssignmentIncrementalLocked (fun _ => []) true
        [[⟨ascii "t", 0, 5⟩, ⟨ascii "t", 1, 7⟩, ⟨ascii "t", 2, 9⟩]] ⟨0, 3⟩
        [⟨ascii "t", [2, 3, 4, 0]⟩]).2.2 =
      [.revoked [⟨ascii "t", 1, 7⟩], .assigned [⟨ascii "t", 3, 0⟩, ⟨ascii "t", 4, 0⟩]] := by
  refine ⟨by decide +kernel, ?_⟩
  have hexact := (@applyAssignmentIncrementalLocked_exact (fun _ => []) true
    [[⟨ascii "t", 0, 5⟩, ⟨ascii "t", 1, 7⟩, ⟨ascii "t", 2, 9⟩]] ⟨0, 3⟩ ⟨by decide, by decide⟩
    [⟨ascii "t", [2, 3, 4, 0]⟩] (by decide) (by decide)).2.2.2
  decide +kernel

end GoKafka
