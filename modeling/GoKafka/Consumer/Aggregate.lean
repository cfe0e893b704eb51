import GoKafka.Consumer.Delivery

/-!
# The law of `aggregateFetches`

`aggregateFetches_eq` says which entries the two loops take: those up to the poll's last data
entry (`consumed`). Where the entries of a partition are in one node, in increasing order, the
positions it returns draw the same line: an entry was taken if and only if it is below its
partition's new position (`filter_below`). A position is the `int64` one past an offset, and the
largest offset has none. A limit that no slice of records can hold ends the call in a panic.
-/

namespace GoKafka

open Assoc Cut List

/-- The entries of a partition are in one node, in increasing order. -/
structure EntryOrder (nodeItems : List (List FetchItem)) : Prop where
  increasing : ∀ items ∈ nodeItems,
    items.Pairwise fun it it' => it.partKey = it'.partKey → it.offset < it'.offset
  oneNode : nodeItems.Pairwise fun items items' =>
    ∀ it ∈ items, ∀ it' ∈ items', it.partKey ≠ it'.partKey

theorem EntryOrder.flatten (h : EntryOrder nodeItems) :
    nodeItems.flatten.Pairwise fun it it' => it.partKey = it'.partKey → it.offset < it'.offset :=
  List.pairwise_flatten.2 ⟨h.increasing, h.oneNode.imp fun hne it hit it' hit' hkey =>
    (hne it hit it' hit' hkey).elim⟩

/-- The entries up to the `maxPoll`-th data entry. -/
def consumed (nodeItems : List (List FetchItem)) (maxPoll : Nat) : List FetchItem :=
  cut (·.hasRecord) maxPoll nodeItems.flatten

/-- The entry is below its partition's position, which is set. -/
def FetchItem.below (cursor : AList fun _ : PartKey => Int64) (it : FetchItem) : Bool :=
  match cursor.lookup it.partKey with
  | none => false
  | some next => it.offset < next

/-- The positions behind the entries consumed. -/
def behind (nodeItems : List (List FetchItem)) (maxPoll : Nat) : AList fun _ : PartKey => Int64 :=
  index (·.partKey) (·.offset + 1) (consumed nodeItems maxPoll)

section

variable {nodeItems : List (List FetchItem)} {maxPoll : Nat} {pk : PartKey}

theorem lookup_behind : (behind nodeItems maxPoll).lookup pk =
    (((consumed nodeItems maxPoll).filter (·.partKey = pk)).getLast?).map (·.offset + 1) :=
  lookup_index _ pk

/-- A position is one past an entry consumed. -/
theorem mem_of_lookup_behind {next : Int64} (h : (behind nodeItems maxPoll).lookup pk = some next) :
    ∃ last ∈ consumed nodeItems maxPoll, last.partKey = pk ∧ last.offset + 1 = next := by
  rw [lookup_behind] at h
  obtain ⟨last, hlast, hnext⟩ := Option.map_eq_some_iff.1 h
  obtain ⟨hmem, hkey⟩ := mem_filter.1 (mem_of_getLast? hlast)
  exact ⟨last, hmem, of_decide_eq_true hkey, hnext⟩

/-- An entry consumed is below its partition's position. -/
theorem below_of_consumed (horder : EntryOrder nodeItems)
    (hmax : ∀ it ∈ consumed nodeItems maxPoll, it.offset ≠ Int64.maxValue)
    (hit : it ∈ consumed nodeItems maxPoll) :
    it.below (behind nodeItems maxPoll) = true := by
  have hinc : (consumed nodeItems maxPoll).Pairwise fun it it' =>
      it.partKey = it'.partKey → it.offset < it'.offset :=
    horder.flatten.sublist (cut_isPrefixOf maxPoll nodeItems.flatten).sublist
  have hmem : it ∈ (consumed nodeItems maxPoll).filter (·.partKey = it.partKey) :=
    mem_filter.2 ⟨hit, decide_eq_true rfl⟩
  rw [FetchItem.below, lookup_behind]
  cases hlast : ((consumed nodeItems maxPoll).filter (·.partKey = it.partKey)).getLast? with
  | none =>
    rw [List.getLast?_eq_none_iff.1 hlast] at hmem
    exact absurd hmem not_mem_nil
  | some last =>
    obtain ⟨front, hfront⟩ := List.getLast?_eq_some_iff.1 hlast
    have hlmem := mem_filter.1 (mem_of_getLast? hlast)
    have hle : it.offset ≤ last.offset := by
      have hinc' := hinc.sublist (filter_sublist (p := (·.partKey = it.partKey)))
      rw [hfront] at hmem hinc'
      rcases mem_append.1 hmem with hin | hin
      · have hkey := (of_decide_eq_true hlmem.2).symm
        exact Int64.le_of_lt
          ((pairwise_append.1 hinc').2.2 it hin last (mem_singleton_self last) hkey)
      · exact Int64.le_of_eq (congrArg FetchItem.offset (mem_singleton.1 hin))
    exact decide_eq_true ((lt_add_one_iff_le (hmax last hlmem.1)).2 hle)

/-- An entry behind the cut is not below its partition's position. -/
theorem not_below_of_rest (horder : EntryOrder nodeItems)
    (hrest : consumed nodeItems maxPoll ++ rest = nodeItems.flatten) (hit : it ∈ rest) :
    it.below (behind nodeItems maxPoll) = false := by
  have hinc := horder.flatten
  rw [← hrest] at hinc
  rw [FetchItem.below]
  cases hnext : (behind nodeItems maxPoll).lookup it.partKey with
  | none => rfl
  | some next =>
    obtain ⟨last, hlast, hkey, rfl⟩ := mem_of_lookup_behind hnext
    have hbehind := (pairwise_append.1 hinc).2.2 last hlast it hit hkey
    exact decide_eq_false fun hlt => absurd hbehind (not_lt.2 (le_of_lt_add_one hlt))

/-- The positions draw the line where the loops stopped. -/
theorem filter_below (horder : EntryOrder nodeItems)
    (hmax : ∀ it ∈ consumed nodeItems maxPoll, it.offset ≠ Int64.maxValue) :
    nodeItems.flatten.filter (·.below (behind nodeItems maxPoll)) = consumed nodeItems maxPoll := by
  obtain ⟨rest, hrest⟩ : consumed nodeItems maxPoll <+: nodeItems.flatten :=
    cut_isPrefixOf maxPoll nodeItems.flatten
  have hin := filter_eq_self.2 fun it hit => below_of_consumed horder hmax hit
  have hout := filter_eq_nil_iff.2 fun it hit =>
    Bool.eq_false_iff.1 (not_below_of_rest horder hrest hit)
  rw [← hrest, filter_append, hin, hout, append_nil]

/-- The positions as integers. -/
theorem toInt_lookup_behind
    (hmax : ∀ it ∈ consumed nodeItems maxPoll, it.offset ≠ Int64.maxValue) (pk : PartKey) :
    ((behind nodeItems maxPoll).lookup pk).map Int64.toInt =
      (((consumed nodeItems maxPoll).filter (·.partKey = pk)).getLast?).map
        (·.offset.toInt + 1) := by
  rw [lookup_behind, Option.map_map]
  refine Option.map_congr fun last hlast => ?_
  have hmem := (mem_filter.1 (mem_of_getLast? hlast)).1
  exact toInt_add_one (hmax last hmem)

/-- A partition without a position has no entry consumed. -/
theorem lookup_behind_eq_none :
    (behind nodeItems maxPoll).lookup pk = none ↔
      ∀ it ∈ consumed nodeItems maxPoll, it.partKey ≠ pk := by
  rw [behind, lookup_index_eq_none]
  simp

end

/-- `aggregateFetches` delivers the first `maxPoll` data entries in node order. A partition's
position is one past its last entry consumed, and a partition without one has none. The data
entries delivered are those below their partition's position, and an entry was consumed if and only
if it is below. -/
theorem aggregateFetches_law (nodeItems : List (List FetchItem)) (maxPoll : Nat)
    (hpoll : 1 ≤ maxPoll) (hcap : maxPoll ≤ maxRecordSlice) (horder : EntryOrder nodeItems)
    (hmax : ∀ it ∈ consumed nodeItems maxPoll, it.offset ≠ Int64.maxValue) :
    ∃ out cursor, aggregateFetches nodeItems maxPoll = .ok (out, cursor) ∧
      out = (nodeItems.flatten.filterMap (·.record)).take maxPoll ∧
      (∀ pk, (cursor.lookup pk).map Int64.toInt =
        (((consumed nodeItems maxPoll).filter (·.partKey = pk)).getLast?).map
          (·.offset.toInt + 1)) ∧
      out = (nodeItems.flatten.filter (·.below cursor)).filterMap (·.record) ∧
      (∀ it ∈ nodeItems.flatten, it ∈ consumed nodeItems maxPoll ↔ it.below cursor) ∧
      ∀ pk, cursor.lookup pk = none ↔ ∀ it ∈ consumed nodeItems maxPoll, it.partKey ≠ pk := by
  have hline := filter_below horder hmax
  refine ⟨(consumed nodeItems maxPoll).filterMap (·.record), behind nodeItems maxPoll,
    aggregateFetches_eq hcap, ?_, toInt_lookup_behind hmax, ?_, fun it hit => ?_,
    fun pk => lookup_behind_eq_none⟩
  · exact filterMap_cut (·.record) (Nat.one_le_iff_ne_zero.1 hpoll) nodeItems.flatten
  · rw [hline]
  · rw [← hline, mem_filter]
    exact and_iff_right hit

/-- A data entry of partition 0 of topic `t`. -/
def dataEntry (offset : Int64) : FetchItem where
  topic := ascii "t"
  partition := 0
  offset := offset
  record := some { topic := ascii "t", partition := 0, offset := offset }

/-- Two records and a marker from one node, a marker and a record from the other: a poll of two
stops before the first marker. -/
def twoNodes : List (List FetchItem) :=
  [[dataEntry 0, dataEntry 1, { dataEntry 2 with record := none }],
    [{ dataEntry 7 with partition := 1, record := none }, { dataEntry 8 with partition := 1 }]]

theorem entryOrder_twoNodes : EntryOrder twoNodes where
  increasing := by decide
  oneNode := by decide

theorem aggregateFetches_law_twoNodes :
    EntryOrder twoNodes ∧ consumed twoNodes 2 = [dataEntry 0, dataEntry 1] ∧
      ∃ out cursor, aggregateFetches twoNodes 2 = .ok (out, cursor) ∧
        out = (twoNodes.flatten.filterMap (·.record)).take 2 := by
  obtain ⟨out, cursor, hresult, hout, -⟩ := aggregateFetches_law twoNodes 2 (by decide)
    (by decide) entryOrder_twoNodes (by decide)
  exact ⟨entryOrder_twoNodes, by decide, out, cursor, hresult, hout⟩

/-- The position behind the largest offset is the smallest: the record delivered is not below it.
And a limit of more records than a slice can hold is a panic. -/
theorem aggregateFetches_maxOffset : EntryOrder [[dataEntry Int64.maxValue]] ∧
    (aggregateFetches [[dataEntry Int64.maxValue]] 1).map (fun result =>
      (result.1, result.2.lookup ⟨ascii "t", 0⟩, (dataEntry Int64.maxValue).below result.2)) =
      .ok ((dataEntry Int64.maxValue).record.toList, some Int64.minValue, false) ∧
    aggregateFetches twoNodes (maxRecordSlice + 1) =
      .error (.panic "runtime error: makeslice: cap out of range") :=
  ⟨⟨by decide, by decide⟩, by decide, by decide⟩

end GoKafka
