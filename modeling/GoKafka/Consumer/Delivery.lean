import GoKafka.Consumer.Poll
import GoKafka.Protocol.PartitionLog

/-!
# What polling delivers

The consumer over any number of rounds, against brokers that answer a Fetch at an offset with whole
batches from the one that contains it on (`PollEnv.Serves`). `pollAmid_cases` reduces a round to
its decoded responses: the records of the first `maxPoll` data entries are returned and the
positions move past the entries taken. Nothing drops the entries of the first batch that lie below
the position, so what is delivered is right where there are none, that is, where the position is
aligned with the batches (`Aligned`): `poll_rounds` is the guarantee for runs whose rounds all start
from aligned positions, and `poll_redelivers` a run that shows the loss of it.
-/

namespace GoKafka

open Assoc Cut List

/-! ## A round as a cut of its responses -/

/-- An entry that counts toward the limits. -/
def FetchedRecord.isData (r : FetchedRecord) : Bool := !r.control

theorem fetchItems_eq (h : Open maxRecords data) :
    fetchItems maxRecords data fetched =
      (cut FetchedRecord.isData (maxRecords - data) fetched).map fetchItem := by
  induction fetched generalizing data with
  | nil => simp [fetchItems]
  | cons fr fetched ih =>
    simp only [Open] at h
    rw [fetchItems]
    cases hctl : fr.control with
    | true =>
      have hdata : fr.isData = false := by simp [FetchedRecord.isData, hctl]
      simp only [if_true]
      rw [if_neg (by omega), ih h, cut_cons_of_not hdata, map_cons]
    | false =>
      have hdata : fr.isData = true := by simp [FetchedRecord.isData, hctl]
      simp only [Bool.false_eq_true, if_false]
      by_cases hlast : maxRecords - data = 1
      · rw [if_pos (by omega), cut_cons_last hdata hlast, map_singleton]
      · rw [if_neg (by omega), ih (by simp only [Open]; omega), cut_cons_of hdata hlast,
          map_cons, Nat.sub_sub]

/-- An item with a record. -/
def FetchItem.hasRecord (it : FetchItem) : Bool := it.record.isSome

theorem hasRecord_fetchItem : (fetchItem fr).hasRecord = fr.isData := by
  cases hctl : fr.control <;> simp [fetchItem, FetchItem.hasRecord, FetchedRecord.isData, hctl]

/-- The variables of `aggregateFetches` after it has taken the items. -/
def Aggregate.after (maxPoll : Nat) (taken : List FetchItem) : Aggregate where
  out := taken.filterMap (·.record)
  cursor := index (·.partKey) (·.offset + 1) taken
  full := 0 < maxPoll ∧ maxPoll ≤ taken.countP (·.hasRecord)

theorem length_filterMap_record (taken : List FetchItem) :
    (taken.filterMap (·.record)).length = taken.countP (·.hasRecord) :=
  List.length_filterMap_eq_countP

variable {maxPoll : Nat}

/-- The poll is full when the limit is reached. -/
theorem Aggregate.full_after :
    (Aggregate.after maxPoll taken).full = true ↔ ¬ Open maxPoll (taken.countP (·.hasRecord)) := by
  simp only [Aggregate.after, decide_eq_true_eq, Open]
  omega

/-- One more item. -/
theorem Aggregate.deliver_after :
    (Aggregate.after maxPoll taken).deliver maxPoll it =
      Aggregate.after maxPoll (taken ++ [it]) := by
  have hcursor := @index_concat _ _ _ _ FetchItem.partKey (·.offset + 1) taken it
  have hout : (taken ++ [it]).filterMap (·.record) =
      taken.filterMap (·.record) ++ it.record.toList := by
    cases hrec : it.record <;> simp [hrec]
  have hlen := length_filterMap_record (taken ++ [it])
  cases hrec : it.record with
  | none =>
    have hcount : (taken ++ [it]).countP (·.hasRecord) = taken.countP (·.hasRecord) := by
      simp [FetchItem.hasRecord, hrec]
    simp [Aggregate.deliver, Aggregate.after, hrec, hcursor, hcount]
  | some rec =>
    simp only [Aggregate.deliver, Aggregate.after, hrec, hcursor, hout, ← hlen]
    rfl

/-- The inner loop takes a cut of the items. -/
theorem aggregateItems_after (h : Open maxPoll (taken.countP (·.hasRecord))) :
    aggregateItems maxPoll (.after maxPoll taken) items =
      .after maxPoll (taken ++ cut (·.hasRecord) (maxPoll - taken.countP (·.hasRecord)) items) := by
  induction items generalizing taken with
  | nil => simp [aggregateItems]
  | cons it items ih =>
    rw [cut_cons_remaining h, ← countP_append]
    simp only [aggregateItems, Aggregate.deliver_after]
    by_cases hopen : Open maxPoll ((taken ++ [it]).countP (·.hasRecord))
    · rw [if_neg (by rw [Aggregate.full_after]; exact not_not_intro hopen), ih hopen,
        if_pos hopen, append_assoc, singleton_append]
    · rw [if_pos (by rw [Aggregate.full_after]; exact hopen), if_neg hopen]

/-- The outer loop takes a cut of all the items. -/
theorem aggregateNodes_after {taken : List FetchItem} (nodeItems : List (List FetchItem)) :
    aggregateNodes maxPoll (.after maxPoll taken) nodeItems = .after maxPoll (taken ++
      if Open maxPoll (taken.countP (·.hasRecord)) then
        cut (·.hasRecord) (maxPoll - taken.countP (·.hasRecord)) nodeItems.flatten
      else []) := by
  induction nodeItems generalizing taken with
  | nil => simp [aggregateNodes]
  | cons items nodeItems ih =>
    rw [aggregateNodes]
    by_cases hopen : Open maxPoll (taken.countP (·.hasRecord))
    · rw [if_neg (by rw [Aggregate.full_after]; exact not_not_intro hopen), if_pos hopen,
        aggregateItems_after hopen, ih, append_assoc, flatten_cons, cut_append,
        countP_append]
      by_cases hroom : Open (maxPoll - taken.countP (·.hasRecord)) (items.countP (·.hasRecord))
      · rw [if_pos hroom, cut_eq_self hroom, if_pos (by simp only [Open] at hopen hroom ⊢; omega),
          Nat.sub_sub]
      · have hlimit : maxPoll - taken.countP (·.hasRecord) ≠ 0 := fun h0 => hroom (.inl h0)
        rw [if_neg hroom, countP_cut hlimit,
          if_neg (by simp only [Open] at hopen hroom ⊢; omega), append_nil]
    · rw [if_pos (by rw [Aggregate.full_after]; exact hopen), if_neg hopen, append_nil]

/-- `aggregateFetches` takes a cut of the items: their records are delivered, and each partition's
cursor is past its last item taken. -/
theorem aggregateFetches_eq {nodeItems : List (List FetchItem)} (hcap : maxPoll ≤ maxRecordSlice) :
    aggregateFetches nodeItems maxPoll =
      let taken := cut (·.hasRecord) maxPoll nodeItems.flatten
      .ok (taken.filterMap (·.record), index (·.partKey) (·.offset + 1) taken) := by
  have hstart : ({} : Aggregate) = .after maxPoll [] := by
    congr 1
    simp
    omega
  have hnodes := @aggregateNodes_after maxPoll [] nodeItems
  rw [countP_nil, ← hstart] at hnodes
  have hopen : Open maxPoll 0 := by
    simp only [Open]
    omega
  rw [aggregateFetches, if_neg (not_lt.2 hcap), hnodes, if_pos hopen]
  rfl

/-- The decoded responses of the nodes. -/
def decodeResponses (C : Codecs) (env : PollEnv) :
    List (Int32 × List FetchPartition) → Except Error (List (List FetchedRecord))
  | [] => .ok []
  | n :: nodes => do
    let parts ← env.respond n.1 n.2
    let fetched ← decodeFetchResponse C parts
    let rest ← decodeResponses C env nodes
    return fetched :: rest

/-- The entries of all the responses of a round, in the order it looks at them. -/
def fetchedRecords (C : Codecs) (env : PollEnv) (s : Assignments) :
    Except Error (List FetchedRecord) := do
  let fetches ← buildFetches env s.list
  let fetched ← decodeResponses C env (nodeFetches env fetches)
  return fetched.flatten

/-- The nodes' items are their decoded responses, cut at the limit. -/
theorem collect_fetchFromBroker :
    collect (nodes.map fun n => fetchFromBroker C (env.respond n.1 n.2) maxPoll) =
      (decodeResponses C env nodes).map (·.map (fetchItems maxPoll 0)) := by
  induction nodes with
  | nil => rfl
  | cons n nodes ih =>
    rw [map_cons, collect, ih, decodeResponses, fetchFromBroker]
    cases env.respond n.1 n.2 with
    | error e => rfl
    | ok parts =>
      simp only [Bind.bind, Except.bind]
      cases decodeFetchResponse C parts with
      | error e => rfl
      | ok fetched =>
        cases decodeResponses C env nodes with
        | error e => rfl
        | ok rest => rfl

/-- The entries a round takes. -/
def taken (maxPoll : Nat) (fetched : List FetchedRecord) : List FetchedRecord :=
  cut FetchedRecord.isData maxPoll fetched

variable {s : Assignments} {env : PollEnv}

/-- A round that gets all its responses: the records of the entries taken, and the positions past
them. -/
theorem pollAmid_of_fetched {moved : Assignments} (hmax : maxPoll ≠ 0)
    (hcap : maxPoll ≤ maxRecordSlice) (h : fetchedRecords C env s = .ok fetched) :
    pollAmid C maxPoll env s moved =
      (.ok ((taken maxPoll fetched).filterMap fun fr => (fetchItem fr).record),
        advanceDelivered moved s.list
          (index (·.partKey) (·.offset + 1) (taken maxPoll fetched))) := by
  obtain ⟨fetches, hbuild, h⟩ := bind_eq_ok.1 h
  obtain ⟨lists, hdec, h⟩ := bind_eq_ok.1 h
  obtain rfl : lists.flatten = fetched := Except.ok.inj h
  have hitems : ∀ l, fetchItems maxPoll 0 l =
      (cut FetchedRecord.isData maxPoll l).map fetchItem := fun l =>
    fetchItems_eq (.inr (Nat.pos_of_ne_zero hmax))
  have hflat : (lists.map (fetchItems maxPoll 0)).flatten =
      ((lists.map (cut FetchedRecord.isData maxPoll)).flatten).map fetchItem := by
    rw [map_flatten, map_map]
    exact congrArg List.flatten (map_congr_left fun l _ => hitems l)
  have hcut : cut (·.hasRecord) maxPoll (lists.map (fetchItems maxPoll 0)).flatten =
      (taken maxPoll lists.flatten).map fetchItem := by
    rw [hflat, cut_map]
    simp only [hasRecord_fetchItem]
    rw [cut_flatten_map_cut hmax le_rfl]
    rfl
  simp only [pollAmid, hbuild, collect_fetchFromBroker, hdec, Except.map, aggregateFetches_eq hcap,
    hcut, filterMap_map, index_map]
  rfl

/-- A round that fails, or that cannot make the slice of its records, returns no record and moves
no position. -/
theorem pollAmid_of_failed {moved : Assignments}
    (h : (∃ e, fetchedRecords C env s = .error e) ∨ maxRecordSlice < maxPoll) :
    (pollAmid C maxPoll env s moved).1.toOption.getD [] = [] ∧
      (pollAmid C maxPoll env s moved).2 = moved := by
  rw [fetchedRecords] at h
  cases hbuild : buildFetches env s.list with
  | error e => simp [pollAmid, hbuild, Except.toOption]
  | ok fetches =>
    rw [hbuild] at h
    cases hdec : decodeResponses C env (nodeFetches env fetches) with
    | ok lists =>
      rcases h with ⟨e, h⟩ | h
      · simp only [Bind.bind, Except.bind, hdec] at h
        cases h
      · simp [pollAmid, hbuild, collect_fetchFromBroker, hdec, Except.map, aggregateFetches, h,
          Except.toOption]
    | error e =>
      simp only [pollAmid, hbuild, collect_fetchFromBroker, hdec]
      cases e <;> exact ⟨rfl, rfl⟩

/-- What a round does: it delivers what it fetched, or it returns no record and moves no
position. -/
theorem pollAmid_cases {moved : Assignments} (hmax : maxPoll ≠ 0) :
    ((pollAmid C maxPoll env s moved).1.toOption.getD [] = [] ∧
        (pollAmid C maxPoll env s moved).2 = moved) ∨
      ∃ fetched, fetchedRecords C env s = .ok fetched ∧ pollAmid C maxPoll env s moved =
        (.ok ((taken maxPoll fetched).filterMap fun fr => (fetchItem fr).record),
          advanceDelivered moved s.list
            (index (·.partKey) (·.offset + 1) (taken maxPoll fetched))) := by
  cases hfetched : fetchedRecords C env s with
  | error e => exact .inl (pollAmid_of_failed (.inl ⟨e, hfetched⟩))
  | ok fetched =>
    rcases le_or_gt maxPoll maxRecordSlice with hcap | hcap
    · exact .inr ⟨fetched, rfl, pollAmid_of_fetched hmax hcap hfetched⟩
    · exact .inl (pollAmid_of_failed (.inr hcap))

/-! ## The brokers' answers -/

variable {C : Codecs}

/-- The logs of all partitions. -/
abbrev Logs (C : Codecs) := ∀ topic part, PartitionLog C topic part

/-- The sections answer partitions that were asked for, each at most once; one without an error
carries whole batches of the log, from the one that contains the offset on. -/
structure Answers (logs : Logs C) (asked : List FetchPartition)
    (parts : List FetchedPartition) : Prop where
  once : (parts.map (·.partKey)).Nodup
  sent : ∀ p ∈ parts, ∃ fp ∈ asked, fp.partKey = p.partKey ∧ (p.errorCode = 0 →
    ∃ count, p.records = blob ((logs p.topic p.partition).answer fp.offset count))

/-- The responses of a round come from the logs. -/
def PollEnv.Serves (env : PollEnv) (logs : Logs C) : Prop :=
  ∀ node asked parts, env.respond node asked = .ok parts → Answers logs asked parts

/-- The position a fetch was issued from. -/
def FetchPartition.position (fp : FetchPartition) : PartitionOffset :=
  ⟨fp.topic, fp.partition, fp.offset⟩

variable {logs : Logs C} {fetches : List (Int32 × FetchPartition)} {out : List FetchedRecord}

/-- The fetches of a round are issued from positions of the assignments. -/
theorem buildFetches_sublist (h : buildFetches env l = .ok fetches) :
    (fetches.map (·.2.position)).Sublist l := by
  induction l generalizing fetches with
  | nil =>
    cases h
    exact nil_sublist _
  | cons a l ih =>
    rw [buildFetches] at h
    split_ifs at h with hpaused
    · exact (ih h).cons a
    · obtain ⟨b, -, h⟩ := bind_eq_ok.1 h
      obtain ⟨rest, hrest, h⟩ := bind_eq_ok.1 h
      cases h
      exact (ih hrest).cons_cons a

/-- Each node is asked once, for the partitions it leads. -/
theorem nodeFetches_spec :
    ((nodeFetches env fetches).map (·.1)).Nodup ∧
      ∀ n ∈ nodeFetches env fetches, n.2 = (fetches.filter (·.1 = n.1)).map (·.2) := by
  constructor
  · simp only [nodeFetches, map_map, Function.comp_def, map_id']
    exact env.order.nodup_keys _
  · intro n hn
    obtain ⟨node, -, rfl⟩ := mem_map.1 hn
    simp [getD_lookup_group]

theorem decodeFetchResponse_append (h : decodeFetchResponse C parts = .ok out)
    (h' : decodeFetchResponse C parts' = .ok out') :
    decodeFetchResponse C (parts ++ parts') = .ok (out ++ out') := by
  induction parts generalizing out with
  | nil =>
    cases h
    exact h'
  | cons p parts ih =>
    obtain ⟨recs, hp, h⟩ := bind_eq_ok.1 h
    obtain ⟨rest, hrest, h⟩ := bind_eq_ok.1 h
    cases h
    rw [append_assoc]
    exact bind_eq_ok.2 ⟨recs, hp, bind_eq_ok.2 ⟨rest ++ out', ih hrest, rfl⟩⟩

variable {nodes : List (Int32 × List FetchPartition)}

theorem decodeResponses_ok (h : decodeResponses C env nodes = .ok lists) :
    ∃ sent, List.Forall₂ (fun n parts => env.respond n.1 n.2 = .ok parts) nodes sent ∧
      decodeFetchResponse C sent.flatten = .ok lists.flatten := by
  induction nodes generalizing lists with
  | nil =>
    cases h
    exact ⟨[], .nil, rfl⟩
  | cons n nodes ih =>
    obtain ⟨parts, hn, h⟩ := bind_eq_ok.1 h
    obtain ⟨fetched, hdec, h⟩ := bind_eq_ok.1 h
    obtain ⟨rest, hrest, h⟩ := bind_eq_ok.1 h
    cases h
    obtain ⟨sent, hsent, hflat⟩ := ih hrest
    refine ⟨parts :: sent, .cons hn hsent, ?_⟩
    exact decodeFetchResponse_append hdec hflat

/-- A section comes from the log, for the position of its partition. -/
def Served (logs : Logs C) (s : Assignments) (p : FetchedPartition) : Prop :=
  ∃ a ∈ s.list, a.partKey = p.partKey ∧ (p.errorCode = 0 →
    ∃ count, p.records = blob ((logs p.topic p.partition).answer a.offset count))

theorem mem_fetches_of_asked {n : Int32 × List FetchPartition}
    (hasked : n.2 = (fetches.filter (·.1 = n.1)).map (·.2)) (hparts : Answers logs n.2 parts)
    (hp : p ∈ parts) :
    ∃ fp, (n.1, fp) ∈ fetches ∧ fp.partKey = p.partKey ∧ (p.errorCode = 0 →
      ∃ count, p.records = blob ((logs p.topic p.partition).answer fp.offset count)) := by
  obtain ⟨fp, hfp, hkey, hrecords⟩ := hparts.sent p hp
  rw [hasked] at hfp
  obtain ⟨f, hf, rfl⟩ := mem_map.1 hfp
  obtain ⟨hmem, hnode⟩ := mem_filter.1 hf
  have hpair : f = (n.1, f.2) := Prod.ext (of_decide_eq_true hnode) rfl
  exact ⟨f.2, hpair ▸ hmem, hkey, hrecords⟩

theorem sent_nodup (hkeys : (fetches.map (·.2.partKey)).Nodup) (hnodes : (nodes.map (·.1)).Nodup)
    (hasked : ∀ n ∈ nodes, n.2 = (fetches.filter (·.1 = n.1)).map (·.2))
    (hsent : List.Forall₂ (fun n parts => Answers logs n.2 parts) nodes sent) :
    (sent.flatten.map (·.partKey)).Nodup := by
  induction hsent with
  | nil => exact nodup_nil
  | @cons n parts nodes sent hparts hsent ih =>
    rw [map_cons, nodup_cons] at hnodes
    rw [flatten_cons, map_append]
    refine List.Nodup.append hparts.once
      (ih hnodes.2 fun m hm => hasked m (mem_cons_of_mem _ hm)) ?_
    -- a partition in both would be asked of two nodes
    intro pk hpk hpk'
    obtain ⟨p, hp, rfl⟩ := mem_map.1 hpk
    obtain ⟨p', hp', hkey⟩ := mem_map.1 hpk'
    obtain ⟨parts', hparts', hmem'⟩ := mem_flatten.1 hp'
    obtain ⟨m, hm, hanswers⟩ := forall₂_exists_left hsent hparts'
    obtain ⟨fp, hfp, hfpkey, -⟩ := mem_fetches_of_asked (hasked n mem_cons_self) hparts hp
    obtain ⟨fp', hfp', hfpkey', -⟩ :=
      mem_fetches_of_asked (hasked m (mem_cons_of_mem _ hm)) hanswers hmem'
    have hsame := inj_on_of_nodup_map hkeys hfp hfp' (by rw [hfpkey, hfpkey', hkey])
    have hnode : n.1 = m.1 := (Prod.mk.inj hsame).1
    exact hnodes.1 (hnode ▸ mem_map_of_mem hm)

theorem fetchedRecords_ok (hserves : env.Serves logs) (h : fetchedRecords C env s = .ok fetched) :
    ∃ parts, decodeFetchResponse C parts = .ok fetched ∧ (parts.map (·.partKey)).Nodup ∧
      ∀ p ∈ parts, Served logs s p := by
  obtain ⟨fetches, hbuild, h⟩ := bind_eq_ok.1 h
  obtain ⟨lists, hdec, h⟩ := bind_eq_ok.1 h
  obtain rfl : lists.flatten = fetched := Except.ok.inj h
  obtain ⟨sent, hsent, hflat⟩ := decodeResponses_ok hdec
  obtain ⟨hnodes, hasked⟩ := nodeFetches_spec
  have hanswers := hsent.imp fun n parts hn => hserves n.1 n.2 parts hn
  have hsub := buildFetches_sublist hbuild
  have hkeys : (fetches.map (·.2.partKey)).Nodup := by
    have := s.nodup.sublist (hsub.map (·.partKey))
    rwa [map_map] at this
  refine ⟨sent.flatten, hflat, sent_nodup hkeys hnodes hasked hanswers, ?_⟩
  intro p hp
  obtain ⟨parts, hparts, hmem⟩ := mem_flatten.1 hp
  obtain ⟨n, hn, hans⟩ := forall₂_exists_left hanswers hparts
  obtain ⟨fp, hfp, hkey, hrecords⟩ := mem_fetches_of_asked (hasked n hn) hans hmem
  exact ⟨fp.position, hsub.subset (mem_map_of_mem hfp), hkey, hrecords⟩

/-! ## The entries of one partition -/

/-- Entries a consumer can get for a Fetch at an offset: in order, each from a batch that reaches
the offset. -/
structure FromLog {topic : Bytes} {part : Int32} (log : PartitionLog C topic part) (offset : Int64)
    (out : List FetchedRecord) : Prop where
  increasing : out.Pairwise (·.offset < ·.offset)
  yielded : ∀ r ∈ out, ∃ b ∈ log.batches, offset ≤ b.info.lastOffset ∧ b.Yields r ∧
    r.offset ≤ b.info.lastOffset

theorem FromLog.nil (log : PartitionLog C topic part) (offset : Int64) : FromLog log offset [] :=
  ⟨.nil, nofun⟩

/-- The entries decoded from a section. -/
theorem Served.decode (h : Served logs s p) (hdec : decodeFetchPartition C p = .ok out) :
    ∃ a ∈ s.list, a.partKey = p.partKey ∧ (∀ r ∈ out, r.partKey = p.partKey) ∧
      FromLog (logs a.topic a.partition) a.offset out := by
  obtain ⟨a, ha, hkey, hrecords⟩ := h
  rw [decodeFetchPartition] at hdec
  split_ifs at hdec with h27 h6 h100 h0
  obtain ⟨count, hcount⟩ := hrecords (not_not.1 h0)
  rw [hcount] at hdec
  obtain ⟨out', hout', hinc, hyields⟩ :=
    (logs p.topic p.partition).decode_answer count
  obtain rfl : out' = out := Except.ok.inj (hout'.symm.trans hdec)
  refine ⟨a, ha, hkey, ?_, ?_⟩
  · intro r hr
    obtain ⟨b, -, -, hb, -⟩ := hyields r hr
    obtain ⟨htopic, hpart⟩ := hb.partition
    rw [FetchedRecord.partKey, htopic, hpart]
  · obtain ⟨htopic, hpart⟩ := PartKey.mk.inj hkey
    rw [htopic, hpart]
    exact ⟨hinc, hyields⟩

/-- The entries of a partition in a response are those of its section. -/
theorem decodeFetchResponse_filter (hnodup : (parts.map (·.partKey)).Nodup)
    (hkeys : ∀ p ∈ parts, ∀ out, decodeFetchPartition C p = .ok out →
      ∀ r ∈ out, r.partKey = p.partKey) (h : decodeFetchResponse C parts = .ok out) (pk : PartKey) :
    out.filter (·.partKey = pk) = [] ∨
      ∃ p ∈ parts, p.partKey = pk ∧
        decodeFetchPartition C p = .ok (out.filter (·.partKey = pk)) := by
  induction parts generalizing out with
  | nil =>
    cases h
    exact .inl rfl
  | cons p parts ih =>
    obtain ⟨recs, hp, h⟩ := bind_eq_ok.1 h
    obtain ⟨rest, hrest, h⟩ := bind_eq_ok.1 h
    obtain rfl : recs ++ rest = out := Except.ok.inj h
    rw [map_cons, nodup_cons] at hnodup
    have hrecs := hkeys p mem_cons_self recs hp
    have hrest' := ih hnodup.2 (fun q hq => hkeys q (mem_cons_of_mem _ hq)) hrest
    rw [filter_append]
    by_cases hpk : p.partKey = pk
    · have hself : recs.filter (·.partKey = pk) = recs :=
        filter_eq_self.2 fun r hr => decide_eq_true ((hrecs r hr).trans hpk)
      -- no other section is for this partition
      have hnone : rest.filter (·.partKey = pk) = [] := by
        rcases hrest' with hnil | ⟨q, hq, hqk, -⟩
        · exact hnil
        · exact absurd (mem_map.2 ⟨q, hq, hqk.trans hpk.symm⟩) hnodup.1
      rw [hself, hnone, append_nil]
      exact .inr ⟨p, mem_cons_self, hpk, hp⟩
    · have hnone : recs.filter (·.partKey = pk) = [] := by
        refine filter_eq_nil_iff.2 fun r hr => ?_
        rw [hrecs r hr, decide_eq_true_eq]
        exact hpk
      rw [hnone, nil_append]
      rcases hrest' with hnil | ⟨q, hq, hqk, hdec⟩
      · exact .inl hnil
      · exact .inr ⟨q, mem_cons_of_mem _ hq, hqk, hdec⟩

/-- The entries of a round belong to assigned partitions, and those of a partition come from its
log, for the position the round started from. -/
theorem fetchedRecords_partition (hserves : env.Serves logs)
    (h : fetchedRecords C env s = .ok fetched) :
    (∀ r ∈ fetched, ∃ a ∈ s.list, a.partKey = r.partKey) ∧
      ∀ a ∈ s.list, FromLog (logs a.topic a.partition) a.offset
        (fetched.filter (·.partKey = a.partKey)) := by
  obtain ⟨parts, hdec, hnodup, hserved⟩ := fetchedRecords_ok hserves h
  have hsection := decodeFetchResponse_filter hnodup
    (fun p hp out hout => ((hserved p hp).decode hout).choose_spec.2.2.1) hdec
  constructor
  · intro r hr
    rcases hsection r.partKey with hnil | ⟨p, hp, hpk, -⟩
    · exact absurd (decide_eq_true rfl) (filter_eq_nil_iff.1 hnil r hr)
    · obtain ⟨a, ha, hkey, -⟩ := hserved p hp
      exact ⟨a, ha, hkey.trans hpk⟩
  · intro a ha
    rcases hsection a.partKey with hnil | ⟨p, hp, hpk, hout⟩
    · rw [hnil]
      exact .nil _ _
    · obtain ⟨a', ha', hkey, -, hlog⟩ := (hserved p hp).decode hout
      obtain rfl := inj_on_of_nodup_map s.nodup ha' ha (hkey.trans hpk)
      exact hlog

/-- The position is aligned with the batches: the batches that reach it have no record below it. -/
def Aligned {topic : Bytes} {part : Int32} (log : PartitionLog C topic part) (offset : Int64) :
    Prop :=
  ∀ b ∈ log.batches, offset ≤ b.info.lastOffset → ∀ r ∈ b.info.records, offset ≤ r.offset

instance {topic : Bytes} {part : Int32} (log : PartitionLog C topic part) (offset : Int64) :
    Decidable (Aligned log offset) :=
  inferInstanceAs (Decidable (∀ b ∈ log.batches, offset ≤ b.info.lastOffset →
    ∀ r ∈ b.info.records, offset ≤ r.offset))

theorem FromLog.le_of_aligned (h : FromLog log offset out) (haligned : Aligned log offset)
    (hr : r ∈ out) : offset ≤ r.offset := by
  obtain ⟨b, hb, hreach, hyields, -⟩ := h.yielded r hr
  rcases hyields with hrec | rfl
  · exact haligned b hb hreach r hrec
  · exact hreach

theorem FromLog.lt_next (h : FromLog log offset out) (hr : r ∈ out) : r.offset < r.offset + 1 := by
  obtain ⟨b, hb, -, -, hlast⟩ := h.yielded r hr
  have hmax : r.offset < Int64.maxValue := hlast.trans_lt (log.bounded b hb)
  rw [Int64.lt_iff_toInt_lt] at hmax ⊢
  rw [Int64.toInt_add]
  have hlow := r.offset.le_toInt
  have hmaxInt : Int64.maxValue.toInt = 2 ^ 63 - 1 := by decide
  have hone : (1 : Int64).toInt = 1 := by decide
  rw [Int.bmod_eq_of_le (by omega) (by omega)]
  omega

/-! ## The positions after a round -/

/-- A round moves a position past all of its partition's entries that were taken, and never
back. -/
theorem advance_taken {taken : List FetchedRecord} (ha : a ∈ s.list)
    (hlog : FromLog (logs a.topic a.partition) a.offset (fetched.filter (·.partKey = a.partKey)))
    (htaken : taken.Sublist fetched) :
    a.offset ≤ (a.advance (index (·.partKey) (·.offset) s.list)
        (index (·.partKey) (·.offset + 1) taken)).offset ∧
      ∀ r ∈ taken, r.partKey = a.partKey →
        r.offset < (a.advance (index (·.partKey) (·.offset) s.list)
          (index (·.partKey) (·.offset + 1) taken)).offset := by
  have hsub := htaken.filter (·.partKey = a.partKey)
  have hstart : (index (·.partKey) (·.offset) s.list).lookup a.partKey = some a.offset :=
    lookup_index_of_nodup s.nodup ha
  have hcursor := @lookup_index _ _ _ _ FetchedRecord.partKey (·.offset + 1) taken a.partKey
  have hmem : ∀ r ∈ taken, r.partKey = a.partKey →
      r ∈ taken.filter (·.partKey = a.partKey) := fun r hr hkey =>
    mem_filter.2 ⟨hr, decide_eq_true hkey⟩
  rw [PartitionOffset.advance, hstart, hcursor]
  cases hlast : (taken.filter (·.partKey = a.partKey)).getLast? with
  | none =>
    refine ⟨le_rfl, fun r hr hkey => ?_⟩
    have hr := hmem r hr hkey
    rw [List.getLast?_eq_none_iff.1 hlast] at hr
    cases hr
  | some last =>
    have hnext := hlog.lt_next (hsub.subset (mem_of_getLast? hlast))
    -- the last entry taken has the highest offset
    have htop : ∀ r ∈ taken, r.partKey = a.partKey → r.offset < last.offset + 1 := by
      intro r hr hkey
      obtain ⟨before, hbefore⟩ := List.getLast?_eq_some_iff.1 hlast
      have hr := hmem r hr hkey
      have hinc := hlog.increasing.sublist hsub
      rw [hbefore] at hr hinc
      rcases mem_append.1 hr with hr | hr
      · exact ((pairwise_append.1 hinc).2.2 r hr last (mem_singleton_self _)).trans hnext
      · obtain rfl := mem_singleton.1 hr
        exact hnext
    simp only [Option.map_some, true_and]
    split_ifs with hlt
    · exact ⟨hlt.le, htop⟩
    · exact ⟨le_rfl, fun r hr hkey => (htop r hr hkey).trans_le (not_lt.1 hlt)⟩

/-- The record of an entry. -/
theorem record_fetchItem {rec : Record} (h : (fetchItem fr).record = some rec) :
    rec.partKey = fr.partKey ∧ rec.offset = fr.offset := by
  rw [fetchItem] at h
  split_ifs at h
  cases h
  exact ⟨rfl, rfl⟩

/-- The records a round returned; none where it failed. -/
def returned (result : Except Error (List Record)) : List Record := result.toOption.getD []

/-- What a round does to the positions: none moves back, and each ends past the records returned
for its partition. -/
theorem poll_positions (hmax : maxPoll ≠ 0) (hserves : env.Serves logs)
    (ha' : a' ∈ (poll C maxPoll env s).2.list) :
    ∃ a ∈ s.list, a.partKey = a'.partKey ∧ a.offset ≤ a'.offset ∧
      ∀ rec ∈ returned (poll C maxPoll env s).1, rec.partKey = a.partKey →
        rec.offset < a'.offset := by
  rw [poll] at ha' ⊢
  rcases pollAmid_cases hmax with ⟨hnone, hsame⟩ | ⟨fetched, hfetched, hround⟩
  · rw [hsame] at ha'
    rw [returned, hnone]
    exact ⟨a', ha', rfl, le_rfl, nofun⟩
  · rw [hround] at ha' ⊢
    obtain ⟨a, ha, rfl⟩ := mem_map.1 ha'
    have hlog := (fetchedRecords_partition hserves hfetched).2 a ha
    obtain ⟨hle, hpast⟩ := advance_taken ha hlog (cut_isPrefixOf maxPoll fetched).sublist
    refine ⟨a, ha, (PartitionOffset.partKey_advance _ _ _).symm, hle, ?_⟩
    intro rec hrec hkey
    obtain ⟨fr, hfr, hrecord⟩ := mem_filterMap.1 hrec
    obtain ⟨hfrkey, hoffset⟩ := record_fetchItem hrecord
    rw [hoffset]
    exact hpast fr hfr (hfrkey.symm.trans hkey)

/-- What a round returns: records of assigned partitions, none below an aligned position, those of
a partition in increasing order. -/
theorem poll_returned (hmax : maxPoll ≠ 0) (hserves : env.Serves logs)
    (haligned : ∀ a ∈ s.list, Aligned (logs a.topic a.partition) a.offset) :
    (∀ rec ∈ returned (poll C maxPoll env s).1,
      ∃ a ∈ s.list, a.partKey = rec.partKey ∧ a.offset ≤ rec.offset) ∧
    (returned (poll C maxPoll env s).1).Pairwise
      fun rec rec' => rec.partKey = rec'.partKey → rec.offset < rec'.offset := by
  rw [poll]
  rcases pollAmid_cases hmax with ⟨hnone, -⟩ | ⟨fetched, hfetched, hround⟩
  · rw [returned, hnone]
    exact ⟨nofun, .nil⟩
  · rw [hround]
    obtain ⟨hassigned, hlog⟩ := fetchedRecords_partition hserves hfetched
    have hsub := (cut_isPrefixOf (p := FetchedRecord.isData) maxPoll fetched).sublist
    constructor
    · intro rec hrec
      obtain ⟨fr, hfr, hrecord⟩ := mem_filterMap.1 hrec
      obtain ⟨hkey, hoffset⟩ := record_fetchItem hrecord
      obtain ⟨a, ha, hakey⟩ := hassigned fr (hsub.subset hfr)
      refine ⟨a, ha, hakey.trans hkey.symm, ?_⟩
      rw [hoffset]
      exact (hlog a ha).le_of_aligned (haligned a ha)
        (mem_filter.2 ⟨hsub.subset hfr, decide_eq_true hakey.symm⟩)
    · have hinc : fetched.Pairwise fun fr fr' => fr.partKey = fr'.partKey →
          fr.offset < fr'.offset := by
        rw [pairwise_iff_forall_sublist]
        intro fr fr' hpair hkey
        obtain ⟨a, ha, hakey⟩ := hassigned fr (hpair.subset mem_cons_self)
        have hfilter := (hlog a ha).increasing.sublist (hpair.filter (·.partKey = a.partKey))
        simp only [filter_cons, ← hkey, hakey] at hfilter
        exact rel_of_pairwise_cons hfilter mem_cons_self
      refine List.Pairwise.filterMap _ ?_ (hinc.sublist hsub)
      intro fr fr' hlt rec hrec rec' hrec' hkey
      obtain ⟨hk, ho⟩ := record_fetchItem hrec
      obtain ⟨hk', ho'⟩ := record_fetchItem hrec'
      rw [ho, ho']
      exact hlt (by rw [← hk, ← hk', hkey])

/-- A position advances when its partition's entries hold a data record, unless the records of
other partitions before it exhaust the poll. -/
theorem poll_advances (hmax : maxPoll ≠ 0) (hcap : maxPoll ≤ maxRecordSlice)
    (hserves : env.Serves logs) (ha : a ∈ s.list)
    (haligned : Aligned (logs a.topic a.partition) a.offset) {after : List FetchedRecord}
    (hfetched : fetchedRecords C env s = .ok (before ++ fr :: after)) (hdata : fr.isData = true)
    (hkey : fr.partKey = a.partKey)
    (hroom : before.countP (fun r => r.isData ∧ r.partKey ≠ a.partKey) < maxPoll) :
    ∃ a' ∈ (poll C maxPoll env s).2.list, a'.partKey = a.partKey ∧ a.offset < a'.offset := by
  let own := fun r : FetchedRecord => decide (r.isData = true ∧ r.partKey = a.partKey)
  -- the first data record of the partition has only other partitions' records before it
  obtain ⟨first, hfind⟩ : ∃ first, (before ++ [fr]).find? own = some first :=
    Option.isSome_iff_exists.1 (List.find?_isSome.2
      ⟨fr, mem_append_right _ (mem_singleton_self _), decide_eq_true ⟨hdata, hkey⟩⟩)
  obtain ⟨hfirst, before', rest, hsplit, hothers⟩ := List.find?_eq_some_iff_append.1 hfind
  obtain ⟨hfdata, hfkey⟩ := of_decide_eq_true hfirst
  have hopen : Open maxPoll (before'.countP FetchedRecord.isData) := by
    have hcount : before'.countP FetchedRecord.isData =
        before'.countP fun r => r.isData ∧ r.partKey ≠ a.partKey :=
      countP_congr fun r hr => by
        have hother : own r = false := by simpa using hothers r hr
        have hne := of_decide_eq_false hother
        simp only [decide_eq_true_eq]
        exact ⟨fun h => ⟨h, fun hk => hne ⟨h, hk⟩⟩, fun h => h.1⟩
    have hle := (prefix_append before' (first :: rest)).sublist.countP_le
      (p := fun r => decide (r.isData = true ∧ r.partKey ≠ a.partKey))
    rw [← hsplit, countP_append, countP_singleton] at hle
    simp only [hkey, ne_eq, not_true_eq_false, and_false] at hle
    exact .inr (hcount ▸ hle.trans_lt hroom)
  have hsplit' : before ++ fr :: after = before' ++ first :: (rest ++ after) := by
    rw [← singleton_append, ← append_assoc, hsplit, append_assoc, cons_append]
  rw [hsplit'] at hfetched
  have hlog := (fetchedRecords_partition hserves hfetched).2 a ha
  obtain ⟨-, hpast⟩ := advance_taken ha hlog (cut_isPrefixOf maxPoll _).sublist
  rw [poll, pollAmid_of_fetched hmax hcap hfetched]
  refine ⟨_, mem_map_of_mem ha, PartitionOffset.partKey_advance _ _ _, ?_⟩
  have hle : a.offset ≤ first.offset := hlog.le_of_aligned haligned
    (mem_filter.2 ⟨mem_append_right _ mem_cons_self, decide_eq_true hfkey⟩)
  exact hle.trans_lt (hpast first (mem_cut hopen) hfkey)

/-! ## A batch of two records -/

theorem twoRecords_deltas : ∀ delta ∈ ([0, 1] : List Int64),
      VarintRange delta ∧ recordBodyLen [] [] [] delta 0 < 2 ^ 28 := by
  intro delta hdelta
  rcases mem_pair.1 hdelta with rfl | rfl <;> decide +kernel

/-- One batch of two records, at offsets 0 and 1. -/
def twoRecordBatch (topic : Bytes) (part : Int32) : LogBatch shortCodecs topic part :=
  .ofFrame { oneRecordHeader 0 (-1) 0 with lastOffsetDelta := 1, numRecords := 2 }
    (emptyRecords [0, 1])
    [readBackRecord topic part 0 0 [] [] [] 0 0, readBackRecord topic part 0 0 [] [] [] 1 0]
    (by decide +kernel)
    (decodeRecords_emptyRecords (show (0 : Int16) &&& 0x20 = 0 by decide)
      (show ((0 : Int16) &&& 0x7).toInt8 = 0 by decide) twoRecords_deltas)

theorem twoRecordBatch_info : (twoRecordBatch topic part).info =
      { baseOffset := 0, lastOffset := 1, producerID := -1, isControl := false
        isTransactional := false
        records := [readBackRecord topic part 0 0 [] [] [] 0 0,
          readBackRecord topic part 0 0 [] [] [] 1 0] } := rfl

/-- The log of that batch. -/
def twoRecordLog (topic : Bytes) (part : Int32) : PartitionLog shortCodecs topic part where
  batches := [twoRecordBatch topic part]
  ordered := List.pairwise_singleton _ _
  range := by
    simp only [List.mem_singleton, forall_eq, twoRecordBatch_info, List.mem_pair, forall_eq_or_imp,
      readBackRecord]
    decide
  increasing := by
    simp only [List.mem_singleton, forall_eq, twoRecordBatch_info, List.pairwise_pair,
      readBackRecord]
    decide
  bounded := by
    simp only [List.mem_singleton, forall_eq, twoRecordBatch_info]
    decide

/-- A cluster with one broker, which leads partition 0 of topic `t`. -/
def oneBroker : Cluster where
  seeds := []
  md := { brokers := [⟨1⟩], topics := [{ name := [116], partitions := [⟨0, 1, 0⟩] }] }
  leaderIndex := buildLeaderIndex
    { brokers := [⟨1⟩], topics := [{ name := [116], partitions := [⟨0, 1, 0⟩] }] }

/-- A round in which the broker answers from the log of two records. -/
def twoRecordEnv : PollEnv where
  cluster := oneBroker
  paused := ∅
  order := ⟨id, Assoc.perm_id⟩
  respond _ asked :=
    match asked with
    | [fp] => .ok [{ topic := fp.topic, partition := fp.partition
                     records := blob ((twoRecordLog fp.topic fp.partition).answer fp.offset 1) }]
    | _ => .error (.other "")

theorem twoRecordEnv_serves : twoRecordEnv.Serves twoRecordLog := by
  intro node asked parts h
  simp only [twoRecordEnv] at h
  split at h
  · next fp =>
    cases h
    refine ⟨nodup_singleton _, ?_⟩
    intro p hp
    obtain rfl := mem_singleton.1 hp
    exact ⟨fp, mem_singleton_self _, rfl, fun _ => ⟨1, rfl⟩⟩
  · cases h

/-- A consumer of that partition at an offset. -/
def consumerAt (offset : Int64) : Assignments where
  list := [⟨[116], 0, offset⟩]
  nodup := List.nodup_singleton _

/-! ## Runs of rounds -/

/-- A round of a run: what it met, the positions its fetches were issued from, the records it
returned and the positions after it. -/
structure Round where
  env : PollEnv
  before : Assignments
  records : List Record
  after : Assignments

/-- Successive rounds. -/
def rounds (C : Codecs) (maxPoll : Nat) : Assignments → List PollEnv → List Round
  | _, [] => []
  | s, env :: envs =>
    let result := poll C maxPoll env s
    { env := env, before := s, records := returned result.1, after := result.2 } ::
      rounds C maxPoll result.2 envs

theorem mem_rounds (h : rd ∈ rounds C maxPoll s envs) :
    rd.env ∈ envs ∧ rd.records = returned (poll C maxPoll rd.env rd.before).1 ∧
      rd.after = (poll C maxPoll rd.env rd.before).2 := by
  induction envs generalizing s with
  | nil => cases h
  | cons env envs ih =>
    rcases mem_cons.1 h with rfl | h
    · exact ⟨mem_cons_self, rfl, rfl⟩
    · obtain ⟨henv, hrest⟩ := ih h
      exact ⟨mem_cons_of_mem _ henv, hrest⟩

/-- The rounds of a run all start from aligned positions. -/
def AlignedRun (logs : Logs C) (run : List Round) : Prop :=
  ∀ rd ∈ run, ∀ a ∈ rd.before.list, Aligned (logs a.topic a.partition) a.offset

instance (logs : Logs C) (run : List Round) : Decidable (AlignedRun logs run) :=
  inferInstanceAs (Decidable (∀ rd ∈ run, ∀ a ∈ rd.before.list,
    Aligned (logs a.topic a.partition) a.offset))

/-- Over a run of aligned rounds nothing below the starting positions is returned, and what is
returned for a partition is in increasing order. -/
theorem rounds_increasing (hmax : maxPoll ≠ 0) (hserves : ∀ env ∈ envs, env.Serves logs)
    (haligned : AlignedRun logs (rounds C maxPoll s envs)) :
    (∀ rec ∈ (rounds C maxPoll s envs).flatMap (·.records),
      ∃ a ∈ s.list, a.partKey = rec.partKey ∧ a.offset ≤ rec.offset) ∧
    ((rounds C maxPoll s envs).flatMap (·.records)).Pairwise
      fun rec rec' => rec.partKey = rec'.partKey → rec.offset < rec'.offset := by
  -- by induction on the rounds: what follows the first round is above the positions after it
  induction envs generalizing s with
  | nil => exact ⟨nofun, .nil⟩
  | cons env envs ih =>
    have henv := hserves env mem_cons_self
    obtain ⟨hlow, hinc⟩ :=
      poll_returned hmax henv (haligned _ mem_cons_self)
    obtain ⟨hlow', hinc'⟩ := ih (fun e he => hserves e (mem_cons_of_mem _ he))
      fun rd hrd => haligned rd (mem_cons_of_mem _ hrd)
    constructor
    · intro rec hrec
      rcases mem_append.1 hrec with hrec | hrec
      · exact hlow rec hrec
      · obtain ⟨a', ha', hkey', hle'⟩ := hlow' rec hrec
        obtain ⟨a, ha, hkey, hle, -⟩ := poll_positions hmax henv ha'
        exact ⟨a, ha, hkey.trans hkey', hle.trans hle'⟩
    · refine pairwise_append.2 ⟨hinc, hinc', ?_⟩
      intro rec hrec rec' hrec' hsame
      obtain ⟨a', ha', hkey', hle'⟩ := hlow' rec' hrec'
      obtain ⟨a, ha, hkey, -, hpast⟩ := poll_positions hmax henv ha'
      exact (hpast rec hrec (hsame.trans (hkey.trans hkey').symm)).trans_le hle'

/-- Over any number of rounds that start from aligned positions: no record is below the position
its fetch was issued from, the offsets returned for a partition increase over all rounds, and a
position advances in a round whose response holds a data record of its partition, unless the
records of other partitions before it exhaust the poll or the poll's limit is more than a slice of
records can hold. -/
theorem poll_rounds (hmax : 1 ≤ maxPoll) {envs : List PollEnv}
    (hserves : ∀ env ∈ envs, env.Serves logs) {s : Assignments}
    (haligned : AlignedRun logs (rounds C maxPoll s envs)) :
    (∀ rd ∈ rounds C maxPoll s envs, ∀ rec ∈ rd.records,
      ∃ a ∈ rd.before.list, a.partKey = rec.partKey ∧ a.offset ≤ rec.offset) ∧
    (∀ pk, (((rounds C maxPoll s envs).flatMap (·.records)).filter (·.partKey = pk)).Pairwise
      (·.offset < ·.offset)) ∧
    ∀ rd ∈ rounds C maxPoll s envs, ∀ a ∈ rd.before.list, ∀ before fr after,
      maxPoll ≤ maxRecordSlice →
      fetchedRecords C rd.env rd.before = .ok (before ++ fr :: after) → fr.isData = true →
      fr.partKey = a.partKey → a.offset ≤ fr.offset →
      before.countP (fun r => r.isData ∧ r.partKey ≠ a.partKey) < maxPoll →
      ∃ a' ∈ rd.after.list, a'.partKey = a.partKey ∧ a.offset < a'.offset := by
  have hmax : maxPoll ≠ 0 := Nat.ne_of_gt hmax
  refine ⟨?_, ?_, ?_⟩
  · intro rd hrd
    obtain ⟨henv, hrecords, -⟩ := mem_rounds hrd
    rw [hrecords]
    exact (poll_returned hmax (hserves _ henv) (haligned rd hrd)).1
  · intro pk
    rw [pairwise_filter]
    refine (rounds_increasing hmax hserves haligned).2.imp ?_
    intro rec rec' hlt hrec hrec'
    exact hlt ((of_decide_eq_true hrec).trans (of_decide_eq_true hrec').symm)
  · intro rd hrd a ha before fr after hcap hfetched hdata hkey _ hroom
    obtain ⟨henv, -, hafter⟩ := mem_rounds hrd
    rw [hafter]
    exact poll_advances hmax hcap (hserves _ henv) ha (haligned rd hrd a ha) hfetched hdata hkey
      hroom

/-- What a reader sees of a round: the offsets it starts from, returns and ends at. -/
def Round.offsets (rd : Round) : List Int64 × List Int64 × List Int64 :=
  (rd.before.list.map (·.offset), rd.records.map (·.offset), rd.after.list.map (·.offset))

/-- A limit of two records keeps the rounds aligned. -/
theorem poll_rounds_two :
    (rounds shortCodecs 2 (consumerAt 0) [twoRecordEnv, twoRecordEnv]).map (·.offsets) =
      [([0], [0, 1], [2]), ([2], [], [2])] ∧
    ∀ pk, (((rounds shortCodecs 2 (consumerAt 0) [twoRecordEnv, twoRecordEnv]).flatMap
      (·.records)).filter (·.partKey = pk)).Pairwise (·.offset < ·.offset) :=
  ⟨by decide +kernel,
    (poll_rounds (by decide) (by simpa using twoRecordEnv_serves)
      (show AlignedRun twoRecordLog _ by decide +kernel)).2.1⟩

/-- With a limit of one record the second round starts in the middle of the batch: it returns the
record below its position again, and stays there although the response holds the record at it. -/
theorem poll_redelivers : twoRecordEnv.Serves twoRecordLog ∧
    (rounds shortCodecs 1 (consumerAt 0) [twoRecordEnv, twoRecordEnv]).map (·.offsets) =
      [([0], [0], [1]), ([1], [0], [1])] ∧
    (fetchedRecords shortCodecs twoRecordEnv (consumerAt 1)).toOption.map
      (·.map fun r => (r.offset, r.isData)) = some [(0, true), (1, true)] :=
  ⟨twoRecordEnv_serves, by decide +kernel, by decide +kernel⟩

end GoKafka
