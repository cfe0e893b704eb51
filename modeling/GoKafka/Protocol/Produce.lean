import GoKafka.Lib.Assoc
import GoKafka.Protocol.RecordBatch

/-!
# Produce requests

The encoder of `internal/protocol/produce.go` groups a request's records by topic and then by
partition, and writes one record batch per partition. `encodeProduceRequest` gives the batches of
the request in the order in which they are written; the framing around them is left out. Its
specification is `encodeProduceRequest_ok`: one batch per partition of the records, which holds
that partition's records in their order under the sequence number the partition's cursor gave.
-/

namespace GoKafka

open Assoc List

/-- The partition a produce record goes to. -/
def ProduceRecord.partKey (r : ProduceRecord) : PartKey := ⟨r.topic, r.partition⟩

/-- `protocol.ProduceResult`: a broker's answer for a partition. -/
structure ProduceResult where
  topic : Bytes
  partition : Int32
  offset : Int64 := 0
  errorCode : Int16 := 0
  deriving DecidableEq

/-- The partition an answer is about. -/
def ProduceResult.partKey (r : ProduceResult) : PartKey := ⟨r.topic, r.partition⟩

/-! ## Grouping -/

structure PartitionGroup where
  partition : Int32
  records : List ProduceRecord

structure TopicParts where
  topic : Bytes
  parts : List ProduceRecord

def groupByPartition (records : List ProduceRecord) : List PartitionGroup :=
  let m := group (·.partition) records
  (firstKeys (·.partition) records).map fun p => ⟨p, (m.lookup p).getD []⟩

def groupByTopic (records : List ProduceRecord) : List TopicParts :=
  let m := group (·.topic) records
  (firstKeys (·.topic) records).map fun t => ⟨t, (m.lookup t).getD []⟩

/-- The topic and the partition group of each batch, as the encoder's nested loops come to them. -/
def requestGroups (records : List ProduceRecord) : List (Bytes × PartitionGroup) :=
  (groupByTopic records).flatMap fun tg => (groupByPartition tg.parts).map fun pg => (tg.topic, pg)

/-- The partition of a group. -/
def groupKey (g : Bytes × PartitionGroup) : PartKey := ⟨g.1, g.2.partition⟩

/-! ## Encoding -/

/-- `seqCursor` of `sendRecords`. -/
abbrev SeqCursor := AList fun _ : PartKey => Int32

/-- `seqCursor[k]`. -/
def SeqCursor.get (cur : SeqCursor) (k : PartKey) : Int32 := (cur.lookup k).getD 0

/-- `nextSeq` of `sendRecords`. -/
def nextSeq (cur : SeqCursor) (k : PartKey) : Int32 × SeqCursor :=
  (cur.get k, cur.insert k (cur.get k + 1))

/-- A batch of a request: where it goes, the base sequence and the records it was encoded from, and
its bytes. -/
structure PartitionBatch where
  topic : Bytes
  partition : Int32
  baseSequence : Int32
  records : List ProduceRecord
  raw : Bytes
  deriving DecidableEq

/-- The partition a batch goes to. -/
def PartitionBatch.partKey (b : PartitionBatch) : PartKey := ⟨b.topic, b.partition⟩

section Encode

variable (C : Codecs) (clock : PartKey → Nat → Time) (apiVersion : Int16)
  (settings : ProduceSettings)

/-- The sequence number a group's batch is encoded with. -/
def groupSequence (pg : PartitionGroup) (cur : SeqCursor) : Int32 × SeqCursor :=
  if settings.sequenced then
    nextSeq cur ⟨((pg.records.head?).map (·.topic)).getD [], pg.partition⟩
  else (0, cur)

/-- One round of the encoder's loop. The legacy format cannot write a long topic name. -/
def encodeGroup (g : Bytes × PartitionGroup) (cur : SeqCursor) :
    Except Error PartitionBatch × SeqCursor :=
  if apiVersion < 9 ∧ g.1.length > maxInt16 then (.error (.panic "wire: string too long"), cur)
  else
    let (seq, cur) := groupSequence settings g.2 cur
    match encodeRecordBatch C (clock (groupKey g)) g.2.records settings seq with
    | .error e => (.error e, cur)
    | .ok raw => (.ok ⟨g.1, g.2.partition, seq, g.2.records, raw⟩, cur)

/-- The encoder's loop. The cursor is shared with the encoders of other requests, so it is kept
when a batch fails. -/
def encodeGroups : List (Bytes × PartitionGroup) → SeqCursor →
    Except Error (List PartitionBatch) × SeqCursor
  | [], cur => (.ok [], cur)
  | g :: gs, cur =>
    match encodeGroup C clock apiVersion settings g cur with
    | (.error e, cur) => (.error e, cur)
    | (.ok b, cur) =>
      match encodeGroups gs cur with
      | (.error e, cur) => (.error e, cur)
      | (.ok bs, cur) => (.ok (b :: bs), cur)

/-- `EncodeProduceRequest`, as the batches it writes. -/
def encodeProduceRequest (records : List ProduceRecord) (cur : SeqCursor) :
    Except Error (List PartitionBatch) × SeqCursor :=
  encodeGroups C clock apiVersion settings (requestGroups records) cur

end Encode

/-! ## One batch per partition -/

theorem groupByPartition_eq :
    groupByPartition records = (firstKeys (·.partition) records).map fun p =>
      ⟨p, records.filter (·.partition = p)⟩ := by
  unfold groupByPartition
  simp [getD_lookup_group]

theorem groupByTopic_eq :
    groupByTopic records = (firstKeys (·.topic) records).map fun t =>
      ⟨t, records.filter (·.topic = t)⟩ := by
  unfold groupByTopic
  simp [getD_lookup_group]

theorem mem_requestGroups :
    g ∈ requestGroups records ↔ groupKey g ∈ records.map (·.partKey) ∧
      g.2.records = records.filter (·.partKey = groupKey g) := by
  have hfilter (t : Bytes) (p : Int32) : (records.filter (·.topic = t)).filter (·.partition = p) =
        records.filter (·.partKey = ⟨t, p⟩) := by
    simp [ProduceRecord.partKey, and_comm]
  unfold requestGroups
  simp only [groupByTopic_eq, groupByPartition_eq, mem_flatMap, mem_map, mem_firstKeys]
  constructor
  · rintro ⟨tg, ⟨t, -, rfl⟩, pg, ⟨p, ⟨r, hr, rfl⟩, rfl⟩, rfl⟩
    have ⟨hmem, ht⟩ := mem_filter.1 hr
    exact ⟨⟨r, hmem, congrArg (PartKey.mk · _) (of_decide_eq_true ht)⟩, hfilter _ _⟩
  · obtain ⟨t, p, rs⟩ := g
    rintro ⟨⟨r, hr, hkey⟩, hrecords⟩
    obtain ⟨rfl, rfl⟩ := PartKey.mk.inj hkey
    refine ⟨_, ⟨_, ⟨r, hr, rfl⟩, rfl⟩, _, ⟨_, ⟨r, mem_filter.2 ⟨hr, by simp⟩, rfl⟩, rfl⟩, ?_⟩
    rw [hfilter]
    exact congrArg (fun rs => (r.topic, PartitionGroup.mk r.partition rs)) hrecords.symm

theorem nodup_requestGroups : ((requestGroups records).map groupKey).Nodup := by
  unfold requestGroups
  simp only [groupByTopic_eq, groupByPartition_eq, map_flatMap, map_map, flatMap_map]
  refine nodup_flatMap.2 ⟨fun t _ => ?_, ?_⟩
  · exact (nodup_firstKeys).map fun p p' h => (PartKey.mk.inj h).2
  · refine (nodup_firstKeys).imp fun {t t'} hne => ?_
    intro k hk hk'
    obtain ⟨p, -, rfl⟩ := mem_map.1 hk
    obtain ⟨p', -, h⟩ := mem_map.1 hk'
    exact hne (PartKey.mk.inj h).1.symm

theorem head_requestGroups (hg : g ∈ requestGroups records) :
    ((g.2.records.head?).map (·.topic)).getD [] = g.1 := by
  have ⟨hmem, hrecords⟩ := mem_requestGroups.1 hg
  obtain ⟨r, hr, hkey⟩ := mem_map.1 hmem
  have hin : r ∈ g.2.records := by
    rw [hrecords]
    exact mem_filter.2 ⟨hr, decide_eq_true hkey⟩
  cases hhead : g.2.records with
  | nil =>
    rw [hhead] at hin
    cases hin
  | cons r' rs =>
    have hr' : r' ∈ g.2.records := hhead ▸ mem_cons_self
    rw [hrecords] at hr'
    exact congrArg PartKey.topic (of_decide_eq_true (mem_filter.1 hr').2)

/-! ## What a request holds -/

theorem get_nextSeq_of_ne (h : k' ≠ k) : (nextSeq cur k).2.get k' = cur.get k' := by
  simp [nextSeq, SeqCursor.get, AList.lookup_insert_ne h]

section Requests

variable {C : Codecs} {clock : PartKey → Nat → Time} {settings : ProduceSettings}
  {g : Bytes × PartitionGroup} {cur : SeqCursor}

/-- A batch encodes a group, with the sequence number its partition has in a cursor. -/
structure EncodesGroup (C : Codecs) (clock : PartKey → Nat → Time) (settings : ProduceSettings)
    (cur : SeqCursor) (g : Bytes × PartitionGroup) (b : PartitionBatch) : Prop where
  partKey : b.partKey = groupKey g
  records : b.records = g.2.records
  baseSequence : b.baseSequence = if settings.sequenced then cur.get (groupKey g) else 0
  raw : encodeRecordBatch C (clock b.partKey) b.records settings b.baseSequence = .ok b.raw

variable (hhead : ((g.2.records.head?).map (·.topic)).getD [] = g.1)
include hhead

theorem groupSequence_eq : groupSequence settings g.2 cur =
      if settings.sequenced then nextSeq cur (groupKey g) else (0, cur) := by
  unfold groupSequence groupKey
  rw [hhead]

theorem encodeGroup_ok (h : (encodeGroup C clock apiVersion settings g cur).1 = .ok b) :
    EncodesGroup C clock settings cur g b := by
  revert h
  fun_cases encodeGroup C clock apiVersion settings g cur with
  | case1 | case2 => exact nofun
  | case3 _ seq cur' hseq raw henc =>
    intro h
    cases h
    refine ⟨rfl, rfl, ?_, henc⟩
    rw [groupSequence_eq hhead] at hseq
    exact (congrArg Prod.fst hseq).symm.trans (apply_ite Prod.fst _ _ _)

/-- Encoding a group moves the cursor of its own partition only. -/
theorem get_encodeGroup (hk : k ≠ groupKey g) :
    (encodeGroup C clock apiVersion settings g cur).2.get k = cur.get k := by
  have hseq : (groupSequence settings g.2 cur).2.get k = cur.get k := by
    rw [groupSequence_eq hhead]
    split_ifs
    · exact get_nextSeq_of_ne hk
    · rfl
  fun_cases encodeGroup C clock apiVersion settings g cur with
  | case1 => rfl
  | case2 _ _ _ heq | case3 _ _ _ heq => rwa [heq] at hseq

omit hhead

variable {bs : List PartitionBatch}

/-- The loop leaves the other partitions' cursors alone. -/
theorem get_encodeGroups (hhead : ∀ g ∈ gs, ((g.2.records.head?).map (·.topic)).getD [] = g.1)
    (hk : k ∉ gs.map groupKey) :
    (encodeGroups C clock apiVersion settings gs cur).2.get k = cur.get k := by
  induction gs generalizing cur with
  | nil => rfl
  | cons g gs ih =>
    have ⟨hg, hgs⟩ := ne_and_not_mem_of_not_mem_cons hk
    have hstep : (encodeGroup C clock apiVersion settings g cur).2.get k = cur.get k :=
      get_encodeGroup (hhead g mem_cons_self) hg
    unfold encodeGroups
    rcases henc : encodeGroup C clock apiVersion settings g cur with ⟨e | b, cur'⟩
    · rwa [henc] at hstep
    · have hrest : (encodeGroups C clock apiVersion settings gs cur').2.get k = cur'.get k :=
        ih (fun g hg => hhead g (mem_cons_of_mem _ hg)) hgs
      rw [henc] at hstep
      rcases hencs : encodeGroups C clock apiVersion settings gs cur' with ⟨e | bs, cur''⟩
      all_goals
        simp only [hencs] at hrest ⊢
        exact hrest.trans hstep

theorem encodeGroups_ok (hhead : ∀ g ∈ gs, ((g.2.records.head?).map (·.topic)).getD [] = g.1)
    (hnodup : (gs.map groupKey).Nodup)
    (hcur : ∀ g ∈ gs, cur.get (groupKey g) = start.get (groupKey g))
    (h : (encodeGroups C clock apiVersion settings gs cur).1 = .ok bs) :
    bs.map (·.partKey) = gs.map groupKey ∧
      ∀ b ∈ bs, ∃ g ∈ gs, EncodesGroup C clock settings start g b := by
  fun_induction encodeGroups C clock apiVersion settings gs cur generalizing bs with
  | case1 =>
    cases h
    exact ⟨rfl, nofun⟩
  | case2 | case3 => cases h
  | case4 g gs cur b cur' henc _ _ hencs ih =>
    cases h
    have ⟨hg, hgs⟩ := nodup_cons.1 hnodup
    have hheadg := hhead g mem_cons_self
    have ⟨hkey, hrecords, hseq, hraw⟩ := encodeGroup_ok hheadg (congrArg Prod.fst henc)
    -- the cursors of the other groups have not moved
    have hcur' : ∀ g' ∈ gs, cur'.get (groupKey g') = start.get (groupKey g') := by
      intro g' hg'
      have hne : groupKey g' ≠ groupKey g := fun heq => hg (heq ▸ mem_map_of_mem hg')
      have hstep : (encodeGroup C clock apiVersion settings g cur).2.get (groupKey g') = _ :=
        get_encodeGroup hheadg hne
      rw [henc] at hstep
      exact hstep.trans (hcur g' (mem_cons_of_mem _ hg'))
    have ⟨hkeys, hmem⟩ := ih (fun g' hg' => hhead g' (mem_cons_of_mem _ hg')) hgs hcur'
      (congrArg Prod.fst hencs)
    refine ⟨congrArg₂ List.cons hkey hkeys, fun b' hb' => ?_⟩
    rcases mem_cons.1 hb' with rfl | hb'
    · exact ⟨g, mem_cons_self, hkey, hrecords, hcur g mem_cons_self ▸ hseq, hraw⟩
    · have ⟨g', hg', henc'⟩ := hmem b' hb'
      exact ⟨g', mem_cons_of_mem _ hg', henc'⟩

/-- What a request for some records holds: a batch per partition, with all its records. -/
structure RequestFor (C : Codecs) (clock : PartKey → Nat → Time) (settings : ProduceSettings)
    (cur : SeqCursor) (records : List ProduceRecord) (bs : List PartitionBatch) : Prop where
  nodup : (bs.map (·.partKey)).Nodup
  mem : ∀ k, k ∈ bs.map (·.partKey) ↔ k ∈ records.map (·.partKey)
  records : ∀ b ∈ bs, b.records = records.filter (·.partKey = b.partKey)
  baseSequence : ∀ b ∈ bs, b.baseSequence = if settings.sequenced then cur.get b.partKey else 0
  raw : ∀ b ∈ bs, encodeRecordBatch C (clock b.partKey) b.records settings b.baseSequence =
    .ok b.raw

theorem encodeProduceRequest_ok
    (h : (encodeProduceRequest C clock apiVersion settings records cur).1 = .ok bs) :
    RequestFor C clock settings cur records bs := by
  have ⟨hkeys, hmem⟩ := encodeGroups_ok (fun g hg => head_requestGroups hg)
    nodup_requestGroups (fun _ _ => rfl) h
  refine ⟨hkeys ▸ nodup_requestGroups, fun k => ?_, fun b hb => ?_, fun b hb => ?_,
    fun b hb => ?_⟩
  · rw [hkeys]
    constructor
    · intro hk
      obtain ⟨g, hg, rfl⟩ := mem_map.1 hk
      exact (mem_requestGroups.1 hg).1
    · intro hk
      exact mem_map.2 ⟨(k.topic, ⟨k.part, records.filter (·.partKey = k)⟩),
        mem_requestGroups.2 ⟨hk, rfl⟩, rfl⟩
  all_goals have ⟨g, hg, henc⟩ := hmem b hb
  · rw [henc.records, (mem_requestGroups.1 hg).2, henc.partKey]
  · rw [henc.baseSequence, henc.partKey]
  · exact henc.raw

/-- A request moves the cursors of its own partitions only. -/
theorem get_encodeProduceRequest (hk : k ∉ records.map (·.partKey)) :
    (encodeProduceRequest C clock apiVersion settings records cur).2.get k = cur.get k := by
  refine get_encodeGroups (fun g hg => head_requestGroups hg) fun hmem => hk ?_
  obtain ⟨g, hg, rfl⟩ := mem_map.1 hmem
  exact (mem_requestGroups.1 hg).1

end Requests

end GoKafka
