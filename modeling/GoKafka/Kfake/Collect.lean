import GoKafka.Kfake.Log

/-!
# What a fetch from the mock broker leaves out

`collectBatches` returns the batches whose base offset is at or after the fetch offset. A batch has
several records, so an offset can fall inside one: the rest of that batch is then not returned,
where a Kafka broker returns the batch from its start. `collectBatches_complete_iff` says, for every
log that produce requests can make (`Built`), that this is the only case in which a record at or
after the fetch offset is left out.

The requests may be any bytes; what is assumed of the batches in them is that a client can decode
them (`StoredBatch`).
-/

namespace GoKafka.Kfake

open Reading BigEndian List

/-! ## The logs that requests make -/

/-- The brokers that adding topics, injecting faults and produce requests make. -/
inductive Built : Broker → Prop where
  | start : Built newBroker
  | addTopic {b : Broker} (h : Built b) (name : Bytes) (partitions : Int32) :
      Built (b.addTopic name partitions)
  | failProduce {b : Broker} (h : Built b) (n : Int) (code : Int16) (topic : Bytes)
      (part : Int32) : Built { b with
        produceFailN := n, produceFailCode := code, produceFailTopic := topic,
        produceFailPart := part }
  | produce {b : Broker} (h : Built b) (body : Bytes) : Built (handleProduce b body).2

/-- The log of batches that are stored one after the other. -/
def PartitionLog.appendAll (pl : PartitionLog) (raws : List Bytes) : PartitionLog :=
  raws.foldl PartitionLog.append pl

/-- Batches were stored at the ends of logs, and nothing else has changed. -/
def Appends (b b' : Broker) : Prop := ∀ k, ∃ raws, b'.log k = (b.log k).map (·.appendAll raws)

theorem Appends.refl (b : Broker) : Appends b b := fun k => ⟨[], by simp [PartitionLog.appendAll]⟩

instance : Std.Refl Appends := ⟨Appends.refl⟩

instance : IsTrans Broker Appends where
  trans b b' b'' h h' k := by
    obtain ⟨raws, hraws⟩ := h k
    obtain ⟨raws', hraws'⟩ := h' k
    refine ⟨raws ++ raws', ?_⟩
    rw [hraws', hraws, Option.map_map]
    congr 1
    funext pl
    exact (List.foldl_append ..).symm

theorem appends_storePart (b : Broker) : Appends b (storePart fault name part batch b).2 := by
  unfold storePart
  split
  · exact Appends.refl b
  · split
    · exact Appends.refl b
    · next pl hlog =>
      intro k
      by_cases hk : k = ⟨name, part⟩
      · subst hk
        exact ⟨[batch], by rw [Broker.log_setLog_self hlog, hlog]; rfl⟩
      · refine ⟨[], ?_⟩
        rw [Broker.log_setLog_of_ne hlog hk]
        simp [PartitionLog.appendAll]

theorem appends_takeProduceFault (b : Broker) : Appends b (takeProduceFault b).2 := by
  unfold takeProduceFault
  split
  · exact Appends.refl b
  · exact Appends.refl b

/-- A produce request, whatever its bytes, stores batches at the ends of logs. -/
theorem appends_handleProduce : Appends b (handleProduce b body).2 := by
  have hpart : ∀ fault name, Moves Appends (handlePart fault name) := by
    intro fault name
    refine (moves_read _).bind fun part => (moves_read _).bind fun batch => ?_
    exact (moves_read _).bind fun _ => moves_update appends_storePart
  have htopic : ∀ fault, Moves Appends (handleTopic fault) := by
    intro fault
    refine (moves_read _).bind fun name => (moves_read _).bind fun nParts => ?_
    refine ((hpart fault name).handleN _).bind fun parts => ?_
    exact (moves_read _).bind fun _ => moves_pure
  have hproduce : Moves Appends produceHandler := by
    refine (moves_read _).bind fun _ => (moves_read _).bind fun _ => ?_
    refine (moves_read _).bind fun _ => (moves_read _).bind fun nTopics => ?_
    exact (moves_update appends_takeProduceFault).bind fun fault => (htopic fault).handleN _
  have hrun := hproduce (fromBytes body) b
  revert hrun
  unfold handleProduce
  rcases produceHandler (fromBytes body) b with ⟨e | ⟨results, c⟩, b'⟩
  · exact id
  · exact id

/-- Whatever the bytes of produce requests, what is stored stays as it is, in front of what is new.
-/
theorem appends_requests (b : Broker) (bodies : List Bytes) :
    Appends b (bodies.foldl (fun b body => (handleProduce b body).2) b) := by
  induction bodies generalizing b with
  | nil => exact .refl b
  | cons body bodies ih => exact Trans.trans appends_handleProduce (ih _)

/-- Every log is that of the batches stored in it, from the start. -/
theorem Built.log (hb : Built b) (hlog : b.log k = some pl) :
    ∃ raws, pl = PartitionLog.appendAll {} raws := by
  induction hb generalizing k pl with
  | start => simp [log_newBroker] at hlog
  | addTopic _ name partitions ih =>
    obtain hlog | rfl := Broker.log_addTopic hlog
    · exact ih hlog
    · exact ⟨[], rfl⟩
  | failProduce _ _ _ _ _ ih => exact ih hlog
  | @produce b _ body ih =>
    obtain ⟨raws, hraws⟩ := appends_handleProduce k
    rw [hlog] at hraws
    obtain ⟨pl₀, hpl₀, rfl⟩ := Option.map_eq_some_iff.1 hraws.symm
    obtain ⟨raws₀, rfl⟩ := ih hpl₀
    exact ⟨raws₀ ++ raws, (foldl_append ..).symm⟩

/-! ## Stored batches -/

theorem exists_patch_of_mem (h : raw ∈ raws) (pl : PartitionLog) :
    ∃ off, patchBaseOffset raw off ∈ (pl.appendAll raws).batches := by
  have hkeep : ∀ (raws : List Bytes) (pl : PartitionLog) (batch : Bytes), batch ∈ pl.batches →
      batch ∈ (pl.appendAll raws).batches := by
    intro raws
    induction raws with
    | nil => exact fun pl batch hbatch => hbatch
    | cons r raws ih => exact fun pl batch hbatch => ih _ _ (mem_append_left _ hbatch)
  induction raws generalizing pl with
  | nil => exact (not_mem_nil h).elim
  | cons r raws ih =>
    obtain rfl | h := mem_cons.1 h
    · exact ⟨pl.leo, hkeep raws _ _ (mem_append_right _ (mem_singleton_self _))⟩
    · exact ih h (pl.append r)

theorem length_offsets_appendAll (pl : PartitionLog) :
    (pl.appendAll raws).offsets.length =
      pl.offsets.length + (raws.map fun raw => (batchRecordCount raw).toInt.toNat).sum := by
  induction raws generalizing pl with
  | nil => rfl
  | cons r raws ih =>
    have hone : (pl.append r).offsets.length =
        pl.offsets.length + (batchRecordCount r).toInt.toNat := by
      simp [PartitionLog.offsets, PartitionLog.append, batchRecordCount_patch]
    rw [PartitionLog.appendAll, map_cons, sum_cons, ← Nat.add_assoc, ← hone]
    exact ih (pl.append r)

/-- A log's batches follow each other: each ends before the next begins, and the last at the end of
the log. -/
structure Chained (pl : PartitionLog) : Prop where
  start : 0 ≤ pl.leo.toInt
  within : ∀ batch ∈ pl.batches, 0 ≤ (baseOffset batch).toInt ∧
    (baseOffset batch).toInt + (batchRecordCount batch).toInt ≤ pl.leo.toInt
  order : pl.batches.Pairwise fun x y =>
    (baseOffset x).toInt + (batchRecordCount x).toInt ≤ (baseOffset y).toInt

/-- A batch at the end of a log. -/
theorem Chained.append (h : Chained pl) (hlen : 8 ≤ raw.length) (hcount : 0 ≤ batchRecordCount raw)
    (hend : pl.leo.toInt + (batchRecordCount raw).toInt < 2 ^ 63) :
    Chained (pl.append raw) ∧
      (pl.append raw).leo.toInt = pl.leo.toInt + (batchRecordCount raw).toInt := by
  have hpos : 0 ≤ (batchRecordCount raw).toInt := Int32.le_iff_toInt_le.1 hcount
  have hstart := h.start
  have hleo : (pl.append raw).leo.toInt = pl.leo.toInt + (batchRecordCount raw).toInt := by
    rw [PartitionLog.append, Int64.toInt_add, Int32.toInt_toInt64]
    exact Int.bmod_eq_of_le (by omega) (by omega)
  have hbase := baseOffset_patch hlen pl.leo
  have hrecords := batchRecordCount_patch raw pl.leo
  refine ⟨⟨by omega, ?_, ?_⟩, hleo⟩
  · intro batch hbatch
    obtain hbatch | hbatch := mem_append.1 hbatch
    · have := h.within batch hbatch
      omega
    · rw [mem_singleton.1 hbatch, hbase, hrecords]
      omega
  · refine pairwise_append.2 ⟨h.order, pairwise_singleton _ _, ?_⟩
    intro x hx y hy
    rw [mem_singleton.1 hy, hbase]
    exact (h.within x hx).2

theorem chained_appendAll (hraws : ∀ raw ∈ raws, 8 ≤ raw.length ∧ 0 ≤ batchRecordCount raw)
    (h : Chained pl)
    (hend : pl.leo.toInt + (raws.map fun raw => (batchRecordCount raw).toInt.toNat).sum < 2 ^ 63) :
    Chained (pl.appendAll raws) := by
  induction raws generalizing pl with
  | nil => exact h
  | cons raw raws ih =>
    have ⟨⟨hlen, hcount⟩, hraws⟩ := forall_mem_cons.1 hraws
    rw [map_cons, sum_cons] at hend
    obtain ⟨happend, hleo⟩ := h.append hlen hcount (by omega)
    exact ih hraws happend (by omega)

/-! ## Records -/

section Records

variable {C : Codecs} {k : PartKey}

/-- The records of a batch are numbered from the base offset on, and counted in the header. -/
structure Numbered (lb : LogBatch C k.topic k.part) : Prop where
  data : lb.info.isControl = false
  count : 0 ≤ batchRecordCount lb.raw
  offsets : lb.info.records.map (·.offset) = (List.range (batchRecordCount lb.raw).toInt.toNat).map
    fun i => baseOffset lb.raw + Int64.ofNat i

/-- A client can decode the stored bytes. -/
def StoredBatch (C : Codecs) (k : PartKey) (batch : Bytes) : Prop :=
  ∃ lb : LogBatch C k.topic k.part, lb.raw = batch ∧ Numbered lb

/-- An offset is inside a batch: behind its first record and not behind its last. -/
def Inside (f : Int64) (batch : Bytes) : Prop :=
  (baseOffset batch).toInt < f.toInt ∧
    f.toInt < (baseOffset batch).toInt + (batchRecordCount batch).toInt

theorem exists_logBatches_of_stored (h : ∀ batch ∈ batches, StoredBatch C k batch) :
    ∃ lbs : List (LogBatch C k.topic k.part), lbs.map (·.raw) = batches ∧
      ∀ lb ∈ lbs, Numbered lb := by
  induction batches with
  | nil => exact ⟨[], rfl, nofun⟩
  | cons batch batches ih =>
    have ⟨⟨lb, hraw, hlb⟩, hbatches⟩ := forall_mem_cons.1 h
    obtain ⟨lbs, hraws, hlbs⟩ := ih hbatches
    exact ⟨lb :: lbs, congrArg₂ List.cons hraw hraws, forall_mem_cons.2 ⟨hlb, hlbs⟩⟩

variable {lbs : List (LogBatch C k.topic k.part)}

/-- A client that decodes batches gets all their records. -/
theorem decodeRecordBatch_numbered (h : ∀ lb ∈ lbs, Numbered lb) :
    decodeRecordBatch C k.topic k.part (blob lbs) [] = .ok (lbs.flatMap (·.info.records)) := by
  rw [decodeRecordBatch_blob, deliverAll_plain, flatMap_map]
  intro info hinfo
  obtain ⟨lb, hlb, rfl⟩ := mem_map.1 hinfo
  exact (h lb hlb).data

theorem Numbered.mem_offsets (h : Numbered lb) (hstart : 0 ≤ (baseOffset lb.raw).toInt)
    (hend : (baseOffset lb.raw).toInt + (batchRecordCount lb.raw).toInt < 2 ^ 63) :
    (∃ r ∈ lb.info.records, r.offset = o) ↔ (baseOffset lb.raw).toInt ≤ o.toInt ∧
      o.toInt < (baseOffset lb.raw).toInt + (batchRecordCount lb.raw).toInt := by
  have hadd : ∀ i : Nat, i < (batchRecordCount lb.raw).toInt →
      (baseOffset lb.raw + Int64.ofNat i).toInt = (baseOffset lb.raw).toInt + i := by
    intro i hi
    rw [Int64.toInt_add, Int64.toInt_ofNat_of_lt (by omega)]
    exact Int.bmod_eq_of_le (by omega) (by omega)
  rw [← mem_map, h.offsets, mem_map]
  constructor
  · rintro ⟨i, hi, rfl⟩
    rw [mem_range] at hi
    rw [hadd i (by omega)]
    omega
  · rintro ⟨hle, hlt⟩
    refine ⟨(o.toInt - (baseOffset lb.raw).toInt).toNat, mem_range.2 (by omega), ?_⟩
    refine Int64.toInt_inj.1 ?_
    rw [hadd _ (by omega)]
    omega

/-- The bytes that are collected are those of the batches from the fetch offset on. -/
theorem collectBatches_blob {b : Broker} (hlog : b.log k = some pl)
    (hraws : lbs.map (·.raw) = pl.batches) :
    (b.collectBatches k f).1.bytes = blob (lbs.filter fun lb => baseOffset lb.raw ≥ f) := by
  have hfrom : pl.batchesFrom f = (lbs.filter fun lb => baseOffset lb.raw ≥ f).map (·.raw) := by
    rw [PartitionLog.batchesFrom, ← hraws, filter_map]
    congr 1
    refine filter_congr fun lb hlb => ?_
    have hlen : 8 ≤ lb.raw.length := by
      have := lb.framed.1
      omega
    simp [hlen]
  rw [Broker.collectBatches, hlog]
  dsimp only
  rw [hfrom]
  split
  · next hnil => exact hnil.symm
  · rfl

/-- Two batches of a log are apart. -/
theorem Chained.apart (h : Chained pl) (hx : x ∈ pl.batches) (hy : y ∈ pl.batches) (hne : x ≠ y) :
    (baseOffset x).toInt + (batchRecordCount x).toInt ≤ (baseOffset y).toInt ∨
      (baseOffset y).toInt + (batchRecordCount y).toInt ≤ (baseOffset x).toInt := by
  let R (x y : Bytes) : Prop :=
    (baseOffset x).toInt + (batchRecordCount x).toInt ≤ (baseOffset y).toInt ∨
      (baseOffset y).toInt + (batchRecordCount y).toInt ≤ (baseOffset x).toInt
  have hsymm : Std.Symm R := ⟨fun _ _ => Or.symm⟩
  exact (h.order.imp .inl : pl.batches.Pairwise R).forall hx hy hne

/-- The batches of a log that requests have made follow each other. -/
theorem Built.chained (hb : Built b) (hlog : b.log k = some pl)
    (hbatches : ∀ batch ∈ pl.batches, StoredBatch C k batch) (hcount : pl.offsets.length < 2 ^ 63) :
    Chained pl := by
  obtain ⟨raws, rfl⟩ := hb.log hlog
  rw [length_offsets_appendAll] at hcount
  have hraws : ∀ raw ∈ raws, 8 ≤ raw.length ∧ 0 ≤ batchRecordCount raw := by
    intro raw hraw
    obtain ⟨off, hoff⟩ := exists_patch_of_mem hraw {}
    obtain ⟨lb, hlb, hnumbered⟩ := hbatches _ hoff
    have hlen := lb.framed.1
    have hrecords := hnumbered.count
    rw [hlb, length_patchBaseOffset] at hlen
    rw [hlb, batchRecordCount_patch] at hrecords
    exact ⟨by omega, hrecords⟩
  have hempty : Chained {} :=
    ⟨by decide, nofun, List.Pairwise.nil⟩
  refine chained_appendAll hraws hempty ?_
  have hzero : ({} : PartitionLog).leo.toInt = 0 := by decide
  omega

end Records

/-- The records at or behind an offset are all returned exactly if the offset is not inside a
batch. -/
theorem collectBatches_complete_iff (C : Codecs) {b : Broker} (hb : Built b) {k : PartKey}
    {pl : PartitionLog} (hlog : b.log k = some pl)
    (hbatches : ∀ batch ∈ pl.batches, StoredBatch C k batch) (hcount : pl.offsets.length < 2 ^ 63)
    (f : Int64) :
    ∃ stored returned,
      decodeRecordBatch C k.topic k.part pl.batches.flatten [] = .ok stored ∧
      decodeRecordBatch C k.topic k.part (b.collectBatches k f).1.bytes [] = .ok returned ∧
      ((∀ r ∈ stored, f ≤ r.offset → r ∈ returned) ↔ ∀ batch ∈ pl.batches, ¬ Inside f batch) := by
  obtain ⟨lbs, hraws, hlbs⟩ := exists_logBatches_of_stored hbatches
  have hmem : ∀ lb ∈ lbs, lb.raw ∈ pl.batches := fun lb hlb => hraws ▸ mem_map_of_mem hlb
  have hchained := hb.chained hlog hbatches hcount
  have hleo := pl.leo.toInt_lt
  have hoffsets : ∀ lb ∈ lbs, ∀ o, (∃ r ∈ lb.info.records, r.offset = o) ↔ _ := fun lb hlb o =>
    (hlbs lb hlb).mem_offsets (hchained.within _ (hmem lb hlb)).1
      (lt_of_le_of_lt (hchained.within _ (hmem lb hlb)).2 hleo)
  have hstored : pl.batches.flatten = blob lbs := by
    rw [← hraws, blob, flatMap_def]
  have hkept : ∀ lb ∈ lbs.filter fun lb => baseOffset lb.raw ≥ f, Numbered lb := fun lb hlb =>
    hlbs lb (mem_of_mem_filter hlb)
  refine ⟨_, _, hstored ▸ decodeRecordBatch_numbered hlbs,
    collectBatches_blob hlog hraws ▸ decodeRecordBatch_numbered hkept, ?_, ?_⟩
  · -- The record at the fetch offset is in that batch, and in no batch that begins behind it.
    intro hall batch hbatch hinside
    rw [← hraws] at hbatch
    obtain ⟨lb, hlb, rfl⟩ := mem_map.1 hbatch
    obtain ⟨hbefore, hbehind⟩ := hinside
    obtain ⟨r, hr, hroff⟩ := (hoffsets lb hlb f).2 ⟨by omega, hbehind⟩
    have hreturned := hall r (mem_flatMap.2 ⟨lb, hlb, hr⟩) (hroff ▸ le_refl f)
    obtain ⟨lb', hlb', hr'⟩ := mem_flatMap.1 hreturned
    obtain ⟨hlb', hfrom⟩ := mem_filter.1 hlb'
    have hfrom' := Int64.le_iff_toInt_le.1 (of_decide_eq_true hfrom)
    have hrange := (hoffsets lb' hlb' f).1 ⟨r, hr', hroff⟩
    have hne : lb.raw ≠ lb'.raw := fun heq => by rw [← heq] at hfrom'; omega
    have hapart := hchained.apart (hmem lb hlb) (hmem lb' hlb') hne
    omega
  · intro hnone r hr hf
    obtain ⟨lb, hlb, hr⟩ := mem_flatMap.1 hr
    refine mem_flatMap.2 ⟨lb, mem_filter.2 ⟨hlb, decide_eq_true ?_⟩, hr⟩
    have hrange := (hoffsets lb hlb r.offset).1 ⟨r, hr, rfl⟩
    have hout := hnone lb.raw (hmem lb hlb)
    rw [Inside] at hout
    rw [Int64.le_iff_toInt_le] at hf
    rw [ge_iff_le, Int64.le_iff_toInt_le]
    omega

/-! ## A batch of two records -/

/-- A batch as a request without compression has it is stored as one that can be decoded. -/
theorem PlainBatch.storedBatch (h : PlainBatch pb) :
    StoredBatch C pb.partKey (patchBaseOffset pb.raw (Int64.ofNat base)) := by
  obtain ⟨lb, hraw, hdata, hentries⟩ := h.exists_logBatch rfl
  obtain ⟨hcount, hbase, -⟩ := h.stored
  have hoffsets := congrArg (List.map LogEntry.offset) hentries
  refine ⟨lb, hraw, hdata, ?_, ?_⟩
  · rw [hraw, hcount, Int32.le_iff_toInt_le, toInt_count h.length_records]
    exact Int.natCast_nonneg _
  · rw [hraw, hcount, hbase, toInt_count h.length_records, Int.toNat_natCast]
    rw [map_map] at hoffsets
    refine hoffsets.trans (ext_getElem (by simp [entriesFrom]) fun i _ _ => ?_)
    simp [entriesFrom, ProduceRecord.entryAt]

/-- Two records in one batch. -/
def twoRecords : PartitionBatch where
  topic := [116]
  partition := 0
  baseSequence := -1
  records := [⟨[116], 0, none, some [1], [], ⟨9, 0⟩⟩, ⟨[116], 0, none, some [2], [], ⟨9, 0⟩⟩]
  raw := (⟨0, -1, 0, 1, 9000, 9000, -1, -1, -1, 2⟩ : BatchHeader).frame (encodeRecordsPayload ⟨9, 0⟩
    [⟨[116], 0, none, some [1], [], ⟨9, 0⟩⟩, ⟨[116], 0, none, some [2], [], ⟨9, 0⟩⟩])

/-- A broker that got them in a request. -/
def twoRecordsBroker : Broker :=
  (handleProduce (newBroker.addTopic [116] 1) (writeProduceHeader {} ++
    (writeTopics writeProducePart [⟨[116], [twoRecords]⟩] ++ writeEmptyTagSection))).2

theorem built_twoRecords : Built twoRecordsBroker := (Built.start.addTopic [116] 1).produce _

theorem log_twoRecords : twoRecordsBroker.log ⟨[116], 0⟩ = some (logOf [twoRecords]) := by
  decide +kernel

theorem storedBatch_twoRecords :
    ∀ batch ∈ (logOf [twoRecords]).batches, StoredBatch shortCodecs ⟨[116], 0⟩ batch := by
  have hplain : PlainBatch twoRecords :=
    ⟨cons_ne_nil _ _, by decide +kernel, by decide +kernel,
      _, _, rfl, rfl, .inl rfl, by decide +kernel⟩
  exact forall_mem_singleton.2 hplain.storedBatch

/-- From its start the batch is returned. -/
theorem collectBatches_complete_start : ∃ stored returned,
      decodeRecordBatch shortCodecs [116] 0 (logOf [twoRecords]).batches.flatten [] = .ok stored ∧
      decodeRecordBatch shortCodecs [116] 0
        (twoRecordsBroker.collectBatches ⟨[116], 0⟩ 0).1.bytes [] = .ok returned ∧
      ∀ r ∈ stored, 0 ≤ r.offset → r ∈ returned := by
  obtain ⟨stored, returned, hstored, hreturned, hiff⟩ := collectBatches_complete_iff shortCodecs
    built_twoRecords log_twoRecords storedBatch_twoRecords (by decide +kernel) 0
  refine ⟨stored, returned, hstored, hreturned, hiff.2 (forall_mem_singleton.2 ?_)⟩
  rw [Inside]
  decide +kernel

/-- From its second record on it is not. -/
theorem collectBatches_inside : Built twoRecordsBroker ∧
      (twoRecordsBroker.log ⟨[116], 0⟩).map (·.offsets) = some [0, 1] ∧
      twoRecordsBroker.collectBatches ⟨[116], 0⟩ 1 = (none, 2) := by
  exact ⟨built_twoRecords, by decide +kernel, by decide +kernel⟩

end GoKafka.Kfake
