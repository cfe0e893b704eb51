import GoKafka.Kfake.Broker
import GoKafka.Protocol.PartitionLog

/-!
# What a log of the mock broker holds

The log that a list of batches makes (`logOf`): each batch under the offset at which the one before
it ends. Its offsets are those from 0 to the number of records (`offsets_logOf`), and a client that
decodes its bytes gets the records in their order, each at its offset (`exists_logBatches`,
`decodeFetchPartition_section`). `Represents` says that a broker's logs are the logs of the batches
it was sent; `storeBatch` keeps it (`Represents.storeBatch`).
-/

namespace GoKafka

open List

/-- A record as producer and consumer both see it. Nil and empty byte strings are the same on the
wire, and the timestamp of a record without one is the encoder's. -/
structure LogEntry where
  topic : Bytes
  partition : Int32
  offset : Int64
  key : Bytes
  value : Bytes
  headers : List (Bytes × Bytes)
  deriving DecidableEq

/-- A produced record at an offset. -/
def ProduceRecord.entryAt (r : ProduceRecord) (offset : Int64) : LogEntry where
  topic := r.topic
  partition := r.partition
  offset := offset
  key := r.key.bytes
  value := r.value.bytes
  headers := r.headers.map fun h => (h.1.bytes, h.2.bytes)

/-- A fetched record. -/
def FetchedRecord.entry (f : FetchedRecord) : LogEntry where
  topic := f.topic
  partition := f.partition
  offset := f.offset
  key := f.key.bytes
  value := f.value.bytes
  headers := f.headers.map fun h => (h.1.bytes, h.2.bytes)

/-- The entries of consecutive records. -/
def entriesFrom (base : Nat) (records : List ProduceRecord) : List LogEntry :=
  records.mapIdx fun i r => r.entryAt (Int64.ofNat (base + i))

theorem entriesFrom_append :
    entriesFrom base (rs ++ rs') = entriesFrom base rs ++ entriesFrom (base + rs.length) rs' := by
  unfold entriesFrom
  rw [mapIdx_append]
  simp [Nat.add_assoc, Nat.add_comm rs.length]

theorem bytes_readBack : NilBytes.bytes (readBack b) = b := by
  unfold readBack
  split_ifs with h
  · exact h.symm
  · rfl

/-- What is read back of a record is its entry. -/
theorem entry_readBackRecord {r : ProduceRecord} (hkey : r.partKey = ⟨topic, part⟩) :
    (readBackRecord topic part (Int64.ofNat base) baseTimestamp r.key.bytes r.value.bytes r.headers
      (Int64.ofNat i) delta).entry = r.entryAt (Int64.ofNat (base + i)) := by
  obtain ⟨rfl, rfl⟩ := PartKey.mk.inj hkey
  simp [FetchedRecord.entry, readBackRecord, ProduceRecord.entryAt, bytes_readBack]

namespace Kfake

/-- A batch as a request without compression has it: a frame around its records, whose timestamps
are close enough. -/
structure PlainBatch (pb : PartitionBatch) : Prop where
  nonempty : pb.records ≠ []
  keys : ∀ r ∈ pb.records, r.partKey = pb.partKey
  small : pb.raw.length < 2 ^ 28
  framed : ∃ (header : BatchHeader) (now : Time),
    pb.raw = header.frame (encodeRecordsPayload now pb.records) ∧
      header.numRecords = Int32.ofNat pb.records.length ∧
      (header.attributes = 0 ∨ header.attributes = 0x10) ∧
      ∀ first ∈ pb.records.head?, ∀ r ∈ pb.records,
        VarintRange (now.millisOr r.timestamp - now.millisOr first.timestamp)

/-- The stored bytes of batches, from an offset on. -/
def storedBatches : Nat → List PartitionBatch → List Bytes
  | _, [] => []
  | base, pb :: pbs => patchBaseOffset pb.raw (Int64.ofNat base) ::
      storedBatches (base + pb.records.length) pbs

/-- The number of records of batches. -/
def recordCount (pbs : List PartitionBatch) : Nat := (pbs.flatMap (·.records)).length

/-- The log that batches make. -/
def logOf (pbs : List PartitionBatch) : PartitionLog where
  batches := storedBatches 0 pbs
  leo := Int64.ofNat (recordCount pbs)

/-- The offsets that the batches of a log cover, by their headers. -/
def PartitionLog.offsets (pl : PartitionLog) : List Int64 :=
  pl.batches.flatMap fun batch =>
    (List.range (batchRecordCount batch).toInt.toNat).map fun i => baseOffset batch + Int64.ofNat i

@[simp] theorem recordCount_cons :
    recordCount (pb :: pbs) = pb.records.length + recordCount pbs := by
  simp [recordCount]

theorem storedBatches_append :
    storedBatches base (pbs ++ pbs') =
      storedBatches base pbs ++ storedBatches (base + recordCount pbs) pbs' := by
  induction pbs generalizing base with
  | nil => rfl
  | cons pb pbs ih => simp only [cons_append, storedBatches, ih, recordCount_cons, Nat.add_assoc]

/-! ## One batch -/

section Batch

theorem PlainBatch.length_raw (h : PlainBatch pb) : 61 + pb.records.length ≤ pb.raw.length := by
  obtain ⟨header, now, hraw, -⟩ := h.framed
  rw [hraw, BatchHeader.length_frame]
  exact Nat.add_le_add_left length_le_encodeRecordsPayload 61

theorem PlainBatch.length_records (h : PlainBatch pb) : pb.records.length < 2 ^ 28 := by
  have := h.length_raw
  have := h.small
  omega

theorem PlainBatch.batchRecordCount (h : PlainBatch pb) :
    batchRecordCount pb.raw = Int32.ofNat pb.records.length := by
  obtain ⟨header, now, hraw, hcount, -⟩ := h.framed
  rw [hraw, batchRecordCount_frame, hcount]

/-- A stored batch keeps its count and has the offset it was stored under. -/
theorem PlainBatch.stored (h : PlainBatch pb) :
    Kfake.batchRecordCount (patchBaseOffset pb.raw off) = Int32.ofNat pb.records.length ∧
      baseOffset (patchBaseOffset pb.raw off) = off ∧ 8 ≤ (patchBaseOffset pb.raw off).length := by
  obtain ⟨header, now, hraw, hcount, -⟩ := h.framed
  rw [hraw, patchBaseOffset_frame]
  refine ⟨batchRecordCount_frame.trans hcount, baseOffset_frame, ?_⟩
  rw [BatchHeader.length_frame]
  omega

theorem toInt_count (h : n < 2 ^ 28) : (Int32.ofNat n).toInt = n :=
  Int32.toInt_ofNat_of_lt (by omega)

theorem toInt64_count (h : n < 2 ^ 28) : (Int32.ofNat n).toInt64 = Int64.ofNat n := by
  refine Int64.toInt_inj.1 ?_
  rw [Int32.toInt_toInt64, toInt_count h, Int64.toInt_ofNat_of_lt (by omega)]

theorem PlainBatch.exists_logBatch (h : PlainBatch pb) (hkey : pb.partKey = ⟨topic, part⟩) :
    ∃ lb : LogBatch C topic part, lb.raw = patchBaseOffset pb.raw (Int64.ofNat base) ∧
      lb.info.isControl = false ∧
      lb.info.records.map (·.entry) = entriesFrom base pb.records := by
  obtain ⟨header, now, hraw, -, hattr, hdeltas⟩ := h.framed
  have hkeys := h.keys
  have hsmall := h.small
  rw [hraw, BatchHeader.length_frame] at hsmall
  obtain ⟨first, rest, hrecords⟩ := exists_cons_of_ne_nil h.nonempty
  rw [hrecords] at hraw hdeltas hkeys hsmall ⊢
  let stored : BatchHeader := { header with baseOffset := Int64.ofNat base }
  have hpatch : patchBaseOffset pb.raw (Int64.ofNat base) =
      stored.frame (encodeRecordsPayload now (first :: rest)) := by
    rw [hraw, patchBaseOffset_frame]
  have hbits : header.attributes &&& 0x20 = 0 ∧ (header.attributes &&& 0x7).toInt8 = 0 := by
    rcases hattr with hattr | hattr <;> rw [hattr] <;> decide
  have hparse := parseRecords_payload (parsable_of_length (by omega) (hdeltas first rfl)) topic part
    stored.baseOffset stored.firstTimestamp stored.numRecords
  have hone := decodeOneRecordBatch_frame C topic part stored
    (@four_le_encodeRecordsPayload _ now (cons_ne_nil first rest))
  rw [decodeRecords, if_neg (not_not_intro hbits.1)] at hone
  simp only [show stored.attributes = header.attributes from rfl, hbits.2, ne_eq] at hone
  refine ⟨⟨_, _, BatchHeader.framed_frame stored (by omega),
    hone.trans (congrArg (Except.map _) hparse)⟩, hpatch.symm, ?_, ?_⟩
  · simp [BatchHeader.info, stored, hbits.1]
  · show List.map _ (List.mapIdx _ _) = _
    rw [entriesFrom]
    refine ext_getElem (by simp) fun i h₁ h₂ => ?_
    have hi : i < (first :: rest).length := by simpa using h₂
    simp only [getElem_map, getElem_mapIdx]
    exact entry_readBackRecord ((hkeys _ (getElem_mem hi)).trans hkey)

end Batch

/-! ## A log -/

section Log

/-- The batches of a log cover the offsets without a gap or an overlap. -/
theorem offsets_logOf (h : ∀ pb ∈ pbs, PlainBatch pb) :
    (logOf pbs).offsets = (List.range (recordCount pbs)).map Int64.ofNat := by
  have hfrom : ∀ base, (storedBatches base pbs).flatMap (fun batch =>
      (List.range (batchRecordCount batch).toInt.toNat).map
        fun i => baseOffset batch + Int64.ofNat i) =
      (List.range' base (recordCount pbs)).map Int64.ofNat := by
    induction pbs with
    | nil => exact fun base => rfl
    | cons pb pbs ih =>
      intro base
      have ⟨hpb, hpbs⟩ := forall_mem_cons.1 h
      obtain ⟨hcount, hbase, -⟩ := hpb.stored
      rw [storedBatches, flatMap_cons, ih hpbs, hcount, hbase, toInt_count hpb.length_records,
        Int.toNat_natCast, recordCount_cons, ← List.range'_append_1, map_append]
      simp [List.range'_eq_map_range]
  rw [range_eq_range']
  exact hfrom 0

theorem exists_logBatches (h : ∀ pb ∈ pbs, PlainBatch pb) (C : Codecs)
    (hkeys : ∀ pb ∈ pbs, pb.partKey = ⟨topic, part⟩) (base : Nat) :
    ∃ lbs : List (LogBatch C topic part), lbs.map (·.raw) = storedBatches base pbs ∧
      (∀ lb ∈ lbs, lb.info.isControl = false) ∧
      lbs.flatMap (fun lb => lb.info.records.map (·.entry)) =
        entriesFrom base (pbs.flatMap (·.records)) := by
  induction pbs generalizing base with
  | nil => exact ⟨[], rfl, nofun, rfl⟩
  | cons pb pbs ih =>
    have ⟨hpb, hpbs⟩ := forall_mem_cons.1 h
    have ⟨hkey, hkeys⟩ := forall_mem_cons.1 hkeys
    obtain ⟨lb, hraw, hcontrol, hentries⟩ := hpb.exists_logBatch hkey
    obtain ⟨lbs, hraws, hcontrols, hrest⟩ := ih hpbs hkeys (base + pb.records.length)
    refine ⟨lb :: lbs, congrArg₂ List.cons hraw hraws, forall_mem_cons.2 ⟨hcontrol, hcontrols⟩, ?_⟩
    rw [flatMap_cons, flatMap_cons, entriesFrom_append, hentries, hrest]

/-- Without aborted transactions the decoder delivers what the batches hold. -/
theorem deliverAll_plain (h : ∀ info ∈ infos, info.isControl = false) :
    deliverAll topic part infos [] ∅ = infos.flatMap (·.records) := by
  induction infos with
  | nil => rfl
  | cons info infos ih =>
    have ⟨hinfo, hinfos⟩ := forall_mem_cons.1 h
    simp [deliverAll, markAborted, deliverBatch, hinfo, ih hinfos]

theorem length_storedBatches :
    (storedBatches base pbs).flatten.length = (pbs.map (·.raw.length)).sum := by
  induction pbs generalizing base with
  | nil => rfl
  | cons pb pbs ih =>
    rw [storedBatches, flatten_cons, length_append, ih, length_patchBaseOffset, map_cons, sum_cons]

/-- All batches of a log are at or behind offset 0. -/
theorem batchesFrom_zero (h : ∀ pb ∈ pbs, PlainBatch pb) (hcount : recordCount pbs < 2 ^ 63) :
    (logOf pbs).batchesFrom 0 = storedBatches 0 pbs := by
  refine filter_eq_self.2 fun batch hbatch => decide_eq_true ?_
  have hfrom : ∀ base, base + recordCount pbs < 2 ^ 63 → ∀ batch ∈ storedBatches base pbs,
      8 ≤ batch.length ∧ baseOffset batch ≥ 0 := by
    clear hbatch hcount
    induction pbs with
    | nil => exact nofun
    | cons pb pbs ih =>
      intro base hlt batch hbatch
      have ⟨hpb, hpbs⟩ := forall_mem_cons.1 h
      rw [recordCount_cons] at hlt
      rcases mem_cons.1 hbatch with rfl | hbatch
      · obtain ⟨-, hbase, hlen⟩ := hpb.stored
        refine ⟨hlen, ?_⟩
        rw [hbase]
        have hle := (@Int64.ofNat_le_iff_le 0 base (by decide) (by omega)).2 (Nat.zero_le base)
        exact hle
      · exact ih hpbs _ (by omega) batch hbatch
  exact hfrom 0 (by omega) batch hbatch

theorem recordCount_le (h : ∀ pb ∈ pbs, PlainBatch pb) :
    recordCount pbs ≤ (pbs.map (·.raw.length)).sum := by
  induction pbs with
  | nil => exact Nat.le_refl 0
  | cons pb pbs ih =>
    have ⟨hpb, hpbs⟩ := forall_mem_cons.1 h
    have hle := hpb.length_raw
    have hrest := ih hpbs
    rw [recordCount_cons, map_cons, sum_cons]
    omega

/-- What a log sends from an offset on is decoded; from offset 0 on, to all that was stored. -/
theorem decode_batchesFrom (h : ∀ pb ∈ pbs, PlainBatch pb)
    (hkeys : ∀ pb ∈ pbs, pb.partKey = ⟨topic, part⟩)
    (hsize : (pbs.map (·.raw.length)).sum < 2 ^ 28) (C : Codecs) (off : Int64) :
    ((logOf pbs).batchesFrom off).flatten.length < 2 ^ 28 ∧
      ∃ recs, decodeRecordBatch C topic part ((logOf pbs).batchesFrom off).flatten [] = .ok recs ∧
        (∀ r ∈ recs, r.DataOf topic part) ∧
        (off = 0 → recs.map (·.entry) = entriesFrom 0 (pbs.flatMap (·.records))) := by
  obtain ⟨lbs, hraws, hcontrols, hentries⟩ := exists_logBatches h C hkeys 0
  -- the batches that are sent are among those of the log
  let sent := lbs.filter fun lb => 8 ≤ lb.raw.length ∧ baseOffset lb.raw ≥ off
  have hsent : (logOf pbs).batchesFrom off = sent.map (·.raw) := by
    show ((storedBatches 0 pbs).filter _) = _
    rw [← hraws, filter_map]
    rfl
  have hblob : (sent.map (·.raw)).flatten = blob sent := by rw [blob, flatMap_def]
  have hdeliver : deliverAll topic part (sent.map (·.info)) [] ∅ =
      sent.flatMap (·.info.records) := by
    rw [deliverAll_plain, flatMap_map]
    intro info hinfo
    obtain ⟨lb, hlb, rfl⟩ := mem_map.1 hinfo
    exact hcontrols lb (mem_of_mem_filter hlb)
  refine ⟨?_, sent.flatMap (·.info.records), ?_, ?_, ?_⟩
  · rw [← length_storedBatches, length_flatten] at hsize
    rw [length_flatten]
    exact ((filter_sublist.map _).sum_le_sum fun _ _ => Nat.zero_le _).trans_lt hsize
  · rw [hsent, hblob, decodeRecordBatch_blob, hdeliver]
  · intro r hr
    obtain ⟨lb, -, hr⟩ := mem_flatMap.1 hr
    exact lb.records_dataOf r hr
  · rintro rfl
    have hcount := recordCount_le h
    have hlen := congrArg List.length (hsent.symm.trans (batchesFrom_zero h (by omega)))
    rw [← hraws, length_map, length_map] at hlen
    have hall : sent = lbs := filter_sublist.eq_of_length hlen
    rw [hall, map_flatMap, hentries]

theorem logOf_concat (hpb : PlainBatch pb) : logOf (pbs ++ [pb]) = (logOf pbs).append pb.raw := by
  have hleo : (logOf (pbs ++ [pb])).leo = ((logOf pbs).append pb.raw).leo := by
    simp [logOf, PartitionLog.append, hpb.batchRecordCount, toInt64_count hpb.length_records,
      recordCount]
  have hbatches : (logOf (pbs ++ [pb])).batches = ((logOf pbs).append pb.raw).batches := by
    simp only [logOf, storedBatches_append, Nat.zero_add]
    rfl
  exact congrArg₂ PartitionLog.mk hbatches hleo

end Log

/-! ## The broker's logs -/

/-- The logs of a broker, which started as `b₀`, are those of the batches in `ledger`. -/
structure Represents (b₀ b : Broker) (ledger : List PartitionBatch) : Prop where
  faultless : b.produceFailN ≤ 0
  log : ∀ k, b.log k = (b₀.log k).map fun _ => logOf (ledger.filter (·.partKey = k))

/-- The answer for a batch that is stored behind those of a ledger. -/
def ackOf (ledger : List PartitionBatch) (pb : PartitionBatch) : ProduceResult where
  topic := pb.topic
  partition := pb.partition
  offset := Int64.ofNat (recordCount (ledger.filter (·.partKey = pb.partKey)))

/-- The answers for batches that are stored one behind the other. -/
def acksFrom : List PartitionBatch → List PartitionBatch → List ProduceResult
  | _, [] => []
  | ledger, pb :: pbs => ackOf ledger pb :: acksFrom (ledger ++ [pb]) pbs

theorem exists_of_mem_acksFrom (h : res ∈ acksFrom ledger pbs) :
    ∃ xs pb ys, pbs = xs ++ pb :: ys ∧ res = ackOf (ledger ++ xs) pb := by
  induction pbs generalizing ledger with
  | nil => exact (not_mem_nil h).elim
  | cons pb pbs ih =>
    rcases mem_cons.1 h with rfl | h
    · exact ⟨[], pb, pbs, rfl, by rw [append_nil]⟩
    · obtain ⟨xs, pb', ys, rfl, rfl⟩ := ih h
      exact ⟨pb :: xs, pb', ys, rfl, by rw [append_assoc]; rfl⟩

theorem map_partKey_acksFrom (ledger : List PartitionBatch) :
    (acksFrom ledger pbs).map (·.partKey) = pbs.map (·.partKey) := by
  induction pbs generalizing ledger with
  | nil => rfl
  | cons pb pbs ih => exact congrArg₂ List.cons rfl (ih _)

section Represents

/-- A batch for a partition that exists is stored at the end of its log. -/
theorem Represents.storeBatch (h : Represents b₀ b ledger) (hpb : PlainBatch pb)
    (hex : (b₀.log pb.partKey).isSome) :
    (storeBatch pb b).1 = ackOf ledger pb ∧
      Represents b₀ (storeBatch pb b).2 (ledger ++ [pb]) := by
  obtain ⟨pl₀, hpl₀⟩ := Option.isSome_iff_exists.1 hex
  have hlog : b.log pb.partKey = some (logOf (ledger.filter (·.partKey = pb.partKey))) := by
    rw [h.log, hpl₀, Option.map_some]
  have hstore : Kfake.storeBatch pb b = (ackOf ledger pb, b.setLog pb.partKey
      ((logOf (ledger.filter (·.partKey = pb.partKey))).append pb.raw)) := by
    simp only [Kfake.storeBatch, storePart, show (⟨pb.topic, pb.partition⟩ : PartKey) = pb.partKey
      from rfl, hlog]
    rfl
  rw [hstore]
  refine ⟨rfl, (b.produceFailN_setLog ..).trans_le h.faultless, fun k => ?_⟩
  by_cases hk : k = pb.partKey
  · subst hk
    rw [Broker.log_setLog_self hlog, hpl₀, filter_append, filter_cons_of_pos (by simp),
      filter_nil, Option.map_some, logOf_concat hpb]
  · rw [Broker.log_setLog_of_ne hlog hk, h.log k, filter_append,
      filter_cons_of_neg (by simpa using Ne.symm hk), filter_nil, append_nil]

/-- The batches of a request are stored one behind the other. -/
theorem Represents.runAll (h : Represents b₀ b ledger) (hpbs : ∀ pb ∈ pbs, PlainBatch pb)
    (hex : ∀ pb ∈ pbs, (b₀.log pb.partKey).isSome) :
    (Reading.runAll Kfake.storeBatch pbs b).1 = acksFrom ledger pbs ∧
      Represents b₀ (Reading.runAll Kfake.storeBatch pbs b).2 (ledger ++ pbs) := by
  induction pbs generalizing b ledger with
  | nil => exact ⟨rfl, by rwa [append_nil]⟩
  | cons pb pbs ih =>
    have ⟨hpb, hpbs⟩ := forall_mem_cons.1 hpbs
    have ⟨hexpb, hex⟩ := forall_mem_cons.1 hex
    have ⟨hack, hrep⟩ := h.storeBatch hpb hexpb
    have ⟨hacks, hrep'⟩ := ih hrep hpbs hex
    rw [append_assoc] at hrep'
    exact ⟨congrArg₂ List.cons hack hacks, hrep'⟩

/-- The section of a partition is decoded; from offset 0 on, to all that was stored. -/
theorem Represents.decode_section (h : Represents b₀ b ledger)
    (hplain : ∀ pb ∈ ledger, PlainBatch pb)
    (hsize : (ledger.map (·.raw.length)).sum < 2 ^ 28) (C : Codecs) (topic : Bytes)
    (pr : PartRequest) :
    (b.section topic pr).records.bytes.length < 2 ^ 28 ∧
      ∃ recs, decodeFetchPartition C ((b.section topic pr).fetched topic) = .ok recs ∧
        (∀ r ∈ recs, r.DataOf topic pr.part) ∧
        (pr.offset = 0 → (b₀.log ⟨topic, pr.part⟩).isSome → recs.map (·.entry) =
          entriesFrom 0 ((ledger.filter (·.partKey = ⟨topic, pr.part⟩)).flatMap (·.records))) := by
  have hplain' : ∀ pb ∈ ledger.filter (·.partKey = ⟨topic, pr.part⟩), PlainBatch pb := fun pb hpb =>
    hplain pb (mem_of_mem_filter hpb)
  have hsize' : ((ledger.filter (·.partKey = ⟨topic, pr.part⟩)).map (·.raw.length)).sum < 2 ^ 28 :=
    ((filter_sublist.map _).sum_le_sum fun _ _ => Nat.zero_le _).trans_lt hsize
  have hcode : ∀ records, decodeFetchPartition C ⟨topic, pr.part, 0, [], records⟩ =
      decodeRecordBatch C topic pr.part records [] := fun _ => rfl
  cases hb₀ : b₀.log ⟨topic, pr.part⟩ with
  | none =>
    have hlog : b.log ⟨topic, pr.part⟩ = none := by rw [h.log, hb₀, Option.map_none]
    have hsection : b.section topic pr = ⟨pr.part, 0, none⟩ := by
      simp only [Broker.section, Broker.collectBatches, hlog]
    rw [hsection]
    refine ⟨Nat.two_pow_pos 28, [], (hcode []).trans decodeRecordBatchLoop_nil, ?_, ?_⟩
    · exact nofun
    · exact fun _ hsome => absurd hsome (by simp)
  | some pl₀ =>
    have hlog : b.log ⟨topic, pr.part⟩ =
        some (logOf (ledger.filter (·.partKey = ⟨topic, pr.part⟩))) := by
      rw [h.log, hb₀, Option.map_some]
    have hbytes : (b.section topic pr).fetched topic = ⟨topic, pr.part, 0, [],
        ((logOf (ledger.filter (·.partKey = ⟨topic, pr.part⟩))).batchesFrom
          pr.offset).flatten⟩ := by
      simp only [Broker.section, Broker.collectBatches, hlog, PlainSection.fetched]
      congr 1
      split_ifs with hnil
      · exact hnil.symm
      · rfl
    have hlength := congrArg (·.records.length) hbytes
    obtain ⟨hlen, recs, hdecode, hdata, hentries⟩ := decode_batchesFrom hplain'
      (fun pb hpb => of_decide_eq_true (mem_filter.1 hpb).2) hsize' C pr.offset
    refine ⟨hlength.trans_lt hlen, recs, ?_, hdata, fun hoff _ => hentries hoff⟩
    rw [hbytes, hcode, hdecode]

end Represents

end Kfake

end GoKafka
