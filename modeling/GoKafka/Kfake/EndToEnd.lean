import GoKafka.Kfake.Log

/-!
# Producing to the mock broker and fetching from it

A client that sends produce requests of version 9 to a broker without faults and then fetches, each
request and answer through the bytes that both sides write and read. The batches of the requests are
the ledger of the broker's logs (`Represents`): a request adds its own (`ProduceCall.send_eq`), and
a run those of its requests in their order (`sendAll_eq`). `sendAll_fetch` is the result: every
request is answered, the logs have no gaps, and a fetch from offset 0 returns each record at the
offset it was acknowledged under.

The sizes are bounded by what `ReadUvarint` accepts. The logs are bounded as a whole; the names of
the topics are not part of them, so they have a bound of their own, which is needed
(`send_longName`).
-/

namespace GoKafka.Kfake

open Reading List

/-! ## The program -/

/-- A produce request as the client makes it: the records, the settings, the readings of the clock
and the sequence numbers. -/
structure ProduceCall where
  clock : PartKey → Nat → Time
  settings : ProduceRequestSettings
  cur : SeqCursor
  records : List ProduceRecord

/-- The records of a request for a partition. -/
def ProduceCall.recordsTo (call : ProduceCall) (k : PartKey) : List ProduceRecord :=
  call.records.filter (·.partKey = k)

/-- A request goes to the broker and its answer comes back. -/
def ProduceCall.send (C : Codecs) (call : ProduceCall) (b : Broker) :
    Except Error (List ProduceResult) × Broker :=
  match (encodeProduceRequestFlex C call.clock call.settings call.records call.cur).1 with
  | .error e => (.error e, b)
  | .ok body =>
    match handleProduce b body with
    | (.error e, b) => (.error e, b)
    | (.ok answer, b) => (decodeProduceResponseFlex answer, b)

/-- Requests, one after the other. -/
def sendAll (C : Codecs) : List ProduceCall → Broker →
    Except Error (List (List ProduceResult)) × Broker
  | [], b => (.ok [], b)
  | call :: calls, b =>
    match call.send C b with
    | (.error e, b) => (.error e, b)
    | (.ok results, b) =>
      match sendAll C calls b with
      | (.error e, b) => (.error e, b)
      | (.ok rest, b) => (.ok (results :: rest), b)

/-- A fetch request. -/
structure FetchCall where
  parts : List FetchPartition
  maxWaitMs : Int32
  minBytes : Int32
  maxBytes : Int32
  isolationLevel : Int8
  resolveTopic : UUID → Option Bytes

/-- A fetch goes to the broker and its answer comes back. -/
def Broker.fetch (C : Codecs) (b : Broker) (call : FetchCall) :
    Except Error (List FetchedRecord) := do
  let answer ← handleFetch b (encodeFetchRequestFlex 12 call.parts call.maxWaitMs call.minBytes
    call.maxBytes call.isolationLevel)
  decodeFetchResponseFlex C 12 answer call.resolveTopic

/-! ## What is assumed of the requests -/

/-- A broker without faults whose logs are empty. -/
structure Broker.Fresh (b : Broker) : Prop where
  faultless : b.produceFailN ≤ 0
  empty : ∀ k pl, b.log k = some pl → pl = {}

/-- A request for partitions that exist, without compression, whose timestamps are close enough
within each batch and whose names can be read. -/
structure ProduceCall.Plain (call : ProduceCall) (b : Broker) : Prop where
  existing : ∀ r ∈ call.records, (b.log r.partKey).isSome
  uncompressed : call.settings.compression = 0
  deltas : ∀ k, ∀ first ∈ (call.recordsTo k).head?, ∀ r ∈ call.recordsTo k,
    VarintRange ((call.clock k ((call.recordsTo k).length + 1)).millisOr r.timestamp
      - (call.clock k ((call.recordsTo k).length + 1)).millisOr first.timestamp)
  names : ∀ r ∈ call.records, r.topic.length + 1 < 2 ^ 29
  transactionalID : call.settings.transactionalID.length + 1 < 2 ^ 29

/-- The batches of a request. -/
def ProduceCall.batches (C : Codecs) (call : ProduceCall) : List PartitionBatch :=
  (encodeProduceRequest C call.clock 9 call.settings.toProduceSettings call.records
    call.cur).1.toOption.getD []

/-- The size of the logs that requests make. -/
def logSize (C : Codecs) (calls : List ProduceCall) : Nat :=
  ((calls.flatMap (·.batches C)).map (·.raw.length)).sum

/-- The records that requests have for a partition, in their order. -/
def sentTo (k : PartKey) (calls : List ProduceCall) : List ProduceRecord :=
  calls.flatMap (·.recordsTo k)

/-- A fetch of distinct partitions whose request can be read. -/
structure FetchCall.Plain (call : FetchCall) : Prop where
  nodup : (call.parts.map (·.partKey)).Nodup
  count : call.parts.length + 1 < 2 ^ 29
  names : ∀ p ∈ call.parts, p.topic.length + 1 < 2 ^ 29

/-! ## One request -/

/-- A request's batches for a partition hold its records for it. -/
theorem records_of_requestFor (h : RequestFor C clock settings cur records pbs) :
    (pbs.filter (·.partKey = k)).flatMap (·.records) = records.filter (·.partKey = k) := by
  by_cases hk : k ∈ pbs.map (·.partKey)
  · obtain ⟨pb, hpb, rfl⟩ := mem_map.1 hk
    have hone := Assoc.filter_flatMap_of_nodup (f := fun pb => [pb]) h.nodup
      (fun pb _ pb' hpb' => congrArg PartitionBatch.partKey (mem_singleton.1 hpb')) hpb
    rw [flatMap_singleton'] at hone
    rw [hone, flatMap_singleton, h.records pb hpb]
  · have hnone : pbs.filter (·.partKey = k) = [] := by
      refine filter_eq_nil_iff.2 fun pb hpb heq => hk ?_
      exact of_decide_eq_true heq ▸ mem_map_of_mem hpb
    rw [hnone, flatMap_nil, filter_eq_nil_iff.2]
    intro r hr heq
    exact hk ((h.mem k).2 (of_decide_eq_true heq ▸ mem_map_of_mem hr))

section Send

variable {C : Codecs} {call : ProduceCall}

theorem ProduceCall.requestFor (hplain : call.settings.compression = 0) :
    RequestFor C call.clock call.settings.toProduceSettings call.cur call.records
      (call.batches C) := by
  obtain ⟨pbs, hpbs⟩ := @encodeProduceRequest_plain C call.clock _ hplain call.records call.cur
  rw [ProduceCall.batches, hpbs]
  exact encodeProduceRequest_ok hpbs

/-- The batches of a request are frames of their records. -/
theorem ProduceCall.Plain.plainBatch (h : call.Plain b₀) (hpb : pb ∈ call.batches C)
    (hsmall : pb.raw.length < 2 ^ 28) : PlainBatch pb := by
  have hreq := ProduceCall.requestFor (C := C) h.uncompressed
  have hrecords : pb.records = call.recordsTo pb.partKey := hreq.records pb hpb
  have hne : pb.records ≠ [] := by
    obtain ⟨r, hr, hkey⟩ := mem_map.1 ((hreq.mem pb.partKey).1 (mem_map_of_mem hpb))
    rw [hrecords]
    exact ne_nil_of_mem (mem_filter.2 ⟨hr, decide_eq_true hkey⟩)
  have hraw := hreq.raw pb hpb
  rw [encodeRecordBatch_plain h.uncompressed hne] at hraw
  refine ⟨hne, fun r hr => ?_, hsmall, _, _, (Except.ok.inj hraw).symm, rfl, ?_, ?_⟩
  · rw [hrecords] at hr
    exact of_decide_eq_true (mem_filter.1 hr).2
  · cases call.settings.transactional
    · exact .inl rfl
    · exact .inr rfl
  · rw [hrecords]
    exact h.deltas pb.partKey

/-- A batch of a request is for a partition that exists and has a name that can be read. -/
theorem ProduceCall.Plain.partition (h : call.Plain b₀) (hpb : pb ∈ call.batches C) :
    (b₀.log pb.partKey).isSome ∧ pb.topic.length + 1 < 2 ^ 29 := by
  have hreq := ProduceCall.requestFor (C := C) h.uncompressed
  obtain ⟨r, hr, hkey⟩ := mem_map.1 ((hreq.mem pb.partKey).1 (mem_map_of_mem hpb))
  have htopic : r.topic = pb.topic := congrArg PartKey.topic hkey
  exact ⟨hkey ▸ h.existing r hr, htopic ▸ h.names r hr⟩

variable {ts : List (TopicEntries PartitionBatch)}

theorem length_topics_le (hts : ∀ t ∈ ts, HasBatches t) :
    ts.length ≤ (ts.flatMap (·.parts)).length := by
  have hle := length_le_sum_of_one_le (ts.map (·.parts.length)) fun n hn => by
    obtain ⟨t, ht, rfl⟩ := mem_map.1 hn
    exact length_pos_iff.2 (hts t ht).nonempty
  rwa [length_map, ← length_flatMap] at hle

/-- The topics of a request whose batches are small fit in their length prefixes. -/
theorem topicsFit_of_batches (hts : ∀ t ∈ ts, HasBatches t)
    (hnames : ∀ pb ∈ ts.flatMap (·.parts), pb.topic.length + 1 < 2 ^ 29)
    (hcount : (ts.flatMap (·.parts)).length + 1 < 2 ^ 29) : TopicsFit ts := by
  refine ⟨?_, fun t ht => ?_, fun t ht => ?_⟩
  · have hle := length_topics_le hts
    omega
  · obtain ⟨pb, hpb⟩ := exists_mem_of_ne_nil _ (hts t ht).nonempty
    rw [← (hts t ht).topic pb hpb]
    exact hnames pb (mem_flatMap.2 ⟨t, ht, hpb⟩)
  · have hsub : t.parts.Sublist (ts.flatMap (·.parts)) := by
      exact sublist_flatten_of_mem (mem_map_of_mem ht)
    exact Nat.lt_of_le_of_lt (Nat.succ_le_succ hsub.length_le) hcount

/-- Batches of a bounded size are few. -/
theorem length_le_size {pbs : List PartitionBatch} (h : ∀ pb ∈ pbs, PlainBatch pb) :
    pbs.length ≤ (pbs.map (·.raw.length)).sum := by
  have hle := length_le_sum_of_one_le (pbs.map (·.raw.length)) fun n hn => by
    obtain ⟨pb, hpb, rfl⟩ := mem_map.1 hn
    have := (h pb hpb).length_raw
    omega
  rwa [length_map] at hle

theorem ProduceCall.exists_topics (hplain : call.settings.compression = 0) :
    ∃ ts, (encodeProduceRequestFlex C call.clock call.settings call.records call.cur).1 =
        .ok (writeProduceHeader call.settings ++ (writeTopics writeProducePart ts
          ++ writeEmptyTagSection)) ∧
      ts.flatMap (·.parts) = call.batches C ∧ ∀ t ∈ ts, HasBatches t := by
  obtain ⟨pbs, hpbs⟩ := @encodeProduceRequest_plain C call.clock _ hplain call.records call.cur
  rw [ProduceCall.batches, hpbs]
  rw [encodeProduceRequest_flatten] at hpbs
  unfold encodeProduceRequestFlex
  rcases henc : encodeProduceTopics C call.clock call.settings (groupByTopic call.records)
      call.cur with ⟨e | ts, cur'⟩
  · rw [henc] at hpbs
    cases hpbs
  · rw [henc] at hpbs
    cases hpbs
    exact ⟨ts, rfl, rfl, encodeProduceTopics_ok groupByTopic_ne_nil (congrArg Prod.fst henc)⟩

theorem ProduceCall.send_eq (h : call.Plain b₀) (hrep : Represents b₀ b ledger)
    (hplain : ∀ pb ∈ call.batches C, PlainBatch pb)
    (hsize : ((call.batches C).map (·.raw.length)).sum < 2 ^ 28) :
    ∃ b', call.send C b = (.ok (acksFrom ledger (call.batches C)), b') ∧
      Represents b₀ b' (ledger ++ call.batches C) := by
  obtain ⟨ts, hbody, hbatches, hts⟩ := ProduceCall.exists_topics (C := C) h.uncompressed
  have hfit : TopicsFit ts := by
    refine topicsFit_of_batches hts (fun pb hpb => ?_) ?_
    · rw [hbatches] at hpb
      exact (h.partition hpb).2
    · have hcount := length_le_size hplain
      rw [hbatches]
      omega
  have hsizes : ∀ t ∈ ts, ∀ pb ∈ t.parts, pb.raw.length + 1 < 2 ^ 29 := by
    intro t ht pb hpb
    have hmem : pb ∈ call.batches C := hbatches ▸ mem_flatMap.2 ⟨t, ht, hpb⟩
    have := (hplain pb hmem).small
    omega
  have hflat := storeTopics_flatten hts b
  rw [hbatches] at hflat
  have ⟨hacks, hrep'⟩ := hrep.runAll hplain fun pb hpb => (h.partition hpb).1
  refine ⟨(runAll storeTopic ts b).2, ?_, ?_⟩
  · rw [ProduceCall.send, hbody]
    simp only [handleProduce_write hrep.faultless h.transactionalID hfit hsizes,
      decodeProduceResponseFlex_write (topicsFit_storeTopics hfit)]
    rw [← hacks, ← hflat]
  · rw [← hflat] at hrep'
    exact hrep'

end Send

/-! ## A run -/

section Run

variable {C : Codecs} {b₀ b : Broker}

/-- The answers to requests behind a ledger. -/
def acksOf (C : Codecs) : List PartitionBatch → List ProduceCall → List (List ProduceResult)
  | _, [] => []
  | ledger, call :: calls =>
    acksFrom ledger (call.batches C) :: acksOf C (ledger ++ call.batches C) calls

@[simp] theorem length_acksOf : (acksOf C ledger calls).length = calls.length := by
  induction calls generalizing ledger with
  | nil => rfl
  | cons call calls ih => simp only [acksOf, length_cons, ih]

variable {calls : List ProduceCall}

/-- The answer to a request is that behind the requests before it. -/
theorem getElem?_acksOf (h : calls[j]? = some call) :
    (acksOf C ledger calls)[j]? =
      some (acksFrom (ledger ++ (calls.take j).flatMap (·.batches C)) (call.batches C)) := by
  induction calls generalizing ledger j with
  | nil => cases h
  | cons call' calls ih =>
    cases j with
    | zero =>
      cases h
      rw [take_zero, flatMap_nil, append_nil]
      rfl
    | succ j =>
      rw [acksOf, List.getElem?_cons_succ, ih h, take_succ_cons, flatMap_cons, append_assoc]

variable (hcalls : ∀ call ∈ calls, call.Plain b₀)
include hcalls

/-- Every batch of a run that is small enough is plain. -/
theorem plainBatch_of_logSize
    (hsize : logSize C calls < 2 ^ 28) : ∀ pb ∈ calls.flatMap (·.batches C), PlainBatch pb := by
  intro pb hpb
  obtain ⟨call, hcall, hmem⟩ := mem_flatMap.1 hpb
  refine (hcalls call hcall).plainBatch hmem (Nat.lt_of_le_of_lt ?_ hsize)
  exact single_le_sum (fun _ _ => Nat.zero_le _) _ (mem_map_of_mem hpb)

theorem sendAll_eq (hrep : Represents b₀ b ledger)
    (hplain : ∀ pb ∈ calls.flatMap (·.batches C), PlainBatch pb)
    (hsize : logSize C calls < 2 ^ 28) :
    ∃ b', sendAll C calls b = (.ok (acksOf C ledger calls), b') ∧
      Represents b₀ b' (ledger ++ calls.flatMap (·.batches C)) := by
  induction calls generalizing b ledger with
  | nil => exact ⟨b, rfl, by rwa [flatMap_nil, append_nil]⟩
  | cons call calls ih =>
    have ⟨hcall, hrest⟩ := forall_mem_cons.1 hcalls
    have ⟨hpb, hpbs⟩ := forall_mem_append.1 hplain
    have hsplit : logSize C (call :: calls) =
        ((call.batches C).map (·.raw.length)).sum + logSize C calls := by
      rw [logSize, flatMap_cons, map_append, sum_append]
      rfl
    obtain ⟨b₁, hsend, hrep₁⟩ := ProduceCall.send_eq hcall hrep hpb (by omega)
    obtain ⟨b₂, hall, hrep₂⟩ := ih hrest hrep₁ hpbs (by omega)
    refine ⟨b₂, ?_, ?_⟩
    · simp only [sendAll, hsend, hall]
      rfl
    · rwa [flatMap_cons, ← append_assoc]

/-- What a run has for a partition, by batches and by records. -/
theorem records_of_run (k : PartKey) :
    ((calls.flatMap (·.batches C)).filter (·.partKey = k)).flatMap (·.records) =
      sentTo k calls := by
  induction calls with
  | nil => rfl
  | cons call calls ih =>
    have ⟨hcall, hrest⟩ := forall_mem_cons.1 hcalls
    rw [flatMap_cons, filter_append, flatMap_append, ih hrest,
      records_of_requestFor (ProduceCall.requestFor hcall.uncompressed)]
    rfl

omit hcalls

/-- The partitions of a fetch in the order of its answer. -/
def fetchOrder (parts : List FetchPartition) : List FetchPartition :=
  (groupFetches parts).flatMap (·.parts)

theorem mem_fetchOrder : p ∈ fetchOrder parts ↔ p ∈ parts := by
  rw [fetchOrder, groupFetches_eq, flatMap_map]
  constructor
  · intro hp
    obtain ⟨t, -, hp⟩ := mem_flatMap.1 hp
    exact mem_of_mem_filter hp
  · intro hp
    exact mem_flatMap.2 ⟨p.topic, Assoc.mem_firstKeys.2 (mem_map_of_mem hp),
      mem_filter.2 ⟨hp, decide_eq_true rfl⟩⟩

theorem nodup_fetchOrder (h : (parts.map (·.partKey)).Nodup) :
    ((fetchOrder parts).map (·.partKey)).Nodup := by
  rw [fetchOrder, groupFetches_eq, flatMap_map, map_flatMap]
  refine nodup_flatMap.2 ⟨fun t _ => h.sublist (filter_sublist.map _), ?_⟩
  refine (Assoc.nodup_firstKeys).imp fun {t t'} hne => ?_
  intro k hk hk'
  obtain ⟨p, hp, rfl⟩ := mem_map.1 hk
  obtain ⟨p', hp', hkey⟩ := mem_map.1 hk'
  have ht := of_decide_eq_true (mem_filter.1 hp).2
  have ht' := of_decide_eq_true (mem_filter.1 hp').2
  exact hne (ht.symm.trans ((PartKey.mk.inj hkey).1.symm.trans ht'))

/-- The section that answers a partition of a fetch. -/
def Broker.answer (b : Broker) (p : FetchPartition) : FetchedPartition :=
  (b.section p.topic ⟨p.partition, p.offset⟩).fetched p.topic

/-- An answer has the sections of the fetch's partitions. -/
theorem fetchedSections_sections (b : Broker) (parts : List FetchPartition) :
    fetchedSections (b.sections parts) = (fetchOrder parts).map b.answer := by
  rw [fetchedSections, Broker.sections, fetchOrder, flatMap_map, map_flatMap]
  refine flatMap_congr fun t ht => ?_
  rw [map_map]
  refine map_congr_left fun p hp => ?_
  have htopic : p.topic = t.topic := by
    rw [groupFetches_eq] at ht
    obtain ⟨name, -, rfl⟩ := mem_map.1 ht
    exact of_decide_eq_true (mem_filter.1 hp).2
  rw [Broker.answer, htopic]
  rfl

/-- A fetch returns, for each of its partitions from offset 0 on, all that was stored. -/
theorem Represents.fetch (h : Represents b₀ b ledger) (hplain : ∀ pb ∈ ledger, PlainBatch pb)
    (hsize : (ledger.map (·.raw.length)).sum < 2 ^ 28) (C : Codecs) (hcall : call.Plain) :
    ∃ fetched, b.fetch C call = .ok fetched ∧ (∀ f ∈ fetched, f.control = false) ∧
      ∀ p ∈ call.parts, p.offset = 0 → (b₀.log p.partKey).isSome →
        (fetched.filter (·.partKey = p.partKey)).map (·.entry) =
          entriesFrom 0 ((ledger.filter (·.partKey = p.partKey)).flatMap (·.records)) := by
  have hsection := h.decode_section hplain hsize C
  let records (p : FetchPartition) := sectionRecords C (b.answer p)
  have hrecords : ∀ p, decodeFetchPartition C (b.answer p) = .ok (records p) ∧
      (∀ r ∈ records p, r.DataOf p.topic p.partition) ∧
      (p.offset = 0 → (b₀.log p.partKey).isSome → (records p).map (·.entry) =
        entriesFrom 0 ((ledger.filter (·.partKey = p.partKey)).flatMap (·.records))) := by
    intro p
    obtain ⟨-, recs, hdec, hrest⟩ := hsection p.topic ⟨p.partition, p.offset⟩
    have heq : records p = recs := by
      show (decodeFetchPartition C (b.answer p)).toOption.getD [] = recs
      rw [Broker.answer, hdec]
      rfl
    rw [heq]
    exact ⟨hdec, hrest⟩
  have hdecode : decodeFetchResponse C (fetchedSections (b.sections call.parts)) =
      .ok ((fetchOrder call.parts).flatMap records) := by
    rw [fetchedSections_sections, decodeFetchResponse_eq, flatMap_map]
    intro s hs
    obtain ⟨p, -, rfl⟩ := mem_map.1 hs
    exact (hrecords p).1
  have hfit := topicsFit_groupFetches hcall.count hcall.names
  have hfit' : TopicsFit (b.sections call.parts) := by
    refine topicsFit_congr ?_ hfit
    simp only [Broker.sections, map_map, Function.comp_def, length_map]
  have hsizes : ∀ t ∈ b.sections call.parts, ∀ s ∈ t.parts,
      s.records.bytes.length + 1 < 2 ^ 29 := by
    intro t ht s hs
    obtain ⟨t', -, rfl⟩ := mem_map.1 ht
    obtain ⟨p, -, rfl⟩ := mem_map.1 hs
    have := (hsection t'.topic ⟨p.partition, p.offset⟩).1
    omega
  refine ⟨(fetchOrder call.parts).flatMap records, ?_, ?_, ?_⟩
  · rw [Broker.fetch, handleFetch_encode hfit]
    exact decodeFetchResponseFlex_write hfit' hsizes hdecode call.resolveTopic
  · intro f hf
    obtain ⟨p, -, hf⟩ := mem_flatMap.1 hf
    exact ((hrecords p).2.1 f hf).2.2
  · intro p hp hoff hex
    rw [Assoc.filter_flatMap_of_nodup (nodup_fetchOrder hcall.nodup) _ (mem_fetchOrder.2 hp)]
    · exact (hrecords p).2.2 hoff hex
    · intro q _ f hf
      obtain ⟨htopic, hpart, -⟩ := (hrecords q).2.1 f hf
      exact congrArg₂ PartKey.mk htopic hpart

/-! ## The result -/

/-- The answer to a request, against the logs a fetch returns: every partition of the request is
acknowledged, and the acknowledged offset plus a record's index in its batch is where it is. -/
structure Acknowledges (call : ProduceCall) (results : List ProduceResult)
    (log : PartKey → List LogEntry) : Prop where
  keys : ∀ k, k ∈ results.map (·.partKey) ↔ k ∈ call.records.map (·.partKey)
  noError : ∀ res ∈ results, res.errorCode = 0
  offset : ∀ res ∈ results, ∀ (i : Nat) (r : ProduceRecord),
    (call.recordsTo res.partKey)[i]? = some r →
      r.entryAt (res.offset + Int64.ofNat i) ∈ log res.partKey

theorem acknowledges_acksFrom (hcalls : ∀ call ∈ calls, call.Plain b₀)
    (hj : calls[j]? = some call) :
    Acknowledges call (acksFrom ((calls.take j).flatMap (·.batches C)) (call.batches C))
      fun k => entriesFrom 0 (sentTo k calls) := by
  have hcall := hcalls call (mem_of_getElem? hj)
  have hreq := ProduceCall.requestFor (C := C) hcall.uncompressed
  refine ⟨fun k => ?_, fun res hres => ?_, fun res hres i r hr => ?_⟩
  · rw [map_partKey_acksFrom]
    exact hreq.mem k
  · obtain ⟨xs, pb, ys, -, rfl⟩ := exists_of_mem_acksFrom hres
    rfl
  · obtain ⟨xs, pb, ys, hbatches, rfl⟩ := exists_of_mem_acksFrom hres
    -- the records of the partition: those before the batch, the batch's, and those after it
    have hpb : pb.records = call.recordsTo pb.partKey :=
      hreq.records pb (hbatches ▸ mem_append_right xs mem_cons_self)
    have hledger : calls.flatMap (·.batches C) = ((calls.take j).flatMap (·.batches C) ++ xs)
        ++ pb :: (ys ++ (calls.drop (j + 1)).flatMap (·.batches C)) := by
      obtain ⟨hlt, hget⟩ := List.getElem?_eq_some_iff.1 hj
      conv_lhs => rw [← take_append_drop j calls, drop_eq_getElem_cons hlt, hget]
      simp [hbatches]
    have hsent := records_of_run (C := C) hcalls pb.partKey
    rw [hledger, filter_append, filter_cons_of_pos (by simp), flatMap_append, flatMap_cons] at hsent
    show r.entryAt (Int64.ofNat (recordCount _) + Int64.ofNat i) ∈
      entriesFrom 0 (sentTo pb.partKey calls)
    rw [← hsent, entriesFrom_append, entriesFrom_append, Nat.zero_add, ← Int64.ofNat_add]
    refine mem_append_right _ (mem_append_left _ ?_)
    obtain ⟨hlt, hget⟩ := List.getElem?_eq_some_iff.1 (hpb ▸ hr : pb.records[i]? = some r)
    exact mem_mapIdx.2 ⟨i, hlt, by rw [hget]; rfl⟩

/-- Produce and fetch agree: requests without faults and compression are all answered; the log of
each partition covers the offsets from 0 to the number of its records; a fetch from offset 0 returns
the records of each partition in the order in which they were produced, each with its key, value and
headers; and the answers name the offsets at which it does. -/
theorem sendAll_fetch (C : Codecs) {b₀ : Broker} (hfresh : b₀.Fresh) {calls : List ProduceCall}
    (hcalls : ∀ call ∈ calls, call.Plain b₀) (hsize : logSize C calls < 2 ^ 28) :
    ∃ acks b, sendAll C calls b₀ = (.ok acks, b) ∧ acks.length = calls.length ∧
      (∀ k, (b₀.log k).isSome → ∃ pl, b.log k = some pl ∧
        pl.leo = Int64.ofNat (sentTo k calls).length ∧
        pl.offsets = (List.range (sentTo k calls).length).map Int64.ofNat) ∧
      (∀ fetch : FetchCall, fetch.Plain → ∃ fetched, b.fetch C fetch = .ok fetched ∧
        (∀ f ∈ fetched, f.control = false) ∧
        ∀ p ∈ fetch.parts, p.offset = 0 → (b₀.log p.partKey).isSome →
          (fetched.filter (·.partKey = p.partKey)).map (·.entry) =
            entriesFrom 0 (sentTo p.partKey calls)) ∧
      ∀ (j : Nat) call results, calls[j]? = some call → acks[j]? = some results →
        Acknowledges call results fun k => entriesFrom 0 (sentTo k calls) := by
  have hstart : Represents b₀ b₀ [] := by
    refine ⟨hfresh.faultless, fun k => ?_⟩
    cases hk : b₀.log k with
    | none => rfl
    | some pl =>
      rw [hfresh.empty k pl hk]
      rfl
  have hplain := plainBatch_of_logSize hcalls hsize
  obtain ⟨b, hsend, hrep⟩ := sendAll_eq hcalls hstart hplain hsize
  rw [nil_append] at hrep
  have hcount : ∀ k, recordCount ((calls.flatMap (·.batches C)).filter (·.partKey = k)) =
      (sentTo k calls).length := fun k => congrArg List.length (records_of_run hcalls k)
  refine ⟨_, b, hsend, length_acksOf, fun k hk => ?_, fun fetch hfetch => ?_, ?_⟩
  · obtain ⟨pl₀, hpl₀⟩ := Option.isSome_iff_exists.1 hk
    refine ⟨_, by rw [hrep.log, hpl₀, Option.map_some], ?_, ?_⟩
    · rw [← hcount]
      rfl
    · rw [← hcount]
      exact offsets_logOf fun pb hpb => hplain pb (mem_of_mem_filter hpb)
  · obtain ⟨fetched, hok, hdata, hentries⟩ := hrep.fetch hplain hsize C hfetch
    refine ⟨fetched, hok, hdata, fun p hp hoff hex => ?_⟩
    rw [hentries p hp hoff hex, records_of_run hcalls]
  · intro j call results hj hresults
    rw [getElem?_acksOf hj, nil_append] at hresults
    cases hresults
    exact acknowledges_acksFrom hcalls hj

end Run

/-! ## Brokers with topics -/

theorem fresh_newBroker : newBroker.Fresh where
  faultless := Int.le_refl 0
  empty k pl h := by
    simp [log_newBroker] at h

/-- A new topic has empty logs. -/
theorem Broker.Fresh.addTopic {b : Broker} (h : b.Fresh) (name : Bytes) (partitions : Int32) :
    (b.addTopic name partitions).Fresh := by
  exact ⟨h.faultless, fun k pl hlog => (Broker.log_addTopic hlog).elim (h.empty k pl) id⟩

/-- Two requests to a topic of two partitions, the first with records for both. -/
theorem sendAll_fetch_two :
    let b₀ := newBroker.addTopic [116] 2
    let clock : PartKey → Nat → Time := fun _ _ => ⟨9, 0⟩
    let rec₁ : ProduceRecord := ⟨[116], 0, none, some [1], [], ⟨5, 0⟩⟩
    let rec₂ : ProduceRecord := ⟨[116], 1, some [2], some [3], [], ⟨0, 0⟩⟩
    let calls : List ProduceCall :=
      [⟨clock, {}, ∅, [rec₁, rec₂, rec₁]⟩, ⟨clock, {}, ∅, [rec₁]⟩]
    ∃ acks b, sendAll shortCodecs calls b₀ = (.ok acks, b) ∧ acks.length = 2 ∧
      (b.log ⟨[116], 0⟩).map (·.offsets) = some [0, 1, 2] := by
  intro b₀ clock rec₁ rec₂ calls
  have hplain : ∀ records ⊆ [rec₁, rec₂], ProduceCall.Plain ⟨clock, {}, ∅, records⟩ b₀ := by
    intro records hsub
    have hdeltas : ∀ first ∈ [rec₁, rec₂], ∀ r ∈ [rec₁, rec₂], VarintRange
        (Time.millisOr ⟨9, 0⟩ r.timestamp - Time.millisOr ⟨9, 0⟩ first.timestamp) := by
      decide +kernel
    have hexist : ∀ r ∈ [rec₁, rec₂], (b₀.log r.partKey).isSome ∧ r.topic.length + 1 < 2 ^ 29 := by
      decide +kernel
    refine ⟨fun r hr => (hexist r (hsub hr)).1, rfl, fun k first hfirst r hr => ?_,
      fun r hr => (hexist r (hsub hr)).2, show ([] : Bytes).length + 1 < 2 ^ 29 by decide⟩
    exact hdeltas first (hsub (mem_of_mem_filter (mem_of_mem_head? hfirst))) r
      (hsub (mem_of_mem_filter hr))
  have hcalls : ∀ call ∈ calls, call.Plain b₀ :=
    forall_mem_cons.2 ⟨hplain _ (by simp), forall_mem_singleton.2 (hplain _ (by simp))⟩
  have hsize : logSize shortCodecs calls < 2 ^ 28 := by decide +kernel
  obtain ⟨acks, b, hsend, hlen, hlogs, -⟩ :=
    sendAll_fetch shortCodecs ((fresh_newBroker).addTopic [116] 2) hcalls hsize
  obtain ⟨pl, hlog, -, hoffsets⟩ := hlogs ⟨[116], 0⟩ (by decide +kernel)
  refine ⟨acks, b, hsend, hlen, ?_⟩
  rw [hlog, Option.map_some, hoffsets]
  decide +kernel

/-! ## Names that are too long -/

/-- A request of one record, without a key, a value or headers. -/
def oneRecord (name : Bytes) : ProduceCall where
  clock := fun _ _ => ⟨9, 0⟩
  settings := {}
  cur := ∅
  records := [⟨name, 0, none, none, [], ⟨9, 0⟩⟩]

/-- It has one batch, of 68 bytes. -/
theorem batches_oneRecord :
    ∃ pb, (oneRecord name).batches C = [pb] ∧ pb.topic = name ∧ pb.raw.length = 68 := by
  have hreq := @ProduceCall.requestFor C (oneRecord name) rfl
  have hkeys : ((oneRecord name).batches C).map (·.partKey) = [⟨name, 0⟩] := by
    refine perm_singleton.1 ((perm_ext_iff_of_nodup hreq.nodup (nodup_singleton _)).2 fun k => ?_)
    exact hreq.mem k
  obtain ⟨pb, hpb, hkey⟩ := map_eq_singleton_iff.1 hkeys
  have hmem : pb ∈ (oneRecord name).batches C := hpb ▸ mem_singleton_self pb
  have hrecords : pb.records = (oneRecord name).records := by
    rw [hreq.records pb hmem, hkey]
    exact filter_eq_self.2 fun r hr => decide_eq_true (mem_singleton.1 hr ▸ rfl)
  have hraw := hreq.raw pb hmem
  have hne : (oneRecord name).records ≠ [] := cons_ne_nil _ _
  rw [hrecords, encodeRecordBatch_plain rfl hne] at hraw
  refine ⟨pb, hpb, congrArg PartKey.topic hkey, ?_⟩
  rw [← Except.ok.inj hraw, BatchHeader.length_frame]
  simp only [oneRecord, encodeRecordsPayload, mapIdx_cons, List.head?_cons, Option.map_some]
  decide +kernel

/-- A topic may exist under a name of 2²⁹ bytes. A request to it meets every other condition and is
refused; its record is never stored. -/
theorem send_longName :
    let name : Bytes := List.replicate (2 ^ 29) 0
    let b₀ := newBroker.addTopic name 1
    let call := oneRecord name
    b₀.Fresh ∧ (∀ r ∈ call.records, (b₀.log r.partKey).isSome) ∧
      call.settings.compression = 0 ∧
      (∀ k, ∀ first ∈ (call.recordsTo k).head?, ∀ r ∈ call.recordsTo k,
        VarintRange (Time.millisOr ⟨9, 0⟩ r.timestamp - Time.millisOr ⟨9, 0⟩ first.timestamp)) ∧
      logSize shortCodecs [call] < 2 ^ 28 ∧
      ∃ e, sendAll shortCodecs [call] b₀ = (.error e, b₀) := by
  intro name
  have hlong : 2 ^ 29 ≤ name.length + 1 := by
    rw [show name.length = 2 ^ 29 from length_replicate]
    exact Nat.le_succ _
  -- only the length of the name matters
  clear_value name
  intro b₀ call
  have hfresh : b₀.Fresh := fresh_newBroker.addTopic name 1
  have hlog : (b₀.log ⟨name, 0⟩).isSome := by
    simp [b₀, Broker.log, Broker.addTopic, TopicBroker.createTopic, TopicBroker.putTopic, newBroker,
      newTopicBroker, -AList.insert_empty]
  obtain ⟨pb, hbatches, htopic, hraw⟩ := batches_oneRecord
  refine ⟨hfresh, forall_mem_singleton.2 hlog, rfl, ?_, ?_, ?_⟩
  · intro k first hfirst r hr
    have h₁ := mem_singleton.1 (mem_of_mem_filter hr)
    have h₂ := mem_singleton.1 (mem_of_mem_filter (mem_of_mem_head? hfirst))
    rw [h₁, h₂, Int64.sub_self]
    decide
  · rw [logSize, flatMap_singleton, hbatches, map_singleton, sum_singleton, hraw]
    decide
  · obtain ⟨ts, hbody, hparts, hts⟩ := @ProduceCall.exists_topics shortCodecs call rfl
    rw [hbatches] at hparts
    have hcount := length_topics_le hts
    rw [hparts, length_singleton] at hcount
    cases ts with
    | nil => cases hparts
    | cons t ts =>
      have ht := hts t mem_cons_self
      obtain ⟨pb', hpb'⟩ := exists_mem_of_ne_nil _ ht.nonempty
      have hmem : pb' ∈ (t :: ts).flatMap (·.parts) :=
        mem_flatMap.2 ⟨t, mem_cons_self, hpb'⟩
      rw [hparts] at hmem
      have hname : t.topic = name := by
        rw [← ht.topic pb' hpb', mem_singleton.1 hmem, htopic]
      have hid : call.settings.transactionalID.length + 1 < 2 ^ 29 :=
        show ([] : Bytes).length + 1 < 2 ^ 29 by decide
      obtain ⟨e, he⟩ := @handleProduce_longName b₀ ts call.settings hfresh.faultless hid t
        (by omega) (hname ▸ hlong) writeEmptyTagSection
      refine ⟨e, ?_⟩
      have hsend : call.send shortCodecs b₀ = (.error e, b₀) := by
        rw [ProduceCall.send, hbody]
        simp [he]
      rw [sendAll, hsend]

end GoKafka.Kfake
