import GoKafka.Protocol.PartitionLog

/-!
# Null and empty fields

A record batch can say of a key, a value or the value of a header that it is null, which is not the
same as empty: a null value deletes a key from a compacted topic. `appendRecord` writes the length 0
for both, and `parseRecords` makes nil of every length that is not positive, so no decoded field is
an empty slice (`decodeRecordBatch_filled`), and what was an empty slice comes back as nil.
`nullKept_iff` says that null and empty are kept apart exactly in batches without empty slices.
-/

namespace GoKafka

open Reading List

/-! ## What is to be kept -/

/-- A field comes back as nil where it was nil, and as an empty slice where it was one. -/
def SameNull (sent back : NilBytes) : Prop :=
  (back = none ↔ sent = none) ∧ (back = some [] ↔ sent = some [])

/-- Key, value and header values of a record come back so. -/
structure KeepsNull (r : ProduceRecord) (fr : FetchedRecord) : Prop where
  key : SameNull r.key fr.key
  value : SameNull r.value fr.value
  headers : List.Forall₂ (fun h h' => SameNull h.2 h'.2) r.headers fr.headers

/-- The batch of the records is decoded, and null and empty are kept apart in all of them. -/
def NullKept (C : Codecs) (clock : Nat → Time) (records : List ProduceRecord)
    (settings : ProduceSettings) (baseSequence : Int32) (topic : Bytes) (part : Int32) : Prop :=
  ∃ batch out, encodeRecordBatch C clock records settings baseSequence = .ok batch ∧
    decodeRecordBatch C topic part batch [] = .ok out ∧ List.Forall₂ KeepsNull records out

/-- No key, value or header value of the record is an empty slice. -/
structure ProduceRecord.NoEmpty (r : ProduceRecord) : Prop where
  key : r.key ≠ some []
  value : r.value ≠ some []
  headers : ∀ h ∈ r.headers, h.2 ≠ some []

/-- The batch can carry the records: there are some, their counts, sizes and timestamps are in the
range of `ReadVarint`, the codec undoes itself, and the length of the batch fits its field. -/
structure Carried (C : Codecs) (clock : Nat → Time) (records : List ProduceRecord)
    (settings : ProduceSettings) (baseSequence : Int32) : Prop where
  nonempty : records ≠ []
  parsable : Parsable (clock (records.length + 1)) records
  codec : CodecUndoes C settings (encodeRecordsPayload (clock (records.length + 1)) records)
  length : ∀ batch, encodeRecordBatch C clock records settings baseSequence = .ok batch →
    batch.length < 2 ^ 32 + 12

/-! ## No decoded field is an empty slice -/

/-- No key, value or header value is an empty slice. -/
structure FetchedRecord.Filled (fr : FetchedRecord) : Prop where
  key : fr.key ≠ some []
  value : fr.value ≠ some []
  headers : ∀ h ∈ fr.headers, h.2 ≠ some []

theorem readField_filled (h : readField b = .ok (some field, b')) : field ≠ some [] := by
  obtain ⟨n, c, -, h⟩ := bind_ok h
  split_ifs at h with hpos
  · obtain ⟨c', c'', hget, h⟩ := bind_ok h
    split_ifs at h with hshort
    · cases h
    · cases h
      rintro hnil
      have hlen := congrArg List.length (Option.some.inj hnil)
      rw [gt_iff_lt, Int64.lt_iff_toInt_lt, Int64.toInt_zero] at hpos
      rw [length_take, length_nil] at hlen
      omega
  · cases h
    exact nofun

theorem parseHeaders_filled (h : parseHeaders n b = .ok (headers, b')) :
    ∀ p ∈ headers, p.2 ≠ some [] := by
  induction n generalizing b headers with
  | zero =>
    cases h
    exact nofun
  | succ n ih =>
    rcases parseHeaders_succ h with rfl | ⟨k, c, v, c', rest, -, hv, hrest, rfl⟩
    · exact nofun
    · exact forall_mem_cons.2 ⟨readField_filled hv, ih hrest⟩

theorem parseRecord_filled
    (h : parseRecord topic part baseOffset baseTimestamp b = .ok (some fr, b')) : fr.Filled := by
  obtain ⟨_, _, _, _, _, _, _, _, _, _, -, -, -, hkey, hvalue, -, hheaders, -⟩ :=
    parseRecord_some h
  exact ⟨readField_filled hkey, readField_filled hvalue, parseHeaders_filled hheaders⟩

theorem deliverBatch_filled (topic : Bytes) (part : Int32) (h : ∀ fr ∈ info.records, fr.Filled)
    (pids : Finset Int64) : ∀ fr ∈ (deliverBatch topic part info pids).1, fr.Filled := by
  have hmarker : ∀ fr ∈ [controlMarker topic part info.lastOffset], fr.Filled := by
    intro fr hfr
    obtain rfl := mem_singleton.1 hfr
    exact ⟨nofun, nofun, nofun⟩
  rw [deliverBatch]
  split_ifs
  · exact hmarker
  · exact hmarker
  · exact h

/-- Whatever the bytes are, no field that is decoded from them is an empty slice. -/
theorem decodeRecordBatch_filled (h : decodeRecordBatch C topic part data aborted = .ok out) :
    ∀ fr ∈ out, fr.Filled := by
  rw [decodeRecordBatch] at h
  generalize (∅ : Finset Int64) = pids at h
  fun_induction decodeRecordBatchLoop C topic part data aborted pids generalizing out with
  | case1 | case2 =>
    cases h
    exact forall_mem_nil _
  | case3 => cases h
  | case4 =>
    rename_i ih
    exact ih h
  | case5 =>
    rename_i info hone _ marked _ out _ hdeliver ih
    obtain ⟨rest, hrest, h⟩ := bind_eq_ok.1 h
    cases h
    intro fr hfr
    rcases mem_append.1 hfr with hfr | hfr
    · have hinfo := decodeOneRecordBatch_forall (fun _ _ _ _ _ h => parseRecord_filled h) hone
      have hout := deliverBatch_filled topic part hinfo marked
      rw [hdeliver] at hout
      exact hout fr hfr
    · exact ih hrest fr hfr

/-! ## Where null and empty are kept apart -/

theorem sameNull_readBack_iff : SameNull b (readBack b.bytes) ↔ b ≠ some [] := by
  cases b with
  | none => simp [SameNull, readBack, NilBytes.bytes]
  | some b =>
    cases b with
    | nil => simp [SameNull, readBack, NilBytes.bytes]
    | cons c b => simp [SameNull, readBack, NilBytes.bytes]

/-- A record without empty slices comes back with its null fields. -/
theorem ProduceRecord.NoEmpty.keepsNull (h : r.NoEmpty) {topic : Bytes} :
    KeepsNull r (readBackRecord topic part baseOffset baseTimestamp r.key.bytes r.value.bytes
      r.headers offsetDelta timestampDelta) := by
  refine ⟨sameNull_readBack_iff.2 h.key, sameNull_readBack_iff.2 h.value, ?_⟩
  refine forall₂_map_right_iff.2 (forall₂_same.2 fun p hp => ?_)
  exact sameNull_readBack_iff.2 (h.headers p hp)

theorem KeepsNull.noEmpty (h : KeepsNull r fr) (hfilled : fr.Filled) : r.NoEmpty := by
  refine ⟨fun hkey => hfilled.key (h.key.2.2 hkey),
    fun hvalue => hfilled.value (h.value.2.2 hvalue), fun p hp hnil => ?_⟩
  obtain ⟨i, hi, rfl⟩ := getElem_of_mem hp
  have hi' : i < fr.headers.length := h.headers.length_eq ▸ hi
  have hsame := (forall₂_iff_get.1 h.headers).2 i hi hi'
  exact hfilled.headers _ (getElem_mem hi') (hsame.2.2 hnil)

section Batch

variable {C : Codecs} {clock : Nat → Time} {records : List ProduceRecord}
  {settings : ProduceSettings} {baseSequence : Int32} {topic : Bytes} {part : Int32}

/-- An empty slice does not come back. -/
theorem NullKept.noEmpty (h : NullKept C clock records settings baseSequence topic part) :
    ∀ r ∈ records, r.NoEmpty := by
  obtain ⟨batch, out, -, hdec, hkept⟩ := h
  intro r hr
  obtain ⟨i, hi, rfl⟩ := getElem_of_mem hr
  have hi' : i < out.length := hkept.length_eq ▸ hi
  have hkeeps := (forall₂_iff_get.1 hkept).2 i hi hi'
  exact hkeeps.noEmpty (decodeRecordBatch_filled hdec _ (getElem_mem hi'))

theorem Carried.nullKept (h : Carried C clock records settings baseSequence)
    (hempty : ∀ r ∈ records, r.NoEmpty) :
    NullKept C clock records settings baseSequence topic part := by
  obtain ⟨first, rest, rfl⟩ := exists_cons_of_ne_nil h.nonempty
  obtain ⟨batch, henc, hdec⟩ :=
    decodeRecordBatch_encoded rfl h.parsable h.codec h.length topic part
  refine ⟨batch, _, henc, hdec, forall₂_iff_get.2 ⟨by simp, fun i hi hi' => ?_⟩⟩
  simp only [get_eq_getElem, getElem_mapIdx]
  exact (hempty _ (getElem_mem hi)).keepsNull

/-- Null and empty are kept apart only in batches without empty slices, and in all of these that
can be carried at all. -/
theorem nullKept_iff (C : Codecs) (clock : Nat → Time) (records : List ProduceRecord)
    (settings : ProduceSettings) (baseSequence : Int32) (topic : Bytes) (part : Int32) :
    (NullKept C clock records settings baseSequence topic part → ∀ r ∈ records, r.NoEmpty) ∧
      (Carried C clock records settings baseSequence →
        (NullKept C clock records settings baseSequence topic part ↔
          ∀ r ∈ records, r.NoEmpty)) :=
  ⟨NullKept.noEmpty, fun hcarried => ⟨NullKept.noEmpty, hcarried.nullKept⟩⟩

end Batch

/-- A record of the key `k`. -/
def recordOfK (value : NilBytes) : List ProduceRecord :=
  [⟨[116], 0, some [107], value, [], ⟨1, 0⟩⟩]

theorem carried_recordOfK (h : value = none ∨ value = some []) :
    Carried shortCodecs (fun _ => ⟨9, 0⟩) (recordOfK value) {} 0 := by
  have hlen : (encodeRecordBatch shortCodecs (fun _ => ⟨9, 0⟩) (recordOfK value) {} 0).map
      List.length = .ok 69 := by
    rcases h with rfl | rfl <;> decide +kernel
  have hparsable : Parsable ⟨9, 0⟩ (recordOfK value) := by
    rcases h with rfl | rfl <;> exact ⟨by decide, by decide, by decide +kernel, by decide +kernel⟩
  refine ⟨cons_ne_nil _ _, hparsable, nofun, fun batch hbatch => ?_⟩
  rw [hbatch] at hlen
  have : batch.length = 69 := Except.ok.inj hlen
  omega

/-- A tombstone comes back as one. -/
theorem nullKept_iff_tombstone :
    NullKept shortCodecs (fun _ => ⟨9, 0⟩) (recordOfK none) {} 0 [116] 0 := by
  refine ((nullKept_iff shortCodecs (fun _ => ⟨9, 0⟩) (recordOfK none) {} 0 [116] 0).2
    (carried_recordOfK (.inl rfl))).2 ?_
  intro r hr
  obtain rfl := mem_singleton.1 hr
  exact ⟨by decide, by decide, nofun⟩

/-- An empty value comes back as nil: what was a value is a tombstone now. -/
theorem nullKept_emptyValue :
    (∃ batch, encodeRecordBatch shortCodecs (fun _ => ⟨9, 0⟩) (recordOfK (some [])) {} 0 =
        .ok batch ∧
      decodeRecordBatch shortCodecs [116] 0 batch [] =
        .ok [{ topic := [116], partition := 0, offset := 0, key := some [107], value := none
               timestamp := (⟨1, 0⟩ : Time).unixMilli }]) ∧
      ¬ NullKept shortCodecs (fun _ => ⟨9, 0⟩) (recordOfK (some [])) {} 0 [116] 0 := by
  have hcarried := carried_recordOfK (.inr rfl)
  refine ⟨?_, fun h => (h.noEmpty _ (mem_singleton_self _)).value rfl⟩
  obtain ⟨batch, henc, hdec⟩ :=
    @decodeRecordBatch_encoded [] ⟨[116], 0, some [107], some [], [], ⟨1, 0⟩⟩
    shortCodecs {} (fun _ => ⟨9, 0⟩) 0 ⟨9, 0⟩ rfl hcarried.parsable hcarried.codec hcarried.length
    [116] 0
  refine ⟨batch, henc, hdec.trans (congrArg Except.ok ?_)⟩
  decide +kernel

end GoKafka
