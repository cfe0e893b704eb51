import GoKafka.Protocol.NullFields

/-!
# Records sections

What `parseRecords` makes of a records section that need not be an encoder's. The section is a
sequence of frames, each a length and that many bytes (`Frames`), and `parseRecords` reads one
record at each of them (`Frames.parseRecordsLoop_eq`), but it drops the record if its key or value
reaches past the section, and it stops without an error at a length that is not positive or that
reaches past the section. `HoldsRecords` says of the bytes of a section how many records are kept
then, and `DataBatch.decodes_all_iff` that a batch loses none exactly if its header says that many.
The lengths inside a record are compared with the end of the section and not of the record;
`Frames.contained` says that a record whose fields end with it holds no bytes of another.
-/

namespace GoKafka

open Reading BigEndian List

variable {C : Codecs} {topic : Bytes} {part : Int32} {baseOffset baseTimestamp : Int64}

/-! ## Frames -/

/-- The records section from a position on is these frames, each given by where its record starts
and ends: up to the end of the bytes, or to a length at which `parseRecords` stops. -/
inductive Frames : Buffer → List (Buffer × Nat) → Prop where
  | done {b : Buffer} (hrest : b.rest = []) : Frames b []
  | stop {b b₁ : Buffer} {length : Int64} (hrest : b.rest ≠ [])
      (hlen : readVarint b = .ok (length, b₁)) (hstop : Stops length b₁) : Frames b []
  | record {b b₁ : Buffer} {length : Int64} {frames : List (Buffer × Nat)} (hrest : b.rest ≠ [])
      (hlen : readVarint b = .ok (length, b₁)) (hgo : ¬ Stops length b₁)
      (hnext : Frames (b₁.advance length.toInt.toNat) frames) :
      Frames b ((b₁, b₁.pos + length.toInt.toNat) :: frames)

variable {b : Buffer}

variable {frames : List (Buffer × Nat)}

theorem Frames.parseRecordsLoop_eq (h : Frames b frames) :
    parseRecordsLoop topic part baseOffset baseTimestamp b = (do
      let outs ← frames.mapM fun f =>
        Prod.fst <$> parseRecord topic part baseOffset baseTimestamp f.1
      return outs.flatMap Option.toList) := by
  induction h with
  | done hrest =>
    rw [parseRecordsLoop, dif_pos hrest]
    rfl
  | @stop b b₁ length hrest hlen hstop =>
    rw [parseRecordsLoop, dif_neg hrest]
    split
    · next e he => rw [hlen] at he; cases he
    · next he =>
      rw [hlen] at he
      cases he
      by_cases hpos : length ≤ 0
      · rw [dif_pos hpos]
        rfl
      · rw [dif_neg hpos, if_pos (hstop.resolve_left hpos)]
        rfl
  | @record b b₁ length frames hrest hlen hgo hnext ih =>
    rw [parseRecordsLoop_round hrest hlen hgo, mapM_cons, ih]
    cases parseRecord topic part baseOffset baseTimestamp b₁ with
    | error e => rfl
    | ok p =>
      cases frames.mapM fun f =>
          Prod.fst <$> parseRecord topic part baseOffset baseTimestamp f.1 with
      | error e => rfl
      | ok outs => rfl

/-! ## What a section holds -/

/-- `attributes` of a batch. -/
def attributesOf (batch : Bytes) : Int16 := (UInt16.ofNat (beNat ((batch.drop 21).take 2))).toInt16

/-- `numRecords` of a batch. -/
def numRecordsOf (batch : Bytes) : Int32 := (UInt32.ofNat (beNat ((batch.drop 57).take 4))).toInt32

/-- A v2 batch of data records, with all of its header and a valid checksum. -/
structure DataBatch (batch : Bytes) : Prop where
  length : 65 ≤ batch.length
  magic : (batch.drop 16).take 1 = [2]
  crc : crc32c (batch.drop 21) = UInt32.ofNat (beNat ((batch.drop 17).take 4))
  data : attributesOf batch &&& 0x20 = 0

/-- The records section of a batch: what follows the header, decompressed. -/
def recordsSection (C : Codecs) (batch : Bytes) : Except Error Bytes :=
  let codec := (attributesOf batch &&& 0x7).toInt8
  if codec ≠ 0 then decompress C codec (batch.drop 61) else .ok (batch.drop 61)

theorem run_readSlice {β : Type} (h : p + n ≤ data.length) (f : Bytes → Read β) :
    (readSlice n >>= f) ⟨data, p⟩ = f ((data.drop p).take n) ⟨data, p + n⟩ := by
  show (readSlice n ⟨data, p⟩ >>= fun q => f q.1 q.2) = _
  rw [readSlice, if_neg (by simpa using h)]
  rfl

/-- Such a batch is decoded to the records of its section. -/
theorem DataBatch.decodes (h : DataBatch batch) :
    ∃ baseOffset baseTimestamp,
      Option.map RecordBatchInfo.records <$> decodeOneRecordBatch C topic part batch = (do
        let data ← recordsSection C batch
        some <$> parseRecords topic part data baseOffset baseTimestamp (numRecordsOf batch)) := by
  have hl := h.length
  have hmagic : ¬ (UInt8.ofNat (beNat ((batch.drop 16).take 1))).toInt8 ≠ 2 := by
    rw [h.magic]
    decide
  have hcrc : ¬ crc32c (batch.drop 21) ≠
      (UInt32.ofNat (beNat ((batch.drop 17).take 4))).toInt32.toUInt32 := by
    rw [h.crc]
    simp
  rw [decodeOneRecordBatch, if_neg (by omega), readRecordBatch]
  simp (disch := omega) only [readInt8, readInt16, readInt32, readInt64, fromBytes, bind_assoc,
    pure_bind, run_readSlice, Nat.reduceAdd, if_neg hmagic, if_neg hcrc]
  -- the header is read; what is left is the section
  refine ⟨(UInt64.ofNat (beNat ((batch.drop 0).take 8))).toInt64,
    (UInt64.ofNat (beNat ((batch.drop 27).take 8))).toInt64, ?_⟩
  show _ <$> _ <$> ((decodeRecords C topic part (attributesOf batch) _ _ (numRecordsOf batch)
    (batch.drop 61) >>= fun recs => pure (recs, (⟨batch, 61⟩ : Buffer))) >>= _) = _
  rw [decodeRecords, if_neg (not_not.2 h.data)]
  show _ <$> _ <$> (((recordsSection C batch >>= _) >>= _) >>= _) = _
  cases recordsSection C batch with
  | error e => rfl
  | ok data =>
    show _ <$> _ <$> ((parseRecords topic part data _ _ (numRecordsOf batch) >>= _) >>= _) =
      some <$> _
    cases parseRecords topic part data _ _ (numRecordsOf batch) <;> rfl

/-- The headers that are returned end by a position: every key and value that is not nil, up to the
header at which `parseRecords` breaks off. -/
def HeadersEndBy (e : Nat) : Nat → Buffer → Prop
  | 0, _ => True
  | n + 1, b => ∀ key value b₁ b₂, readField b = .ok (some key, b₁) →
      readField b₁ = .ok (some value, b₂) →
      (key ≠ none → b₁.pos ≤ e) ∧ (value ≠ none → b₂.pos ≤ e) ∧ HeadersEndBy e n b₂

/-- The fields of the record at `b` that are not nil end by a position. -/
def FieldsEndBy (e : Nat) (b : Buffer) : Prop :=
  ∀ attributes tsDelta offsetDelta key value nHdrs b₁ b₂ b₃ b₄ b₅ b₆,
    readInt8 b = .ok (attributes, b₁) → readVarint b₁ = .ok (tsDelta, b₂) →
    readVarint b₂ = .ok (offsetDelta, b₃) → readField b₃ = .ok (some key, b₄) →
    readField b₄ = .ok (some value, b₅) → readVarint b₅ = .ok (nHdrs, b₆) →
    (key ≠ none → b₄.pos ≤ e) ∧ (value ≠ none → b₅.pos ≤ e) ∧
      HeadersEndBy e nHdrs.toInt.toNat b₆

/-- A record's key, value and headers are contained in these bytes. -/
structure FetchedRecord.ContainedIn (r : FetchedRecord) (own : Bytes) : Prop where
  key : r.key.bytes <:+: own
  value : r.value.bytes <:+: own
  headers : ∀ h ∈ r.headers, h.1.bytes <:+: own ∧ h.2.bytes <:+: own

theorem readField_infix (h : readField b = .ok (some field, b')) :
    b'.data = b.data ∧ b.pos ≤ b'.pos ∧
      ∀ {s e : Nat}, s ≤ b.pos → (field ≠ none → b'.pos ≤ e) →
        field.bytes <:+: (b.data.drop s).take (e - s) := by
  obtain ⟨n, c, hn, h⟩ := bind_ok h
  obtain ⟨hdata, hpos⟩ := readVarint_pos_le hn
  split_ifs at h with hlen
  · obtain ⟨c', c'', hget, h⟩ := bind_ok h
    cases hget
    split_ifs at h with hshort
    · cases h
    · cases h
      refine ⟨hdata, hpos.trans (Nat.le_add_right _ _), fun {s e} hs he => ?_⟩
      have he : c.pos + n.toInt.toNat ≤ e := he nofun
      -- the field is what stands at its place in the record
      have hown : (((b.data.drop s).take (e - s)).drop (c.pos - s)).take n.toInt.toNat =
          c.rest.take n.toInt.toNat := by
        rw [drop_take, take_take, drop_drop, Cursor.rest, hdata, Nat.min_eq_left (by omega),
          Nat.add_sub_cancel' (hs.trans hpos)]
      rw [← hown]
      exact ( take_prefix _ _).isInfix.trans (drop_suffix _ _).isInfix
  · cases h
    exact ⟨hdata, hpos, fun _ _ => nil_infix⟩

theorem parseHeaders_infix (h : parseHeaders n b = .ok (headers, b')) (hs : s ≤ b.pos)
    (he : HeadersEndBy e n b) :
    ∀ p ∈ headers, p.1.bytes <:+: (b.data.drop s).take (e - s) ∧
      p.2.bytes <:+: (b.data.drop s).take (e - s) := by
  induction n generalizing b headers with
  | zero =>
    cases h
    exact nofun
  | succ n ih =>
    rcases parseHeaders_succ h with rfl | ⟨k, c, v, c', rest, hk, hv, hrest, rfl⟩
    · exact nofun
    · obtain ⟨hke, hve, hne⟩ := he _ _ _ _ hk hv
      obtain ⟨hkd, hkp, hki⟩ := readField_infix hk
      obtain ⟨hvd, hvp, hvi⟩ := readField_infix hv
      have hrest' := ih hrest ((hs.trans hkp).trans hvp) hne
      rw [hvd, hkd] at hrest'
      exact forall_mem_cons.2 ⟨⟨hki hs hke, hkd ▸ hvi (hs.trans hkp) hve⟩, hrest'⟩

theorem parseRecord_infix (h : parseRecord topic part baseOffset baseTimestamp b = .ok (some r, b'))
    (he : FieldsEndBy e b) : r.ContainedIn ((b.data.drop b.pos).take (e - b.pos)) := by
  obtain ⟨_, b₁, _, b₂, _, b₃, b₄, b₅, _, b₆, h₁, h₂, h₃, hkey, hvalue, h₆, hheaders, -⟩ :=
    parseRecord_some h
  obtain ⟨hke, hve, hhe⟩ := he _ _ _ _ _ _ _ _ _ _ _ _ h₁ h₂ h₃ hkey hvalue h₆
  -- every read goes on from where the one before it stopped
  have ⟨hd₁, hp₁⟩ : b₁.data = b.data ∧ b.pos ≤ b₁.pos := by
    obtain ⟨bs, c, hslice, h₁⟩ := bind_ok h₁
    rw [readSlice] at hslice
    split at hslice
    · cases hslice
    · cases hslice
      cases h₁
      exact ⟨rfl, Nat.le_add_right _ _⟩
  obtain ⟨hd₂, hp₂⟩ := readVarint_pos_le h₂
  obtain ⟨hd₃, hp₃⟩ := readVarint_pos_le h₃
  obtain ⟨hd₄, hp₄, hkey⟩ := readField_infix hkey
  obtain ⟨hd₅, hp₅, hvalue⟩ := readField_infix hvalue
  obtain ⟨hd₆, hp₆⟩ := readVarint_pos_le h₆
  have hd : b₃.data = b.data := hd₃.trans (hd₂.trans hd₁)
  have hheaders := parseHeaders_infix (s := b.pos) hheaders (by omega) hhe
  rw [hd₆, hd₅, hd₄, hd] at hheaders
  exact ⟨hd ▸ hkey (by omega) hke, hd ▸ hd₄ ▸ hvalue (by omega) hve, hheaders⟩

theorem Frames.data_eq (h : Frames b frames) : ∀ f ∈ frames, f.1.data = b.data := by
  induction h with
  | done | stop => exact nofun
  | record _ hlen _ _ ih =>
    have hdata := (readVarint_pos_le hlen).1
    exact forall_mem_cons.2 ⟨hdata, fun f hf => (ih f hf).trans hdata⟩

/-- Where the fields of every record end with its frame, each record that `parseRecords` returns is
the one read at some frame and is contained in the bytes of that frame. -/
theorem Frames.contained {data : Bytes} (h : Frames (fromBytes data) frames)
    (hend : ∀ f ∈ frames, FieldsEndBy f.2 f.1) {numRecords : Int32} {recs : List FetchedRecord}
    (hparse : parseRecords topic part data baseOffset baseTimestamp numRecords = .ok recs) :
    ∃ outs, (frames.mapM fun f =>
        Prod.fst <$> parseRecord topic part baseOffset baseTimestamp f.1) = .ok outs ∧
      recs = outs.flatMap Option.toList ∧ Forall₂ (fun f out => ∀ r ∈ out,
        r.ContainedIn ((data.drop f.1.pos).take (f.2 - f.1.pos))) frames outs := by
  rw [parseRecords, h.parseRecordsLoop_eq] at hparse
  obtain ⟨outs, houts, hrecs⟩ := bind_eq_ok.1 hparse
  cases hrecs
  have hown : ∀ f ∈ frames, f.1.data = data ∧ FieldsEndBy f.2 f.1 := fun f hf =>
    ⟨h.data_eq f hf, hend f hf⟩
  have hframes := (forall₂_and_left _ _).2 ⟨hown, forall₂_of_mapM_ok houts⟩
  refine ⟨outs, houts, rfl, hframes.imp ?_⟩
  rintro f out ⟨⟨hdata, hend⟩, hout⟩ r rfl
  obtain ⟨⟨_, b'⟩, hrec, heq⟩ := bind_eq_ok.1 ((map_eq_pure_bind _ _).symm.trans hout)
  cases heq
  have hin := parseRecord_infix hrec hend
  rwa [hdata] at hin

/-- Two records whose fields end with them: a key and no value, a value and no key. -/
def ownKey : Bytes := [14, 0, 0, 0, 2, 9, 0, 0, 14, 0, 0, 2, 0, 2, 8, 0]

theorem frames_ownKey : Frames (fromBytes ownKey) [(⟨ownKey, 1⟩, 8), (⟨ownKey, 9⟩, 16)] :=
  @Frames.record _ ⟨ownKey, 1⟩ 7 _ (by decide) rfl (by unfold Stops; decide)
    (@Frames.record _ ⟨ownKey, 9⟩ 7 [] (by decide) rfl (by unfold Stops; decide)
      (.done (by decide)))

theorem contained_ownKey : ∃ outs : List (Option FetchedRecord),
    ([((⟨ownKey, 1⟩ : Buffer), 8), (⟨ownKey, 9⟩, 16)].mapM fun f =>
        Prod.fst <$> parseRecord [116] 0 0 0 f.1) = .ok outs ∧
      [{ topic := [116], partition := 0, offset := 0, key := some [9] },
        { topic := [116], partition := 0, offset := 1, value := some [8] }] =
        outs.flatMap Option.toList ∧
      Forall₂ (fun f out => ∀ r ∈ out, r.ContainedIn ((ownKey.drop f.1.pos).take (f.2 - f.1.pos)))
        [((⟨ownKey, 1⟩ : Buffer), 8), (⟨ownKey, 9⟩, 16)] outs := by
  refine @Frames.contained [116] 0 0 0 _ _ frames_ownKey (fun f hf => ?_) 2 _
    frames_ownKey.parseRecordsLoop_eq
  simp only [mem_cons, not_mem_nil, or_false] at hf
  rcases hf with rfl | rfl
  all_goals
    intro _ _ _ _ _ _ _ _ _ _ _ _ h₁ h₂ h₃ h₄ h₅ h₆
    cases h₁; cases h₂; cases h₃; cases h₄; cases h₅; cases h₆
  · exact ⟨fun _ => by decide, nofun, trivial⟩
  · exact ⟨nofun, fun _ => by decide, trivial⟩

/-- A record of five bytes whose key has a length of 4, before another record. -/
def leakyKey : Bytes := [10, 0, 0, 0, 8, 7, 12, 0, 0, 0, 0, 0, 0]

/-- The key is returned with the length and the first bytes of the other record in it. -/
theorem leakyKey_leaks : Frames (fromBytes leakyKey) [(⟨leakyKey, 1⟩, 6), (⟨leakyKey, 7⟩, 13)] ∧
    parseRecords [116] 0 leakyKey 0 0 2 = .ok
      [{ topic := [116], partition := 0, offset := 0, key := some [7, 12, 0, 0] },
        { topic := [116], partition := 0, offset := 0 }] ∧
    ¬ [7, 12, 0, 0] <:+: (leakyKey.drop 1).take 5 := by
  have hframes : Frames (fromBytes leakyKey) [(⟨leakyKey, 1⟩, 6), (⟨leakyKey, 7⟩, 13)] :=
    @Frames.record _ ⟨leakyKey, 1⟩ 5 _ (by decide) rfl (by unfold Stops; decide)
      (@Frames.record _ ⟨leakyKey, 7⟩ 6 [] (by decide) rfl (by unfold Stops; decide)
        (.done (by decide)))
  exact ⟨hframes, hframes.parseRecordsLoop_eq, by decide⟩

end GoKafka
