import GoKafka.Wire.Flex

/-!
# Answers to OffsetCommit

`DecodeOffsetCommitResponse` in `internal/protocol/groups.go` returns the first error code of an
answer that is not 0. Up to version 7 an answer has the legacy layout, from version 8 on the
flexible one. If the legacy decoder finds an error code, the same bytes are read again in the
flexible layout, and what that reading returns is returned.

The second reading is where failed commits get lost (`decodeOffsetCommitResponse_masks`). From
version 3 on the count of topics follows the throttle time in four bytes. A flexible reader takes
its first two bytes, which are 0 below `2 ^ 16` topics, for an empty array and no tagged fields. So
`decodeOffsetCommitResponse_committed_iff` has two parts: the exact condition under which code 0
means that all codes are 0, and that versions 3 to 7 return code 0 whatever the codes are.
-/

namespace GoKafka

open Reading BigEndian List

/-! ## The program -/

/-- How a layout reads the name of a topic, the length of an array and tagged fields. -/
structure CommitLayout where
  name : Read Bytes
  count : Read Nat
  tags : Read Unit

namespace CommitLayout

variable (l : CommitLayout)

/-- The loop over the partitions of a topic, which an error code ends. -/
def readPartitions : Nat → Read Int16
  | 0 => return 0
  | n + 1 => do
    let _partition ← readInt32
    let code ← readInt16
    if code ≠ 0 then return code
    else
      l.tags
      readPartitions n

/-- The loop over the topics. -/
def readTopics : Nat → Read Int16
  | 0 => return 0
  | n + 1 => do
    let _name ← l.name
    let nParts ← l.count
    let code ← l.readPartitions nParts
    if code ≠ 0 then return code
    else
      l.tags
      readTopics n

/-- An answer from its topics on. -/
def readAnswer : Read Int16 := do
  let nTopics ← l.count
  let code ← l.readTopics nTopics
  if code ≠ 0 then return code
  else
    l.tags
    return 0

end CommitLayout

/-- The layout up to version 7; the loops count from 0 to an `int32`. -/
def legacyCommit : CommitLayout where
  name := readString
  count := do return (← readInt32).toInt.toNat
  tags := return ()

/-- The layout from version 8 on; the loops count from 1 to a varint. -/
def flexCommit : CommitLayout where
  name := readCompactString
  count := do return (← readUvarint) - 1
  tags := skipTagSection

def decodeOffsetCommitResponseLegacy (ver : Int16) (body : Bytes) : Except Error Int16 :=
  Prod.fst <$> (do
    if 3 ≤ ver then
      let _throttle ← readInt32
      legacyCommit.readAnswer
    else legacyCommit.readAnswer : Read Int16) (fromBytes body)

def decodeOffsetCommitResponseFlex (body : Bytes) : Except Error Int16 :=
  Prod.fst <$> (do
    let _throttle ← readInt32
    flexCommit.readAnswer : Read Int16) (fromBytes body)

def decodeOffsetCommitResponse (ver : Int16) (body : Bytes) : Except Error Int16 :=
  if 8 ≤ ver then decodeOffsetCommitResponseFlex body
  else
    match decodeOffsetCommitResponseLegacy ver body with
    | .error e => .error e
    | .ok code =>
      if code = 0 then .ok 0
      else
        match decodeOffsetCommitResponseFlex body with
        | .ok alt => .ok alt
        | .error _ => .ok code

/-! ## Answers -/

/-- A partition of an answer. -/
structure CommitPartition where
  partition : Int32
  code : Int16
  tags : List TaggedField := []

/-- A topic of an answer. -/
structure CommitTopic where
  name : Bytes
  partitions : List CommitPartition
  tags : List TaggedField := []

/-- An answer to OffsetCommit. -/
structure CommitAnswer where
  throttle : Int32
  topics : List CommitTopic
  tags : List TaggedField := []

/-- The error codes of an answer. -/
def CommitAnswer.codes (a : CommitAnswer) : List Int16 :=
  a.topics.flatMap fun t => t.partitions.map (·.code)

/-- All partitions were committed. -/
def CommitAnswer.Committed (a : CommitAnswer) : Prop := ∀ code ∈ a.codes, code = 0

/-- How a layout writes what it reads. -/
structure CommitFormat where
  name : Bytes → Bytes
  count : Nat → Bytes
  tags : List TaggedField → Bytes

namespace CommitFormat

variable (f : CommitFormat)

def partitionBytes (p : CommitPartition) : Bytes :=
  writeInt32 p.partition ++ (writeInt16 p.code ++ f.tags p.tags)

def topicBytes (t : CommitTopic) : Bytes :=
  f.name t.name ++ (f.count t.partitions.length ++
    (t.partitions.flatMap f.partitionBytes ++ f.tags t.tags))

def answerBytes (a : CommitAnswer) : Bytes :=
  f.count a.topics.length ++ (a.topics.flatMap f.topicBytes ++ f.tags a.tags)

end CommitFormat

/-- The legacy layout on the wire; it has no tagged fields. -/
def legacyFormat : CommitFormat where
  name s := writeInt16 (Int16.ofNat s.length) ++ s
  count n := writeInt32 (Int32.ofNat n)
  tags _ := []

/-- The flexible layout on the wire. -/
def flexFormat : CommitFormat where
  name := writeCompactString
  count := writeCompactArrayLen
  tags := writeTagSection

/-- An answer of a version on the wire. -/
def CommitAnswer.bytes (ver : Int16) (a : CommitAnswer) : Bytes :=
  if 8 ≤ ver then writeInt32 a.throttle ++ flexFormat.answerBytes a
  else if 3 ≤ ver then writeInt32 a.throttle ++ legacyFormat.answerBytes a
  else legacyFormat.answerBytes a

/-- The legacy layout can say the lengths of an answer. -/
structure CommitAnswer.FitsLegacy (a : CommitAnswer) : Prop where
  topics : a.topics.length < 2 ^ 31
  names : ∀ t ∈ a.topics, t.name.length ≤ maxInt16
  partitions : ∀ t ∈ a.topics, t.partitions.length < 2 ^ 31

/-- An answer has a number that `ReadUvarint` refuses. -/
def CommitAnswer.TooLarge (a : CommitAnswer) : Prop :=
  2 ^ 29 ≤ a.topics.length + 1 ∨ TagsTooLarge a.tags ∨ ∃ t ∈ a.topics,
    2 ^ 29 ≤ t.name.length + 1 ∨ 2 ^ 29 ≤ t.partitions.length + 1 ∨ TagsTooLarge t.tags ∨
      ∃ p ∈ t.partitions, TagsTooLarge p.tags

/-! ## Both layouts read what they write -/

/-- The first code that is not 0. -/
def firstError (codes : List Int16) : Int16 := (codes.find? (· ≠ 0)).getD 0

theorem firstError_eq_zero : firstError codes = 0 ↔ ∀ c ∈ codes, c = 0 := by
  induction codes with
  | nil => exact iff_of_true rfl nofun
  | cons c codes ih =>
    rw [forall_mem_cons, ← ih]
    by_cases hc : c = 0 <;> simp [firstError, hc]

theorem firstError_append (h : firstError codes = 0) :
    firstError (codes ++ codes') = firstError codes' := by
  have hnone : codes.find? (· ≠ 0) = none :=
    List.find?_eq_none.2 fun c hc => by simp [firstError_eq_zero.1 h c hc]
  rw [firstError, List.find?_append, hnone]
  rfl

theorem firstError_append_of_ne (h : firstError codes ≠ 0) :
    firstError (codes ++ codes') = firstError codes := by
  cases hfind : codes.find? (· ≠ 0) with
  | none =>
    rw [firstError, hfind] at h
    exact absurd rfl h
  | some c =>
    rw [firstError, firstError, List.find?_append, hfind]
    rfl

/-- A layout reads back the parts of an answer, unless `P`. -/
structure CommitLayout.Reads (l : CommitLayout) (f : CommitFormat) (P : Prop) (a : CommitAnswer) :
    Prop where
  topics : ConsumesUnless P l.count (f.count a.topics.length) a.topics.length
  tags : ConsumesUnless P l.tags (f.tags a.tags) ()
  name : ∀ t ∈ a.topics, ConsumesUnless P l.name (f.name t.name) t.name
  partitions : ∀ t ∈ a.topics,
    ConsumesUnless P l.count (f.count t.partitions.length) t.partitions.length
  topicTags : ∀ t ∈ a.topics, ConsumesUnless P l.tags (f.tags t.tags) ()
  partitionTags : ∀ t ∈ a.topics, ∀ p ∈ t.partitions, ConsumesUnless P l.tags (f.tags p.tags) ()

section Layout

variable {l : CommitLayout} {f : CommitFormat} {P : Prop}

/-- A reader that returns an error code where it stands, or reads everything and returns 0. -/
def Scans (P : Prop) (m : Read Int16) (bs : Bytes) (code : Int16) : Prop :=
  (code = 0 → ConsumesUnless P m bs 0) ∧ ReturnsUnless P m bs code

/-- What comes before a scan. -/
theorem Scans.after {β : Type} {m : Read β} {n : β → Read Int16} {v : β}
    (hm : ConsumesUnless P m bs v) (h : Scans P (n v) bs' code) :
    Scans P (m >>= n) (bs ++ bs') code :=
  ⟨fun hzero => hm.bind (h.1 hzero), hm.bind_returns h.2⟩

/-- A round of a loop: after a scan without an error code the tagged fields are skipped and the loop
goes on, and an error code ends it. -/
theorem Scans.round (h : Scans P m bs (firstError codes)) (hskip : ConsumesUnless P skip fields ())
    (hrest : Scans P n bs' (firstError codes')) :
    Scans P (m >>= fun c => if c ≠ 0 then pure c else skip >>= fun _ => n)
      (bs ++ (fields ++ bs')) (firstError (codes ++ codes')) := by
  by_cases hzero : firstError codes = 0
  · rw [firstError_append hzero]
    exact Scans.after (n := fun c => if c ≠ 0 then pure c else skip >>= fun _ => n)
      (h.1 hzero) (Scans.after hskip hrest)
  · rw [firstError_append_of_ne hzero]
    refine ⟨fun h' => absurd h' hzero, ReturnsUnless.append (h.2.bind_pure fun c => ?_) _⟩
    rw [if_pos hzero]
    rfl

theorem Scans.nil : Scans P (pure 0) [] (firstError []) :=
  ⟨fun _ => (Consumes.pure 0).unless, (Consumes.pure 0).unless.returns⟩

theorem scans_readInt16 : Scans P readInt16 (writeInt16 code) (firstError [code]) := by
  have hone : firstError [code] = code := by
    by_cases hzero : code = 0 <;> simp [firstError, hzero]
  rw [hone]
  exact ⟨fun hzero => hzero ▸ (consumes_readInt16).unless,
    (consumes_readInt16).unless.returns⟩

theorem scans_readPartitions {ps : List CommitPartition}
    (htags : ∀ p ∈ ps, ConsumesUnless P l.tags (f.tags p.tags) ()) :
    Scans P (l.readPartitions ps.length) (ps.flatMap f.partitionBytes)
      (firstError (ps.map (·.code))) := by
  induction ps with
  | nil => exact .nil
  | cons p ps ih =>
    have hrest := ih fun p' hp' => htags p' (mem_cons_of_mem _ hp')
    have hbytes : (p :: ps).flatMap f.partitionBytes = writeInt32 p.partition ++
        (writeInt16 p.code ++ (f.tags p.tags ++ ps.flatMap f.partitionBytes)) := by
      rw [flatMap_cons, CommitFormat.partitionBytes, append_assoc, append_assoc]
    rw [hbytes]
    exact Scans.after (consumes_readInt32 p.partition).unless
      ((scans_readInt16).round (htags p mem_cons_self) hrest)

theorem scans_readTopics {ts : List CommitTopic}
    (hname : ∀ t ∈ ts, ConsumesUnless P l.name (f.name t.name) t.name)
    (hcount : ∀ t ∈ ts, ConsumesUnless P l.count (f.count t.partitions.length) t.partitions.length)
    (htags : ∀ t ∈ ts, ConsumesUnless P l.tags (f.tags t.tags) ())
    (hptags : ∀ t ∈ ts, ∀ p ∈ t.partitions, ConsumesUnless P l.tags (f.tags p.tags) ()) :
    Scans P (l.readTopics ts.length) (ts.flatMap f.topicBytes)
      (firstError (ts.flatMap fun t => t.partitions.map (·.code))) := by
  induction ts with
  | nil => exact .nil
  | cons t ts ih =>
    obtain ⟨⟨hname, hnames⟩, hcount, hcounts⟩ :=
      And.intro (forall_mem_cons.1 hname) (forall_mem_cons.1 hcount)
    obtain ⟨⟨htag, htags⟩, hptag, hptags⟩ :=
      And.intro (forall_mem_cons.1 htags) (forall_mem_cons.1 hptags)
    have hbytes : (t :: ts).flatMap f.topicBytes = f.name t.name ++
        (f.count t.partitions.length ++ (t.partitions.flatMap f.partitionBytes ++
          (f.tags t.tags ++ ts.flatMap f.topicBytes))) := by
      simp [CommitFormat.topicBytes]
    rw [hbytes]
    exact Scans.after hname (Scans.after hcount
      ((scans_readPartitions hptag).round htag (ih hnames hcounts htags hptags)))

theorem CommitLayout.Reads.scans (h : l.Reads f P a) :
    Scans P l.readAnswer (f.answerBytes a) (firstError a.codes) := by
  have htopics := scans_readTopics h.name h.partitions h.topicTags h.partitionTags
  have hbytes : f.answerBytes a = f.count a.topics.length ++
      (a.topics.flatMap f.topicBytes ++ (f.tags a.tags ++ [])) := by
    rw [append_nil]
    rfl
  rw [hbytes, ← append_nil a.codes]
  exact Scans.after h.topics (n := fun n => l.readTopics n >>= fun c =>
    if c ≠ 0 then pure c else l.tags >>= fun _ => pure 0) (htopics.round h.tags Scans.nil)

end Layout

variable {a : CommitAnswer}

theorem CommitAnswer.FitsLegacy.reads (h : a.FitsLegacy) :
    legacyCommit.Reads legacyFormat False a := by
  have hcount : ∀ n < 2 ^ 31, ConsumesUnless False legacyCommit.count (legacyFormat.count n) n := by
    intro n hn
    have hread := (consumes_readInt32 (Int32.ofNat n)).map fun v => v.toInt.toNat
    have hback : (Int32.ofNat n).toInt.toNat = n := by
      rw [Int32.toInt_ofNat_of_lt (by omega)]
      exact Int.toNat_natCast n
    rw [hback] at hread
    exact hread.unless
  have hnone : ∀ fields, ConsumesUnless False legacyCommit.tags (legacyFormat.tags fields) () :=
    fun fields => (Consumes.pure ()).unless
  refine ⟨hcount _ h.topics, hnone _, fun t ht => ?_, fun t ht => hcount _ (h.partitions t ht),
    fun t _ => hnone _, fun t _ p _ => hnone _⟩
  refine (consumes_readString (w := legacyFormat.name t.name) ?_).unless
  rw [writeString, if_neg (Nat.not_lt.2 (h.names t ht))]
  rfl

theorem CommitAnswer.reads_flex (a : CommitAnswer) : flexCommit.Reads flexFormat a.TooLarge a := by
  have hcount : ∀ n, ConsumesUnless (2 ^ 29 ≤ n + 1) flexCommit.count (flexFormat.count n) n := by
    intro n
    have hread := (consumesUnless_readUvarint (n + 1)).bind
      (f := fun v => pure (v - 1)) (Consumes.pure n).unless
    rw [append_nil] at hread
    exact hread
  refine ⟨(hcount _).mono .inl, (consumesUnless_skipTagSection).mono fun h => .inr (.inl h),
    fun t ht => ?_, fun t ht => ?_, fun t ht => ?_, fun t ht p hp => ?_⟩
  · exact (consumesUnless_readCompactString).mono fun h => .inr (.inr ⟨t, ht, .inl h⟩)
  · exact (hcount _).mono fun h => .inr (.inr ⟨t, ht, .inr (.inl h)⟩)
  · exact (consumesUnless_skipTagSection).mono
      fun h => .inr (.inr ⟨t, ht, .inr (.inr (.inl h))⟩)
  · exact (consumesUnless_skipTagSection).mono
      fun h => .inr (.inr ⟨t, ht, .inr (.inr (.inr ⟨p, hp, h⟩))⟩)

/-! ## Decoding -/

/-- What a scan returns on an answer that stands alone. -/
theorem Scans.run {P : Prop} (h : Scans P m bs code) :
    (P ∧ ∃ e, Prod.fst <$> m (fromBytes bs) = .error e) ∨
      Prod.fst <$> m (fromBytes bs) = .ok code := by
  rcases h.2 (fromBytes bs) [] (Cursor.valid_start bs) (append_nil bs).symm with
    ⟨hP, e, he⟩ | ⟨c, hok⟩
  · refine .inl ⟨hP, e, ?_⟩
    rw [he]
    rfl
  · right
    rw [hok]
    rfl

/-- An answer of version 8 on is decoded to its first error code, unless it is too large. -/
theorem decodeOffsetCommitResponseFlex_bytes :
    (a.TooLarge ∧ ∃ e, decodeOffsetCommitResponseFlex
        (writeInt32 a.throttle ++ flexFormat.answerBytes a) = .error e) ∨
      decodeOffsetCommitResponseFlex (writeInt32 a.throttle ++ flexFormat.answerBytes a) =
        .ok (firstError a.codes) :=
  (Scans.after (n := fun _ => flexCommit.readAnswer) (consumes_readInt32 a.throttle).unless
    a.reads_flex.scans).run

/-- An answer of version 7 or less is decoded to its first error code by the legacy decoder. -/
theorem decodeOffsetCommitResponseLegacy_bytes (hver : ver < 8) (h : a.FitsLegacy) :
    decodeOffsetCommitResponseLegacy ver (a.bytes ver) = .ok (firstError a.codes) := by
  have hscan := h.reads.scans
  unfold CommitAnswer.bytes decodeOffsetCommitResponseLegacy
  rw [if_neg (Int16.not_le.2 hver)]
  by_cases hthree : 3 ≤ ver
  · rw [if_pos hthree, if_pos hthree]
    exact (Scans.after (n := fun _ => legacyCommit.readAnswer)
      (consumes_readInt32 a.throttle).unless hscan).run.resolve_left fun hfail => hfail.1
  · rw [if_neg hthree, if_neg hthree]
    exact hscan.run.resolve_left fun hfail => hfail.1

theorem consumes_readAnswer_zeros :
    Consumes flexCommit.readAnswer (writeUvarint 0 ++ writeEmptyTagSection) 0 := by
  have hcount : Consumes flexCommit.count (writeUvarint 0) 0 :=
    (consumes_readUvarint (by decide)).map (· - 1)
  have htags : Consumes (flexCommit.tags >>= fun _ => pure (0 : Int16)) writeEmptyTagSection 0 :=
    consumes_skipTagSection_empty.map fun _ => 0
  exact hcount.bind (f := fun n => flexCommit.readTopics n >>= fun c =>
    if c ≠ 0 then pure c else flexCommit.tags >>= fun _ => pure 0) htags

/-- A flexible reader finds nothing in an answer of version 3 to 7 with few topics. -/
theorem decodeOffsetCommitResponseFlex_legacy (hthree : 3 ≤ ver) (hver : ver < 8)
    (htopics : a.topics.length < 2 ^ 16) :
    decodeOffsetCommitResponseFlex (a.bytes ver) = .ok 0 := by
  have hzero : writeUvarint 0 = [0] := Varint.encode_of_lt (by decide)
  obtain ⟨rest, hcount⟩ : ∃ rest, legacyFormat.count a.topics.length =
      (writeUvarint 0 ++ writeEmptyTagSection) ++ rest := by
    have hnat : (Int32.ofNat a.topics.length).toUInt32.toNat = a.topics.length := by
      rw [Int32.toUInt32_ofNat', UInt32.toNat_ofNat']
      omega
    have hbyte : ∀ w, 2 ≤ w → UInt8.ofNat (a.topics.length / 256 ^ w) = 0 := by
      intro w hw
      have hpow : 256 ^ 2 ≤ 256 ^ w := Nat.pow_le_pow_right (by decide) hw
      rw [Nat.div_eq_of_lt (by omega)]
      rfl
    refine ⟨beBytes 2 a.topics.length, ?_⟩
    show writeInt32 (Int32.ofNat a.topics.length) = _
    rw [writeInt32, hnat, writeEmptyTagSection, hzero, beBytes, beBytes, hbyte 3 (by decide),
      hbyte 2 (by decide)]
    rfl
  have hbytes : a.bytes ver = (writeInt32 a.throttle ++ (writeUvarint 0 ++ writeEmptyTagSection)) ++
      (rest ++ (a.topics.flatMap legacyFormat.topicBytes ++ legacyFormat.tags a.tags)) := by
    rw [CommitAnswer.bytes, if_neg (Int16.not_le.2 hver), if_pos hthree, CommitFormat.answerBytes,
      hcount]
    simp
  have hread : Consumes (readInt32 >>= fun _ => flexCommit.readAnswer)
      (writeInt32 a.throttle ++ (writeUvarint 0 ++ writeEmptyTagSection)) 0 :=
    (consumes_readInt32 a.throttle).bind (f := fun _ => flexCommit.readAnswer)
      consumes_readAnswer_zeros
  have hrun := hread (fromBytes (a.bytes ver)) _ (Cursor.valid_start _) hbytes
  show Prod.fst <$> (readInt32 >>= fun _ => flexCommit.readAnswer : Read Int16)
    (fromBytes (a.bytes ver)) = _
  rw [hrun]
  rfl

theorem CommitAnswer.committed_iff : firstError a.codes = 0 ↔ a.Committed :=
  firstError_eq_zero

/-- What is returned for an answer of version 7 or less: 0 if all codes are, and else what the
second reading says. -/
theorem decodeOffsetCommitResponse_legacy (hver : ver < 8) (h : a.FitsLegacy) :
    decodeOffsetCommitResponse ver (a.bytes ver) =
      if firstError a.codes = 0 then .ok 0
      else
        match decodeOffsetCommitResponseFlex (a.bytes ver) with
        | .ok alt => .ok alt
        | .error _ => .ok (firstError a.codes) := by
  rw [decodeOffsetCommitResponse, if_neg (Int16.not_le.2 hver),
    decodeOffsetCommitResponseLegacy_bytes hver h]

/-- Code 0 without an error means that all partitions were committed exactly if the version is 8 or
more, or all partitions were committed, or the flexible reading of the legacy answer is not clean
too. For versions 3 to 7 and fewer than `2 ^ 16` topics it always is: the code is 0. -/
theorem decodeOffsetCommitResponse_committed_iff (ver : Int16) (a : CommitAnswer)
    (h : ver < 8 → a.FitsLegacy) :
    ((decodeOffsetCommitResponse ver (a.bytes ver) = .ok 0 → a.Committed) ↔
      8 ≤ ver ∨ a.Committed ∨ decodeOffsetCommitResponseFlex (a.bytes ver) ≠ .ok 0) ∧
    (3 ≤ ver → ver < 8 → a.topics.length < 2 ^ 16 →
      decodeOffsetCommitResponse ver (a.bytes ver) = .ok 0) := by
  by_cases hver : 8 ≤ ver
  · refine ⟨iff_of_true (fun hzero => ?_) (.inl hver),
      fun _ hlt => absurd hver (Int16.not_le.2 hlt)⟩
    rw [decodeOffsetCommitResponse, if_pos hver, CommitAnswer.bytes, if_pos hver] at hzero
    rcases decodeOffsetCommitResponseFlex_bytes with ⟨-, e, he⟩ | hok
    · cases he.symm.trans hzero
    · exact CommitAnswer.committed_iff.1 (Except.ok.inj (hok.symm.trans hzero))
  · have hlt : ver < 8 := Int16.not_le.1 hver
    rw [decodeOffsetCommitResponse_legacy hlt (h hlt)]
    by_cases hall : firstError a.codes = 0
    · rw [if_pos hall]
      have hcommitted := CommitAnswer.committed_iff.1 hall
      exact ⟨iff_of_true (fun _ => hcommitted) (.inr (.inl hcommitted)), fun _ _ _ => rfl⟩
    · rw [if_neg hall]
      have hnot : ¬ a.Committed := fun hc => hall (CommitAnswer.committed_iff.2 hc)
      refine ⟨?_, fun hthree _ htopics => ?_⟩
      · cases hflex : decodeOffsetCommitResponseFlex (a.bytes ver) with
        | error e =>
          exact iff_of_true (fun hzero => absurd (Except.ok.inj hzero) hall) (.inr (.inr nofun))
        | ok alt =>
          refine ⟨fun himp => .inr (.inr fun hzero => hnot (himp hzero)), fun hcond hzero => ?_⟩
          exact (hcond.resolve_left hver).elim id fun hne => absurd hzero hne
      · rw [decodeOffsetCommitResponseFlex_legacy hthree hlt htopics]

/-- An answer for partition 0 of a topic. -/
def commitAnswerT (name : Bytes) (code : Int16) : CommitAnswer :=
  { throttle := 0, topics := [{ name := name, partitions := [{ partition := 0, code := code }] }] }

/-- The legacy layout has a place for each of these answers. -/
theorem commitAnswerT_fitsLegacy {name : Bytes} {code : Int16} (h : name.length ≤ maxInt16) :
    (commitAnswerT name code).FitsLegacy :=
  ⟨by simp [commitAnswerT], List.forall_mem_singleton.2 h, List.forall_mem_singleton.2 (by simp)⟩

/-- In version 8 an error code is not lost. In version 2 it is not lost either for topic `tt`,
where the flexible reading fails; in version 5 it is. -/
theorem decodeOffsetCommitResponse_committed_iff_eight :
    decodeOffsetCommitResponse 8 ((commitAnswerT [116] 25).bytes 8) ≠ .ok 0 ∧
    decodeOffsetCommitResponse 2 ((commitAnswerT [116, 116] 25).bytes 2) ≠ .ok 0 ∧
    decodeOffsetCommitResponse 5 ((commitAnswerT [116] 25).bytes 5) = .ok 0 := by
  have hcode (name : Bytes) : ¬ (commitAnswerT name 25).Committed :=
    fun hc => absurd (hc 25 (mem_singleton_self _)) (by decide)
  refine ⟨fun hzero => hcode [116] ?_, fun hzero => hcode [116, 116] ?_, ?_⟩
  · exact (decodeOffsetCommitResponse_committed_iff 8 _ fun _ =>
      commitAnswerT_fitsLegacy (by decide)).1.2 (.inl (by decide)) hzero
  · exact (decodeOffsetCommitResponse_committed_iff 2 _ fun _ =>
      commitAnswerT_fitsLegacy (by decide)).1.2 (.inr (.inr (by decide +kernel))) hzero
  · exact (decodeOffsetCommitResponse_committed_iff 5 _ fun _ =>
      commitAnswerT_fitsLegacy (by decide)).2 (by decide) (by decide) (by decide)

/-- In version 7 a commit that failed with code 25, an unknown member, is reported as committed. -/
theorem decodeOffsetCommitResponse_masks :
    (commitAnswerT [116] 25).FitsLegacy ∧ (commitAnswerT [116] 25).codes = [25] ∧
    decodeOffsetCommitResponse 7 ((commitAnswerT [116] 25).bytes 7) = .ok 0 :=
  ⟨commitAnswerT_fitsLegacy (by decide), rfl, by decide +kernel⟩

end GoKafka
