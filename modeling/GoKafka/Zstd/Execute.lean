import GoKafka.Zstd.Sequences

/-!
# Executing the sequences

`execSeqs` (`block.go`) reads the stream of the sequences and carries them out: it copies literal
bytes, then a match out of what it has written, or out of the window of earlier blocks. From the
states that name a sequence it reads the sequence's three values, then the states of the next one
(`Coder.Codes.readValue`, `Coder.State.readState`). So a run over the stream of some sequences that
mean a block (`Parses`) writes the block (`execSeqs_parses`): after each sequence the buffer is the
block up to the sequence's end.
-/

namespace GoKafka.Zstd

open BitString Lz77 List

/-- `window`: up to `size` bytes of the earlier blocks, the oldest first. The source keeps them in
a ring. -/
structure Window where
  size : Nat
  data : Bytes

def Window.save (w : Window) (buf : Bytes) : Window :=
  { w with data := (w.data ++ buf).drop ((w.data ++ buf).length - w.size) }

def Window.appendTo (w : Window) (buf : Bytes) (start stop : Nat) : Bytes :=
  buf ++ (w.data.drop start).take (stop - start)

/-- `seqTables` and `seqTableBits` for one kind of code. -/
structure SeqTable where
  table : List FseBaselineEntry
  bits : Nat

/-- `seqTables` and `seqTableBits`, by `seqLiteral`, `seqOffset` and `seqMatch`. -/
structure SeqTables where
  seqLiteral : SeqTable
  seqOffset : SeqTable
  seqMatch : SeqTable

/-- The predefined tables of `seqCodeInfo`. -/
def predefLiteral : SeqTable := ⟨predefinedLiteralTable, 6⟩

@[inherit_doc predefLiteral]
def predefOffset : SeqTable := ⟨predefinedOffsetTable, 5⟩

@[inherit_doc predefLiteral]
def predefMatch : SeqTable := ⟨predefinedMatchTable, 6⟩

def copyFromWindow (window : Window) (buffer : Bytes) (offset count : Nat) :
    Except ReadError Bytes :=
  if offset = 0 then .error (.zstd "invalid zero offset")
  else if buffer.length < offset then
    let copy := offset - buffer.length
    if copy > window.data.length then .error (.zstd "offset past window")
    else
      let windowOffset := window.data.length - copy
      let copy := min copy count
      let buffer := window.appendTo buffer windowOffset (windowOffset + copy)
      .ok (copyLoop 0 (count - copy) buffer (count - copy))
  else .ok (copyLoop (buffer.length - offset) count buffer count)

/-- The repeat offsets of `execSeqs`: the offset meant, and the last offsets from there on. -/
def repeatOffset (basebits offset literal : Nat) (rep : Offsets) : Nat × Offsets :=
  if basebits > 1 then (offset, rep.push offset)
  else
    let offset := if literal = 0 then offset + 1 else offset
    if offset = 1 then (rep.first, rep)
    else if offset = 2 then (rep.second, rep.swap rep.second)
    else if offset = 3 then (rep.third, rep.push rep.third)
    else if offset = 4 then (rep.before, rep.push rep.before)
    else (offset, rep)

/-- The variables of the loop of `execSeqs`. -/
structure SeqRun where
  rbr : ReverseBitReader
  literalState : Nat
  offsetState : Nat
  matchState : Nat
  rep : Offsets
  buffer : Bytes
  litbuf : Bytes

/-- The entry of a table for a state. -/
def SeqTable.entry (t : SeqTable) (state : Nat) : Except ReadError FseBaselineEntry :=
  match t.table[state]? with
  | none => .error .indexOutOfRange
  | some e => .ok e

/-- The value of an entry: its baseline and the bits that follow. -/
def readValue (rbr : ReverseBitReader) (e : FseBaselineEntry) :
    Except ReadError (Nat × ReverseBitReader) := do
  let (add, rbr) ← rbr.val e.basebits
  return ((e.baseline + add) % 2 ^ 32, rbr)

/-- The state after an entry: its base and the bits that follow. -/
def readState (rbr : ReverseBitReader) (e : FseBaselineEntry) :
    Except ReadError (Nat × ReverseBitReader) := do
  let (add, rbr) ← rbr.val e.bits
  return (e.base + add, rbr)

/-- The copies of a sequence: the literals, then the match. Returns the buffer and the literals
left. -/
def copySeq (window : Window) (buffer litbuf : Bytes) (literal offset count : Nat) :
    Except ReadError (Bytes × Bytes) :=
  if literal > litbuf.length then .error (.zstd "literal byte overflow")
  else do
    let buffer := buffer ++ litbuf.take literal
    let litbuf := litbuf.drop literal
    if count > 0 then return (← copyFromWindow window buffer offset count, litbuf)
    else return (buffer, litbuf)

/-- The round of `execSeqs` for one sequence. After the last one no states follow. -/
def execSeq (tables : SeqTables) (window : Window) (last : Bool) (x : SeqRun) :
    Except ReadError SeqRun := do
  if x.buffer.length + x.litbuf.length > 128 * 1024 then
    throw (.zstd "uncompressed size too big")
  let ptoffset ← tables.seqOffset.entry x.offsetState
  let ptmatch ← tables.seqMatch.entry x.matchState
  let ptliteral ← tables.seqLiteral.entry x.literalState
  let (offset, rbr) ← readValue x.rbr ptoffset
  let (count, rbr) ← readValue rbr ptmatch
  let (literal, rbr) ← readValue rbr ptliteral
  let (offset, rep) := repeatOffset ptoffset.basebits offset literal x.rep
  if last then
    let (buffer, litbuf) ← copySeq window x.buffer x.litbuf literal offset count
    return { x with rbr := rbr, rep := rep, buffer := buffer, litbuf := litbuf }
  else
    let (literalState, rbr) ← readState rbr ptliteral
    let (matchState, rbr) ← readState rbr ptmatch
    let (offsetState, rbr) ← readState rbr ptoffset
    let (buffer, litbuf) ← copySeq window x.buffer x.litbuf literal offset count
    return ⟨rbr, literalState, offsetState, matchState, rep, buffer, litbuf⟩

/-- The loop of `execSeqs`, by the sequences left. -/
def execLoop (tables : SeqTables) (window : Window) : Nat → SeqRun → Except ReadError SeqRun
  | 0, x => .ok x
  | n + 1, x => do execLoop tables window n (← execSeq tables window (n == 0) x)

/-- `Reader.execSeqs`: the decompressed block and the last offsets. -/
def execSeqs (tables : SeqTables) (window : Window) (rep : Offsets) (data : Bytes) (off : Nat)
    (litbuf : Bytes) (seqCount : Nat) : Except ReadError (Bytes × Offsets) := do
  let rbr ← makeReverseBitReader data (data.length - 1) off
  let (literalState, rbr) ← rbr.val tables.seqLiteral.bits
  let (offsetState, rbr) ← rbr.val tables.seqOffset.bits
  let (matchState, rbr) ← rbr.val tables.seqMatch.bits
  let x ← execLoop tables window seqCount
    ⟨rbr, literalState, offsetState, matchState, rep, [], litbuf⟩
  if x.rbr.cnt ≠ 0 then throw (.zstd "extraneous data after sequences")
  return (x.buffer ++ x.litbuf, x.rep)

/-! ## Reading what was written -/

section Read

variable {K : Coder} {rbr : ReverseBitReader}

/-- From a state that names its code the decoder reads a value. -/
theorem Coder.Codes.readValue (h : K.Codes code v w) (hnames : K.enc.Names code state)
    (hw : w < 2 ^ 32) (hrbr : rbr.Holds (bits ++ bitsOf (K.outBits code) v)) :
    ∃ rbr', readValue rbr (K.enc.entryAt K.table state) = .ok (w, rbr') ∧ rbr'.Holds bits := by
  obtain ⟨-, hbits, hvalue⟩ := h.entry hnames
  rw [← bitsOf_mod (Nat.le_refl _)] at hrbr
  obtain ⟨rbr', hval, hholds⟩ := hrbr.val h.outBits_le (Nat.mod_lt _ (Nat.two_pow_pos _))
  refine ⟨rbr', ?_, hholds⟩
  rw [Zstd.readValue, hbits, hval]
  change Except.ok _ = _
  rw [hvalue, Nat.mod_eq_of_lt hw]

/-- From the state after a symbol the decoder reads the state before it. -/
theorem Coder.State.readState (h : K.State state) (hcode : code < K.enc.symbolTT.length)
    (hlog : K.enc.actualTableLog ≤ 6)
    (hrbr : rbr.Holds (bits ++ bitsOf (K.enc.nbBitsOut code state) state)) :
    ∃ rbr', readState rbr (K.enc.entryAt K.table (K.enc.nextState code state)) =
        .ok (state - 2 ^ K.enc.actualTableLog, rbr') ∧ rbr'.Holds bits := by
  obtain ⟨-, hbits, hle, hback⟩ := h.next hcode
  rw [← bitsOf_mod (Nat.le_refl _), ← hbits] at hrbr
  obtain ⟨rbr', hval, hholds⟩ := hrbr.val (by omega) (Nat.mod_lt _ (Nat.two_pow_pos _))
  refine ⟨rbr', ?_, hholds⟩
  rw [Zstd.readState, hval]
  change Except.ok _ = _
  rw [hback]

/-- The decoder reads a state from the end of the stream. -/
theorem Coder.State.readFlushed (h : K.State state) (hlog : K.enc.actualTableLog ≤ 6)
    (hrbr : rbr.Holds (bits ++ bitsOf K.enc.actualTableLog state)) :
    ∃ rbr', rbr.val K.enc.actualTableLog = .ok (state - 2 ^ K.enc.actualTableLog, rbr') ∧
      rbr'.Holds bits := by
  obtain ⟨hle, hlt⟩ := h
  have hmod : state % 2 ^ K.enc.actualTableLog = state - 2 ^ K.enc.actualTableLog := by
    rw [Nat.mod_eq_sub_mod hle, Nat.mod_eq_of_lt (by omega)]
  rw [← bitsOf_mod (Nat.le_refl _), hmod] at hrbr
  exact hrbr.val (by omega) (by omega)

end Read

theorem repeatOffset_encode (hpos : 0 < offset) (lits : Nat) (recent : Offsets) :
    repeatOffset (ofCode (encodeMatchOffset offset lits recent).1)
        (offsetRead (encodeMatchOffset offset lits recent).1) lits recent =
      (offset, (encodeMatchOffset offset lits recent).2) := by
  have hsmall : ∀ v, 0 < v → v < 4 → ¬ ofCode v > 1 := fun v hv h4 => by
    rw [one_lt_ofCode hv]
    omega
  have hplain : repeatOffset (ofCode (offset + 3)) (offsetRead (offset + 3)) lits recent =
      (offset, recent.push offset) := by
    rw [repeatOffset, if_pos ((one_lt_ofCode (by omega)).2 (by omega)), offsetRead,
      if_neg (by omega), Nat.add_sub_cancel]
  have hread : ∀ v < 4, offsetRead v = v := fun v hv => if_pos hv
  unfold encodeMatchOffset
  split_ifs with hlits h₁ h₂ h₃ h₁ h₂ h₃
  · simp [repeatOffset, hread, hsmall 1, Nat.ne_of_gt hlits, h₁]
  · simp [repeatOffset, hread, hsmall 2, Nat.ne_of_gt hlits, h₂]
  · simp [repeatOffset, hread, hsmall 3, Nat.ne_of_gt hlits, h₃]
  · exact hplain
  · simp [repeatOffset, hread, hsmall 1, Nat.eq_zero_of_not_pos hlits, h₁]
  · simp [repeatOffset, hread, hsmall 2, Nat.eq_zero_of_not_pos hlits, h₂]
  · simp [repeatOffset, hread, hsmall 3, Nat.eq_zero_of_not_pos hlits, h₃]
  · exact hplain

/-- What the encoder writes for matches, given by offset and literal length, and the last offsets
after each. -/
def encodeOffsets (recent : Offsets) : List (Nat × Nat) → List (Nat × Offsets)
  | [] => []
  | (offset, lits) :: pairs =>
    let e := encodeMatchOffset offset lits recent
    e :: encodeOffsets e.2 pairs

/-- What the decoder makes of written values with their literal lengths, and its last offsets after
each. -/
def repeatOffsets (rep : Offsets) : List (Nat × Nat) → List (Nat × Offsets)
  | [] => []
  | (value, lits) :: values =>
    let d := repeatOffset (ofCode value) (offsetRead value) lits rep
    d :: repeatOffsets d.2 values

/-- Encoder and decoder stay in step: every offset is found, and the last offsets are the same. -/
theorem repeatOffsets_encodeOffsets (pairs : List (Nat × Nat))
    (h : ∀ m ∈ pairs, 0 < m.1 ∧ m.1 ≤ 2 ^ 20) :
    repeatOffsets recentOffsets
        (((encodeOffsets recentOffsets pairs).map Prod.fst).zip (pairs.map Prod.snd)) =
      (pairs.map Prod.fst).zip ((encodeOffsets recentOffsets pairs).map Prod.snd) := by
  generalize recentOffsets = recent
  induction pairs generalizing recent with
  | nil => rfl
  | cons m pairs ih =>
    obtain ⟨hm, hrest⟩ := forall_mem_cons.1 h
    have hfirst := repeatOffset_encode hm.1 m.2 recent
    simp only [encodeOffsets, map_cons, zip_cons_cons, repeatOffsets, hfirst, ih hrest]

theorem repeatOffsets_three :
    repeatOffsets recentOffsets
        (((encodeOffsets recentOffsets [(1, 2), (7, 0), (1, 0)]).map Prod.fst).zip [2, 0, 0]) =
      [1, 7, 1].zip ((encodeOffsets recentOffsets [(1, 2), (7, 0), (1, 0)]).map Prod.snd) :=
  repeatOffsets_encodeOffsets [(1, 2), (7, 0), (1, 0)] (by decide)

section Parse

/-- The sequences of a block have codes. -/
theorem Parses.coded {prev : Nat} (h : Parses src prev recent sequences literals)
    (hlen : src.length ≤ 128 * 1024) : ∀ s ∈ sequences, s.Coded := by
  induction h with
  | rest => exact nofun
  | @seq prev pos off ml recent sequences literals hle hrepeats hmin hmax _ ih =>
    have hend := hrepeats.le_length
    have hdist := hrepeats.dist_le
    obtain ⟨hpos, hmost⟩ := encodeMatchOffset_range off (pos - prev) recent
    rw [zstdMinMatch] at hmin hmax
    refine forall_mem_cons.2 ⟨⟨?_, ?_, hpos, ?_⟩, ih⟩ <;> dsimp only [zstdMinMatch] <;> omega

theorem Parses.length_le {prev : Nat} (h : Parses src prev recent sequences literals)
    (hprev : prev ≤ src.length) : prev + literals.length ≤ src.length := by
  induction h with
  | rest =>
    rw [length_drop]
    omega
  | seq hle hrepeats _ _ _ ih =>
    have hend := hrepeats.le_length
    rw [length_append, length_take]
    omega

end Parse

/-! ## A run over the sequences of a block -/

/-- The predefined tables. -/
def predefTables : SeqTables := ⟨predefLiteral, predefOffset, predefMatch⟩

section Run

variable {c : CStates} {bits : List Bool} {src : Bytes}

/-- In the states that name a sequence the decoder finds the entries of its codes. -/
theorem CStates.Names.entries (hc : c.Names s) (hs : s.Coded) : predefLiteral.entry (c.ll - 2 ^ 6) =
        .ok (literalCoder.enc.entryAt literalCoder.table c.ll) ∧
      predefOffset.entry (c.of - 2 ^ 5) =
        .ok (offsetCoder.enc.entryAt offsetCoder.table c.of) ∧
      predefMatch.entry (c.ml - 2 ^ 6) =
        .ok (matchCoder.enc.entryAt matchCoder.table c.ml) := by
  have hentry : ∀ {t : SeqTable} {state : Nat} {e : FseBaselineEntry},
      t.table[state]? = some e → t.entry state = .ok e := fun h => by rw [SeqTable.entry, h]
  exact ⟨hentry (hs.ll.entry hc.ll).1, hentry (hs.of.entry hc.of).1, hentry (hs.ml.entry hc.ml).1⟩

/-- From the entries of a sequence's codes the decoder reads its three values. -/
theorem CStates.Names.readValues (hc : c.Names s) (hs : s.Coded)
    (hrbr : rbr.Holds (bits ++ s.extraBits)) :
    ∃ r₁ r₂ r₃, readValue rbr (offsetCoder.enc.entryAt offsetCoder.table c.of) =
        .ok (offsetRead s.offset, r₁) ∧
      readValue r₁ (matchCoder.enc.entryAt matchCoder.table c.ml) = .ok (s.matchLen + 3, r₂) ∧
      readValue r₂ (literalCoder.enc.entryAt literalCoder.table c.ll) = .ok (s.litLen, r₃) ∧
      r₃.Holds bits := by
  rw [Seq.extraBits, ← append_assoc, ← append_assoc] at hrbr
  have hlit := hs.litLen_lt
  have hmatch := hs.matchLen_lt
  have hoff : offsetRead s.offset ≤ s.offset := by
    rw [offsetRead]
    split <;> omega
  have hlt := hs.offset_lt
  obtain ⟨r₁, e₁, h₁⟩ := hs.of.readValue hc.of (by omega) hrbr
  obtain ⟨r₂, e₂, h₂⟩ := hs.ml.readValue hc.ml (by omega) h₁
  obtain ⟨r₃, e₃, h₃⟩ := hs.ll.readValue hc.ll (by omega) h₂
  exact ⟨r₁, r₂, r₃, e₁, e₂, e₃, h₃⟩

/-- Then it reads the states of the sequence before which this one was coded. -/
theorem CStates.Names.readStates (hc : c.Names s') (hs : s.Coded)
    (hrbr : rbr.Holds (bits ++ c.emitted s)) :
    ∃ r₁ r₂ r₃,
      readState rbr (literalCoder.enc.entryAt literalCoder.table
        (c.next predefinedEncoders s).ll) = .ok (c.ll - 2 ^ 6, r₁) ∧
      readState r₁ (matchCoder.enc.entryAt matchCoder.table
        (c.next predefinedEncoders s).ml) = .ok (c.ml - 2 ^ 6, r₂) ∧
      readState r₂ (offsetCoder.enc.entryAt offsetCoder.table
        (c.next predefinedEncoders s).of) = .ok (c.of - 2 ^ 5, r₃) ∧ r₃.Holds bits := by
  rw [CStates.emitted, ← append_assoc, ← append_assoc] at hrbr
  obtain ⟨r₁, e₁, h₁⟩ := (Coder.State.of_names hc.ll).readState hs.ll.lt (by decide) hrbr
  obtain ⟨r₂, e₂, h₂⟩ := (Coder.State.of_names hc.ml).readState hs.ml.lt (by decide) h₁
  obtain ⟨r₃, e₃, h₃⟩ := (Coder.State.of_names hc.of).readState hs.of.lt (by decide) h₂
  exact ⟨r₁, r₂, r₃, e₁, e₂, e₃, h₃⟩

/-- The copies of a sequence take the buffer from the end of the last one to its own end. -/
theorem copySeq_repeats {prev : Nat} (hle : prev ≤ pos) (hrepeats : Repeats src pos off ml)
    (hml : 0 < ml) (window : Window) (literals : Bytes) :
    copySeq window (src.take prev) ((src.drop prev).take (pos - prev) ++ literals) (pos - prev)
      off ml = .ok (src.take (pos + ml), literals) := by
  have hend := hrepeats.le_length
  have hlen : ((src.drop prev).take (pos - prev)).length = pos - prev := by
    rw [length_take, length_drop]
    omega
  have hbuffer : src.take prev ++ (src.drop prev).take (pos - prev) = src.take pos := by
    rw [← take_add, Nat.add_sub_cancel' hle]
  have hcopy : copyFromWindow window (src.take pos) off ml = .ok (src.take (pos + ml)) := by
    have hpos : (src.take pos).length = pos := length_take_of_le (by omega)
    have hdist := hrepeats.dist_le
    rw [copyFromWindow, if_neg (Nat.ne_of_gt hrepeats.pos_dist), hpos, if_neg (by omega),
      hrepeats.copyLoop (Nat.le_refl ml)]
  rw [copySeq, if_neg (by rw [length_append]; omega), take_left' hlen,
    drop_left' hlen, hbuffer, if_pos hml, hcopy]
  rfl

/-- Before the sequences `sequences` with `literals`, the loop has written the block up to `prev`
and stands in the states that name the next sequence. -/
structure SeqRun.Reads (x : SeqRun) (src : Bytes) (prev : Nat) (recent : Offsets)
    (sequences : List Seq) (literals : Bytes) : Prop where
  bits : x.rbr.Holds (seqBits sequences)
  states : sequences ≠ [] → x.literalState = (seqStates sequences).ll - 2 ^ 6 ∧
    x.offsetState = (seqStates sequences).of - 2 ^ 5 ∧
    x.matchState = (seqStates sequences).ml - 2 ^ 6
  rep : x.rep = recent
  buffer : x.buffer = src.take prev
  litbuf : x.litbuf = literals

/-- A round of the loop carries out the next sequence. -/
theorem SeqRun.Reads.execSeq {prev : Nat} (hlen : src.length ≤ 128 * 1024) (hle : prev ≤ pos)
    (hrepeats : Repeats src pos off ml) (hmin : zstdMinMatch ≤ ml)
    (hmax : ml ≤ 65535 + zstdMinMatch)
    (hrest : Parses src (pos + ml) (encodeMatchOffset off (pos - prev) recent).2 rest literals)
    (h : x.Reads src prev recent
      (⟨pos - prev, ml - zstdMinMatch, (encodeMatchOffset off (pos - prev) recent).1⟩ :: rest)
      ((src.drop prev).take (pos - prev) ++ literals)) :
    ∃ x', execSeq predefTables window rest.isEmpty x = .ok x' ∧
      x'.Reads src (pos + ml) (encodeMatchOffset off (pos - prev) recent).2 rest literals := by
  have hparses := Parses.seq hle hrepeats hmin hmax hrest
  have hcoded := hparses.coded hlen
  have hend := hrepeats.le_length
  have hsize : ¬ x.buffer.length + x.litbuf.length > 128 * 1024 := by
    have hall := hparses.length_le (by omega)
    rw [h.buffer, h.litbuf, length_take]
    omega
  have hoffset := repeatOffset_encode hrepeats.pos_dist (pos - prev) recent
  have hcopy := copySeq_repeats hle hrepeats (Nat.lt_of_lt_of_le (by decide) hmin) window literals
  have hcount : ml - zstdMinMatch + 3 = ml := Nat.sub_add_cancel hmin
  generalize hs : (⟨pos - prev, ml - zstdMinMatch, (encodeMatchOffset off (pos - prev) recent).1⟩ :
    Seq) = s at h hcoded
  have hlit : s.litLen = pos - prev := hs ▸ rfl
  have hmatch : s.matchLen + 3 = ml := hs ▸ hcount
  have hoff : s.offset = (encodeMatchOffset off (pos - prev) recent).1 := hs ▸ rfl
  have hcoded₀ := hcoded s mem_cons_self
  have hnames := names_seqStates hcoded
  obtain ⟨hl, ho, hm⟩ := h.states (cons_ne_nil s rest)
  obtain ⟨el, eo, em⟩ := hnames.entries hcoded₀
  rw [← hl] at el
  rw [← ho] at eo
  rw [← hm] at em
  have hbits : (offsetCoder.enc.entryAt offsetCoder.table (seqStates (s :: rest)).of).basebits =
      ofCode s.offset := by
    rw [(hcoded₀.of.entry hnames.of).2.1]
    exact outBits_offsetCoder _ hcoded₀.of.lt
  rw [← hoff] at hoffset
  rw [← hbits] at hoffset
  rw [← h.buffer, ← h.litbuf] at hcopy
  have hheld := h.bits
  rw [Zstd.execSeq, if_neg hsize]
  cases rest with
  | nil =>
    obtain ⟨r₁, r₂, r₃, e₁, e₂, e₃, h₃⟩ := hnames.readValues hcoded₀
      (show x.rbr.Holds ([] ++ s.extraBits) from hheld)
    rw [hmatch] at e₂
    rw [hlit] at e₃
    refine ⟨⟨r₃, x.literalState, x.offsetState, x.matchState, _, _, _⟩, ?_, h₃,
      fun hne => absurd rfl hne, rfl, rfl, rfl⟩
    simp [predefTables, eo, em, el, e₁, e₂, e₃, h.rep, hoffset, hcopy, bind, Except.bind, pure,
      Except.pure]
  | cons t rest =>
    have hstates : seqStates (s :: t :: rest) = (seqStates (t :: rest)).next predefinedEncoders s :=
      rfl
    have hnames' := names_seqStates fun s' hs' => hcoded s' (mem_cons_of_mem s hs')
    rw [seqBits, ← append_assoc] at hheld
    · obtain ⟨r₁, r₂, r₃, e₁, e₂, e₃, h₃⟩ := hnames.readValues hcoded₀ hheld
      rw [hmatch] at e₂
      rw [hlit] at e₃
      obtain ⟨q₁, q₂, q₃, d₁, d₂, d₃, g₃⟩ := hnames'.readStates hcoded₀ h₃
      rw [← hstates] at d₁ d₂ d₃
      refine ⟨⟨q₃, _, _, _, _, _, _⟩, ?_, g₃, fun _ => ⟨rfl, rfl, rfl⟩, rfl, rfl, rfl⟩
      simp [predefTables, eo, em, el, e₁, e₂, e₃, d₁, d₂, d₃, h.rep, hoffset, hcopy, bind,
        Except.bind, pure, Except.pure]
    · exact cons_ne_nil t rest

/-- The loop carries out all the sequences. -/
theorem SeqRun.Reads.execLoop {prev : Nat} (hparses : Parses src prev recent sequences literals)
    (hlen : src.length ≤ 128 * 1024) (window : Window)
    (h : x.Reads src prev recent sequences literals) :
    ∃ x', execLoop predefTables window sequences.length x = .ok x' ∧ x'.rbr.cnt = 0 ∧
      x'.buffer ++ x'.litbuf = src := by
  induction hparses generalizing x with
  | rest =>
    refine ⟨x, rfl, h.bits.cnt_eq_zero, ?_⟩
    rw [h.buffer, h.litbuf, take_append_drop]
  | @seq prev pos off ml recent rest literals hle hrepeats hmin hmax hrest ih =>
    obtain ⟨x₁, hstep, h₁⟩ := h.execSeq hlen hle hrepeats hmin hmax hrest
    obtain ⟨x', hloop, hdone⟩ := ih h₁
    refine ⟨x', ?_, hdone⟩
    have hlast : (rest.length == 0) = rest.isEmpty := by cases rest <;> rfl
    rw [length_cons, Zstd.execLoop, hlast, hstep]
    exact hloop

/-- The decoder makes of the stream of a block's sequences the block. -/
theorem execSeqs_parses (hparses : Parses src 0 recentOffsets sequences literals)
    (hlen : src.length ≤ 128 * 1024) (hne : sequences ≠ []) (hk : k < 8)
    (hstream : bytesBits stream =
      seqBits sequences ++ (seqStates sequences).bits ++ true :: List.replicate k false)
    (window : Window) (base : Bytes) :
    ∃ rep, execSeqs predefTables window recentOffsets (base ++ stream) base.length literals
      sequences.length = .ok (src, rep) := by
  obtain ⟨s, rest, rfl⟩ := exists_cons_of_ne_nil hne
  have hnames := names_seqStates (hparses.coded hlen)
  obtain ⟨r₀, e₀, h₀⟩ := @ReverseBitReader.holds_make _ base stream k hk hstream
  rw [CStates.bits, ← append_assoc, ← append_assoc] at h₀
  obtain ⟨r₁, e₁, h₁⟩ := (Coder.State.of_names hnames.ll).readFlushed (by decide) h₀
  obtain ⟨r₂, e₂, h₂⟩ := (Coder.State.of_names hnames.of).readFlushed (by decide) h₁
  obtain ⟨r₃, e₃, h₃⟩ := (Coder.State.of_names hnames.ml).readFlushed (by decide) h₂
  have hreads : SeqRun.Reads ⟨r₃, _, _, _, recentOffsets, [], literals⟩ src 0 recentOffsets
      (s :: rest) literals := ⟨h₃, fun _ => ⟨rfl, rfl, rfl⟩, rfl, rfl, rfl⟩
  obtain ⟨x, hloop, hcnt, hbuffer⟩ := hreads.execLoop hparses hlen window
  refine ⟨x.rep, ?_⟩
  -- the predefined tables have the sizes of the machines
  have bl : predefTables.seqLiteral.bits = literalCoder.enc.actualTableLog := rfl
  have bo : predefTables.seqOffset.bits = offsetCoder.enc.actualTableLog := rfl
  have bm : predefTables.seqMatch.bits = matchCoder.enc.actualTableLog := rfl
  have hlogs : literalCoder.enc.actualTableLog = 6 ∧ offsetCoder.enc.actualTableLog = 5 ∧
      matchCoder.enc.actualTableLog = 6 := ⟨rfl, rfl, rfl⟩
  rw [hlogs.1] at e₁ bl
  rw [hlogs.2.1] at e₂ bo
  rw [hlogs.2.2] at e₃ bm
  simp only [execSeqs, e₀, bl, bo, bm, e₁, e₂, e₃, hloop, hcnt, hbuffer, bind, Except.bind, pure,
    Except.pure, ne_eq, not_true_eq_false, if_false]

end Run

end GoKafka.Zstd
