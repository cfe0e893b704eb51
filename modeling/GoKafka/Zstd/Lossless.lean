import GoKafka.Zstd.Match

/-!
# The sequences give the block back

What the format means by a list of sequences, without the stream they are written to: a sequence
appends some of the literals, then a match that stands some distance back in what is written so far.
The distance is given by an offset value, which may name one of the last three distances
(`resolveOffset`). `buildSequences_lossless` is that the sequences and literals of `buildSequences`
mean the block they were built from: `Parses`, the account of the builder, says what the sequences
say of the block, and by induction on it the text written so far is the block up to a position.
-/

namespace GoKafka.Zstd

open Lz77 List

/-! ## What sequences mean -/

/-- The distance that an offset value means, and the last distances from there on. A value up to 3
names one of the last distances; without literals it is counted from the second one, and the one
after the third is the first less one. -/
def resolveOffset (value litLen : Nat) (history : Offsets) : Option (Nat × Offsets) :=
  if value > 3 then some (value - 3, ⟨value - 3, history.first, history.second⟩)
  else
    match if litLen = 0 then value + 1 else value with
    | 1 => some (history.first, history)
    | 2 => some (history.second, ⟨history.second, history.first, history.third⟩)
    | 3 => some (history.third, ⟨history.third, history.first, history.second⟩)
    | 4 => some (history.first - 1, ⟨history.first - 1, history.first, history.second⟩)
    | _ => none

/-- The text written so far, the literals left, and the last distances. -/
structure Execution where
  text : Bytes
  literals : Bytes
  history : Offsets

/-- A sequence carried out: its literals, then its match, a byte at a time. -/
def executeSeq (x : Execution) (s : Seq) : Option Execution :=
  if s.litLen ≤ x.literals.length then do
    let text := x.text ++ x.literals.take s.litLen
    let (dist, history) ← resolveOffset s.offset s.litLen x.history
    if 0 < dist ∧ dist ≤ text.length then
      return ⟨copyBack dist (s.matchLen + 3) text, x.literals.drop s.litLen, history⟩
    else none
  else none

/-- What sequences and literals mean: the sequences one after the other, then the literals left. -/
def execute (literals : Bytes) (sequences : List Seq) : Option Bytes := do
  let x ← sequences.foldlM executeSeq ⟨[], literals, ⟨1, 4, 8⟩⟩
  return x.text ++ x.literals

/-- A sequence in the 32-bit fields of `seq`. -/
def Seq.word (s : Seq) : Seq := ⟨s.litLen % 2 ^ 32, s.matchLen % 2 ^ 32, s.offset % 2 ^ 32⟩

theorem Seq.word_eq {s : Seq} (hlit : s.litLen < 2 ^ 32) (hmatch : s.matchLen < 2 ^ 32)
    (hoffset : s.offset < 2 ^ 32) : s.word = s := by
  rw [Seq.word, Nat.mod_eq_of_lt hlit, Nat.mod_eq_of_lt hmatch, Nat.mod_eq_of_lt hoffset]

/-! ## The block -/

/-- The first of the last offsets is a distance: not 0, and in the 32 bits of the source. -/
def Offsets.Proper (recent : Offsets) : Prop := 0 < recent.first ∧ recent.first < 2 ^ 32

theorem Offsets.Proper.before_eq {recent : Offsets} (h : recent.Proper) :
    recent.before = recent.first - 1 := by
  obtain ⟨hpos, hlt⟩ := h
  rw [Offsets.before]
  omega

theorem Offsets.Proper.encode (h : recent.Proper) (hpos : 0 < offset) (hlt : offset < 2 ^ 32) :
    (encodeMatchOffset offset lits recent).2.Proper := by
  unfold encodeMatchOffset
  split_ifs
  · exact h
  all_goals exact ⟨hpos, hlt⟩

theorem resolveOffset_encode (h : recent.Proper) (hpos : 0 < offset) :
    resolveOffset (encodeMatchOffset offset lits recent).1 lits recent =
      some (offset, (encodeMatchOffset offset lits recent).2) := by
  have hplain : resolveOffset (offset + 3) lits recent = some (offset, recent.push offset) := by
    rw [resolveOffset, if_pos (by omega)]
    rfl
  unfold encodeMatchOffset
  rw [h.before_eq]
  split_ifs with hlits h₁ h₂ h₃ h₁ h₂ h₃
  · simp [resolveOffset, Nat.ne_of_gt hlits, h₁]
  · simp [resolveOffset, Nat.ne_of_gt hlits, h₂, Offsets.swap]
  · simp [resolveOffset, Nat.ne_of_gt hlits, h₃, Offsets.push]
  · exact hplain
  · simp [resolveOffset, Nat.eq_zero_of_not_pos hlits, h₁, Offsets.swap]
  · simp [resolveOffset, Nat.eq_zero_of_not_pos hlits, h₂, Offsets.push]
  · simp [resolveOffset, Nat.eq_zero_of_not_pos hlits, h₃, Offsets.push]
  · exact hplain

variable {src : Bytes}

/-- Carrying out sequences that mean the block from a position on writes the rest of the block. -/
theorem Parses.execute {prev : Nat} (h : Parses src prev recent sequences literals)
    (hlen : src.length ≤ 128 * 1024) (hprev : prev ≤ src.length) (hrecent : recent.Proper) :
    ∃ x, (sequences.map Seq.word).foldlM executeSeq ⟨src.take prev, literals, recent⟩ = some x ∧
      x.text ++ x.literals = src := by
  induction h with
  | rest => exact ⟨_, rfl, take_append_drop ..⟩
  | @seq prev pos off ml recent sequences literals hle hrepeats hmin hmax _ ih =>
    have hend := hrepeats.le_length
    have hdist := hrepeats.dist_le
    have hpos := hrepeats.pos_dist
    have hrange := encodeMatchOffset_range off (pos - prev) recent
    obtain ⟨x, hrest, hx⟩ := ih hend (hrecent.encode hpos (by omega))
    refine ⟨x, ?_, hx⟩
    have hword : Seq.word ⟨pos - prev, ml - zstdMinMatch,
        (encodeMatchOffset off (pos - prev) recent).1⟩ =
        ⟨pos - prev, ml - zstdMinMatch, (encodeMatchOffset off (pos - prev) recent).1⟩ :=
      Seq.word_eq (by dsimp only; omega) (by dsimp only; omega) (by dsimp only; omega)
    -- the literals take the text from `prev` to `pos`, the match from there to `pos + ml`
    have hlits : ((src.drop prev).take (pos - prev)).length = pos - prev := by
      rw [length_take, length_drop]
      omega
    have htext : src.take prev ++ (src.drop prev).take (pos - prev) = src.take pos := by
      rw [← take_add, Nat.add_sub_cancel' hle]
    have hmatch : ml - zstdMinMatch + 3 = ml := Nat.sub_add_cancel hmin
    have hstep : executeSeq ⟨src.take prev, (src.drop prev).take (pos - prev) ++ literals, recent⟩
        ⟨pos - prev, ml - zstdMinMatch, (encodeMatchOffset off (pos - prev) recent).1⟩ =
        some ⟨src.take (pos + ml), literals, (encodeMatchOffset off (pos - prev) recent).2⟩ := by
      simp only [executeSeq, resolveOffset_encode hrecent hpos]
      rw [if_pos (by rw [length_append, hlits]; omega), take_left' hlits,
        drop_left' hlits, htext, hmatch, ← hrepeats.copyBack]
      exact if_pos ⟨hpos, by rw [length_take]; omega⟩
    rw [map_cons, foldlM_cons, hword, hstep]
    exact hrest

/-- The sequences of `buildSequences`, in the fields the source keeps them in, mean the block. -/
theorem buildSequences_lossless (src : Bytes) (hlen : src.length ≤ 128 * 1024) :
    execute (buildSequences src).1 ((buildSequences src).2.map Seq.word) = some src := by
  obtain ⟨x, hrun, hx⟩ :=
    (parses_buildSequences src).execute hlen (Nat.zero_le _) ⟨by decide, by decide⟩
  have hstart : (⟨src.take 0, (buildSequences src).1, recentOffsets⟩ : Execution) =
      ⟨[], (buildSequences src).1, ⟨1, 4, 8⟩⟩ := rfl
  rw [execute, ← hstart, hrun]
  exact congrArg some hx

/-- A match that overlaps its own text. -/
theorem buildSequences_lossless_run : [97, 98, 97, 98, 97, 98, 97, 99].length ≤ 128 * 1024 ∧
      execute (buildSequences [97, 98, 97, 98, 97, 98, 97, 99]).1
        ((buildSequences [97, 98, 97, 98, 97, 98, 97, 99]).2.map Seq.word) =
        some [97, 98, 97, 98, 97, 98, 97, 99] :=
  ⟨by decide, buildSequences_lossless _ (by decide)⟩

end GoKafka.Zstd
