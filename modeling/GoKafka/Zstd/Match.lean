import GoKafka.Lib.Lz77
import GoKafka.Zstd.Fse

/-!
# From bytes to sequences

`buildSequences` (`encode.go`) cuts a block into sequences: some literal bytes, then a match, a
stretch that already stands before in the block. It tries every position in turn and takes the
longest match there (`findMatch`). An offset equal to one of the three last ones is written by its
place among them (`encodeMatchOffset`, `seq.go`). `Parses` says what a list of sequences with its
literals means for the block, and `parses_buildSequences` that the list built means the block.

The block has at most 128 KiB, so no number of a sequence reaches the 32 bits it has in the source.
-/

namespace GoKafka.Zstd

open Lz77

def zstdMinMatch : Nat := 3

/-- The three last offsets: `recent` of the encoder, `repeatedOffset1` to `3` of the decoder. -/
structure Offsets where
  first : Nat
  second : Nat
  third : Nat
  deriving DecidableEq

def recentOffsets : Offsets := ⟨1, 4, 8⟩

/-- A new offset in front of the others. -/
def Offsets.push (recent : Offsets) (offset : Nat) : Offsets :=
  ⟨offset, recent.first, recent.second⟩

/-- The second offset in front of the first. -/
def Offsets.swap (recent : Offsets) (offset : Nat) : Offsets := ⟨offset, recent.first, recent.third⟩

/-- The first offset less one, as the 32 bits of the source have it. -/
def Offsets.before (recent : Offsets) : Nat := (recent.first + 2 ^ 32 - 1) % 2 ^ 32

/-- `encodeMatchOffset`: the value to write, and the last offsets from there on. -/
def encodeMatchOffset (offset lits : Nat) (recent : Offsets) : Nat × Offsets :=
  if lits > 0 then
    if offset = recent.first then (1, recent)
    else if offset = recent.second then (2, recent.swap offset)
    else if offset = recent.third then (3, recent.push offset)
    else (offset + 3, recent.push offset)
  else if offset = recent.second then (1, recent.swap offset)
  else if offset = recent.third then (2, recent.push offset)
  else if offset = recent.before then (3, recent.push offset)
  else (offset + 3, recent.push offset)

/-- `seq`; the codes that `setCodes` fills in are functions of the three fields. -/
structure Seq where
  litLen : Nat
  matchLen : Nat
  offset : Nat
  deriving DecidableEq

def Seq.llCode (s : Seq) : Nat := Zstd.llCode s.litLen
def Seq.mlCode (s : Seq) : Nat := Zstd.mlCode s.matchLen
def Seq.ofCode (s : Seq) : Nat := Zstd.ofCode s.offset

/-- The round of `findMatch` for one earlier position: a longer match is kept. -/
def keepLonger (src : Bytes) (i : Nat) (best : Nat × Nat) (off : Nat) : Nat × Nat :=
  let maxLen := min (src.length - i) (65535 + zstdMinMatch)
  let l := commonLength maxLen (src.drop off) (src.drop i)
  if l ≥ zstdMinMatch ∧ l > best.2 then (i - off, l) else best

def maxOffset : Nat := 2 ^ 20

/-- `findMatch`: the offset and the length, both 0 without a match. -/
def findMatch (src : Bytes) (i : Nat) : Nat × Nat :=
  let start := if i < maxOffset then 0 else i - maxOffset
  (List.range' start (i - start)).reverse.foldl (keepLonger src i) (0, 0)

/-- The loop of `buildSequences` from `pos`, with the literals since `prev` to come. Every round
moves the position, so `src.length` rounds are enough. -/
def buildLoop (src : Bytes) : Nat → Nat → Nat → Offsets → Bytes × List Seq
  | 0, _, prev, _ => (src.drop prev, [])
  | rounds + 1, pos, prev, recent =>
    if pos < src.length then
      let (off, ml) := findMatch src pos
      if ml < zstdMinMatch then buildLoop src rounds (pos + 1) prev recent
      else
        let (encOff, recent) := encodeMatchOffset off (pos - prev) recent
        let (literals, sequences) := buildLoop src rounds (pos + ml) (pos + ml) recent
        ((src.drop prev).take (pos - prev) ++ literals,
          ⟨pos - prev, ml - zstdMinMatch, encOff⟩ :: sequences)
    else (src.drop prev, [])

def buildSequences (src : Bytes) : Bytes × List Seq :=
  buildLoop src src.length 0 0 recentOffsets

/-- From `prev` on, the block `src` is what `sequences` and `literals` say, with `recent` the last
offsets so far. -/
inductive Parses (src : Bytes) : Nat → Offsets → List Seq → Bytes → Prop
  | rest {prev : Nat} {recent : Offsets} : Parses src prev recent [] (src.drop prev)
  | seq {prev pos off ml : Nat} {recent : Offsets} {sequences : List Seq} {literals : Bytes} :
    prev ≤ pos → Repeats src pos off ml → zstdMinMatch ≤ ml → ml ≤ 65535 + zstdMinMatch →
    Parses src (pos + ml) (encodeMatchOffset off (pos - prev) recent).2 sequences literals →
    Parses src prev recent
      (⟨pos - prev, ml - zstdMinMatch, (encodeMatchOffset off (pos - prev) recent).1⟩ ::
        sequences)
      ((src.drop prev).take (pos - prev) ++ literals)

variable {src : Bytes}

/-- The value written for an offset. -/
theorem encodeMatchOffset_range (offset lits : Nat) (recent : Offsets) :
    0 < (encodeMatchOffset offset lits recent).1 ∧
      (encodeMatchOffset offset lits recent).1 ≤ offset + 3 := by
  unfold encodeMatchOffset
  split_ifs <;> dsimp only <;> omega

/-- A match that is long enough to be taken is a repeat. -/
theorem repeats_findMatch {i : Nat} (hi : i < src.length) (h : zstdMinMatch ≤ (findMatch src i).2) :
    Repeats src i (findMatch src i).1 (findMatch src i).2 ∧
      (findMatch src i).2 ≤ 65535 + zstdMinMatch := by
  revert h
  rw [findMatch]
  generalize hstart : (if i < maxOffset then 0 else i - maxOffset) = start
  generalize hoffs : (List.range' start (i - start)).reverse = offs
  have hlt : ∀ off ∈ offs, off < i := by
    intro off hoff
    rw [← hoffs, List.mem_reverse, List.mem_range'_1] at hoff
    omega
  clear hoffs
  -- what is kept so far is a repeat, or too short to be taken
  suffices hfold : ∀ best : Nat × Nat,
      (zstdMinMatch ≤ best.2 → Repeats src i best.1 best.2 ∧ best.2 ≤ 65535 + zstdMinMatch) →
      zstdMinMatch ≤ (offs.foldl (keepLonger src i) best).2 →
      Repeats src i (offs.foldl (keepLonger src i) best).1
          (offs.foldl (keepLonger src i) best).2 ∧
        (offs.foldl (keepLonger src i) best).2 ≤ 65535 + zstdMinMatch by
    exact hfold (0, 0) fun h => absurd h (by decide)
  induction offs with
  | nil => exact fun best hbest => hbest
  | cons off offs ih =>
    intro best hbest
    refine ih (fun o ho => hlt o (List.mem_cons_of_mem off ho)) _ ?_
    rw [keepLonger]
    split
    · intro _
      have hle := commonLength_le (min (src.length - i) (65535 + zstdMinMatch)) (src.drop off)
        (src.drop i)
      exact ⟨repeats_commonLength (hlt off List.mem_cons_self) (by omega), by omega⟩
    · exact hbest

theorem parses_buildLoop {prev rounds : Nat} (hle : prev ≤ pos) (recent : Offsets) :
    Parses src prev recent (buildLoop src rounds pos prev recent).2
      (buildLoop src rounds pos prev recent).1 := by
  induction rounds generalizing pos prev recent with
  | zero => exact .rest
  | succ rounds ih =>
    rw [buildLoop]
    split
    · next hpos =>
      have hmatch := @repeats_findMatch src pos hpos
      dsimp only
      split
      · exact ih (Nat.le_succ_of_le hle) recent
      · next hml =>
        have hml' := Nat.le_of_not_lt hml
        obtain ⟨hrepeats, hmax⟩ := hmatch hml'
        exact .seq hle hrepeats hml' hmax (ih (Nat.le_refl _) _)
    · exact .rest

/-- The sequences built from a block mean the block. -/
theorem parses_buildSequences (src : Bytes) :
    Parses src 0 recentOffsets (buildSequences src).2 (buildSequences src).1 :=
  parses_buildLoop (Nat.le_refl 0) recentOffsets

end GoKafka.Zstd
