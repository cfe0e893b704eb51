import GoKafka.Record

/-!
# Sequence numbers of the idempotent producer

`internal/produce/state.go`: one counter per partition, from which a send reserves a block of
sequence numbers (`reserveBlock`) and to which it returns the block when it fails
(`rollbackBlock`). The state is shared by all senders of a producer, and each call holds its lock,
so concurrent senders interleave call by call (`Senders.step`).

`rollbackBlock` takes the block's size off the counter whichever block failed. As long as no sender
still has numbers above the ones that become free, blocks in use stay apart
(`Senders.blocks_disjoint`); `Senders.blocks_overlap` is a run in which an older block fails first.
The counter is an `int32` and Kafka's numbers are not negative: `sequences_wrap_iff` says how far
the two go together.
-/

namespace GoKafka

open List

/-- `produce.State`. -/
structure ProduceState where
  sequences : AList fun _ : PartKey => Int32 := ∅

namespace ProduceState

/-- The counter of a partition: `s.sequences[key]`, and `State.ReserveSequence`. -/
def sequence (s : ProduceState) (key : PartKey) : Int32 := (s.sequences.lookup key).getD 0

/-- The assignment `s.sequences[key] = v`. -/
def set (s : ProduceState) (key : PartKey) (v : Int32) : ProduceState :=
  { s with sequences := s.sequences.insert key v }

def reserveBlock (s : ProduceState) (key : PartKey) (count : Nat) : Int32 × ProduceState :=
  (s.sequence key, s.set key (s.sequence key + Int32.ofNat count))

def rollbackBlock (s : ProduceState) (key : PartKey) (count : Nat) : ProduceState :=
  let next := s.sequence key - Int32.ofNat count
  s.set key (if next < 0 then 0 else next)

variable {s : ProduceState} {key : PartKey}

@[simp] theorem sequence_empty : ({} : ProduceState).sequence key = 0 := rfl

@[simp] theorem sequence_set_self : (s.set key v).sequence key = v := by
  simp [sequence, set]

theorem sequence_set_of_ne (h : key' ≠ key) : (s.set key v).sequence key' = s.sequence key' := by
  simp [sequence, set, AList.lookup_insert_ne h]

@[simp] theorem sequence_reserveBlock_self (count : Nat) :
    (s.reserveBlock key count).2.sequence key = s.sequence key + Int32.ofNat count :=
  sequence_set_self

theorem sequence_reserveBlock_of_ne (h : key' ≠ key) (count : Nat) :
    (s.reserveBlock key count).2.sequence key' = s.sequence key' :=
  sequence_set_of_ne h

@[simp] theorem sequence_rollbackBlock_self (count : Nat) :
    (s.rollbackBlock key count).sequence key =
      if s.sequence key - Int32.ofNat count < 0 then 0 else s.sequence key - Int32.ofNat count :=
  sequence_set_self

theorem sequence_rollbackBlock_of_ne (h : key' ≠ key) (count : Nat) :
    (s.rollbackBlock key count).sequence key' = s.sequence key' :=
  sequence_set_of_ne h

theorem toInt_reserveBlock {count : Nat} (hpos : 0 ≤ (s.sequence key).toInt)
    (h : (s.sequence key).toInt + count < 2 ^ 31) :
    ((s.reserveBlock key count).2.sequence key).toInt = (s.sequence key).toInt + count := by
  have hcount : (Int32.ofNat count).toInt = count := Int32.toInt_ofNat_of_lt (by omega)
  rw [sequence_reserveBlock_self, Int32.toInt_add, hcount]
  exact Int.bmod_eq_of_le (by omega) (by omega)

theorem toInt_rollbackBlock {count : Nat} (h : count ≤ (s.sequence key).toInt) :
    ((s.rollbackBlock key count).sequence key).toInt = (s.sequence key).toInt - count := by
  have hlt := (s.sequence key).toInt_lt
  have hcount : (Int32.ofNat count).toInt = count := Int32.toInt_ofNat_of_lt (by omega)
  have hsub : (s.sequence key - Int32.ofNat count).toInt = (s.sequence key).toInt - count := by
    rw [Int32.toInt_sub, hcount]
    exact Int.bmod_eq_of_le (by omega) (by omega)
  have hneg : ¬ s.sequence key - Int32.ofNat count < 0 := by
    rw [Int32.lt_iff_toInt_lt, Int32.toInt_zero]
    omega
  rw [sequence_rollbackBlock_self, if_neg hneg, hsub]

/-! ### The end of the number range

Kafka numbers records from 0 to `2 ^ 31 - 1` and then from 0 again. The counter is an `int32`: it
goes on at `-2 ^ 31`, and a rollback takes a negative counter for one that was rolled back twice. -/

/-- Reservations of one partition one after the other: the bases they return. -/
def reserveBlocks (key : PartKey) : List Nat → ProduceState → List Int32
  | [], _ => []
  | count :: counts, s =>
    let (base, s) := s.reserveBlock key count
    base :: reserveBlocks key counts s

theorem reserveBlocks_eq : reserveBlocks key counts s =
      (List.range counts.length).map fun i => s.sequence key + Int32.ofNat (counts.take i).sum := by
  induction counts generalizing s with
  | nil => rfl
  | cons count counts ih =>
    rw [reserveBlocks, reserveBlock]
    dsimp only
    rw [ih, length_cons, range_succ_eq_map, map_cons, map_map]
    simp [Int32.add_assoc]

theorem toInt_ofNat_eq_mod_iff :
    (Int32.ofNat n).toInt = (n % 2 ^ 31 : Nat) ↔ n % 2 ^ 32 < 2 ^ 31 := by
  rw [Int32.toInt_ofNat', Int32.size, Int.bmod_def]
  split <;> omega

/-- The bases of a run wrap as Kafka's do as long as no `int32` sum is negative; a rollback undoes a
reservation as long as the counter is not negative. -/
theorem sequences_wrap_iff (s : ProduceState) (key : PartKey) (counts : List Nat) (count : Nat) :
    ((reserveBlocks key counts {}).map Int32.toInt =
          (List.range counts.length).map (fun i => (((counts.take i).sum % 2 ^ 31 : Nat) : Int)) ↔
        ∀ i < counts.length, (counts.take i).sum % 2 ^ 32 < 2 ^ 31) ∧
      ((∀ key', ((s.reserveBlock key count).2.rollbackBlock key count).sequence key' =
          s.sequence key') ↔
        0 ≤ s.sequence key) := by
  constructor
  · rw [reserveBlocks_eq, map_map, map_inj_left]
    refine forall_congr' fun i => ?_
    rw [mem_range, Function.comp_apply, sequence_empty, Int32.zero_add, toInt_ofNat_eq_mod_iff]
  · have hback : ((s.reserveBlock key count).2.rollbackBlock key count).sequence key =
        if s.sequence key < 0 then 0 else s.sequence key := by
      rw [sequence_rollbackBlock_self, sequence_reserveBlock_self, Int32.add_sub_cancel]
    constructor
    · intro h
      have hkey := h key
      rw [hback] at hkey
      split at hkey
      · exact Int32.le_of_eq hkey
      · next hneg => exact Int32.not_lt.1 hneg
    · intro hpos key'
      by_cases hkey : key' = key
      · rw [hkey, hback, if_neg (Int32.not_lt.2 hpos)]
      · rw [sequence_rollbackBlock_of_ne hkey, sequence_reserveBlock_of_ne hkey]

/-- After `2 ^ 31` records the base is negative, and a failed send in that state makes it 0. -/
theorem sequences_negative :
    reserveBlocks ⟨[116], 0⟩ [2 ^ 31 - 1, 1, 1] {} = [0, Int32.maxValue, Int32.minValue] ∧
      let s := (({} : ProduceState).reserveBlock ⟨[116], 0⟩ (2 ^ 31)).2
      ((s.reserveBlock ⟨[116], 0⟩ 1).2.rollbackBlock ⟨[116], 0⟩ 1).sequence ⟨[116], 0⟩ = 0 ∧
        s.sequence ⟨[116], 0⟩ = Int32.minValue := by
  decide

end ProduceState

/-! ## Concurrent senders -/

/-- A reserved block of sequence numbers. -/
structure SeqBlock where
  base : Int32
  count : Nat
  deriving DecidableEq

/-- A sequence number is in `[base, base + count)`. -/
def SeqBlock.Has (b : SeqBlock) (seq : Int) : Prop :=
  b.base.toInt ≤ seq ∧ seq < b.base.toInt + b.count

instance (b : SeqBlock) (seq : Int) : Decidable (b.Has seq) := inferInstanceAs (Decidable (_ ∧ _))

/-- Two blocks share no sequence number. -/
def SeqBlock.Apart (b b' : SeqBlock) : Prop := ∀ seq, b.Has seq → ¬ b'.Has seq

theorem SeqBlock.Apart.symm {b' : SeqBlock} (h : b.Apart b') : b'.Apart b :=
  fun seq h' hb => h seq hb h'

/-- Senders on a partition: the shared state, the blocks whose sends are under way and those of
acknowledged sends. -/
structure Senders where
  state : ProduceState := {}
  inFlight : List SeqBlock := []
  kept : List SeqBlock := []

/-- What a sender can do: reserve a block, keep it, roll it back; or work on another partition. -/
inductive SenderAction where
  | reserve (count : Nat)
  | keep (b : SeqBlock)
  | rollback (b : SeqBlock)
  | reserveOther (key : PartKey) (count : Nat)
  | rollbackOther (key : PartKey) (count : Nat)

namespace Senders

variable {key : PartKey} {st : Senders}

/-- The blocks that are kept or still in flight. -/
def blocks (st : Senders) : List SeqBlock := st.inFlight ++ st.kept

/-- One call on the shared state. -/
def step (key : PartKey) (st : Senders) : SenderAction → Senders
  | .reserve count =>
    let (base, state) := st.state.reserveBlock key count
    { st with state := state, inFlight := ⟨base, count⟩ :: st.inFlight }
  | .keep b => { st with inFlight := st.inFlight.erase b, kept := b :: st.kept }
  | .rollback b =>
    { st with state := st.state.rollbackBlock key b.count, inFlight := st.inFlight.erase b }
  | .reserveOther key' count => { st with state := (st.state.reserveBlock key' count).2 }
  | .rollbackOther key' count => { st with state := st.state.rollbackBlock key' count }

/-- A block is kept or rolled back once. -/
def Enabled (key : PartKey) (st : Senders) : SenderAction → Prop
  | .reserve _ => True
  | .keep b | .rollback b => b ∈ st.inFlight
  | .reserveOther key' _ | .rollbackOther key' _ => key' ≠ key

/-- The states that senders reach, in any interleaving, by actions that meet a condition. -/
inductive Reachable (key : PartKey) (cond : Senders → SenderAction → Prop) : Senders → Prop where
  | start : Reachable key cond {}
  | step {st : Senders} {a : SenderAction} : Reachable key cond st → st.Enabled key a →
      cond st a → Reachable key cond (st.step key a)

/-- The condition for blocks to stay apart: a reservation stays within the number range, and when a
block is rolled back no other block has numbers from the new counter on. -/
def Safe (key : PartKey) (st : Senders) : SenderAction → Prop
  | .reserve count => (st.state.sequence key).toInt + count < 2 ^ 31
  | .rollback b => ∀ b' ∈ st.inFlight.erase b ++ st.kept, ∀ seq, b'.Has seq →
      seq < (st.state.sequence key).toInt - b.count
  | .keep _ | .reserveOther _ _ | .rollbackOther _ _ => True

/-- The blocks are apart and below the counter. -/
structure Inv (key : PartKey) (st : Senders) : Prop where
  counter : 0 ≤ (st.state.sequence key).toInt
  below : ∀ b ∈ st.blocks, ∀ seq, b.Has seq → 0 ≤ seq ∧ seq < (st.state.sequence key).toInt
  apart : st.blocks.Pairwise SeqBlock.Apart

theorem Inv.of_perm {st' : Senders} (h : st.Inv key)
    (hseq : st'.state.sequence key = st.state.sequence key) (hperm : st'.blocks.Perm st.blocks) :
    st'.Inv key := by
  refine ⟨hseq ▸ h.counter, fun b hb => hseq ▸ h.below b (hperm.mem_iff.1 hb), ?_⟩
  exact (hperm.pairwise_iff fun h => h.symm).2 h.apart

theorem Inv.count_le (h : st.Inv key) (hb : b ∈ st.blocks) :
    b.count ≤ (st.state.sequence key).toInt := by
  by_cases hzero : b.count = 0
  · rw [hzero]
    exact h.counter
  · have hfirst := h.below b hb b.base.toInt ⟨Int.le_refl _, by omega⟩
    have hlast := h.below b hb (b.base.toInt + b.count - 1) ⟨by omega, by omega⟩
    omega

/-- A safe action keeps the blocks apart. -/
theorem Inv.step (h : st.Inv key) {a : SenderAction} (henabled : st.Enabled key a)
    (hsafe : st.Safe key a) : (st.step key a).Inv key := by
  cases a with
  | reserve count =>
    have hnext := ProduceState.toInt_reserveBlock h.counter hsafe
    -- the new block is the numbers from the counter on
    have hnew : ∀ seq, SeqBlock.Has ⟨st.state.sequence key, count⟩ seq →
        (st.state.sequence key).toInt ≤ seq ∧ seq < (st.state.sequence key).toInt + count :=
      fun seq hseq => hseq
    refine ⟨?_, ?_, pairwise_cons.2 ⟨?_, h.apart⟩⟩
    · have hcounter := h.counter
      simp only [Senders.step]
      omega
    · intro b hb seq hseq
      simp only [Senders.step]
      have hcounter := h.counter
      rcases mem_cons.1 hb with rfl | hb
      · have := hnew seq hseq
        omega
      · have := h.below b hb seq hseq
        omega
    · intro b hb seq hseq hb'
      have := hnew seq hseq
      have := h.below b hb seq hb'
      omega
  | keep b =>
    refine h.of_perm rfl ?_
    have hperm := perm_cons_erase henabled
    exact (perm_middle.trans (hperm.symm.append_right st.kept))
  | rollback b =>
    have hb : b ∈ st.blocks := mem_append_left _ henabled
    have hnext := ProduceState.toInt_rollbackBlock (h.count_le hb)
    have hsub : (st.inFlight.erase b ++ st.kept).Sublist st.blocks :=
      erase_sublist.append_right _
    refine ⟨?_, ?_, h.apart.sublist hsub⟩
    · have hle := h.count_le hb
      simp only [Senders.step]
      omega
    · intro b' hb' seq hseq
      simp only [Senders.step, hnext]
      exact ⟨(h.below b' (hsub.subset hb') seq hseq).1, hsafe b' hb' seq hseq⟩
  | reserveOther key' count =>
    exact h.of_perm (ProduceState.sequence_reserveBlock_of_ne (Ne.symm henabled) _) (.refl _)
  | rollbackOther key' count =>
    exact h.of_perm (ProduceState.sequence_rollbackBlock_of_ne (Ne.symm henabled) _) (.refl _)

/-- In every run of safe actions the blocks in use are pairwise disjoint. -/
theorem blocks_disjoint (h : Reachable key (Safe key) st) : st.blocks.Pairwise SeqBlock.Apart := by
  have hinv : st.Inv key := by
    induction h with
    | start =>
      exact ⟨show 0 ≤ (0 : Int32).toInt by decide, nofun, .nil⟩
    | step _ henabled hsafe ih => exact ih.step henabled hsafe
  exact hinv.apart

/-- Partition 0 of topic `t`. -/
def topicT : PartKey := ⟨[116], 0⟩

/-- Two senders have reserved blocks. -/
def twoSenders : Senders := (({} : Senders).step topicT (.reserve 2)).step topicT (.reserve 3)

/-- The later one fails, and its numbers are reserved again. -/
theorem blocks_disjoint_laterFails :
    ((twoSenders.step topicT (.rollback ⟨2, 3⟩)).step topicT (.reserve 1)).blocks =
      [⟨2, 1⟩, ⟨0, 2⟩] ∧
    ((twoSenders.step topicT (.rollback ⟨2, 3⟩)).step topicT (.reserve 1)).blocks.Pairwise
      SeqBlock.Apart := by
  refine ⟨by decide, blocks_disjoint (.step (.step (.step (.step .start trivial ?_) trivial ?_)
    ?_ ?_) trivial ?_)⟩
  · show (0 : Int32).toInt + 2 < 2 ^ 31
    decide
  · show (2 : Int32).toInt + 3 < 2 ^ 31
    decide
  · show (⟨2, 3⟩ : SeqBlock) ∈ [⟨2, 3⟩, ⟨0, 2⟩]
    decide
  · intro b hb seq hseq
    obtain rfl : b = ⟨0, 2⟩ := mem_singleton.1 hb
    exact hseq.2
  · show (2 : Int32).toInt + 1 < 2 ^ 31
    decide

/-- The earlier one fails: the counter goes back into the block of the other. -/
theorem blocks_overlap : Reachable topicT (fun _ _ => True)
      ((twoSenders.step topicT (.rollback ⟨0, 2⟩)).step topicT (.reserve 1)) ∧
    ((twoSenders.step topicT (.rollback ⟨0, 2⟩)).step topicT (.reserve 1)).blocks =
      [⟨3, 1⟩, ⟨2, 3⟩] ∧
    ¬ ((twoSenders.step topicT (.rollback ⟨0, 2⟩)).step topicT (.reserve 1)).blocks.Pairwise
      SeqBlock.Apart := by
  have hblocks : ((twoSenders.step topicT (.rollback ⟨0, 2⟩)).step topicT (.reserve 1)).blocks =
    [⟨3, 1⟩, ⟨2, 3⟩] := by decide
  refine ⟨.step (.step (.step (.step .start trivial trivial) trivial trivial) ?_ trivial)
    trivial trivial, hblocks, ?_⟩
  · show (⟨0, 2⟩ : SeqBlock) ∈ [⟨2, 3⟩, ⟨0, 2⟩]
    decide
  · intro h
    -- both have the number 3
    exact rel_of_pairwise_cons h mem_cons_self 3 (by decide) (by decide)

end Senders

end GoKafka
