import Mathlib

/-!
# Dealing items to seats

Three ways of dealing a list of items to a row of seats: runs of consecutive items (`chunks`), one
item after the other in turn (`robin`) and each item to the seat with the least so far (`balance`).
`Dealt` is what they have in common: every item is dealt once, in hands that are not empty, and the
seats reached are the first ones of the row, as many as there are items. To seats that are all
different each of them deals evenly (`Evenly`).
-/

universe u v

namespace Deal

open List

variable {ι : Type u} {σ : Type v}

section Seats

variable [DecidableEq σ]

/-- The hands deal all the items and reach the first seats of the row. -/
structure Dealt (items : List ι) (seats : List σ) (hands : List (σ × List ι)) : Prop where
  perm : (hands.flatMap (·.2)).Perm items
  nonempty : ∀ h ∈ hands, h.2 ≠ []
  seat : ∀ h ∈ hands, h.1 ∈ seats
  reaches : ∀ s ∈ seats, (∃ h ∈ hands, h.1 = s) ↔ seats.idxOf s < items.length

variable {s : σ} {seats : List σ} {bs : List (List ι)}

variable {hands : List (σ × List ι)}

theorem Dealt.of_perm (h : Dealt items seats hands) (hperm : items.Perm items') :
    Dealt items' seats hands :=
  ⟨h.perm.trans hperm, h.nonempty, h.seat, fun s hs => hperm.length_eq ▸ h.reaches s hs⟩

/-- Where no item comes twice, a seat has an item only if it is the one it was dealt to. -/
theorem Dealt.seat_unique (h : Dealt items seats hands) (hnodup : items.Nodup) (hg : g ∈ hands)
    (hg' : g' ∈ hands) (hx : x ∈ g.2) (hx' : x ∈ g'.2) : g.1 = g'.1 := by
  obtain ⟨-, hdisjoint⟩ := nodup_flatMap.1 (h.perm.nodup_iff.2 hnodup)
  have : Std.Symm (Function.onFun List.Disjoint fun g : σ × List ι => g.2) :=
    ⟨fun _ _ hd => hd.symm⟩
  by_contra hne
  exact hdisjoint.forall hg hg' (fun heq => hne (congrArg Prod.fst heq)) hx hx'

/-! ## What a seat holds -/

/-- The items a seat holds. -/
def held (hands : List (σ × List ι)) (s : σ) : List ι := (hands.filter (·.1 = s)).flatMap (·.2)

/-- Any two seats hold the same number of items, up to one. -/
def Evenly (seats : List σ) (hands : List (σ × List ι)) : Prop :=
  ∀ s ∈ seats, ∀ t ∈ seats, (held hands s).length ≤ (held hands t).length + 1

theorem held_cons_self : held ((s, items) :: hands) s = items ++ held hands s := by
  simp [held]

theorem held_cons_ne (h : t ≠ s) : held ((t, items) :: hands) s = held hands s := by
  simp [held, h]

theorem held_eq_nil (h : ∀ g ∈ hands, g.1 ≠ s) : held hands s = [] := by
  rw [held, filter_eq_nil_iff.2 fun g hg => by simpa using h g hg]
  rfl

theorem mem_held : x ∈ held hands s ↔ ∃ items, (s, items) ∈ hands ∧ x ∈ items := by
  simp [held]

theorem held_append : held (hands ++ hands') s = held hands s ++ held hands' s := by
  simp [held]

theorem length_held_pos (h : ∀ g ∈ hands, g.2 ≠ []) :
    0 < (held hands s).length ↔ ∃ g ∈ hands, g.1 = s := by
  rw [length_pos_iff_exists_mem]
  constructor
  · rintro ⟨x, hx⟩
    obtain ⟨items, hmem, -⟩ := mem_held.1 hx
    exact ⟨_, hmem, rfl⟩
  · rintro ⟨g, hg, rfl⟩
    obtain ⟨x, hx⟩ := exists_mem_of_ne_nil _ (h g hg)
    exact ⟨x, mem_held.2 ⟨g.2, hg, hx⟩⟩

/-! ## Runs of consecutive items -/

/-- What the seat at a position gets: `per` items, and one more before position `extra`. -/
def share (per extra i : Nat) : Nat := if i < extra then per + 1 else per

theorem share_le : share per extra i ≤ share per extra j + 1 := by
  rw [share, share]
  split_ifs <;> omega

variable {n : Nat}

theorem share_pos_iff (hj : j < n) : 0 < share (items / n) (items % n) j ↔ j < items := by
  rw [share]
  rcases Nat.lt_or_ge items n with hlt | hge
  · rw [Nat.div_eq_of_lt hlt, Nat.mod_eq_of_lt hlt]
    split_ifs <;> omega
  · have hpos := Nat.div_pos hge (Nat.zero_lt_of_lt hj)
    split_ifs <;> omega

/-- The loop that deals each seat its share of the items that are left. -/
def chunks (per extra : Nat) : Nat → List ι → List σ → List (σ × List ι)
  | _, _, [] => []
  | i, items, s :: seats =>
    let count := share per extra i
    if count = 0 then chunks per extra (i + 1) items seats
    else (s, items.take count) :: chunks per extra (i + 1) (items.drop count) seats

section Chunks

variable {per extra i : Nat} {items : List ι} {seats : List σ}

omit [DecidableEq σ] in
theorem chunks_cons_of_zero (h : share per extra i = 0) :
    chunks per extra i items (s :: seats) = chunks per extra (i + 1) items seats :=
  if_pos h

omit [DecidableEq σ] in
theorem chunks_cons_of_pos (h : share per extra i ≠ 0) :
    chunks per extra i items (s :: seats) = (s, items.take (share per extra i)) ::
      chunks per extra (i + 1) (items.drop (share per extra i)) seats :=
  if_neg h

/-- The items that are left are the shares of the seats that are left. -/
structure Left (per extra i : Nat) (items : List ι) (seats : List σ) : Prop where
  extra_le : extra ≤ i + seats.length
  length : items.length = seats.length * per + (extra - i)

omit [DecidableEq σ] in
theorem Left.next (h : Left per extra i items (s :: seats)) : share per extra i ≤ items.length ∧
      Left per extra (i + 1) (items.drop (share per extra i)) seats := by
  obtain ⟨hle, hlen⟩ := h
  rw [length_cons] at hle hlen
  rw [Nat.succ_mul] at hlen
  have hshare : share per extra i + (extra - (i + 1)) = per + (extra - i) := by
    rw [share]
    split_ifs <;> omega
  refine ⟨by omega, by omega, ?_⟩
  rw [length_drop]
  omega

omit [DecidableEq σ] in
/-- A seat without a share leaves the items as they are. -/
theorem Left.skip (h : Left per extra i items (s :: seats)) (hzero : share per extra i = 0) :
    Left per extra (i + 1) items seats := by
  have hnext := h.next.2
  rwa [hzero] at hnext

omit [DecidableEq σ] in
/-- The runs are the items, in order. -/
theorem flatMap_chunks (h : Left per extra i items seats) :
    (chunks per extra i items seats).flatMap (·.2) = items := by
  fun_induction chunks with
  | case1 i items =>
    obtain ⟨hle, hlen⟩ := h
    rw [length_nil] at hle hlen
    exact (length_eq_zero_iff.1 (by omega)).symm
  | case2 i items s seats count hzero ih => exact ih (h.skip hzero)
  | case3 i items s seats count hpos ih => rw [flatMap_cons, ih h.next.2, take_append_drop]

omit [DecidableEq σ] in
/-- Every run has items, and is that of a seat in the row. -/
theorem mem_chunks (h : Left per extra i items seats) (hg : g ∈ chunks per extra i items seats) :
    g.2 ≠ [] ∧ g.1 ∈ seats := by
  fun_induction chunks with
  | case1 => cases hg
  | case2 i items s seats count hzero ih =>
    exact (ih (h.skip hzero) hg).imp_right (mem_cons_of_mem _)
  | case3 i items s seats count hpos ih =>
    rcases mem_cons.1 hg with rfl | hg
    · have hle := h.next.1
      refine ⟨ne_nil_of_length_pos ?_, mem_cons_self⟩
      rw [length_take]
      omega
    · exact (ih h.next.2 hg).imp_right (mem_cons_of_mem _)

omit [DecidableEq σ] in
/-- The seats without a share are the last ones. -/
theorem chunks_eq_nil (h : share per extra i = 0) : chunks per extra i items seats = [] := by
  fun_induction chunks with
  | case1 => rfl
  | case2 i items s seats count hzero ih =>
    refine ih ?_
    rw [share] at h ⊢
    split_ifs at h ⊢ <;> omega
  | case3 i items s seats count hpos => exact absurd h hpos

/-- A seat gets a run when its first place in the row has a share. -/
theorem chunks_reaches (ht : t ∈ seats) : (∃ g ∈ chunks per extra i items seats, g.1 = t) ↔
      share per extra (i + seats.idxOf t) ≠ 0 := by
  induction seats generalizing i items with
  | nil => cases ht
  | cons s seats ih =>
    by_cases hst : s = t
    · rw [hst, idxOf_cons_self, Nat.add_zero]
      constructor
      · rintro ⟨g, hg, -⟩ hzero
        rw [chunks_eq_nil hzero] at hg
        cases hg
      · intro hpos
        rw [chunks_cons_of_pos hpos]
        exact ⟨_, mem_cons_self, rfl⟩
    · have ht : t ∈ seats := mem_of_ne_of_mem (Ne.symm hst) ht
      rw [idxOf_cons_ne seats hst, Nat.succ_eq_add_one, ← Nat.add_assoc, Nat.add_right_comm]
      by_cases hzero : share per extra i = 0
      · rw [chunks_cons_of_zero hzero]
        exact ih ht
      · rw [chunks_cons_of_pos hzero, ← @ih (i + 1) (items.drop (share per extra i)) ht]
        simp [hst]

omit [DecidableEq σ] in
theorem left_start (items : List ι) (hseats : seats ≠ []) :
    Left (items.length / seats.length) (items.length % seats.length) 0 items seats := by
  have hmod := Nat.mod_lt items.length (length_pos_iff.2 hseats)
  refine ⟨by omega, ?_⟩
  rw [Nat.sub_zero, Nat.div_add_mod]

end Chunks

/-- Dealing each of `n` seats its share of the items: an `n`-th part, and one of the rest. -/
theorem dealt_chunks (hseats : seats ≠ []) : Dealt items seats
      (chunks (items.length / seats.length) (items.length % seats.length) 0 items seats) := by
  have hleft := left_start items hseats
  refine ⟨?_, fun g hg => (mem_chunks hleft hg).1, fun g hg => (mem_chunks hleft hg).2, ?_⟩
  · rw [flatMap_chunks hleft]
  · intro s hs
    rw [chunks_reaches hs, Nat.zero_add, ← Nat.pos_iff_ne_zero]
    exact share_pos_iff (idxOf_lt_length_iff.2 hs)

theorem length_held_chunks (h : Left per extra i items seats) (hnodup : seats.Nodup)
    (hs : s ∈ seats) :
    (held (chunks per extra i items seats) s).length = share per extra (i + seats.idxOf s) := by
  induction seats generalizing i items with
  | nil => cases hs
  | cons t seats ih =>
    have ⟨hnot, hnodup⟩ := nodup_cons.1 hnodup
    have ⟨hle, hleft⟩ := h.next
    by_cases hts : t = s
    · subst hts
      rw [idxOf_cons_self, Nat.add_zero]
      by_cases hzero : share per extra i = 0
      · rw [chunks_eq_nil hzero, hzero]
        rfl
      · have hrest :
          held (chunks per extra (i + 1) (items.drop (share per extra i)) seats) t = [] :=
          held_eq_nil fun g hg heq => hnot (heq ▸ (mem_chunks hleft hg).2)
        rw [chunks_cons_of_pos hzero, held_cons_self, hrest, append_nil, length_take_of_le hle]
    · have hs : s ∈ seats := mem_of_ne_of_mem (Ne.symm hts) hs
      rw [idxOf_cons_ne seats hts, Nat.succ_eq_add_one, ← Nat.add_assoc, Nat.add_right_comm]
      by_cases hzero : share per extra i = 0
      · rw [hzero, drop_zero] at hleft
        rw [chunks_cons_of_zero hzero]
        exact ih hleft hnodup hs
      · rw [chunks_cons_of_pos hzero, held_cons_ne hts]
        exact ih hleft hnodup hs

theorem even_chunks (hnodup : seats.Nodup) : Evenly seats
      (chunks (items.length / seats.length) (items.length % seats.length) 0 items seats) := by
  intro s hs t ht
  have hleft := left_start items (ne_nil_of_mem hs)
  rw [length_held_chunks hleft hnodup hs, length_held_chunks hleft hnodup ht]
  exact share_le

/-! ## One item after the other -/

/-- The loop that puts the item at a position into its bucket. -/
def buckets (n : Nat) : Nat → List ι → List (List ι) → List (List ι)
  | _, [], bs => bs
  | i, x :: items, bs => buckets n (i + 1) items (bs.modify (i % n) (· ++ [x]))

/-- The hands of a row of seats: the buckets that are not empty. -/
def robin (items : List ι) (seats : List σ) : List (σ × List ι) :=
  (seats.zip (buckets seats.length 0 items (List.replicate seats.length []))).filter
    fun g => !g.2.isEmpty

/-- After `q` full turns and `r` more items. -/
structure Turns (n q r : Nat) (bs : List (List ι)) : Prop where
  length : bs.length = n
  lt : r < n
  lengths : ∀ j (h : j < bs.length), bs[j].length = share q r j

theorem Turns.step {q r : Nat} (h : Turns n q r bs) (x : ι) :
    ∃ q' r', q' * n + r' = q * n + r + 1 ∧ Turns n q' r' (bs.modify r (· ++ [x])) := by
  have hlt := h.lt
  have hlengths : ∀ j (hj : j < (bs.modify r (· ++ [x])).length),
      (bs.modify r (· ++ [x]))[j].length = share q (r + 1) j := by
    intro j hj
    rw [length_modify] at hj
    have hj' := h.lengths j hj
    rw [share] at hj' ⊢
    rw [getElem_modify]
    split_ifs at hj' ⊢
    all_goals first | rw [length_append, length_singleton] | skip
    all_goals omega
  have hlength : (bs.modify r (· ++ [x])).length = n := by rw [length_modify, h.length]
  rcases Nat.lt_or_ge (r + 1) n with hr | hr
  · exact ⟨q, r + 1, rfl, hlength, hr, hlengths⟩
  · -- the turn is complete
    refine ⟨q + 1, 0, by rw [Nat.succ_mul]; omega, hlength, by omega, fun j hj => ?_⟩
    rw [hlengths j hj, share, share, if_pos (by omega), if_neg (Nat.not_lt_zero j)]

theorem Turns.run (h : Turns n q r bs) (items : List ι) :
    ∃ q' r', q' * n + r' = q * n + r + items.length ∧
      Turns n q' r' (buckets n (q * n + r) items bs) := by
  induction items generalizing q r bs with
  | nil => exact ⟨q, r, rfl, h⟩
  | cons x items ih =>
    obtain ⟨q', r', hnext, hstep⟩ := h.step x
    have hmod : (q * n + r) % n = r := by
      rw [Nat.add_comm, Nat.add_mul_mod_self_right, Nat.mod_eq_of_lt h.lt]
    obtain ⟨q'', r'', hcount, hrun⟩ := ih hstep
    rw [hnext, Nat.add_assoc, Nat.add_comm 1] at hcount
    rw [buckets, hmod, ← hnext]
    exact ⟨q'', r'', hcount, hrun⟩

/-- The buckets of all the items. -/
theorem turns_buckets (items : List ι) (hn : 0 < n) : Turns n (items.length / n)
    (items.length % n) (buckets n 0 items (List.replicate n [])) := by
  have hstart : Turns n 0 0 (List.replicate n ([] : List ι)) :=
    ⟨length_replicate, hn, by simp [share]⟩
  obtain ⟨q, r, hcount, hturns⟩ := hstart.run items
  rw [Nat.zero_mul, Nat.zero_add] at hcount
  have hdiv : items.length / n = q := by
    rw [← hcount, Nat.mul_comm, Nat.mul_add_div hn, Nat.div_eq_of_lt hturns.lt, Nat.add_zero]
  have hmod : items.length % n = r := by
    rw [← hcount, Nat.mul_add_mod_of_lt hturns.lt]
  rw [Nat.zero_mul] at hturns
  rw [hdiv, hmod]
  exact hturns

theorem map_length_buckets (hn : 0 < n) :
    (buckets n 0 items (List.replicate n [])).map List.length =
      (List.range' 0 n).map (share (items.length / n) (items.length % n)) := by
  have hturns := turns_buckets items hn
  refine ext_getElem (by simp [hturns.length]) fun j hj hj' => ?_
  rw [length_map] at hj
  rw [getElem_map, hturns.lengths j hj, getElem_map]
  simp

/-- Putting an item into a bucket. -/
theorem flatten_modify_perm (hj : j < bs.length) (x : ι) :
    (bs.modify j (· ++ [x])).flatten.Perm (bs.flatten ++ [x]) := by
  induction bs generalizing j with
  | nil => cases hj
  | cons b bs ih =>
    cases j with
    | zero =>
      rw [modify_zero_cons, flatten_cons, flatten_cons, append_assoc, append_assoc]
      exact perm_append_comm.append_left b
    | succ j =>
      rw [modify_succ_cons, flatten_cons, flatten_cons, append_assoc]
      exact (ih (Nat.lt_of_succ_lt_succ hj)).append_left b

theorem buckets_perm {i : Nat} (hn : 0 < n) (items : List ι) (hlen : bs.length = n) :
    (buckets n i items bs).flatten.Perm (bs.flatten ++ items) := by
  induction items generalizing i bs with
  | nil => rw [buckets, append_nil]
  | cons x items ih =>
    have hrest := @ih (bs.modify (i % n) (· ++ [x])) (i + 1) (by rw [length_modify, hlen])
    have hj : i % n < bs.length := by
      rw [hlen]
      exact Nat.mod_lt i hn
    have hstep := flatten_modify_perm hj x
    have htrans := hrest.trans (hstep.append_right items)
    rwa [append_assoc, singleton_append] at htrans

omit [DecidableEq σ] in
/-- Leaving out empty hands leaves out no item. -/
theorem flatMap_filter_nonempty :
    (hands.filter fun g => !g.2.isEmpty).flatMap (·.2) = hands.flatMap (·.2) := by
  induction hands with
  | nil => rfl
  | cons g hands ih =>
    rw [filter_cons]
    split_ifs with hg
    · rw [flatMap_cons, flatMap_cons, ih]
    · have hnil : g.2 = [] := by simpa using hg
      rw [flatMap_cons, hnil, nil_append, ih]

/-- The first place of a seat. -/
theorem idxOf_getElem_le (hj : j < seats.length) : seats.idxOf seats[j] ≤ j := by
  refine not_lt.1 fun hlt => ?_
  have hne := not_of_lt_findIdx hlt
  simp at hne

/-- Dealing in turn. -/
theorem dealt_robin (hseats : seats ≠ []) : Dealt items seats (robin items seats) := by
  have hpos := length_pos_iff.2 hseats
  have hturns := turns_buckets items hpos
  have hperm := @buckets_perm _ (List.replicate seats.length []) _ 0 hpos items length_replicate
  generalize hbs : buckets seats.length 0 items (List.replicate seats.length []) = bs at *
  have hrobin : robin items seats = (seats.zip bs).filter fun g => !g.2.isEmpty := by
    rw [robin, hbs]
  have hbucket {j : Nat} (hj : j < bs.length) : bs[j] ≠ [] ↔ j < items.length := by
    rw [← length_pos_iff, hturns.lengths j hj]
    exact share_pos_iff (hturns.length ▸ hj)
  refine ⟨?_, ?_, ?_, ?_⟩
  · rw [hrobin, flatMap_filter_nonempty, flatMap_def, map_snd_zip hturns.length.le]
    simpa using hperm
  · intro g hg
    simpa using (mem_filter.1 hg).2
  · intro g hg
    exact (of_mem_zip (mem_filter.1 hg).1).1
  · intro s hs
    rw [hrobin]
    have hidx := idxOf_lt_length_iff.2 hs
    constructor
    · rintro ⟨g, hg, rfl⟩
      obtain ⟨hzip, hne⟩ := mem_filter.1 hg
      obtain ⟨j, hj, rfl⟩ := mem_iff_getElem.1 hzip
      rw [getElem_zip] at hne ⊢
      rw [length_zip, Nat.lt_min] at hj
      have hlt : j < items.length := (hbucket hj.2).1 (by simpa using hne)
      exact (idxOf_getElem_le hj.1).trans_lt hlt
    · intro hlt
      have hbs : seats.idxOf s < bs.length := hturns.length ▸ hidx
      refine ⟨(seats[seats.idxOf s], bs[seats.idxOf s]),
        mem_filter.2 ⟨?_, by simpa using (hbucket hbs).2 hlt⟩, getElem_idxOf hidx⟩
      have hzip : seats.idxOf s < (seats.zip bs).length := by
        rw [length_zip]
        exact lt_min hidx hbs
      rw [← getElem_zip (h := hzip)]
      exact getElem_mem hzip

theorem held_filter_nonempty : held (hands.filter fun g => !g.2.isEmpty) s = held hands s := by
  rw [held, filter_comm, flatMap_filter_nonempty]
  rfl

/-! ### Rows in which every seat comes as often -/

/-- What the seat at a place of the row holds when every seat comes `c` times: `c` shares in a
row. -/
def blockShare (items places c k : Nat) : Nat :=
  c * (items / (places * c)) +
    (min (items % (places * c)) (k * c + c) - min (items % (places * c)) (k * c))

/-- Shares in a row. -/
theorem sum_share : ((List.range' i c).map (share per extra)).sum =
      c * per + (min extra (i + c) - min extra i) := by
  induction c generalizing i with
  | zero => simp
  | succ c ih =>
    rw [List.range'_succ, map_cons, sum_cons, ih, share, Nat.succ_mul]
    split_ifs <;> omega

omit [DecidableEq σ] in
/-- The shares of a row of different seats. -/
theorem share_eq_blockShare :
    share (items / places) (items % places) k = blockShare items places 1 k := by
  rw [share, blockShare, Nat.mul_one]
  split_ifs <;> omega

theorem held_zip_replicate (s : σ) (bs : List (List ι)) :
    held ((List.replicate bs.length s).zip bs) s = bs.flatten := by
  induction bs with
  | nil => rfl
  | cons b bs ih =>
    rw [length_cons, replicate_succ, zip_cons_cons, held_cons_self, ih, flatten_cons]

theorem length_held_zip_blocks {row : List σ} (hnodup : row.Nodup)
    (hbs : bs.map List.length = (List.range' i (row.length * c)).map f) (hs : s ∈ row) :
    (held ((row.flatMap (List.replicate c)).zip bs) s).length =
      ((List.range' (i + row.idxOf s * c) c).map f).sum := by
  induction row generalizing i bs with
  | nil => cases hs
  | cons t row ih =>
    have ⟨hnot, hnodup⟩ := nodup_cons.1 hnodup
    rw [length_cons, Nat.succ_mul, Nat.add_comm, ← List.range'_append_1, map_append] at hbs
    obtain ⟨front, rest, rfl, hfront, hrest⟩ := map_eq_append_iff.1 hbs
    have hlen : front.length = c := by
      have h := congrArg List.length hfront
      rwa [length_map, length_map, length_range'] at h
    rw [flatMap_cons, zip_append (by rw [length_replicate, hlen]), held_append, length_append]
    by_cases hts : t = s
    · subst hts
      have hnil : held ((row.flatMap (List.replicate c)).zip rest) t = [] := by
        refine held_eq_nil fun g hg heq => hnot ?_
        obtain ⟨u, hu, hmem⟩ := mem_flatMap.1 (of_mem_zip hg).1
        rw [← heq, eq_of_mem_replicate hmem]
        exact hu
      have hown := held_zip_replicate t front
      rw [hlen] at hown
      rw [hnil, hown, length_flatten, hfront]
      simp
    · have hnil : held ((List.replicate c t).zip front) s = [] := by
        refine held_eq_nil fun g hg heq => hts ?_
        rw [← heq, eq_of_mem_replicate (of_mem_zip hg).1]
      rw [hnil, ih hnodup hrest (mem_of_ne_of_mem (Ne.symm hts) hs),
        idxOf_cons_ne row hts, Nat.succ_mul, length_nil, Nat.zero_add, Nat.add_assoc,
        Nat.add_comm c]

theorem length_held_robin (items : List ι) {row : List σ} (hnodup : row.Nodup) (hc : 0 < c)
    (hs : s ∈ row) :
    (held (robin items (row.flatMap (List.replicate c))) s).length =
      blockShare items.length row.length c (row.idxOf s) := by
  have hlen : (row.flatMap (List.replicate c)).length = row.length * c := by simp
  have hpos : 0 < row.length * c := Nat.mul_pos (length_pos_of_mem hs) hc
  rw [robin, held_filter_nonempty, hlen,
    length_held_zip_blocks hnodup (map_length_buckets hpos) hs, sum_share, Nat.zero_add,
    blockShare]

theorem even_robin (hnodup : seats.Nodup) : Evenly seats (robin items seats) := by
  intro s hs t ht
  have hone : seats.flatMap (List.replicate 1) = seats := flatMap_singleton' seats
  have hs := length_held_robin items hnodup Nat.one_pos hs
  have ht := length_held_robin items hnodup Nat.one_pos ht
  rw [hone, ← share_eq_blockShare] at hs ht
  rw [hs, ht]
  exact share_le

end Seats

/-! ## Each item to the least loaded seat -/

section Balance

variable [LinearOrder σ] [DecidableEq σ]

/-- The loop that looks for the seat with the least load, the first of them in the order of the
seats. -/
def leastLoaded (load : σ → Nat) : σ → List σ → σ
  | best, [] => best
  | best, s :: seats =>
    if load s < load best ∨ load s = load best ∧ s < best then leastLoaded load s seats
    else leastLoaded load best seats

/-- The loop that deals each item to the seat with the least load. -/
def balance (seat : σ) (seats : List σ) : (σ → Nat) → List ι → List (σ × List ι)
  | _, [] => []
  | load, x :: items =>
    let s := leastLoaded load seat seats
    (s, [x]) :: balance seat seats (Function.update load s (load s + 1)) items

omit [DecidableEq σ] in
/-- The seat found has the least load, and is the first of those. -/
theorem leastLoaded_spec (load : σ → Nat) (best : σ) (seats : List σ) :
    leastLoaded load best seats ∈ best :: seats ∧
      ∀ s ∈ best :: seats, load (leastLoaded load best seats) < load s ∨
        load (leastLoaded load best seats) = load s ∧ leastLoaded load best seats ≤ s := by
  -- the loop looks for a minimum of the lexicographic order of loads and seats
  simp only [← Prod.Lex.toLex_le_toLex (x := (_, _)) (y := (_, _))]
  fun_induction leastLoaded load best seats with
  | case1 best => simp
  | case2 best s seats hlt ih =>
    have hlt := (Prod.Lex.toLex_lt_toLex (x := (load s, s)) (y := (load best, best))).2 hlt
    exact ⟨mem_cons_of_mem _ ih.1,
      forall_mem_cons.2 ⟨(ih.2 s mem_cons_self).trans hlt.le, ih.2⟩⟩
  | case3 best s seats hge ih =>
    have hge := mt (Prod.Lex.toLex_lt_toLex (x := (load s, s)) (y := (load best, best))).1 hge
    obtain ⟨hbest, hall⟩ := forall_mem_cons.1 ih.2
    refine ⟨?_, forall_mem_cons.2 ⟨hbest, forall_mem_cons.2 ⟨hbest.trans (not_lt.1 hge), hall⟩⟩⟩
    exact mem_cons.2 ((mem_cons.1 ih.1).imp_right (mem_cons_of_mem _))

variable {seats : List σ} {load : σ → Nat}

theorem flatMap_balance (load : σ → Nat) (items : List ι) :
    (balance seat seats load items).flatMap (·.2) = items := by
  induction items generalizing load with
  | nil => rfl
  | cons x items ih => rw [balance, flatMap_cons, ih, singleton_append]

theorem mem_balance (hg : g ∈ balance seat seats load items) : g.2 ≠ [] ∧ g.1 ∈ seat :: seats := by
  induction items generalizing load with
  | nil => cases hg
  | cons x items ih =>
    rcases mem_cons.1 hg with rfl | hg
    · exact ⟨cons_ne_nil _ _, (leastLoaded_spec load seat seats).1⟩
    · exact ih hg

/-- The next item raises the least load by one. -/
theorem load_add_held (hbest : leastLoaded load seat seats = best) :
    Function.update load best (load best + 1) s +
        (held (balance seat seats (Function.update load best (load best + 1)) items) s).length =
      load s + (held (balance seat seats load (x :: items)) s).length := by
  rw [balance, hbest]
  by_cases hs : best = s
  · subst hs
    rw [Function.update_self, held_cons_self, length_append, length_singleton]
    omega
  · rw [Function.update_of_ne (Ne.symm hs), held_cons_ne hs]

/-- The seats' loads when the items have been dealt in turn. -/
def Level (row : List σ) (i : Nat) (load : σ → Nat) : Prop :=
  ∀ s ∈ row, load s = share (i / row.length) (i % row.length) (row.idxOf s)

omit [LinearOrder σ] [DecidableEq σ] in
/-- One more item in turn. -/
theorem share_succ (hj : j < n) :
    share ((i + 1) / n) ((i + 1) % n) j = share (i / n) (i % n) j + if j = i % n then 1 else 0 := by
  have hlt := Nat.mod_lt i (Nat.zero_lt_of_lt hj)
  have hi := Nat.div_add_mod i n
  rcases Nat.lt_or_ge (i % n + 1) n with hnext | hnext
  · have hi' : i + 1 = n * (i / n) + (i % n + 1) := by omega
    have hdiv : (i + 1) / n = i / n := by
      rw [hi', Nat.mul_add_div (by omega), Nat.div_eq_of_lt hnext, Nat.add_zero]
    have hmod : (i + 1) % n = i % n + 1 := by
      rw [hi', Nat.mul_comm, Nat.mul_add_mod_of_lt hnext]
    rw [share, share]
    split_ifs <;> omega
  · -- the turn is complete
    have hi' : i + 1 = n * (i / n + 1) := by
      rw [Nat.mul_succ]
      omega
    have hdiv : (i + 1) / n = i / n + 1 := by rw [hi', Nat.mul_div_cancel_left _ (by omega)]
    have hmod : (i + 1) % n = 0 := by rw [hi', Nat.mul_mod_right]
    rw [share, share]
    split_ifs <;> omega

/-- In a row in order, the least loaded seat is the one whose turn it is. -/
theorem Level.step {row : List σ} (hsorted : row.Pairwise (· < ·)) {i : Nat} (h : Level row i load)
    {s : σ} (hs : s ∈ row) (hleast : ∀ t ∈ row, load s < load t ∨ load s = load t ∧ s ≤ t) :
    Level row (i + 1) (Function.update load s (load s + 1)) := by
  have hnodup : row.Nodup := hsorted.imp ne_of_lt
  have hidx : row.idxOf s < row.length := idxOf_lt_length_iff.2 hs
  have hturn : i % row.length < row.length := Nat.mod_lt i (length_pos_of_mem hs)
  have hloadTurn := h row[i % row.length] (getElem_mem hturn)
  rw [hnodup.idxOf_getElem _ hturn, share, if_neg (lt_irrefl _)] at hloadTurn
  have hload := h s hs
  have hplace : row.idxOf s = i % row.length := by
    rcases Nat.lt_trichotomy (row.idxOf s) (i % row.length) with hlt | heq | hgt
    · -- it has had its item of this turn
      rw [share, if_pos hlt] at hload
      rcases hleast _ (getElem_mem hturn) with hless | ⟨heq, -⟩ <;> omega
    · exact heq
    · -- the seat whose turn it is comes before it
      have hbefore : row[i % row.length] < s := by
        have := pairwise_iff_getElem.1 hsorted _ _ hturn hidx hgt
        rwa [getElem_idxOf] at this
      rw [share, if_neg (by omega)] at hload
      rcases hleast _ (getElem_mem hturn) with hless | ⟨-, hle⟩
      · omega
      · exact absurd hbefore (not_lt.2 hle)
  intro t ht
  rw [share_succ (idxOf_lt_length_iff.2 ht), ← h t ht, ← hplace]
  by_cases hts : t = s
  · subst hts
    rw [Function.update_self, if_pos rfl]
  · rw [Function.update_of_ne hts, if_neg fun heq => hts ((idxOf_inj ht).1 heq), Nat.add_zero]

/-- What a seat holds after dealing to the least loaded. -/
theorem load_add_length_held (hrow : ∀ s, s ∈ row ↔ s ∈ seat :: seats)
    (hsorted : row.Pairwise (· < ·)) (items : List ι) (h : Level row i load) (hs : s ∈ row) :
    load s + (held (balance seat seats load items) s).length =
      share ((i + items.length) / row.length) ((i + items.length) % row.length)
        (row.idxOf s) := by
  induction items generalizing i load with
  | nil => exact h s hs
  | cons x items ih =>
    have ⟨hmem, hleast⟩ := leastLoaded_spec load seat seats
    generalize hbest : leastLoaded load seat seats = best at hmem hleast
    have hstep := h.step hsorted ((hrow best).2 hmem) fun t ht => hleast t ((hrow t).1 ht)
    rw [← load_add_held hbest, ih hstep, length_cons, Nat.add_assoc, Nat.add_comm 1]

section Start

variable {seat : σ} {row : List σ} (hrow : ∀ s, s ∈ row ↔ s ∈ seat :: seats)
  (hsorted : row.Pairwise (· < ·)) (items : List ι)
include hrow hsorted

theorem length_held_balance (hs : s ∈ row) :
    (held (balance seat seats (fun _ => 0) items) s).length =
      share (items.length / row.length) (items.length % row.length) (row.idxOf s) := by
  have hstart : Level row 0 fun _ => 0 := fun t _ => by simp [share]
  have hheld := load_add_length_held hrow hsorted items hstart hs
  rwa [Nat.zero_add, Nat.zero_add] at hheld

/-- Dealing to the least loaded of seats without a load: a seat that comes several times counts
once. -/
theorem dealt_balance : Dealt items row (balance seat seats (fun _ => 0) items) := by
  refine ⟨?_, fun g hg => (mem_balance hg).1, fun g hg => (hrow _).2 (mem_balance hg).2, ?_⟩
  · rw [flatMap_balance]
  · intro s hs
    rw [← length_held_pos fun g hg => (mem_balance hg).1,
      length_held_balance hrow hsorted items hs]
    exact share_pos_iff (idxOf_lt_length_iff.2 hs)

theorem even_balance : Evenly row (balance seat seats (fun _ => 0) items) := by
  intro s hs t ht
  rw [length_held_balance hrow hsorted items hs, length_held_balance hrow hsorted items ht]
  exact share_le

end Start

end Balance

/-! ## Places in a row in order -/

section Places

variable [LinearOrder σ] [DecidableEq σ] [DecidableLT σ]

/-- The first place of a seat in a row in order is the number of smaller seats. -/
theorem idxOf_eq_countP {seats : List σ} (hsorted : seats.Pairwise (· ≤ ·)) (hs : s ∈ seats) :
    seats.idxOf s = seats.countP (· < s) := by
  induction seats with
  | nil => cases hs
  | cons t seats ih =>
    have ⟨hfirst, hsorted⟩ := pairwise_cons.1 hsorted
    by_cases hts : t = s
    · subst hts
      have hnone : seats.countP (· < t) = 0 := countP_eq_zero.2 fun u hu => by
        simpa using hfirst u hu
      rw [countP_cons, hnone]
      simp
    · have hs : s ∈ seats := mem_of_ne_of_mem (Ne.symm hts) hs
      have hlt : t < s := lt_of_le_of_ne (hfirst s hs) hts
      rw [idxOf_cons_ne seats hts, ih hsorted hs]
      simp [hlt]

end Places

end Deal
