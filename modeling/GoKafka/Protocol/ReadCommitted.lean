import GoKafka.Protocol.PartitionLog

/-!
# read_committed filtering

A transactional log and what a read_committed consumer must see of it. The batches of a producer
id are its transactions one after the other: a run of data batches ended by a commit or an abort
marker (`openTxn` is the state of that automaton after a prefix of the log, `TxnBatch.txnStart` the
first offset of the transaction a data batch belongs to). A Fetch answers with a contiguous range of
the log and the aborted transactions that overlap it (`AbortedTxns`). `deliverAll_range` says that
the decoder hides exactly the batches of those transactions: at every batch the marked producers are
those whose open transaction is listed and has been passed by the cursor (`Inv`).

The last section is about lists in another order. The cursor never looks behind the entry it stands
at, so what counts is the offset at which each producer is reached: two lists decode every blob
alike if and only if they agree on that (`decodeRecordBatch_eq_iff`).
-/

namespace GoKafka

open Frontier List

/-! ## Transactions of a log -/

/-- What a batch is to its producer's transactions. -/
inductive BatchKind where
  | plain
  | data
  | commit
  | abort
  deriving DecidableEq

/-- A commit or abort marker, which is a control batch. -/
def BatchKind.isMarker : BatchKind → Bool
  | .plain | .data => false
  | .commit | .abort => true

/-- A log batch with its part in a transaction, which its attributes show as far as the decoder
looks: they do not tell commit from abort. -/
structure TxnBatch (C : Codecs) (topic : Bytes) (part : Int32) extends LogBatch C topic part where
  kind : BatchKind
  control_eq : info.isControl = kind.isMarker
  transactional_eq : kind.isMarker = false → info.isTransactional = decide (kind = .data)

variable {C : Codecs} {topic : Bytes} {part : Int32}

namespace TxnBatch

abbrev baseOffset (b : TxnBatch C topic part) : Int64 := b.info.baseOffset
abbrev producerID (b : TxnBatch C topic part) : Int64 := b.info.producerID

/-- A data batch of the producer opens its transaction, if none is open. -/
def opens (p : Int64) (o : Option Int64) (b : TxnBatch C topic part) : Option Int64 :=
  if b.kind = .data ∧ b.producerID = p then some (o.getD b.baseOffset) else o

/-- A marker of the producer closes its transaction. -/
def step (p : Int64) (o : Option Int64) (b : TxnBatch C topic part) : Option Int64 :=
  if b.kind.isMarker ∧ b.producerID = p then none else b.opens p o

end TxnBatch

/-- The first offset of the producer's open transaction after a prefix of the log. -/
def openTxn (p : Int64) (log : List (TxnBatch C topic part)) : Option Int64 :=
  log.foldl (TxnBatch.step p) none

/-- The first offset of the transaction of a data batch that follows a prefix of the log. -/
def TxnBatch.txnStart (before : List (TxnBatch C topic part)) (b : TxnBatch C topic part) : Int64 :=
  (openTxn b.producerID before).getD b.baseOffset

/-- The log in offset order. -/
def InOrder (log : List (TxnBatch C topic part)) : Prop :=
  log.Pairwise (·.baseOffset < ·.baseOffset)

/-- The transaction is aborted, by a marker in the range or behind it, and starts in the range or
before it: it overlaps the range. -/
def AbortedOverlap (pre range post : List (TxnBatch C topic part)) (e : AbortedTxn) : Prop :=
  (∃ m b rest, range ++ post = m ++ b :: rest ∧ b.kind = .abort ∧ b.producerID = e.producerID ∧
    openTxn e.producerID (pre ++ m) = some e.firstOffset) ∧
  ∃ b ∈ pre ++ range, b.baseOffset = e.firstOffset

/-- The aborted list of a Fetch response, ordered by first offset. -/
structure AbortedTxns (pre range post : List (TxnBatch C topic part))
    (aborted : List AbortedTxn) : Prop where
  sorted : aborted.Pairwise (·.firstOffset ≤ ·.firstOffset)
  mem_iff : ∀ e, e ∈ aborted ↔ AbortedOverlap pre range post e

/-- What a read_committed consumer sees of a batch that follows a prefix of the log: its records,
or one control entry with its last offset for a marker and for a batch of a listed transaction. -/
def TxnBatch.visible (aborted : List AbortedTxn) (before : List (TxnBatch C topic part))
    (b : TxnBatch C topic part) : List FetchedRecord :=
  match b.kind with
  | .plain => b.info.records
  | .data =>
    if ⟨b.producerID, b.txnStart before⟩ ∈ aborted then
      [controlMarker topic part b.info.lastOffset]
    else b.info.records
  | .commit | .abort => [controlMarker topic part b.info.lastOffset]

theorem openTxn_append : openTxn p (l ++ m) = m.foldl (TxnBatch.step p) (openTxn p l) :=
  List.foldl_append

theorem openTxn_concat : openTxn p (l ++ [b]) = b.step p (openTxn p l) := by
  rw [openTxn_append]
  rfl

variable {l : List (TxnBatch C topic part)}

/-- An open transaction was open already or starts at a data batch of the producer, at which none
was open. -/
theorem foldl_step_eq_some (h : l.foldl (TxnBatch.step p) o = some f) :
    o = some f ∨ ∃ l₁ b l₂, l = l₁ ++ b :: l₂ ∧ b.kind = .data ∧ b.producerID = p ∧
      b.baseOffset = f ∧ l₁.foldl (TxnBatch.step p) o = none := by
  induction l generalizing o with
  | nil => exact .inl h
  | cons b l ih =>
    rcases ih h with hstep | ⟨l₁, c, l₂, rfl, hkind, hpid, hbase, hnone⟩
    · rw [TxnBatch.step] at hstep
      split_ifs at hstep with hmark
      rw [TxnBatch.opens] at hstep
      split_ifs at hstep with hdata
      · cases o with
        | none => exact .inr ⟨[], b, l, rfl, hdata.1, hdata.2, Option.some.inj hstep, rfl⟩
        | some g => exact .inl hstep
      · exact .inl hstep
    · exact .inr ⟨b :: l₁, c, l₂, rfl, hkind, hpid, hbase, hnone⟩

theorem openTxn_mem (h : openTxn p l = some f) : ∃ b ∈ l, b.baseOffset = f := by
  rcases foldl_step_eq_some h with h | ⟨l₁, b, l₂, rfl, -, -, hbase, -⟩
  · cases h
  · exact ⟨b, by simp, hbase⟩

/-- The transactions aborted by the markers of `l`, which follows the prefix `before` of the log. -/
def abortedFrom (before : List (TxnBatch C topic part)) :
    List (TxnBatch C topic part) → List AbortedTxn
  | [] => []
  | b :: l =>
    let ended := if b.kind = .abort then (openTxn b.producerID before).toList else []
    ended.map (⟨b.producerID, ·⟩) ++ abortedFrom (before ++ [b]) l

/-- The computed list holds the aborted transactions whose marker is in `l`. -/
theorem mem_abortedFrom :
    e ∈ abortedFrom before l ↔ ∃ m b rest, l = m ++ b :: rest ∧ b.kind = .abort ∧
      b.producerID = e.producerID ∧ openTxn e.producerID (before ++ m) = some e.firstOffset := by
  induction l generalizing before with
  | nil => simp [abortedFrom]
  | cons b l ih =>
    rw [abortedFrom, mem_append, ih]
    constructor
    · rintro (hmem | ⟨m, c, rest, rfl, hkind, hpid, hopen⟩)
      · obtain ⟨f, hf, rfl⟩ := mem_map.1 hmem
        split_ifs at hf with hkind
        · exact ⟨[], b, l, rfl, hkind, rfl, by simpa using hf⟩
        · cases hf
      · exact ⟨b :: m, c, rest, rfl, hkind, hpid, by simpa using hopen⟩
    · rintro ⟨m, c, rest, hsplit, hkind, hpid, hopen⟩
      cases m with
      | nil =>
        obtain ⟨rfl, -⟩ := List.cons.inj hsplit
        refine .inl (mem_map.2 ⟨e.firstOffset, ?_, by rw [hpid]⟩)
        rw [if_pos hkind, hpid]
        simpa using hopen
      | cons a m =>
        obtain ⟨rfl, rfl⟩ := List.cons.inj hsplit
        exact .inr ⟨m, c, rest, rfl, hkind, hpid, by simpa using hopen⟩

/-- In an ordered log a split is known by where it lies: before the first batch at or above an
offset. -/
theorem InOrder.split_unique {c : TxnBatch C topic part} (horder : InOrder (l₁ ++ b :: l₂))
    (heq : l₁ ++ b :: l₂ = m₁ ++ c :: m₂) (hlow : ∀ x ∈ m₁, x.baseOffset < b.baseOffset)
    (hhigh : b.baseOffset ≤ c.baseOffset) : l₁ = m₁ ∧ b = c := by
  rcases append_eq_append_iff.1 heq with ⟨as, rfl, htail⟩ | ⟨as, rfl, htail⟩
  · cases as with
    | nil =>
      obtain ⟨rfl, -⟩ := List.cons.inj htail
      exact ⟨by simp, rfl⟩
    | cons a as =>
      obtain ⟨rfl, -⟩ := List.cons.inj htail
      exact absurd (hlow b (by simp)) (lt_irrefl _)
  · cases as with
    | nil =>
      obtain ⟨rfl, -⟩ := List.cons.inj htail
      exact ⟨by simp, rfl⟩
    | cons a as =>
      obtain ⟨rfl, -⟩ := List.cons.inj htail
      have hlt : c.baseOffset < b.baseOffset :=
        (pairwise_append.1 horder).2.2 c (by simp) b (by simp)
      exact absurd hhigh (not_le_of_gt hlt)

/-! ## The decoder's invariant -/

section
variable {pre proc rest post : List (TxnBatch C topic part)} {b : TxnBatch C topic part}
  {aborted consumed rem : List AbortedTxn} {pids : Finset Int64}

/-- The decoder after the batches `proc` of the range: the cursor has passed the entries that start
at or before them, and the marked producers are those whose open transaction it has passed. -/
structure Inv (pre proc : List (TxnBatch C topic part)) (aborted consumed rem : List AbortedTxn)
    (pids : Finset Int64) : Prop where
  split : aborted = consumed ++ rem
  after : ∀ e ∈ rem, ∀ c ∈ proc, c.baseOffset < e.firstOffset
  passed : ∀ e ∈ consumed, ∃ c ∈ proc, e.firstOffset ≤ c.baseOffset
  marked : ∀ p, p ∈ pids ↔ ∃ f, ⟨p, f⟩ ∈ consumed ∧ openTxn p (pre ++ proc) = some f

/-- The entry the cursor passes at a batch belongs to a transaction that is open there. -/
theorem opens_of_passed (horder : InOrder (pre ++ (proc ++ b :: rest) ++ post))
    (he : AbortedOverlap pre (proc ++ b :: rest) post e)
    (hafter : ∀ c ∈ proc, c.baseOffset < e.firstOffset) (hle : e.firstOffset ≤ b.baseOffset) :
    b.opens e.producerID (openTxn e.producerID (pre ++ proc)) = some e.firstOffset := by
  obtain ⟨⟨m, d, tail, hsplit, -, -, hopen⟩, -⟩ := he
  rw [append_assoc] at horder
  obtain ⟨-, hrange, hcross⟩ := pairwise_append.1 horder
  rw [openTxn_append] at hopen
  rcases foldl_step_eq_some hopen with hpre | ⟨l₁, c, l₂, rfl, hkind, hpid, hbase, hnone⟩
  · -- it was open before the range, so this is the range's first batch
    obtain ⟨c, hc, hbase⟩ := openTxn_mem hpre
    cases proc with
    | nil =>
      rw [append_nil, hpre, TxnBatch.opens]
      split_ifs <;> rfl
    | cons a proc =>
      have hlt : c.baseOffset < a.baseOffset := hcross c hc a (by simp)
      have hgt := hafter a (by simp)
      rw [hbase] at hlt
      exact absurd hlt hgt.asymm
  · -- it starts in the range, and that can only be here
    have heq : l₁ ++ c :: (l₂ ++ d :: tail) = proc ++ b :: (rest ++ post) := by
      simpa using hsplit.symm
    have hrange' : InOrder (l₁ ++ c :: (l₂ ++ d :: tail)) := by
      rw [heq]
      simpa [InOrder] using hrange
    obtain ⟨rfl, rfl⟩ := hrange'.split_unique heq (by rwa [hbase]) (by rwa [hbase])
    have hopen' : openTxn e.producerID (pre ++ l₁) = none := by rw [openTxn_append, hnone]
    rw [hopen', TxnBatch.opens, if_pos ⟨hkind, hpid⟩, Option.getD_none, hbase]

/-- After the marking at a batch, the marked producers are those whose transaction, with the batch
in it, the cursor has passed. -/
theorem Inv.mem_marked (h : Inv pre proc aborted consumed rem pids)
    (horder : InOrder (pre ++ (proc ++ b :: rest) ++ post))
    (hab : AbortedTxns pre (proc ++ b :: rest) post aborted) (p : Int64) :
    p ∈ (markAborted b.baseOffset rem pids).2 ↔
      ∃ f, ⟨p, f⟩ ∈ consumed ++ upTo AbortedTxn.firstOffset b.baseOffset rem ∧
        b.opens p (openTxn p (pre ++ proc)) = some f := by
  rw [mem_markAborted, h.marked]
  constructor
  · rintro (⟨f, hf, hopen⟩ | ⟨e, he, rfl⟩)
    · refine ⟨f, mem_append_left _ hf, ?_⟩
      rw [hopen, TxnBatch.opens]
      split_ifs <;> rfl
    · have hrem := mem_of_mem_upTo he
      have hentry := (hab.mem_iff e).1 (by rw [h.split]; exact mem_append_right _ hrem)
      exact ⟨e.firstOffset, mem_append_right _ he,
        opens_of_passed horder hentry (h.after e hrem) (le_of_mem_upTo he)⟩
  · rintro ⟨f, hf, hopen⟩
    rcases mem_append.1 hf with hf | hf
    · refine .inl ⟨f, hf, ?_⟩
      rw [TxnBatch.opens] at hopen
      split_ifs at hopen with hdata
      · cases ho : openTxn p (pre ++ proc) with
        | some g => rw [ho] at hopen; exact hopen
        | none =>
          -- a transaction that starts here has not been passed before
          obtain ⟨c, hc, hle⟩ := h.passed _ hf
          rw [ho] at hopen
          obtain rfl : b.baseOffset = f := Option.some.inj hopen
          have hlt : c.baseOffset < b.baseOffset := by
            have hin := (pairwise_append.1 horder).1
            have hin' := (pairwise_append.1 hin).2.1
            exact (pairwise_append.1 hin').2.2 c hc b (by simp)
          exact absurd hle (not_le_of_gt hlt)
      · exact hopen
    · exact .inr ⟨⟨p, f⟩, hf, rfl⟩

/-- The switch of the decoder on a batch of the log. -/
theorem deliverBatch_eq :
    deliverBatch topic part b.info pids =
      if b.kind.isMarker then
        ([controlMarker topic part b.info.lastOffset], pids.erase b.producerID)
      else if b.kind = .data ∧ b.producerID ∈ pids then
        ([controlMarker topic part b.info.lastOffset], pids)
      else (b.info.records, pids) := by
  rw [deliverBatch, b.control_eq]
  cases hmark : b.kind.isMarker with
  | true => rfl
  | false => simp [b.transactional_eq hmark]

/-- A batch keeps the invariant. -/
theorem Inv.step (h : Inv pre proc aborted consumed rem pids)
    (horder : InOrder (pre ++ (proc ++ b :: rest) ++ post))
    (hab : AbortedTxns pre (proc ++ b :: rest) post aborted) :
    Inv pre (proc ++ [b]) aborted (consumed ++ upTo AbortedTxn.firstOffset b.baseOffset rem)
      (markAborted b.baseOffset rem pids).1
      (deliverBatch topic part b.info (markAborted b.baseOffset rem pids).2).2 := by
  have hsorted : rem.Pairwise (·.firstOffset ≤ ·.firstOffset) :=
    (pairwise_append.1 (h.split ▸ hab.sorted)).2.1
  rw [markAborted_fst]
  refine ⟨?_, ?_, ?_, ?_⟩
  · rw [append_assoc, upTo_append_beyond, h.split]
  · intro e he c hc
    rcases mem_append.1 hc with hc | hc
    · exact h.after e (mem_of_mem_beyond he) c hc
    · obtain rfl := mem_singleton.1 hc
      exact lt_of_mem_beyond hsorted he
  · intro e he
    rcases mem_append.1 he with he | he
    · obtain ⟨c, hc, hle⟩ := h.passed e he
      exact ⟨c, by simp [hc], hle⟩
    · exact ⟨b, by simp, le_of_mem_upTo he⟩
  · intro p
    have hmarked := h.mem_marked horder hab p
    rw [← append_assoc pre, openTxn_concat, TxnBatch.step, deliverBatch_eq]
    by_cases hmark : b.kind.isMarker
    · rw [if_pos hmark]
      by_cases hp : b.producerID = p
      · simp [hmark, hp]
      · rw [if_neg (by simp [hp]), ← hmarked, Finset.mem_erase]
        exact and_iff_right (Ne.symm hp)
    · have hstep : ¬ (b.kind.isMarker = true ∧ b.producerID = p) := fun hm => hmark hm.1
      rw [if_neg hstep, ← hmarked]
      split_ifs <;> rfl

theorem txnStart_le (horder : InOrder (pre ++ (proc ++ b :: rest) ++ post)) :
    b.txnStart (pre ++ proc) ≤ b.baseOffset := by
  rw [TxnBatch.txnStart]
  cases ho : openTxn b.producerID (pre ++ proc) with
  | none => exact le_rfl
  | some f =>
    obtain ⟨c, hc, rfl⟩ := openTxn_mem ho
    have hlog : pre ++ (proc ++ b :: rest) ++ post = (pre ++ proc) ++ (b :: rest ++ post) := by simp
    rw [hlog] at horder
    exact le_of_lt ((pairwise_append.1 horder).2.2 c hc b (by simp))

/-- What the decoder delivers for a batch is what a read_committed consumer must see. -/
theorem Inv.deliver (h : Inv pre proc aborted consumed rem pids)
    (horder : InOrder (pre ++ (proc ++ b :: rest) ++ post))
    (hab : AbortedTxns pre (proc ++ b :: rest) post aborted) :
    (deliverBatch topic part b.info (markAborted b.baseOffset rem pids).2).1 =
      b.visible aborted (pre ++ proc) := by
  rw [deliverBatch_eq, TxnBatch.visible]
  cases hkind : b.kind with
  | plain => simp [BatchKind.isMarker]
  | commit | abort => simp [BatchKind.isMarker]
  | data =>
    have hopens : b.opens b.producerID (openTxn b.producerID (pre ++ proc)) =
        some (b.txnStart (pre ++ proc)) := if_pos ⟨hkind, rfl⟩
    have hlisted : b.producerID ∈ (markAborted b.baseOffset rem pids).2 ↔
        ⟨b.producerID, b.txnStart (pre ++ proc)⟩ ∈ aborted := by
      rw [h.mem_marked horder hab, h.split]
      constructor
      · rintro ⟨f, hf, hopen⟩
        rw [hopens] at hopen
        obtain rfl := Option.some.inj hopen
        rcases mem_append.1 hf with hf | hf
        · exact mem_append_left _ hf
        · exact mem_append_right _ (mem_of_mem_upTo hf)
      · intro hmem
        refine ⟨_, ?_, hopens⟩
        rcases mem_append.1 hmem with hmem | hmem
        · exact mem_append_left _ hmem
        · have hsorted : rem.Pairwise (·.firstOffset ≤ ·.firstOffset) :=
            (pairwise_append.1 (h.split ▸ hab.sorted)).2.1
          exact mem_append_right _ (mem_upTo_of_sorted hsorted hmem (txnStart_le horder))
    simp only [BatchKind.isMarker, Bool.false_eq_true, if_false, true_and, hlisted]
    split_ifs <;> rfl

/-- The rest of the range, from any point of it. -/
theorem Inv.deliverAll (h : Inv pre proc aborted consumed rem pids)
    (horder : InOrder (pre ++ (proc ++ rest) ++ post))
    (hab : AbortedTxns pre (proc ++ rest) post aborted) :
    deliverAll topic part (rest.map (·.info)) rem pids =
      (rest.mapIdx fun k b => b.visible aborted (pre ++ proc ++ rest.take k)).flatten := by
  -- by induction on what is left of the range; the invariant moves along with the batch
  induction rest generalizing proc consumed rem pids with
  | nil => rfl
  | cons b rest ih =>
    have hnext : proc ++ b :: rest = proc ++ [b] ++ rest := by simp
    have hrest := ih (h.step horder hab) (hnext ▸ horder) (hnext ▸ hab)
    rw [map_cons, GoKafka.deliverAll, mapIdx_cons, flatten_cons]
    simp [hrest, h.deliver horder hab]

end

/-- The whole range, with the list in order. -/
theorem deliverAll_range {range : List (TxnBatch C topic part)}
    (horder : InOrder (pre ++ range ++ post)) (hab : AbortedTxns pre range post aborted) :
    deliverAll topic part (range.map (·.info)) aborted ∅ =
      (range.mapIdx fun k b => b.visible aborted (pre ++ range.take k)).flatten := by
  have hinit : Inv pre [] aborted [] aborted ∅ := ⟨rfl, by simp, by simp, by simp⟩
  have hall := @Inv.deliverAll _ _ _ _ _ range _ _ _ _ _ hinit horder hab
  rwa [append_nil] at hall

/-- read_committed filtering is exact: decoding any contiguous range of a log, with the aborted
transactions that overlap it, gives the records of the batches outside them, in log order, and one
control entry for each marker and each batch of an aborted transaction. -/
theorem decodeRecordBatch_readCommitted (pre range post : List (TxnBatch C topic part))
    (aborted : List AbortedTxn) (horder : InOrder (pre ++ range ++ post))
    (hab : AbortedTxns pre range post aborted) :
    decodeRecordBatch C topic part (blob (range.map (·.toLogBatch))) aborted =
      .ok (range.mapIdx fun k b => b.visible aborted (pre ++ range.take k)).flatten := by
  rw [decodeRecordBatch_blob, map_map]
  exact congrArg Except.ok (deliverAll_range horder hab)

/-- A data batch of one empty record. -/
def dataBatch (C : Codecs) (topic : Bytes) (part : Int32) (producerID baseOffset : Int64) :
    TxnBatch C topic part where
  toLogBatch := .oneRecord C topic part (show (0x10 : Int16) &&& 0x20 = 0 by decide)
    (show ((0x10 : Int16) &&& 0x7).toInt8 = 0 by decide) producerID baseOffset
  kind := .data
  control_eq := by rw [LogBatch.oneRecord_info]; rfl
  transactional_eq _ := by
    rw [LogBatch.oneRecord_info]
    exact decide_eq_true (show (0x10 : Int16) &&& 0x10 ≠ 0 by decide)

/-- A marker. -/
def markerBatch (C : Codecs) (topic : Bytes) (part : Int32) (commits : Bool)
    (producerID baseOffset : Int64) : TxnBatch C topic part where
  toLogBatch := .control C topic part producerID baseOffset
  kind := if commits then .commit else .abort
  control_eq := by
    rw [LogBatch.control_info]
    cases commits <;> rfl
  transactional_eq h := by
    cases commits <;> cases h

theorem dataBatch_info : (dataBatch C topic part p base).info =
    { baseOffset := base, lastOffset := base, producerID := p, isControl := false
      isTransactional := true, records := [readBackRecord topic part base 0 [] [] [] 0 0] } := by
  rw [dataBatch, LogBatch.oneRecord_info]
  congr 1

theorem markerBatch_info :
    (markerBatch C topic part commits p base).info =
      { baseOffset := base, lastOffset := base, producerID := p, isControl := true
        isTransactional := true, records := [] } :=
  LogBatch.control_info

/-- A batch with the given part in the transactions. -/
def TxnBatch.Is (b : TxnBatch C topic part) (kind : BatchKind) (p base : Int64) : Prop :=
  b.kind = kind ∧ b.producerID = p ∧ b.baseOffset = base

/-- Two transactions of producer 1 are aborted, one that starts before the range and one that ends
behind it, and the batch of producer 2 between them is delivered. -/
theorem decodeRecordBatch_readCommitted_two :
    decodeRecordBatch shortCodecs [] 0 (blob ([dataBatch shortCodecs [] 0 2 1,
        markerBatch shortCodecs [] 0 false 1 2, dataBatch shortCodecs [] 0 1 3].map
          (·.toLogBatch))) [⟨1, 0⟩, ⟨1, 3⟩] =
      .ok [readBackRecord [] 0 1 0 [] [] [] 0 0, controlMarker [] 0 2, controlMarker [] 0 3] := by
  have hdecode : ∀ x₀ x₁ x₂ x₃ x₄ : TxnBatch shortCodecs [] 0, x₀.Is .data 1 0 → x₁.Is .data 2 1 →
      x₂.Is .abort 1 2 → x₃.Is .data 1 3 → x₄.Is .abort 1 4 →
      decodeRecordBatch shortCodecs [] 0 (blob ([x₁, x₂, x₃].map (·.toLogBatch)))
        [⟨1, 0⟩, ⟨1, 3⟩] = .ok (x₁.info.records
          ++ [controlMarker [] 0 x₂.info.lastOffset, controlMarker [] 0 x₃.info.lastOffset]) := by
    rintro x₀ x₁ x₂ x₃ x₄ ⟨k₀, p₀, b₀⟩ ⟨k₁, p₁, b₁⟩ ⟨k₂, p₂, b₂⟩ ⟨k₃, p₃, b₃⟩ ⟨k₄, p₄, b₄⟩
    refine (decodeRecordBatch_readCommitted [x₀] [x₁, x₂, x₃] [x₄] _ ?_ ?_).trans ?_
    · simp [InOrder, b₀, b₁, b₂, b₃, b₄]
    · have hlist : abortedFrom [x₀] ([x₁, x₂, x₃] ++ [x₄]) = [⟨1, 0⟩, ⟨1, 3⟩] := by
        simp [abortedFrom, openTxn, TxnBatch.step, TxnBatch.opens, BatchKind.isMarker, k₀, p₀, b₀,
          p₁, k₂, p₂, k₃, p₃, b₃, k₄, p₄]
      refine ⟨by simp, fun e => ?_⟩
      rw [AbortedOverlap, ← mem_abortedFrom, hlist]
      refine ⟨fun he => ⟨he, ?_⟩, And.left⟩
      rcases mem_cons.1 he with rfl | he
      · exact ⟨x₀, by simp, b₀⟩
      · obtain rfl := mem_singleton.1 he
        exact ⟨x₃, by simp, b₃⟩
    · simp [TxnBatch.visible, TxnBatch.txnStart, openTxn, TxnBatch.step, BatchKind.isMarker, k₁, p₁,
      k₂, p₂, k₃, p₃, b₃]
  have hresult := hdecode (dataBatch shortCodecs [] 0 1 0) (dataBatch shortCodecs [] 0 2 1)
    (markerBatch shortCodecs [] 0 false 1 2) (dataBatch shortCodecs [] 0 1 3)
    (markerBatch shortCodecs [] 0 false 1 4) ⟨rfl, rfl, rfl⟩ ⟨rfl, rfl, rfl⟩ ⟨rfl, rfl, rfl⟩
    ⟨rfl, rfl, rfl⟩ ⟨rfl, rfl, rfl⟩
  exact hresult

/-! ## Lists in another order -/

/-- The producers the cursor reaches when the bound grows to an offset. -/
def reachedPIDs (aborted : List AbortedTxn) (offset : Int64) : List Int64 :=
  (reached AbortedTxn.firstOffset offset aborted).map (·.producerID)

/-- The lists reach every producer at the same offsets. -/
def SameReach (l l' : List AbortedTxn) : Prop :=
  ∀ offset p, p ∈ reachedPIDs l offset ↔ p ∈ reachedPIDs l' offset

variable {l' : List AbortedTxn}

/-- A batch leaves lists of the same reach. -/
theorem SameReach.beyond {l : List AbortedTxn} (h : SameReach l l') (baseOffset : Int64) :
    SameReach (beyond AbortedTxn.firstOffset baseOffset l)
      (beyond AbortedTxn.firstOffset baseOffset l') := by
  intro offset p
  rw [reachedPIDs, reachedPIDs, reached_beyond, reached_beyond]
  split_ifs
  · rfl
  · exact h offset p

/-- A batch marks the same producers from lists of the same reach. -/
theorem SameReach.mark {l : List AbortedTxn} (h : SameReach l l') (baseOffset : Int64)
    (pids : Finset Int64) :
    (markAborted baseOffset l pids).2 = (markAborted baseOffset l' pids).2 := by
  have hpassed : ∀ (m : List AbortedTxn) (p : Int64),
      (∃ e ∈ upTo AbortedTxn.firstOffset baseOffset m, e.producerID = p) ↔
        ∃ offset ≤ baseOffset, p ∈ reachedPIDs m offset := by
    intro m p
    simp only [mem_upTo_iff, reachedPIDs, mem_map]
    constructor
    · rintro ⟨e, ⟨offset, hle, he⟩, hp⟩
      exact ⟨offset, hle, e, he, hp⟩
    · rintro ⟨offset, hle, e, he, hp⟩
      exact ⟨e, ⟨offset, hle, he⟩, hp⟩
  ext p
  rw [mem_markAborted, mem_markAborted, hpassed, hpassed]
  simp [h _ p]

/-- Lists of the same reach decode every blob alike. -/
theorem SameReach.decode {l : List AbortedTxn} (h : SameReach l l') (data : Bytes)
    (pids : Finset Int64) :
    decodeRecordBatchLoop C topic part data l pids =
      decodeRecordBatchLoop C topic part data l' pids := by
  induction hn : data.length using Nat.strong_induction_on generalizing data l l' pids with
  | _ n ih =>
    subst hn
    rw [decodeRecordBatchLoop, decodeRecordBatchLoop.eq_def C topic part data l' pids]
    split_ifs with hshort
    · rfl
    dsimp only
    split_ifs with htotal
    · rfl
    · have hrest : (data.drop (12 + BigEndian.beNat ((data.drop 8).take 4))).length
          < data.length := by
        rw [length_drop]
        omega
      split
      · rfl
      · exact ih _ hrest h _ _ rfl
      · next info hinfo =>
        have hnext := h.beyond info.baseOffset
        have hpids := h.mark info.baseOffset pids
        rw [← markAborted_fst pids, ← markAborted_fst pids] at hnext
        simp [hpids, ih _ hrest hnext _ _ rfl]

theorem le_sub_one_iff (hc : c ≠ Int64.minValue) : x ≤ c - 1 ↔ x < c := by
  have hmin : c.toInt ≠ -2 ^ 63 := fun h => hc (Int64.toInt_inj.1 h)
  have hge := c.le_toInt
  have hlt := c.toInt_lt
  rw [Int64.le_iff_toInt_le, Int64.lt_iff_toInt_lt, Int64.toInt_sub, Int64.toInt_one,
    Int.bmod_eq_of_le] <;> omega

/-- A blob that shows whether a producer is reached at an offset: its marker just below, which
unmarks it, and a data batch of it there. -/
def probe (C : Codecs) (topic : Bytes) (part : Int32) (p c : Int64) :
    List (TxnBatch C topic part) :=
  (if c = Int64.minValue then [] else [markerBatch C topic part false p (c - 1)])
    ++ [dataBatch C topic part p c]

/-- The marker that may stand before the probed batch. -/
def probeMarkers (topic : Bytes) (part : Int32) (c : Int64) : List FetchedRecord :=
  if c = Int64.minValue then [] else [controlMarker topic part (c - 1)]

/-- A data batch is hidden if its producer is marked. -/
theorem deliverAll_dataBatch (l : List AbortedTxn) :
    deliverAll topic part [(dataBatch C topic part p c).info] l pids =
      if p ∈ (markAborted c l pids).2 then [controlMarker topic part c]
      else [readBackRecord topic part c 0 [] [] [] 0 0] := by
  simp only [dataBatch_info, deliverAll, deliverBatch]
  split_ifs with h₁ h₂ h₂
  all_goals simp_all

theorem decodeRecordBatch_probe (l : List AbortedTxn) :
    decodeRecordBatch C topic part (blob ((probe C topic part p c).map (·.toLogBatch))) l =
      .ok (probeMarkers topic part c ++
        if p ∈ reachedPIDs l c then [controlMarker topic part c]
        else [readBackRecord topic part c 0 [] [] [] 0 0]) := by
  rw [decodeRecordBatch_blob, map_map]
  rw [probe, probeMarkers]
  by_cases hc : c = Int64.minValue
  · have hdrop : l.dropWhile (·.firstOffset < c) = l := by
      simp [hc]
    have hreach : p ∈ (markAborted c l ∅).2 ↔ p ∈ reachedPIDs l c := by
      rw [mem_markAborted, reachedPIDs, reached, hdrop]
      simp
    rw [if_pos hc, if_pos hc]
    simp only [nil_append, map_cons, map_nil, Function.comp, deliverAll_dataBatch,
      hreach]
  · have hdrop : beyond AbortedTxn.firstOffset (c - 1) l = l.dropWhile (·.firstOffset < c) := by
      rw [beyond]
      simp only [le_sub_one_iff hc]
    have hreach : ∀ pids : Finset Int64, p ∈ (markAborted c
        (beyond AbortedTxn.firstOffset (c - 1) l) (pids.erase p)).2 ↔ p ∈ reachedPIDs l c := by
      intro pids
      rw [mem_markAborted, reachedPIDs, reached, hdrop]
      simp
    rw [if_neg hc, if_neg hc]
    simp only [cons_append, nil_append, map_cons, map_nil, Function.comp]
    rw [deliverAll]
    simp only [markerBatch_info, markAborted_fst, deliverBatch, if_true, deliverAll_dataBatch,
      hreach, cons_append, nil_append]

/-- Two aborted lists decode every blob alike if and only if they reach every producer at the same
offsets. -/
theorem decodeRecordBatch_eq_iff (C : Codecs) (topic : Bytes) (part : Int32)
    (l l' : List AbortedTxn) :
    (∀ data, decodeRecordBatch C topic part data l = decodeRecordBatch C topic part data l') ↔
      SameReach l l' := by
  constructor
  · intro heq c p
    have hprobe := heq (blob ((probe C topic part p c).map (·.toLogBatch)))
    rw [decodeRecordBatch_probe, decodeRecordBatch_probe] at hprobe
    have htail := append_cancel_left (Except.ok.inj hprobe)
    have hne : [controlMarker topic part c] ≠ [readBackRecord topic part c 0 [] [] [] 0 0] := by
      simp [controlMarker, readBackRecord]
    split_ifs at htail with h h' h'
    · exact iff_of_true h h'
    · exact absurd htail hne
    · exact absurd htail.symm hne
    · exact iff_of_false h h'
  · intro h data
    exact h.decode data ∅

/-- Producers 1 and 2 begin in this order and abort in the other: listed by first offset, both
transactions are hidden; listed by abort marker, the record of producer 1 is delivered. -/
theorem decodeRecordBatch_abortOrder :
    let data := blob [(dataBatch shortCodecs [] 0 1 0).toLogBatch,
      (dataBatch shortCodecs [] 0 2 1).toLogBatch]
    List.Perm [⟨2, 1⟩, ⟨1, 0⟩] [(⟨1, 0⟩ : AbortedTxn), ⟨2, 1⟩] ∧
      decodeRecordBatch shortCodecs [] 0 data [⟨1, 0⟩, ⟨2, 1⟩] =
        .ok [controlMarker [] 0 0, controlMarker [] 0 1] ∧
      decodeRecordBatch shortCodecs [] 0 data [⟨2, 1⟩, ⟨1, 0⟩] =
        .ok [readBackRecord [] 0 0 0 [] [] [] 0 0, controlMarker [] 0 1] := by
  all_goals
    decide +kernel

end GoKafka
