import GoKafka.Producer.Transaction

/-!
# Partitions registered with a transaction

`ensurePartitions` in `transaction.go`: a transaction without `transaction.version` 2 names a
partition in an AddPartitionsToTxn request before it sends to it, once. It keeps the partitions it
has named in `registered`, and puts a partition there when it meets its first record, before the
request is sent. If the request fails the partitions are taken out again. If a later record of the
call cannot be resolved they are not: the call returns without a request, and the next one takes
them for added (`registered_never_added`).

`registered_added` says that this is the only way: `registered` has no partition that was never
added, in all states of a run, exactly if no call of the run leaves partitions behind so; and then a
batch only goes to a partition that was added.
-/

namespace GoKafka

open Assoc List

/-! ## The program -/

/-- `protocol.TxnTopicPartitions`, an entry of an AddPartitionsToTxn request. -/
structure TxnTopicPartitions where
  topic : Bytes
  partitions : List Int32

/-- The partitions an entry names. -/
def TxnTopicPartitions.keys (t : TxnTopicPartitions) : List PartKey :=
  t.partitions.map fun part => ⟨t.topic, part⟩

/-- `registered` and `newKeys` in the loop of `ensurePartitions`; `pending` has the partitions of
`newKeys` by topic. -/
structure Registration where
  registered : Finset PartKey
  newKeys : List PartKey := []

/-- The loop of `ensurePartitions`, from a record's index on. -/
def register (c : Cluster) (partition : Nat → NilBytes → Nat → Int32) :
    Nat → List Record → Registration → Option Error × Registration
  | _, [], g => (none, g)
  | i, r :: rs, g =>
    match resolvePartition c (partition i) r with
    | .error e => (some e, g)
    | .ok (part, _) =>
      if ⟨r.topic, part⟩ ∈ g.registered then register c partition (i + 1) rs g
      else register c partition (i + 1) rs
        ⟨insert ⟨r.topic, part⟩ g.registered, g.newKeys ++ [⟨r.topic, part⟩]⟩

/-- What `ensurePartitions` meets: the metadata and the partitioner, the order in which the loop
over `pending` visits the topics, and what `addPartitions` comes to. -/
structure RegisterEnv where
  cluster : Cluster
  partition : Nat → NilBytes → Nat → Int32
  topicOrder : MapOrder Bytes
  addPartitions : List TxnTopicPartitions → Except Error Unit

/-- The entries of the request for `newKeys`. -/
def RegisterEnv.topics (env : RegisterEnv) (newKeys : List PartKey) : List TxnTopicPartitions :=
  let pending := group (·.topic) newKeys
  (env.topicOrder.keys pending).map fun t => ⟨t, ((pending.lookup t).getD []).map (·.part)⟩

/-- A transaction with the partitions it has registered, those that an AddPartitionsToTxn request
named that succeeded, and the batches it has sent. -/
structure RegisteringTxn where
  txn : TransactionalProducer
  registered : Finset PartKey := ∅
  added : List PartKey := []
  sent : List PartitionBatch := []

/-- The loop of `ensurePartitions` in a transaction. -/
def RegisteringTxn.register (s : RegisteringTxn) (env : RegisterEnv) (records : List Record) :
    Option Error × Registration :=
  GoKafka.register env.cluster env.partition 0 records ⟨s.registered, []⟩

/-- `TransactionalProducer.ensurePartitions`, with the partitions it registers. -/
def RegisteringTxn.ensurePartitions (s : RegisteringTxn) (env : RegisterEnv)
    (records : List Record) : Except Error Unit × RegisteringTxn :=
  if s.txn.tv2 then (.ok (), s)
  else
    match s.register env records with
    | (some e, g) => (.error e, { s with registered := g.registered })
    | (none, g) =>
      if g.newKeys = [] then (.ok (), { s with registered := g.registered })
      else
        match env.addPartitions (env.topics g.newKeys) with
        | .error e => (.error e, { s with registered := g.newKeys.foldl Finset.erase g.registered })
        | .ok () => (.ok (), { s with
            registered := g.registered
            added := s.added ++ (env.topics g.newKeys).flatMap (·.keys) })

/-- The batches an attempt sends. -/
def Attempt.batches (a : Attempt) : List PartitionBatch :=
  (a.out.sent.getD []).flatMap fun ex => ex.request.toOption.getD []

/-- A call of `ProduceWithinTxn` and what it meets; `env.added` is left open, since
`ensurePartitions` decides it. -/
structure TxnCall where
  cfg : ProducerConfig
  records : List Record
  env : TxnProduceEnv
  reg : RegisterEnv

/-- The records with their partitions frozen, if the call gets as far as `ensurePartitions`. -/
def TxnCall.frozen (call : TxnCall) (s : RegisteringTxn) : Option (List Record) :=
  if s.txn.isOpen = false ∨ call.records = [] then none
  else (freezePartitions call.env.freezing call.env.partition 0 call.records).toOption

/-- The transaction after a call: the partitions are frozen and registered, and the records are
sent. -/
def RegisteringTxn.next (s : RegisteringTxn) (call : TxnCall) : RegisteringTxn :=
  match call.frozen s with
  | none => s
  | some frozen =>
    let (added, s') := s.ensurePartitions call.reg frozen
    let env := { call.env with added := added }
    let produced := s.txn.produceWithinTxnResult call.cfg call.records env
    { s' with
      txn := produced.txn
      sent := s'.sent ++ produced.attempts.flatMap (·.batches) }

/-- A transaction as `BeginTransaction` returns it. -/
def TransactionalProducer.begun (t : TransactionalProducer) : RegisteringTxn := { txn := t }

/-- The metadata a call meets is sound. -/
structure TxnCall.Sound (call : TxnCall) : Prop where
  freezing : call.env.freezing.Sound
  attempt : ∀ n, (call.env.attempt n).Sound

/-- A call that cannot resolve a record has registered no partition before it. -/
def TxnCall.LeavesNone (s : RegisteringTxn) (call : TxnCall) : Prop :=
  ∀ frozen ∈ call.frozen s, (s.register call.reg frozen).1 ≠ none →
    (s.register call.reg frozen).2.newKeys = []

instance (s : RegisteringTxn) (call : TxnCall) : Decidable (call.LeavesNone s) :=
  inferInstanceAs (Decidable (∀ frozen ∈ call.frozen s, _))

/-! ## The loop -/

/-- What the loop has registered: the partitions it started with, and new ones. -/
structure Registration.Extends (start : Finset PartKey) (g : Registration) : Prop where
  mem : ∀ k, k ∈ g.registered ↔ k ∈ start ∨ k ∈ g.newKeys
  new : ∀ k ∈ g.newKeys, k ∉ start

section Loop

variable {c : Cluster} {partition : Nat → NilBytes → Nat → Int32} {start : Finset PartKey}

theorem Registration.Extends.insert {g : Registration} (h : g.Extends start)
    (hk : k ∉ g.registered) :
    Registration.Extends start ⟨insert k g.registered, g.newKeys ++ [k]⟩ := by
  refine ⟨fun k' => ?_, fun k' hk' => ?_⟩
  · rw [Finset.mem_insert, h.mem, mem_append, mem_singleton, or_comm, or_assoc]
  · rcases mem_append.1 hk' with hk' | hk'
    · exact h.new k' hk'
    · rw [mem_singleton.1 hk']
      exact fun hstart => hk ((h.mem k).2 (.inl hstart))

/-- The loop extends what is registered, and if it ends without an error all partitions that the
records name are. -/
theorem register_spec {i : Nat} {records : List Record} {g : Registration} (h : g.Extends start) :
    (register c partition i records g).2.Extends start ∧
      g.registered ⊆ (register c partition i records g).2.registered ∧
      ((register c partition i records g).1 = none → ∀ r ∈ records, 0 ≤ r.partition →
        r.partKey ∈ (register c partition i records g).2.registered) := by
  -- a record that names its partition is resolved to it
  have hnamed {i : Nat} {r : Record} {part leader : Int32} {registered : Finset PartKey}
      (hres : resolvePartition c (partition i) r = .ok (part, leader))
      (hin : ⟨r.topic, part⟩ ∈ registered) (hpos : 0 ≤ r.partition) :
      r.partKey ∈ registered := by
    obtain ⟨-, -, -, ⟨-, rfl, -⟩ | ⟨hneg, -⟩⟩ := resolvePartition_cases hres
    · exact hin
    · exact absurd hpos hneg
  fun_induction register c partition i records g with
  | case1 | case2 => exact ⟨h, Finset.Subset.refl _, nofun⟩
  | case3 i r rs g part leader hres hin ih =>
    obtain ⟨hext, hmono, hall⟩ := ih h
    exact ⟨hext, hmono, fun hnone => forall_mem_cons.2 ⟨hnamed hres (hmono hin), hall hnone⟩⟩
  | case4 i r rs g part leader hres hnew ih =>
    obtain ⟨hext, hmono, hall⟩ := ih (h.insert hnew)
    exact ⟨hext, (Finset.subset_insert _ _).trans hmono, fun hnone =>
      forall_mem_cons.2 ⟨hnamed hres (hmono (Finset.mem_insert_self _ _)), hall hnone⟩⟩

end Loop

theorem mem_foldl_erase {ks : List PartKey} : k ∈ ks.foldl Finset.erase s ↔ k ∈ s ∧ k ∉ ks := by
  induction ks generalizing s with
  | nil => simp
  | cons k' ks ih =>
    rw [foldl_cons, ih, Finset.mem_erase, mem_cons]
    tauto

theorem RegisterEnv.mem_topics {env : RegisterEnv} :
    k ∈ (env.topics newKeys).flatMap (·.keys) ↔ k ∈ newKeys := by
  simp only [RegisterEnv.topics, TxnTopicPartitions.keys, getD_lookup_group, mem_flatMap,
    mem_map, MapOrder.mem_keys, AList.mem_keys, mem_keys_group]
  constructor
  · rintro ⟨t, ⟨topic, -, rfl⟩, part, hpart, rfl⟩
    obtain ⟨k, hk, rfl⟩ := mem_map.1 hpart
    obtain ⟨hmem, htopic⟩ := mem_filter.1 hk
    rw [← of_decide_eq_true htopic]
    exact hmem
  · intro hk
    have hown : k ∈ newKeys.filter (·.topic = k.topic) :=
      mem_filter.2 ⟨hk, decide_eq_true rfl⟩
    exact ⟨_, ⟨k.topic, ⟨k, hk, rfl⟩, rfl⟩, k.part, mem_map_of_mem hown, rfl⟩

/-! ## A call -/

/-- The partitions registered are those that were added. -/
def RegisteringTxn.Exact (s : RegisteringTxn) : Prop := ∀ k, k ∈ s.registered ↔ k ∈ s.added

/-- What `ensurePartitions` comes to in a transaction whose registered partitions were added: the
records' partitions are added, or it fails and only a record that is not resolved leaves partitions
behind. -/
structure Ensured (s : RegisteringTxn) (loop : Option Error × Registration) (records : List Record)
    (out : Except Error Unit × RegisteringTxn) : Prop where
  txn : out.2.txn = s.txn
  sent : out.2.sent = s.sent
  mono : ∀ k ∈ s.added, k ∈ out.2.added
  exact_iff : (∀ k ∈ out.2.registered, k ∈ out.2.added) ↔ (loop.1 ≠ none → loop.2.newKeys = [])
  exact_of : (loop.1 ≠ none → loop.2.newKeys = []) → out.2.Exact
  ok : out.1 = .ok () → ∀ r ∈ records, 0 ≤ r.partition → r.partKey ∈ out.2.added

theorem RegisteringTxn.Exact.ensured (hs : s.Exact) (htv2 : s.txn.tv2 = false) (env : RegisterEnv)
    (records : List Record) :
    Ensured s (s.register env records) records (s.ensurePartitions env records) := by
  have hstart : Registration.Extends s.registered ⟨s.registered, []⟩ :=
    ⟨fun k => (or_iff_left not_mem_nil).symm, nofun⟩
  have hloop := @register_spec env.cluster env.partition s.registered 0 records _ hstart
  unfold ensurePartitions RegisteringTxn.register
  rw [if_neg (Bool.eq_false_iff.1 htv2)]
  generalize GoKafka.register env.cluster env.partition 0 records ⟨s.registered, []⟩ = loop
    at hloop ⊢
  obtain ⟨err, g⟩ := loop
  obtain ⟨hext, -, hall⟩ := hloop
  cases err with
  | some e =>
    -- nothing is undone here
    have hexact : g.newKeys = [] →
        RegisteringTxn.Exact { s with registered := g.registered } := fun hnil k => by
      rw [hext.mem, hnil, or_iff_left not_mem_nil]
      exact hs k
    have hiff : (∀ k ∈ g.registered, k ∈ s.added) ↔ g.newKeys = [] := by
      refine ⟨fun hadded => eq_nil_iff_forall_not_mem.2 fun k hk => ?_,
        fun hnil k => (hexact hnil k).1⟩
      exact hext.new k hk ((hs k).2 (hadded k ((hext.mem k).2 (.inr hk))))
    have hne : (some e : Option Error) ≠ none := nofun
    exact ⟨rfl, rfl, fun k hk => hk, hiff.trans ⟨fun h _ => h, fun h => h hne⟩,
      fun h => hexact (h hne), nofun⟩
  | none =>
    have hnever : ∀ {p : Prop}, (none : Option Error) ≠ none → p := fun h => absurd rfl h
    by_cases hnil : g.newKeys = []
    · have hexact : RegisteringTxn.Exact { s with registered := g.registered } := fun k => by
        rw [hext.mem, hnil, or_iff_left not_mem_nil]
        exact hs k
      simp only [if_pos hnil]
      exact ⟨rfl, rfl, fun k hk => hk, iff_of_true (fun k => (hexact k).1) hnever, fun _ => hexact,
        fun _ r hr hpos => (hexact _).1 (hall rfl r hr hpos)⟩
    · simp only [if_neg hnil]
      cases env.addPartitions (env.topics g.newKeys) with
      | error e =>
        have hexact : RegisteringTxn.Exact
            { s with registered := g.newKeys.foldl Finset.erase g.registered } := fun k => by
          rw [mem_foldl_erase, hext.mem, ← hs]
          exact ⟨fun h => h.1.resolve_right h.2, fun h => ⟨.inl h, fun hk => hext.new k hk h⟩⟩
        exact ⟨rfl, rfl, fun k hk => hk, iff_of_true (fun k => (hexact k).1) hnever,
          fun _ => hexact, nofun⟩
      | ok u =>
        have hexact : RegisteringTxn.Exact { s with
            registered := g.registered
            added := s.added ++ (env.topics g.newKeys).flatMap (·.keys) } := fun k => by
          rw [hext.mem, mem_append, RegisterEnv.mem_topics, hs]
        exact ⟨rfl, rfl, fun k hk => mem_append_left _ hk,
          iff_of_true (fun k => (hexact k).1) hnever, fun _ => hexact,
          fun _ r hr hpos => (hexact _).1 (hall rfl r hr hpos)⟩

section Sends

variable {cfg : ProducerConfig} {frozen : List Record} {world : World Nat}

theorem SentPending.eq_frozen (h : SentPending cfg env records v out f exs)
    (hfrozen : v.frozen = some frozen) : f = frozen := by
  rcases h.kept with hnone | hsome
  · cases hfrozen.symm.trans hnone
  · exact Option.some.inj (hsome.symm.trans hfrozen)

/-- An attempt sends to partitions of the records. -/
theorem Attempt.batches_of_spec {env : AttemptEnv} (henv : env.Sound) (hfits : v.Fits frozen)
    (hfrozen : v.frozen = some frozen) :
    ∀ b ∈ Attempt.batches ⟨env, v, GoKafka.attempt cfg frozen env v⟩,
      b.partKey ∈ frozen.map (·.partKey) := by
  intro b hsend
  obtain ⟨ex, hex, hb⟩ := mem_flatMap.1 hsend
  rcases @attempt_spec cfg env frozen v henv hfits with hunsent | ⟨f, exs, hsent⟩
  · rw [hunsent.sent] at hex
    cases hex
  · obtain rfl := hsent.eq_frozen hfrozen
    rw [hsent.sent] at hex
    cases hreq : ex.request with
    | error e =>
      rw [hreq] at hb
      cases hb
    | ok bs =>
      rw [hreq] at hb
      have hmem := ((hsent.exchange hex).mem bs hreq b.partKey).1 (mem_map_of_mem hb)
      obtain ⟨r, hr, -, hkey⟩ := hmem
      obtain ⟨i, r', hr', hkey', -⟩ := mem_keys_routedPending.1 (mem_map.2 ⟨r, hr, hkey⟩)
      exact mem_map.2 ⟨r', mem_of_getElem? hr', hkey'⟩

/-- The variables of a call fit its records, which keep their partitions. -/
theorem attempt_keeps_frozen (henv : env.Sound) (hfits : v.Fits frozen)
    (hfrozen : v.frozen = some frozen) :
    (attempt cfg frozen env v).vars.Fits frozen ∧
      (attempt cfg frozen env v).vars.frozen = some frozen := by
  rcases @attempt_spec cfg env frozen v henv hfits with hunsent | ⟨f, exs, hsent⟩
  · exact ⟨hunsent.fits hfits, hunsent.kept frozen hfrozen⟩
  · obtain rfl := hsent.eq_frozen hfrozen
    exact ⟨hsent.fits, hsent.frozen⟩

/-- A retry loop sends to partitions of the records. -/
theorem retryLoop_batches (hsound : ∀ n, (world.env n).Sound) {left n : Nat} {v : ProduceVars}
    (hfits : v.Fits frozen) (hfrozen : v.frozen = some frozen) :
    ∀ a ∈ (retryLoop cfg frozen world left n v).attempts, ∀ b ∈ a.batches,
      b.partKey ∈ frozen.map (·.partKey) := by
  obtain ⟨-, hmid⟩ := @retryLoop_induct Nat cfg frozen world
    (fun _ v' => v'.Fits frozen ∧ v'.frozen = some frozen)
    (fun _ v' w h => attempt_keeps_frozen (hsound w) h.1 h.2) left n v [] ⟨hfits, hfrozen⟩
  intro a ha
  obtain ⟨xs, ys, hsplit⟩ := append_of_mem ha
  obtain ⟨w, v', ⟨hfits', hfrozen'⟩, rfl⟩ := hmid xs a ys hsplit
  exact Attempt.batches_of_spec (hsound w) hfits' hfrozen'

end Sends

/-- A call sends if its partitions are registered, and to partitions of its frozen records. -/
theorem batches_produceWithinTxnResult {t : TransactionalProducer} {cfg : ProducerConfig}
    {records frozen : List Record} {env : TxnProduceEnv} (hfreezing : env.freezing.Sound)
    (hattempt : ∀ n, (env.attempt n).Sound) (htv2 : t.tv2 = false)
    (hfrozen : freezePartitions env.freezing env.partition 0 records = .ok frozen) :
    (t.produceWithinTxnResult cfg records env).txn.tv2 = false ∧
      ∀ a ∈ (t.produceWithinTxnResult cfg records env).attempts, ∀ b ∈ a.batches,
        env.added = .ok () ∧ b.partKey ∈ frozen.map (·.partKey) := by
  have hunsent : ∀ err, (⟨[], err, t, []⟩ : TxnProduced).txn.tv2 = false ∧
      ∀ a ∈ (⟨[], err, t, []⟩ : TxnProduced).attempts, ∀ b ∈ a.batches,
        env.added = .ok () ∧ b.partKey ∈ frozen.map (·.partKey) :=
    fun err => ⟨htv2, fun a ha => (not_mem_nil ha).elim⟩
  rw [TransactionalProducer.produceWithinTxnResult, hfrozen, TransactionalProducer.ensurePartitions,
    if_neg (Bool.eq_false_iff.1 htv2)]
  split_ifs with hclosed hnil
  · exact hunsent _
  · exact hunsent _
  · cases hadded : env.added with
    | error e => exact ⟨htv2, fun a ha => (not_mem_nil ha).elim⟩
    | ok u =>
      refine ⟨htv2, fun a ha b hb => ⟨rfl, ?_⟩⟩
      -- frozen records keep their partitions when they are frozen again
      have hfreeze : List.Forall₂ FrozenRecord frozen frozen :=
        forall₂_same.2 fun r hr => by
          obtain ⟨r', -, hfr⟩ := forall₂_exists_left (freezePartitions_ok hfreezing hfrozen) hr
          exact ⟨rfl, hfr.pos, fun _ => rfl⟩
      refine @retryLoop_batches { cfg with transactional := true } frozen
        { env := env.attempt, next := fun n _ => n + 1 } hattempt cfg.attempts 0 _ ?_ rfl a ha b hb
      refine ⟨length_replicate, length_replicate, fun f hf => ?_⟩
      obtain rfl := Option.some.inj hf
      exact hfreeze

/-! ## Runs -/

/-- The invariant of a run of a transaction without `transaction.version` 2. -/
structure RegisteringTxn.Inv (s : RegisteringTxn) : Prop where
  tv2 : s.txn.tv2 = false
  registered : s.Exact

section Step

variable {s : RegisteringTxn} {call : TxnCall}

theorem TxnCall.freeze_of_frozen {frozen : List Record} (h : call.frozen s = some frozen) :
    freezePartitions call.env.freezing call.env.partition 0 call.records = .ok frozen := by
  unfold TxnCall.frozen at h
  split_ifs at h
  cases hfreeze : freezePartitions call.env.freezing call.env.partition 0 call.records with
  | error e =>
    rw [hfreeze] at h
    cases h
  | ok frozen' =>
    rw [hfreeze] at h
    rw [Option.some.inj h]

theorem tv2_produceWithinTxnResult (t : TransactionalProducer) :
    (t.produceWithinTxnResult cfg records env).txn.tv2 = t.tv2 := by
  rw [TransactionalProducer.produceWithinTxnResult]
  split_ifs
  · rfl
  · rfl
  · split
    · rfl
    · split <;> rfl

/-- A call keeps the registered partitions exact if it leaves none behind. -/
theorem RegisteringTxn.Inv.next (h : s.Inv) (hcall : call.LeavesNone s) : (s.next call).Inv := by
  unfold RegisteringTxn.next
  cases hfrozen : call.frozen s with
  | none => exact h
  | some frozen =>
    have hensured := h.registered.ensured h.tv2 call.reg frozen
    exact ⟨(tv2_produceWithinTxnResult _).trans h.tv2,
      hensured.exact_of (hcall frozen hfrozen)⟩

/-- A call that leaves partitions behind registers some that were not added. -/
theorem RegisteringTxn.Inv.leavesNone (h : s.Inv)
    (hnext : ∀ k ∈ (s.next call).registered, k ∈ (s.next call).added) : call.LeavesNone s := by
  intro frozen hfrozen
  unfold RegisteringTxn.next at hnext
  rw [hfrozen] at hnext
  exact (h.registered.ensured h.tv2 call.reg frozen).exact_iff.1 hnext

/-- A call sends to partitions that were added. -/
theorem RegisteringTxn.Inv.sent (h : s.Inv) (hsound : call.Sound)
    (hs : ∀ b ∈ s.sent, b.partKey ∈ s.added) :
    ∀ b ∈ (s.next call).sent, b.partKey ∈ (s.next call).added := by
  unfold RegisteringTxn.next
  cases hfrozen : call.frozen s with
  | none => exact hs
  | some frozen =>
    have hensured := h.registered.ensured h.tv2 call.reg frozen
    intro b hb
    rcases mem_append.1 hb with hb | hb
    · rw [hensured.sent] at hb
      exact hensured.mono _ (hs b hb)
    · obtain ⟨a, ha, hb⟩ := mem_flatMap.1 hb
      have hfreeze := TxnCall.freeze_of_frozen hfrozen
      obtain ⟨hok, hkey⟩ := (@batches_produceWithinTxnResult s.txn call.cfg call.records frozen
        { call.env with added := (s.ensurePartitions call.reg frozen).1 }
        hsound.freezing hsound.attempt h.tv2 hfreeze).2 a ha b hb
      obtain ⟨r, hr, hkey⟩ := mem_map.1 hkey
      obtain ⟨r', -, hfr⟩ := forall₂_exists_left (freezePartitions_ok hsound.freezing hfreeze) hr
      rw [← hkey]
      exact hensured.ok hok r hr hfr.pos

end Step

theorem TransactionalProducer.begun_inv {t : TransactionalProducer} (htv2 : t.tv2 = false) :
    t.begun.Inv :=
  ⟨htv2, fun k => iff_of_false (Finset.notMem_empty k) List.not_mem_nil⟩

/-- In a transaction without `transaction.version` 2, all states of a run have only partitions
registered that an AddPartitionsToTxn request added, exactly if no call of the run leaves partitions
behind; and then all batches went to such partitions. -/
theorem registered_added (t : TransactionalProducer) (htv2 : t.tv2 = false) (calls : List TxnCall) :
    ((∀ s ∈ Run.states RegisteringTxn.next t.begun calls, ∀ k ∈ s.registered, k ∈ s.added) ↔
      Run.Along RegisteringTxn.next (fun s call => call.LeavesNone s) t.begun calls) ∧
    ((∀ call ∈ calls, call.Sound) →
      Run.Along RegisteringTxn.next (fun s call => call.LeavesNone s) t.begun calls →
      ∀ s ∈ Run.states RegisteringTxn.next t.begun calls, ∀ b ∈ s.sent, b.partKey ∈ s.added) := by
  refine ⟨?_, fun hsound halong s hs => ?_⟩
  · exact Run.states_iff_along (fun _ _ h hcall => h.next hcall) (fun s h k => (h.registered k).1)
      (fun _ _ h hnext => h.leavesNone hnext) (t.begun_inv htv2)
  · have hstep : ∀ (s : RegisteringTxn) (call : TxnCall),
        (s.Inv ∧ ∀ b ∈ s.sent, b.partKey ∈ s.added) → call.LeavesNone s ∧ call.Sound →
        (s.next call).Inv ∧ ∀ b ∈ (s.next call).sent, b.partKey ∈ (s.next call).added :=
      fun s call h hcall => ⟨h.1.next hcall.1, h.1.sent hcall.2 h.2⟩
    have hstart : t.begun.Inv ∧ ∀ b ∈ t.begun.sent, b.partKey ∈ t.begun.added :=
      ⟨t.begun_inv htv2, nofun⟩
    exact ((halong.and (Run.Along.of_forall hsound)).states hstep hstart s hs).2

/-! ## Two calls -/

/-- A transaction without `transaction.version` 2. -/
def txnT : TransactionalProducer := { identity := { pid := ⟨7, 0⟩ }, tv2 := false }

/-- A call of a producer that knows topic `t`; AddPartitionsToTxn succeeds. -/
def txnCallT (records : List Record) : TxnCall :=
  { cfg := configT
    records := records
    env :=
      { freezing := clusterT
        partition := fun _ _ _ => 0
        attempt := fun _ => envT fun _ _ => .ok [⟨[116], 0, 7, 0⟩] }
    reg :=
      { cluster := clusterT
        partition := fun _ _ _ => 0
        topicOrder := ⟨id, fun ks => .refl ks⟩
        addPartitions := fun _ => .ok () } }

theorem txnCallT_sound : (txnCallT records).Sound :=
  ⟨clusterT_sound, fun _ => ⟨clusterT_sound, clusterT_sound⟩⟩

/-- A record for partition 0 of topic `t`, and one for partition 0 of topic `u`, which the cluster
does not have. -/
def recordT : Record := { topic := [116], partition := 0, value := some [1] }
def recordU : Record := { topic := [117], partition := 0, value := some [2] }

/-- Two calls for partition 0 of `t`. -/
def addedCalls : List TxnCall := [txnCallT [recordT], txnCallT recordsT]

theorem registered_added_two :
    ((addedCalls.foldl RegisteringTxn.next txnT.begun).added = [⟨[116], 0⟩] ∧
      (addedCalls.foldl RegisteringTxn.next txnT.begun).sent.map (·.partKey) =
        [⟨[116], 0⟩, ⟨[116], 0⟩]) ∧
    ∀ s ∈ Run.states RegisteringTxn.next txnT.begun addedCalls,
      (∀ k ∈ s.registered, k ∈ s.added) ∧ ∀ b ∈ s.sent, b.partKey ∈ s.added := by
  obtain ⟨hiff, hsent⟩ := registered_added txnT rfl addedCalls
  have halong : Run.Along RegisteringTxn.next (fun s call => call.LeavesNone s) txnT.begun
      addedCalls := by decide +kernel
  have hsound : ∀ call ∈ addedCalls, call.Sound :=
    forall_mem_cons.2 ⟨txnCallT_sound, forall_mem_singleton.2 txnCallT_sound⟩
  exact ⟨by decide +kernel, fun s hs => ⟨hiff.2 halong s hs, hsent hsound halong s hs⟩⟩

/-- A call for topics `t` and `u`, and one for `t` alone. -/
def leavingCalls : List TxnCall := [txnCallT [recordT, recordU], txnCallT [recordT]]

/-- The first call registers partition 0 of `t` and fails at the record for `u`; the second one
sends to the partition, which was never added. -/
theorem registered_never_added : (∀ call ∈ leavingCalls, call.Sound) ∧
    (leavingCalls.foldl RegisteringTxn.next txnT.begun).registered = {⟨[116], 0⟩} ∧
    (leavingCalls.foldl RegisteringTxn.next txnT.begun).added = [] ∧
    (leavingCalls.foldl RegisteringTxn.next txnT.begun).sent.map (·.partKey) = [⟨[116], 0⟩] :=
  ⟨List.forall_mem_cons.2 ⟨txnCallT_sound, List.forall_mem_singleton.2 txnCallT_sound⟩,
    by decide +kernel, by decide +kernel, by decide +kernel⟩

end GoKafka
