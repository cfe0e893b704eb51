import GoKafka.Lib.Run
import GoKafka.Producer.PartialRetry

/-!
# Transactions

`transaction.go`: `BeginTransaction` starts a transaction with a producer id and epoch, the
transaction sends its batches under them with sequence numbers from 0 on, and `Commit` or `Abort`
end it. Under `transaction.version` 2 the answer to EndTxn has the pair for the next transaction,
which the producer keeps (`txnPID`) until a transaction ends again. A pair is fresh when the broker
issues it, but the producer hands the kept one out as often as a transaction is begun:
`transactions_apart` says that batches of different transactions stay apart when no pair is handed
out twice, and `transactions_overlap` is a producer that abandons a transaction.
-/

namespace GoKafka

open List

/-! ## The program -/

/-- `TransactionalProducer`: its id, epoch and sequence numbers (`pid`, `idState`), and whether it
is open and under `transaction.version` 2. -/
structure TransactionalProducer where
  identity : ProducerIdentity
  isOpen : Bool := true
  tv2 : Bool

def errNoTransactionalID : Error :=
  .other "gokafka: transactional id is required when transactions are enabled"

def errTransactionAborted : Error := .other "gokafka: transaction aborted"

/-- What `BeginTransaction` meets: `requireOpen`, the transactional id of the configuration, the
level of the feature `transaction.version`, the lookup of the coordinator, and what the
InitProducerID requests of `init` come to. -/
structure BeginEnv where
  opened : Except Error Unit := .ok ()
  txnID : Bytes
  feature : Option Int16
  coordinator : Except Error Unit := .ok ()
  init : Except Error ProducerID

/-- `transaction.version` is at least 2. -/
def BeginEnv.tv2 (env : BeginEnv) : Bool := env.feature.any (2 ≤ ·)

/-- `Producer.BeginTransaction` with the pair that `cachedTxnPID` returns, if it is valid. -/
def beginTransaction (txnPID : Option ProducerID) (env : BeginEnv) :
    Except Error TransactionalProducer := do
  let _ ← env.opened
  if env.txnID = [] then .error errNoTransactionalID
  else
    match if env.tv2 then txnPID else none with
    | some cached =>
      let _ ← env.coordinator
      return { identity := { pid := cached }, tv2 := env.tv2 }
    | none =>
      let pid ← env.init
      return { identity := { pid := pid }, tv2 := env.tv2 }

/-- What `ProduceWithinTxnResult` meets: the metadata and the partitioner when partitions are
frozen, what `AddPartitionsToTxn` comes to, and the attempts. -/
structure TxnProduceEnv where
  freezing : Cluster
  partition : Nat → NilBytes → Nat → Int32
  added : Except Error Unit := .ok ()
  attempt : Nat → AttemptEnv

/-- `TransactionalProducer.ensurePartitions`: under `transaction.version` 2 the leader of a
partition adds it to the transaction itself. -/
def TransactionalProducer.ensurePartitions (t : TransactionalProducer) (added : Except Error Unit) :
    Except Error Unit :=
  if t.tv2 then .ok () else added

/-- How `ProduceWithinTxnResult` ends. -/
structure TxnProduced where
  results : List ProduceRecordResult := []
  err : Option Error
  txn : TransactionalProducer
  attempts : List Attempt := []

def TransactionalProducer.produceWithinTxnResult (cfg : ProducerConfig) (t : TransactionalProducer)
    (records : List Record) (env : TxnProduceEnv) : TxnProduced :=
  if t.isOpen = false then { err := some errTransactionAborted, txn := t }
  else if records = [] then { err := none, txn := t }
  else
    match freezePartitions env.freezing env.partition 0 records with
    | .error e => { err := some e, txn := t }
    | .ok frozen =>
      match t.ensurePartitions env.added with
      | .error e => { err := some e, txn := t }
      | .ok () =>
        let run := retryLoop { cfg with transactional := true } frozen
          { env := env.attempt, next := fun n _ => n + 1 } cfg.attempts 0
          { ProduceVars.start frozen (some t.identity) with frozen := some frozen }
        { results := run.vars.results
          err := run.err
          txn := { t with identity := run.vars.identity.getD t.identity }
          attempts := run.attempts }

/-- `TransactionalProducer.endTxn`: its result, the transaction, and the pair that is kept; `ended`
is what the EndTxn requests come to. -/
def TransactionalProducer.endTxn (t : TransactionalProducer) (commit : Bool)
    (ended : Except Error ProducerID) (txnPID : Option ProducerID) :
    Except Error Unit × TransactionalProducer × Option ProducerID :=
  if t.isOpen = false then (.error errTransactionAborted, t, txnPID)
  else
    match ended with
    | .error e => (.error e, t, none)
    | .ok pid =>
      let result := if commit then .ok () else .error errTransactionAborted
      if t.tv2 ∧ 0 ≤ pid.id ∧ 0 ≤ pid.epoch then
        (result, { t with isOpen := false, identity.pid := pid }, some pid)
      else (result, { t with isOpen := false }, none)

/-! ## Runs -/

/-- A data batch on the wire: the transaction that sent it, and its id and epoch. -/
structure SentBatch where
  txn : Nat
  pid : ProducerID
  batch : PartitionBatch
  deriving DecidableEq

/-- The sequence numbers of a batch. -/
def SentBatch.block (b : SentBatch) : SeqBlock := ⟨b.batch.baseSequence, b.batch.records.length⟩

/-- The data batches of an attempt of a transaction. -/
def Attempt.sentBatches (txn : Nat) (a : Attempt) : List SentBatch :=
  match a.before.identity with
  | none => []
  | some id => (a.out.sent.getD []).flatMap fun ex =>
      (ex.request.toOption.getD []).map fun b => ⟨txn, id.pid, b⟩

/-- A producer with the transactions it has begun; the pairs they were begun with, the pairs that
brokers have issued, and the batches that were sent. -/
structure Transactions where
  txnPID : Option ProducerID := none
  txns : List TransactionalProducer := []
  begun : List ProducerID := []
  issued : List ProducerID := []
  sent : List SentBatch := []

/-- A call on the producer or on one of its transactions. -/
inductive TxnStep where
  | beginTxn (env : BeginEnv)
  | produce (txn : Nat) (cfg : ProducerConfig) (records : List Record) (env : TxnProduceEnv)
  | endTxn (txn : Nat) (commit : Bool) (ended : Except Error ProducerID)

/-- The pair that a broker issues in a step: InitProducerID succeeds, or EndTxn does and returns
one. -/
def TxnStep.issues (s : Transactions) : TxnStep → List ProducerID
  | .beginTxn env =>
    if env.tv2 ∧ s.txnPID.isSome then []
    else ((beginTransaction s.txnPID env).toOption.map (·.identity.pid)).toList
  | .produce .. => []
  | .endTxn txn _ ended =>
    if s.txns[txn]?.any (·.isOpen) then
      ended.toOption.toList.filter fun pid => 0 ≤ pid.id ∧ 0 ≤ pid.epoch
    else []

/-- The producer after a call. -/
def Transactions.next (s : Transactions) (step : TxnStep) : Transactions :=
  let s' := { s with issued := s.issued ++ step.issues s }
  match step with
  | .beginTxn env =>
    match beginTransaction s.txnPID env with
    | .error _ => s'
    | .ok t => { s' with txns := s.txns ++ [t], begun := s.begun ++ [t.identity.pid] }
  | .produce txn cfg records env =>
    match s.txns[txn]? with
    | none => s'
    | some t =>
      let produced := t.produceWithinTxnResult cfg records env
      { s' with
        txns := s.txns.set txn produced.txn
        sent := s.sent ++ produced.attempts.flatMap (Attempt.sentBatches txn) }
  | .endTxn txn commit ended =>
    match s.txns[txn]? with
    | none => s'
    | some t =>
      let (_, t, txnPID) := t.endTxn commit ended s.txnPID
      { s' with txns := s.txns.set txn t, txnPID := txnPID }

def Transactions.run (s : Transactions) (steps : List TxnStep) : Transactions :=
  steps.foldl Transactions.next s

/-- The broker issues a larger epoch each time. -/
def TxnStep.Larger (s : Transactions) (step : TxnStep) : Prop :=
  ∀ pid ∈ step.issues s, ∀ q ∈ s.issued, q.id = pid.id → q.epoch < pid.epoch

/-- No transaction is begun with a kept pair that another one was begun with. -/
def TxnStep.HandsOutOnce (s : Transactions) : TxnStep → Prop
  | .beginTxn env => env.tv2 = true → ∀ pid ∈ s.txnPID, pid ∉ s.begun
  | _ => True

instance (s : Transactions) (step : TxnStep) : Decidable (step.Larger s) :=
  inferInstanceAs (Decidable (∀ pid ∈ step.issues s, _))

instance (s : Transactions) : (step : TxnStep) → Decidable (step.HandsOutOnce s)
  | .beginTxn env => inferInstanceAs (Decidable (env.tv2 = true → ∀ pid ∈ s.txnPID, pid ∉ s.begun))
  | .produce .. => isTrue trivial
  | .endTxn .. => isTrue trivial

/-- Batches of different transactions to one partition, under the same id and epoch, share no
sequence number. -/
def Apart (sent : List SentBatch) : Prop :=
  ∀ b ∈ sent, ∀ b' ∈ sent, b.txn ≠ b'.txn → b.pid = b'.pid → b.batch.partKey = b'.batch.partKey →
    b.block.Apart b'.block

/-! ## Sending keeps the pair -/

theorem pid_attempt :
    (attempt cfg records env v).vars.identity.map (·.pid) = v.identity.map (·.pid) := by
  fun_cases attempt cfg records env v with
  | case1 | case2 => rfl
  | case3 _ _ _ pending =>
    change (sendRecords cfg env (pending.map (·.1)) v.identity).identity.map _ = _
    rw [sendRecords]
    split
    · rfl
    · cases v.identity <;> rfl

section Retry

variable {cfg : ProducerConfig} {records : List Record} {world : World Nat}

theorem pid_retryLoop (left n : Nat) (v : ProduceVars) :
    (retryLoop cfg records world left n v).vars.identity.map (·.pid) = v.identity.map (·.pid) ∧
      ∀ a ∈ (retryLoop cfg records world left n v).attempts,
        a.before.identity.map (·.pid) = v.identity.map (·.pid) := by
  obtain ⟨hend, hmid⟩ := @retryLoop_induct Nat cfg records world
    (fun _ v' => v'.identity.map (·.pid) = v.identity.map (·.pid))
    (fun _ v' w h => (pid_attempt).trans h) left n v [] rfl
  refine ⟨hend, fun a ha => ?_⟩
  obtain ⟨xs, ys, hsplit⟩ := append_of_mem ha
  obtain ⟨w', v', hv', rfl⟩ := hmid xs a ys hsplit
  exact hv'

end Retry

/-- What a call of `ProduceWithinTxnResult` keeps: it sends only if the transaction is open, under
its id and epoch. -/
structure Produces (t : TransactionalProducer) (p : TxnProduced) : Prop where
  isOpen : p.txn.isOpen = t.isOpen
  pid : p.txn.identity.pid = t.identity.pid
  sends : ∀ a ∈ p.attempts, t.isOpen = true ∧ ∀ id, a.before.identity = some id →
    id.pid = t.identity.pid

theorem produces_produceWithinTxnResult :
    Produces t (t.produceWithinTxnResult cfg records env) := by
  have hunsent : ∀ err, Produces t { err := err, txn := t } := fun err =>
    ⟨rfl, rfl, fun a ha => (not_mem_nil ha).elim⟩
  fun_cases t.produceWithinTxnResult cfg records env with
  | case1 | case2 | case3 | case4 => exact hunsent _
  | case5 hclosed _ frozen _ _ run =>
    have hpid : run.vars.identity.map (·.pid) = _ ∧ ∀ a ∈ run.attempts, _ :=
      pid_retryLoop cfg.attempts 0 _
    refine ⟨rfl, ?_, fun a ha => ⟨Bool.of_not_eq_false hclosed, fun id hid => ?_⟩⟩
    · obtain ⟨id, hid, heq⟩ := Option.map_eq_some_iff.1 hpid.1
      dsimp only
      rw [hid]
      exact heq
    · have hbefore := hpid.2 a ha
      rw [hid] at hbefore
      exact Option.some.inj hbefore

/-! ## Pairs -/

theorem beginTransaction_ok (h : beginTransaction txnPID env = .ok t) :
    t.isOpen = true ∧ (env.tv2 = true ∧ txnPID = some t.identity.pid ∨
      ¬ (env.tv2 ∧ txnPID.isSome)) := by
  obtain ⟨u, -, h⟩ := bind_eq_ok.1 h
  split_ifs at h with hid htv2
  · cases txnPID with
    | none =>
      obtain ⟨pid, -, h⟩ := bind_eq_ok.1 h
      cases h
      exact ⟨rfl, .inr fun hkept => by cases hkept.2⟩
    | some cached =>
      obtain ⟨u, -, h⟩ := bind_eq_ok.1 h
      cases h
      exact ⟨rfl, .inl ⟨htv2, rfl⟩⟩
  · obtain ⟨pid, -, h⟩ := bind_eq_ok.1 h
    cases h
    exact ⟨rfl, .inr fun hkept => htv2 hkept.1⟩

/-- The invariant of a run: no two transactions are begun with the same pair, an open one has the
pair it was begun with, and a batch has the pair its transaction was begun with. Pairs in use are
pairs that were issued. -/
structure Transactions.Inv (s : Transactions) : Prop where
  nodup : s.begun.Nodup
  length : s.begun.length = s.txns.length
  pid : ∀ {i : Nat} {t : TransactionalProducer}, s.txns[i]? = some t →
    t.isOpen = true → s.begun[i]? = some t.identity.pid
  sent : ∀ b ∈ s.sent, s.begun[b.txn]? = some b.pid
  begun : ∀ pid ∈ s.begun, pid ∈ s.issued
  kept : ∀ pid, s.txnPID = some pid → pid ∈ s.issued

section Step

variable {s : Transactions}

theorem TxnStep.Larger.not_mem {step : TxnStep} (h : step.Larger s) (hpid : pid ∈ step.issues s) :
    pid ∉ s.issued := fun hmem =>
  Int16.lt_irrefl (h pid hpid pid hmem rfl)

theorem Transactions.Inv.beginTxn (h : s.Inv) (hlarger : TxnStep.Larger s (.beginTxn env))
    (honce : TxnStep.HandsOutOnce s (.beginTxn env)) : (s.next (.beginTxn env)).Inv := by
  have hissued : ∀ pid ∈ s.issued, pid ∈ s.issued ++ (TxnStep.beginTxn env).issues s :=
    fun pid hpid => mem_append_left _ hpid
  rw [Transactions.next]
  cases hbegin : beginTransaction s.txnPID env with
  | error e =>
    exact ⟨h.nodup, h.length, h.pid, h.sent, fun pid hpid => hissued pid (h.begun pid hpid),
      fun pid hpid => hissued pid (h.kept pid hpid)⟩
  | ok t =>
    obtain ⟨hopen, hpair⟩ := beginTransaction_ok hbegin
    -- the pair is new to the transactions, and issued
    have hnew : t.identity.pid ∉ s.begun ∧
        t.identity.pid ∈ s.issued ++ (TxnStep.beginTxn env).issues s := by
      rcases hpair with ⟨htv2, hkept⟩ | hinit
      · exact ⟨honce htv2 _ hkept, hissued _ (h.kept _ hkept)⟩
      · have hissues : t.identity.pid ∈ (TxnStep.beginTxn env).issues s := by
          rw [TxnStep.issues, if_neg hinit, hbegin]
          exact mem_singleton_self _
        exact ⟨fun hmem => hlarger.not_mem hissues (h.begun _ hmem), mem_append_right _ hissues⟩
    have hlater : ∀ {i pid}, s.begun[i]? = some pid →
        (s.begun ++ [t.identity.pid])[i]? = some pid := fun hi => by
      rw [List.getElem?_append_left (List.getElem?_eq_some_iff.1 hi).1]
      exact hi
    refine ⟨?_, ?_, ?_, fun b hb => hlater (h.sent b hb), ?_,
      fun pid hpid => hissued pid (h.kept pid hpid)⟩
    · exact nodup_append_comm.1 (nodup_cons.2 ⟨hnew.1, h.nodup⟩)
    · rw [length_append, length_append, h.length]
      rfl
    · intro i t' ht' hopen'
      have hbound : i < (s.txns ++ [t]).length := (List.getElem?_eq_some_iff.1 ht').1
      rw [length_append] at hbound
      rcases Nat.lt_or_eq_of_le (Nat.le_of_lt_succ hbound) with hi | rfl
      · rw [List.getElem?_append_left hi] at ht'
        exact hlater (h.pid ht' hopen')
      · rw [List.getElem?_concat_length] at ht'
        obtain rfl := Option.some.inj ht'
        rw [← h.length]
        exact List.getElem?_concat_length
    · intro pid hpid
      rcases mem_append.1 hpid with hpid | hpid
      · exact hissued pid (h.begun pid hpid)
      · rw [mem_singleton.1 hpid]
        exact hnew.2

/-- A transaction that is replaced by one with the same pair, or by a closed one. -/
theorem Transactions.Inv.pid_set (h : s.Inv) (ht : s.txns[txn]? = some t)
    (ht' : t'.isOpen = true → t.isOpen = true ∧ t'.identity.pid = t.identity.pid) {i : Nat}
    (hu : (s.txns.set txn t')[i]? = some u) (hopen : u.isOpen = true) :
    s.begun[i]? = some u.identity.pid := by
  by_cases hi : txn = i
  · subst hi
    rw [List.getElem?_set_self (List.getElem?_eq_some_iff.1 ht).1] at hu
    obtain rfl := Option.some.inj hu
    obtain ⟨hopen, hpid⟩ := ht' hopen
    rw [hpid]
    exact h.pid ht hopen
  · rw [List.getElem?_set_ne hi] at hu
    exact h.pid hu hopen

theorem Transactions.Inv.produce (h : s.Inv) {txn : Nat} {t : TransactionalProducer}
    (ht : s.txns[txn]? = some t) {p : TxnProduced} (hp : Produces t p) :
    Transactions.Inv { s with
      txns := s.txns.set txn p.txn
      sent := s.sent ++ p.attempts.flatMap (Attempt.sentBatches txn) } := by
  refine ⟨h.nodup, ?_, ?_, ?_, h.begun, h.kept⟩
  · rw [length_set]
    exact h.length
  · exact fun hu hopen => h.pid_set ht (fun hopen' => ⟨hp.isOpen ▸ hopen', hp.pid⟩) hu hopen
  · intro b hb
    rcases mem_append.1 hb with hb | hb
    · exact h.sent b hb
    · obtain ⟨a, ha, hb⟩ := mem_flatMap.1 hb
      obtain ⟨hopen, hpid⟩ := hp.sends a ha
      rw [Attempt.sentBatches] at hb
      split at hb
      · cases hb
      · next id hid =>
        obtain ⟨ex, -, hb⟩ := mem_flatMap.1 hb
        obtain ⟨batch, -, rfl⟩ := mem_map.1 hb
        rw [hpid id hid]
        exact h.pid ht hopen

/-- A transaction that ends: it stays as it is, or is closed. -/
theorem endTxn_closes (t : TransactionalProducer) :
    ((t.endTxn commit ended txnPID).2.1.isOpen = true →
      t.isOpen = true ∧ (t.endTxn commit ended txnPID).2.1.identity.pid = t.identity.pid) ∧
    ∀ pid, (t.endTxn commit ended txnPID).2.2 = some pid → txnPID = some pid ∨
      t.isOpen = true ∧ ended = .ok pid ∧ 0 ≤ pid.id ∧ 0 ≤ pid.epoch := by
  unfold TransactionalProducer.endTxn
  by_cases hclosed : t.isOpen = false
  · rw [if_pos hclosed]
    refine ⟨fun hopen => ?_, fun pid hpid => .inl hpid⟩
    rw [hclosed] at hopen
    cases hopen
  · rw [if_neg hclosed]
    have hopen := Bool.of_not_eq_false hclosed
    cases ended with
    | error e => exact ⟨fun _ => ⟨hopen, rfl⟩, nofun⟩
    | ok pid =>
      dsimp only
      by_cases hkept : t.tv2 = true ∧ 0 ≤ pid.id ∧ 0 ≤ pid.epoch
      · rw [if_pos hkept]
        refine ⟨nofun, fun pid' hpid => ?_⟩
        cases hpid
        exact .inr ⟨hopen, rfl, hkept.2⟩
      · rw [if_neg hkept]
        exact ⟨nofun, nofun⟩

/-- A step keeps the invariant. -/
theorem Transactions.Inv.next (h : s.Inv) (hlarger : step.Larger s) (honce : step.HandsOutOnce s) :
    (s.next step).Inv := by
  cases step with
  | beginTxn env => exact h.beginTxn hlarger honce
  | produce txn cfg records env =>
    have hissued : s.issued ++ (TxnStep.produce txn cfg records env).issues s = s.issued :=
      append_nil _
    rw [Transactions.next]
    rw [hissued]
    cases ht : s.txns[txn]? with
    | none => exact h
    | some t => exact h.produce ht produces_produceWithinTxnResult
  | endTxn txn commit ended =>
    have hissued : ∀ pid ∈ s.issued, pid ∈ s.issued ++ (TxnStep.endTxn txn commit ended).issues s :=
      fun pid hpid => mem_append_left _ hpid
    rw [Transactions.next]
    cases ht : s.txns[txn]? with
    | none =>
      exact ⟨h.nodup, h.length, h.pid, h.sent, fun pid hpid => hissued pid (h.begun pid hpid),
        fun pid hpid => hissued pid (h.kept pid hpid)⟩
    | some t =>
      obtain ⟨hcloses, hkept⟩ := endTxn_closes t
      refine ⟨h.nodup, ?_, fun hu hopen => h.pid_set ht hcloses hu hopen, h.sent,
        fun pid hpid => hissued pid (h.begun pid hpid), fun pid hpid => ?_⟩
      · exact h.length.trans length_set.symm
      · rcases hkept pid hpid with hpid | ⟨hopen, rfl, hpair⟩
        · exact hissued pid (h.kept pid hpid)
        · refine mem_append_right _ ?_
          rw [TxnStep.issues, ht, if_pos (show (some t).any (·.isOpen) = true from hopen)]
          exact mem_filter.2 ⟨mem_singleton_self _, decide_eq_true hpair⟩

end Step

/-- Where the broker issues a larger epoch each time and no transaction is begun with a kept pair
that another one was begun with, the batches of different transactions stay apart. -/
theorem transactions_apart {steps : List TxnStep}
    (hlarger : Run.Along Transactions.next (fun s step => step.Larger s) {} steps)
    (honce : Run.Along Transactions.next (fun s step => step.HandsOutOnce s) {} steps) :
    Apart (Transactions.run {} steps).sent := by
  have hstart : Transactions.Inv {} :=
    ⟨.nil, rfl, nofun, nofun,
      nofun, nofun⟩
  have h : Transactions.Inv (Transactions.run {} steps) :=
    (hlarger.and honce).foldl (fun _ _ h hstep => h.next hstep.1 hstep.2) hstart
  intro b hb b' hb' hne hpid
  -- one pair is begun by one transaction
  have hsame : b.txn = b'.txn := by
    have hbegun := h.sent b hb
    have hbegun' := h.sent b' hb'
    rw [← hpid] at hbegun'
    exact (List.getElem?_inj (List.getElem?_eq_some_iff.1 hbegun).1 h.nodup).1
      (hbegun.trans hbegun'.symm)
  exact (hne hsame).elim

/-! ## An abandoned transaction -/

/-- A transaction is begun; InitProducerID, if it is asked, returns the pair. -/
def begins (pid : ProducerID) : TxnStep :=
  .beginTxn { txnID := [120], feature := some 2, init := .ok pid }

/-- A transaction sends two records for partition 0 of topic `t`. -/
def sends (txn : Nat) : TxnStep :=
  .produce txn configT recordsT
    { freezing := clusterT, partition := fun _ _ _ => 0
      attempt := fun _ => envT fun _ _ => .ok [⟨[116], 0, 7, 0⟩] }

/-- What a batch says. -/
def SentBatch.summary (b : SentBatch) : Nat × ProducerID × PartKey × SeqBlock :=
  (b.txn, b.pid, b.batch.partKey, b.block)

/-- Two transactions, the first of which is committed; the broker bumps the epoch. -/
def committedFirst : List TxnStep :=
  [begins ⟨7, 0⟩, sends 0, .endTxn 0 true (.ok ⟨7, 1⟩), begins ⟨7, 9⟩, sends 1]

theorem transactions_apart_two : (Transactions.run {} committedFirst).sent.map SentBatch.summary =
      [(0, ⟨7, 0⟩, ⟨[116], 0⟩, ⟨0, 2⟩), (1, ⟨7, 1⟩, ⟨[116], 0⟩, ⟨0, 2⟩)] ∧
    Apart (Transactions.run {} committedFirst).sent :=
  ⟨by decide +kernel, transactions_apart (by decide +kernel) (by decide +kernel)⟩

/-- The second transaction is begun with the pair of the EndTxn answer and abandoned; the third is
begun with the same pair, and sends under the same sequence numbers. -/
theorem transactions_overlap :
    (Transactions.run {} (committedFirst ++ [begins ⟨7, 9⟩, sends 2])).sent.map SentBatch.summary =
      [(0, ⟨7, 0⟩, ⟨[116], 0⟩, ⟨0, 2⟩), (1, ⟨7, 1⟩, ⟨[116], 0⟩, ⟨0, 2⟩),
        (2, ⟨7, 1⟩, ⟨[116], 0⟩, ⟨0, 2⟩)] ∧
    Run.Along Transactions.next (fun s step => step.Larger s) {}
      (committedFirst ++ [begins ⟨7, 9⟩, sends 2]) ∧
    ¬ Apart (Transactions.run {} (committedFirst ++ [begins ⟨7, 9⟩, sends 2])).sent := by
  have hsent : (Transactions.run {} (committedFirst ++ [begins ⟨7, 9⟩, sends 2])).sent.map
      SentBatch.summary = [(0, ⟨7, 0⟩, ⟨[116], 0⟩, ⟨0, 2⟩), (1, ⟨7, 1⟩, ⟨[116], 0⟩, ⟨0, 2⟩),
        (2, ⟨7, 1⟩, ⟨[116], 0⟩, ⟨0, 2⟩)] := by decide +kernel
  refine ⟨hsent, by decide +kernel, fun hapart => ?_⟩
  obtain ⟨b, hb, hsecond⟩ : ∃ b ∈ _, SentBatch.summary b = (1, ⟨7, 1⟩, ⟨[116], 0⟩, ⟨0, 2⟩) :=
    mem_map.1 (by rw [hsent]; decide)
  obtain ⟨b', hb', hthird⟩ : ∃ b ∈ _, SentBatch.summary b = (2, ⟨7, 1⟩, ⟨[116], 0⟩, ⟨0, 2⟩) :=
    mem_map.1 (by rw [hsent]; decide)
  simp only [SentBatch.summary, Prod.mk.injEq] at hsecond hthird
  have hblocks := hapart b hb b' hb' (by omega) (hsecond.2.1.trans hthird.2.1.symm)
    (hsecond.2.2.1.trans hthird.2.2.1.symm)
  rw [hsecond.2.2.2, hthird.2.2.2] at hblocks
  exact hblocks 0 (by decide) (by decide)

end GoKafka
