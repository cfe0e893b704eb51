import GoKafka.Producer.ProduceSync

/-!
# Retries after partial failures

What a whole run of `ProduceSyncResult` guarantees, over every pattern of broker outcomes.

Retries are exact (`produceSyncResult_exact`): an attempt sends a record exactly if no earlier
attempt had it acknowledged, always to the same partition, and an acknowledged record gets the
offset its place in the batch gives it. The sender groups records by partition and the encoder does
so again on its own; `Attempt.inputs` is the sender's view and `ExactRetries.placed` says that a
batch is what it should be.

A nil error is weaker than it looks: a broker's answer that leaves out a partition counts neither as
a failure nor as an acknowledgement. `produceSyncResult_acked_iff` is the exact condition.
-/

namespace GoKafka

open Assoc List

/-- A record as an attempt hands it to the encoder. -/
def Record.wire (now : Time) (r : Record) : ProduceRecord :=
  { topic := r.topic, partition := r.partition, key := r.key, value := r.value
    headers := recordHeaders r.headers, timestamp := timeNow now r.timestamp }

namespace Attempt

variable (a : Attempt)

/-- The records with their frozen partitions. -/
def frozen : List Record := a.out.vars.frozen.getD []

/-- The records of the call that are pending for a partition, by index. -/
def inputs (k : PartKey) : List Nat := inputsOf a.frozen a.before.acked k

/-- What passed between the producer and the brokers. -/
def exchanges : List Exchange := a.out.sent.getD []

/-- All leaders were resolved and all batches encoded. -/
def Complete : Prop := ∃ exs, a.out.sent = some exs ∧ ∀ ex ∈ exs, ∃ bs, ex.request = .ok bs

/-- A batch of an attempt's requests holds record `i` of the call at offset delta `d`. -/
structure Holds (i : Nat) (ex : Exchange) (b : PartitionBatch) (d : Nat) : Prop where
  exchange : ex ∈ a.exchanges
  batch : ∃ bs, ex.request = .ok bs ∧ b ∈ bs
  record : (a.inputs b.partKey)[d]? = some i

end Attempt

/-- The broker acknowledged a batch, with the offset of its first record. -/
def Exchange.Acks (ex : Exchange) (b : PartitionBatch) (base : Int64) : Prop :=
  ∃ rs, ex.answer = .ok rs ∧ ∃ res ∈ rs, res.partKey = b.partKey ∧ res.errorCode = 0 ∧
    res.offset = base

/-- A broker's answer is about partitions of the request, each at most once. -/
def AttemptEnv.Answers (env : AttemptEnv) : Prop :=
  ∀ node bs rs, (bs.map (·.partKey)).Nodup → env.respond node bs = .ok rs →
    (rs.map (·.partKey)).Nodup ∧ ∀ res ∈ rs, res.partKey ∈ bs.map (·.partKey)

/-- The outcome of a request is definite: the broker answers for each partition that it was sent, or
it answers nothing and has appended nothing. -/
def AttemptEnv.Definite (env : AttemptEnv) : Prop :=
  ∀ node bs rs, (bs.map (·.partKey)).Nodup → env.respond node bs = .ok rs →
    (rs.map (·.partKey)).Perm (bs.map (·.partKey))

theorem AttemptEnv.Definite.answers {env : AttemptEnv} (h : env.Definite) : env.Answers :=
  fun node bs rs hnodup hrs =>
    ⟨(h node bs rs hnodup hrs).nodup_iff.2 hnodup,
      fun _ hres => (h node bs rs hnodup hrs).mem_iff.1 (List.mem_map_of_mem hres)⟩

/-- The broker acknowledged a partition. -/
def Exchange.AcksKey (ex : Exchange) (k : PartKey) : Prop :=
  ∃ res ∈ ex.entries, res.partKey = k ∧ res.errorCode = 0

instance (ex : Exchange) (k : PartKey) : Decidable (ex.AcksKey k) :=
  inferInstanceAs (Decidable (∃ _ ∈ _, _))

/-! ## The exchange of a partition -/

section Own

variable {cfg : ProducerConfig} {env : AttemptEnv} {routed : List RoutedRecord}
  {identity : Option ProducerIdentity}

theorem Exchange.Sent.request_ok {ex : Exchange} (h : ex.Sent cfg env routed identity)
    (he : e ∈ ex.entries) : ∃ bs, ex.request = .ok bs ∧ ∃ rs, env.respond ex.node bs = .ok rs ∧
      ex.answer = .ok rs ∧ e ∈ rs := by
  rw [Exchange.entries] at he
  split at he
  · next rs hrs =>
    obtain ⟨bs, hbs, hresp⟩ := bind_eq_ok.1 (h.answer ▸ hrs)
    exact ⟨bs, hbs, rs, hresp, hrs, he⟩
  · cases he

/-- An entry of an answer is about a partition that the broker was sent. -/
theorem Exchange.Sent.entry_asked {ex : Exchange} (h : ex.Sent cfg env routed identity)
    (hans : env.Answers) (he : e ∈ ex.entries) :
    ∃ r ∈ routed, r.leader = ex.node ∧ r.partKey = e.partKey := by
  obtain ⟨bs, hbs, rs, hresp, -, he⟩ := h.request_ok he
  exact (h.mem bs hbs _).1 ((hans _ bs rs (h.nodup bs hbs) hresp).2 e he)

theorem Exchange.Sent.failedKeys_asked {ex : Exchange} (h : ex.Sent cfg env routed identity)
    (hans : env.Answers) (hk : k ∈ ex.failedKeys (brokerBatch env.now routed ex.node)) :
    ∃ r ∈ routed, r.leader = ex.node ∧ r.partKey = k := by
  rw [Exchange.failedKeys] at hk
  split at hk
  · next rs hrs =>
    obtain ⟨res, hres, rfl⟩ := mem_map.1 hk
    refine h.entry_asked hans ?_
    rw [Exchange.entries, hrs]
    exact (mem_filter.1 hres).1
  · exact mem_keys_brokerBatch.1 (mem_firstKeys.1 hk)

theorem Exchange.Sent.failedKeys_iff {ex : Exchange} (h : ex.Sent cfg env routed identity)
    (hdef : env.Definite) (hasked : ∃ r ∈ routed, r.leader = ex.node ∧ r.partKey = k) :
    k ∈ ex.failedKeys (brokerBatch env.now routed ex.node) ↔ ¬ ex.AcksKey k := by
  rw [Exchange.failedKeys, Exchange.AcksKey, Exchange.entries]
  cases hrs : ex.answer with
  | error e =>
    refine iff_of_true (mem_firstKeys.2 (mem_keys_brokerBatch.2 hasked)) ?_
    rintro ⟨res, hres, -⟩
    cases hres
  | ok rs =>
    obtain ⟨bs, hbs, hresp⟩ := bind_eq_ok.1 (h.answer ▸ hrs)
    have hperm := hdef _ bs rs (h.nodup bs hbs) hresp
    have hnodup := hperm.nodup_iff.2 (h.nodup bs hbs)
    simp only [mem_map, mem_filter, decide_eq_true_eq]
    constructor
    · rintro ⟨res, ⟨hres, hcode⟩, hkey⟩ ⟨res', hres', hkey', hcode'⟩
      rw [inj_on_of_nodup_map hnodup hres hres' (hkey.trans hkey'.symm)] at hcode
      exact hcode hcode'
    · intro hnone
      obtain ⟨res, hres, hkey⟩ := mem_map.1 (hperm.mem_iff.2 ((h.mem bs hbs k).2 hasked))
      exact ⟨res, ⟨hres, fun hcode => hnone ⟨res, hres, hkey, hcode⟩⟩, hkey⟩

/-- One exchange sends a partition. -/
theorem SendSpec.eq_of_asked (h : SendSpec cfg env routed identity out exs)
    (hleader : OneLeader routed) (hex : ex ∈ exs) (hex' : ex' ∈ exs)
    (hasked : ∃ r ∈ routed, r.leader = ex.node ∧ r.partKey = k)
    (hasked' : ∃ r ∈ routed, r.leader = ex'.node ∧ r.partKey = k) : ex = ex' := by
  obtain ⟨r, hr, hlead, hkey⟩ := hasked
  obtain ⟨r', hr', hlead', hkey'⟩ := hasked'
  have hnode := hleader r hr r' hr' (hkey.trans hkey'.symm)
  exact inj_on_of_nodup_map h.nodup hex hex' (hlead.symm.trans (hnode.trans hlead'))

/-- Only that one says something about it. -/
theorem SendSpec.own (h : SendSpec cfg env routed identity out exs) (hleader : OneLeader routed)
    (hans : env.Answers) (hk : k ∈ routed.map (·.partKey)) :
    ∃ ex ∈ exs, (∃ r ∈ routed, r.leader = ex.node ∧ r.partKey = k) ∧
      (FailedIn env.now routed exs k ↔
        k ∈ ex.failedKeys (brokerBatch env.now routed ex.node)) ∧
      ((lastAck (exs.flatMap (·.entries)) k).isSome ↔ ex.AcksKey k) := by
  obtain ⟨r, hr, hkey⟩ := mem_map.1 hk
  obtain ⟨ex, hex, hnode⟩ := mem_map.1 ((h.nodes _).2 (mem_map_of_mem hr))
  have hasked : ∃ r ∈ routed, r.leader = ex.node ∧ r.partKey = k := ⟨r, hr, hnode.symm, hkey⟩
  refine ⟨ex, hex, hasked, ⟨?_, fun hin => ⟨ex, hex, hin⟩⟩, ?_⟩
  · rintro ⟨ex', hex', hin⟩
    rwa [h.eq_of_asked hleader hex hex' hasked ((h.exchange ex' hex').failedKeys_asked hans hin)]
  rw [lastAck_isSome]
  constructor
  · rintro ⟨res, hres, hcode, rfl⟩
    obtain ⟨ex', hex', hin⟩ := mem_flatMap.1 hres
    obtain rfl := h.eq_of_asked hleader hex hex' hasked
      ((h.exchange ex' hex').entry_asked hans hin)
    exact ⟨res, hin, rfl, hcode⟩
  · rintro ⟨res, hin, hkey, hcode⟩
    exact ⟨res, mem_flatMap.2 ⟨ex, hex, hin⟩, hcode, hkey⟩

end Own

/-! ## One attempt -/

section Sent

variable {cfg : ProducerConfig} {env : AttemptEnv} {records f : List Record} {v : ProduceVars}
  {out : AttemptOut} {exs : List Exchange}

variable (h : SentPending cfg env records v out f exs)
include h

/-- An exchange of an attempt that sent. -/
theorem SentPending.exchange (hex : ex ∈ exs) :
    ex.Sent cfg env (routedPending env.cluster f v.acked) v.identity := by
  obtain ⟨so, hspec, -⟩ := h.send
  exact hspec.exchange ex hex

/-- A partition's batch is in the request of one broker. -/
theorem SentPending.exchange_unique (hex : ex ∈ exs) (hex' : ex' ∈ exs) (hbs : ex.request = .ok bs)
    (hbs' : ex'.request = .ok bs') (hk : k ∈ bs.map (·.partKey)) (hk' : k ∈ bs'.map (·.partKey)) :
    ex = ex' := by
  obtain ⟨so, hspec, -⟩ := h.send
  exact hspec.eq_of_asked oneLeader_routedPending hex hex'
    (((h.exchange hex).mem bs hbs k).1 hk) (((h.exchange hex').mem bs' hbs' k).1 hk')

/-- Where answers keep to their requests, a partition's last acknowledgement is the one its own
broker sent for its batch. -/
theorem SentPending.lastAck_iff (hans : env.Answers) :
    lastAck (exs.flatMap (·.entries)) k = some res ↔
      ∃ ex ∈ exs, ∃ bs, ex.request = .ok bs ∧ k ∈ bs.map (·.partKey) ∧
        ∃ rs, ex.answer = .ok rs ∧ res ∈ rs ∧ res.partKey = k ∧ res.errorCode = 0 := by
  have hfrom {res : ProduceResult} (hack : lastAck (exs.flatMap (·.entries)) k = some res) :
      ∃ ex ∈ exs, ∃ bs, ex.request = .ok bs ∧ k ∈ bs.map (·.partKey) ∧
        ∃ rs, ex.answer = .ok rs ∧ res ∈ rs ∧ res.partKey = k ∧ res.errorCode = 0 := by
    have ⟨hmem, hcode, hkey⟩ := mem_of_lastAck hack
    obtain ⟨ex, hex, hres⟩ := mem_flatMap.1 hmem
    obtain ⟨bs, hbs, rs, hresp, hrs, hres⟩ := (h.exchange hex).request_ok hres
    exact ⟨ex, hex, bs, hbs, hkey ▸ (hans _ _ _ ((h.exchange hex).nodup bs hbs) hresp).2 res hres,
      rs, hrs, hres, hkey, hcode⟩
  refine ⟨hfrom, ?_⟩
  rintro ⟨ex, hex, bs, hbs, hk, rs, hrs, hres, hkey, hcode⟩
  have hmem : res ∈ exs.flatMap (·.entries) :=
    mem_flatMap.2 ⟨ex, hex, by simpa only [Exchange.entries, hrs] using hres⟩
  obtain ⟨res', hres'⟩ := Option.isSome_iff_exists.1 (lastAck_isSome.2 ⟨res, hmem, hcode, hkey⟩)
  -- the last acknowledgement is in the same answer, and there once
  obtain ⟨ex', hex', bs', hbs', hk', rs', hrs', hin', hkey', -⟩ := hfrom hres'
  obtain rfl := h.exchange_unique hex hex' hbs hbs' hk hk'
  obtain rfl : rs = rs' := Except.ok.inj (hrs.symm.trans hrs')
  obtain ⟨bs, hbs, hresp⟩ := bind_eq_ok.1 ((h.exchange hex).answer ▸ hrs)
  rw [hres', inj_on_of_nodup_map (hans _ _ _ ((h.exchange hex).nodup bs hbs) hresp).1 hin' hres
    (hkey'.trans hkey.symm)]

end Sent

/-- A pending record goes to the partition its frozen copy names. -/
theorem Attempt.Holds.frozen {a : Attempt} (h : a.Holds i ex b d) :
    ∃ r, a.frozen[i]? = some r ∧ r.partKey = b.partKey ∧
      a.before.acked.getD i false = false :=
  mem_inputsOf.1 (List.mem_of_getElem? h.record)

/-- What is known of an attempt of a run. -/
inductive AttemptOf (cfg : ProducerConfig) (records : List Record) (a : Attempt) : Prop where
  | unsent (h : Unsent records a.before a.out)
  | sent (f : List Record) (exs : List Exchange)
      (h : SentPending cfg a.env records a.before a.out f exs)

section Attempts

variable {cfg : ProducerConfig} {records : List Record} {a : Attempt}

theorem Unsent.not_holds (h : Unsent records a.before a.out) : ¬ a.Holds i ex b d := by
  intro hholds
  have hex := hholds.exchange
  unfold Attempt.exchanges at hex
  rw [h.sent] at hex
  cases hex

variable {exs : List Exchange} {f : List Record}

variable (h : SentPending cfg a.env records a.before a.out f exs)
include h

theorem SentPending.exchanges_eq : a.exchanges = exs := by
  unfold Attempt.exchanges
  rw [h.sent]
  rfl

theorem SentPending.frozen_eq : a.frozen = f := by
  unfold Attempt.frozen
  rw [h.frozen]
  rfl

theorem SentPending.acks_iff (hans : a.env.Answers) (hholds : a.Holds i ex b d) :
    ex.Acks b base ↔ ∃ res, lastAck (exs.flatMap (·.entries)) b.partKey = some res ∧
      res.offset = base := by
  obtain ⟨bs, hbs, hb⟩ := hholds.batch
  have hex : ex ∈ exs := h.exchanges_eq ▸ hholds.exchange
  have hk : b.partKey ∈ bs.map (·.partKey) := mem_map_of_mem hb
  constructor
  · rintro ⟨rs, hrs, res, hres, hkey, hcode, hbase⟩
    exact ⟨res, (h.lastAck_iff hans).2 ⟨ex, hex, bs, hbs, hk, rs, hrs, hres, hkey, hcode⟩, hbase⟩
  · rintro ⟨res, hack, hbase⟩
    obtain ⟨ex', hex', bs', hbs', hk', rs, hrs, hres, hkey, hcode⟩ := (h.lastAck_iff hans).1 hack
    obtain rfl := h.exchange_unique hex hex' hbs hbs' hk hk'
    exact ⟨rs, hrs, res, hres, hkey, hcode, hbase⟩

/-- A record whose partition a broker acknowledged is in the batch that was acknowledged. -/
theorem SentPending.holds_of_lastAck (hans : a.env.Answers) (hr : f[i]? = some r)
    (hpending : a.before.acked.getD i false = false)
    (hack : lastAck (exs.flatMap (·.entries)) r.partKey = some res) :
    ∃ ex b d, a.Holds i ex b d ∧ ex.Acks b res.offset := by
  obtain ⟨ex, hex, bs, hbs, hk, -⟩ := (h.lastAck_iff hans).1 hack
  obtain ⟨b, hb, hkey⟩ := mem_map.1 hk
  have hin : i ∈ a.inputs b.partKey := by
    unfold Attempt.inputs
    rw [h.frozen_eq, hkey]
    exact mem_inputsOf.2 ⟨r, hr, rfl, hpending⟩
  obtain ⟨d, hd⟩ := mem_iff_getElem?.1 hin
  have hholds : a.Holds i ex b d := ⟨h.exchanges_eq ▸ hex, ⟨bs, hbs, hb⟩, hd⟩
  exact ⟨ex, b, d, hholds, (h.acks_iff hans hholds).2 ⟨res, hkey ▸ hack, rfl⟩⟩

end Attempts

/-! ## Runs -/

theorem exists_record_of_frozen (h : List.Forall₂ FrozenRecord records f) {i : Nat}
    (hr : f[i]? = some r) :
      ∃ r₀, records[i]? = some r₀ ∧ r = { r₀ with partition := r.partition } := by
  obtain ⟨hi, rfl⟩ := List.getElem?_eq_some_iff.1 hr
  have hi' : i < records.length := h.length_eq ▸ hi
  exact ⟨records[i], List.getElem?_eq_getElem hi', (h.get hi' hi).eq⟩

/-- A batch is the pending records of its partition, as the encoder was to write them. -/
def Attempt.Places (a : Attempt) (cfg : ProducerConfig) (records : List Record)
    (b : PartitionBatch) : Prop :=
  b.records.length = (a.inputs b.partKey).length ∧
    (∃ settings clock, encodeRecordBatch cfg.codecs clock b.records settings b.baseSequence =
      .ok b.raw) ∧
    ∀ (d i : Nat), (a.inputs b.partKey)[d]? = some i → ∃ r now, records[i]? = some r ∧
      b.records[d]? = some (Record.wire now { r with partition := b.partition })

/-- What the retries of a call guarantee: a batch is the pending records of its partition in their
order (`placed`), a complete attempt includes a record exactly if no earlier attempt had its batch
acknowledged (`included`), in one place (`once`); a record keeps its partition (`partition`), and an
acknowledged one's result is its place in the acknowledged batch (`result`). -/
structure ExactRetries (cfg : ProducerConfig) (records : List Record) (attempts : List Attempt)
    (results : List ProduceRecordResult) : Prop where
  placed : ∀ a ∈ attempts, ∀ ex ∈ a.exchanges, ∀ bs, ex.request = .ok bs → ∀ b ∈ bs,
    a.Places cfg records b
  included : ∀ pre a post, attempts = pre ++ a :: post → a.Complete → ∀ i < records.length,
    (∃ ex b d, a.Holds i ex b d) ↔
      ¬ ∃ a' ∈ pre, ∃ ex b d base, a'.Holds i ex b d ∧ ex.Acks b base
  once : ∀ a ∈ attempts, ∀ i ex b d ex' b' d', a.Holds i ex b d → a.Holds i ex' b' d' →
    ex = ex' ∧ b = b' ∧ d = d'
  partition : ∀ a ∈ attempts, ∀ a' ∈ attempts, ∀ i ex b d ex' b' d', a.Holds i ex b d →
    a'.Holds i ex' b' d' → b.partKey = b'.partKey
  result : ∀ a ∈ attempts, ∀ i ex b d base, a.Holds i ex b d → ex.Acks b base →
    ∃ r, records[i]? = some r ∧ results[i]? =
      some ⟨{ r with partition := b.partition }, b.topic, b.partition, base + Int64.ofNat d⟩

/-- What the attempts so far have left in the variables. -/
structure History (cfg : ProducerConfig) (records : List Record) (pre : List Attempt)
    (v : ProduceVars) : Prop where
  fits : v.Fits records
  spec : ∀ a ∈ pre, AttemptOf cfg records a
  frozen : ∀ a ∈ pre, ∀ f, a.out.vars.frozen = some f → v.frozen = some f
  acked : ∀ i, v.acked.getD i false = true ↔
    ∃ a ∈ pre, ∃ ex b d base, a.Holds i ex b d ∧ ex.Acks b base
  result : ∀ a ∈ pre, ∀ i ex b d base, a.Holds i ex b d → ex.Acks b base →
    ∃ r, records[i]? = some r ∧ v.results[i]? =
      some ⟨{ r with partition := b.partition }, b.topic, b.partition, base + Int64.ofNat d⟩

section History

variable {cfg : ProducerConfig} {records : List Record} {pre : List Attempt} {a : Attempt}

/-- An attempt that sent nothing adds nothing. -/
theorem History.unsent (h : History cfg records pre a.before)
    (hout : Unsent records a.before a.out) : History cfg records (pre ++ [a]) a.out.vars := by
  have hnone : ∀ i, (∃ a' ∈ pre ++ [a], ∃ ex b d base, a'.Holds i ex b d ∧ ex.Acks b base) ↔
      ∃ a' ∈ pre, ∃ ex b d base, a'.Holds i ex b d ∧ ex.Acks b base := by
    intro i
    simp only [mem_append, mem_singleton, or_and_right, exists_or, exists_eq_left]
    refine or_iff_left ?_
    rintro ⟨ex, b, d, base, hholds, -⟩
    exact hout.not_holds hholds
  refine ⟨hout.fits h.fits, ?_, ?_, fun i => ?_, ?_⟩
  · exact forall_mem_append.2 ⟨h.spec, forall_mem_singleton.2 (.unsent hout)⟩
  · refine forall_mem_append.2 ⟨fun a' ha' f hf => hout.kept f (h.frozen a' ha' f hf), ?_⟩
    exact forall_mem_singleton.2 fun f hf => hf
  · rw [hout.acked, h.acked, hnone]
  · refine forall_mem_append.2 ⟨hout.results ▸ h.result, ?_⟩
    exact forall_mem_singleton.2 fun i ex b d base hholds => absurd hholds hout.not_holds

variable {exs : List Exchange} {f : List Record}

/-- An attempt that sent adds the records it had acknowledged. -/
theorem History.sent (h : History cfg records pre a.before)
    (hout : SentPending cfg a.env records a.before a.out f exs) (hans : a.env.Answers) :
    History cfg records (pre ++ [a]) a.out.vars := by
  refine ⟨hout.fits, ?_, ?_, fun i => ?_, ?_⟩
  · exact forall_mem_append.2 ⟨h.spec, forall_mem_singleton.2 (.sent f exs hout)⟩
  · refine forall_mem_append.2 ⟨fun a' ha' f' hf' => ?_, ?_⟩
    · have hv := h.frozen a' ha' f' hf'
      rcases hout.kept with hnone | hsome
      · cases hnone.symm.trans hv
      · exact hout.frozen.trans (hsome.symm.trans hv)
    · exact forall_mem_singleton.2 fun f hf => hf
  · rw [hout.acked, h.acked]
    simp only [mem_append, mem_singleton, or_and_right, exists_or, exists_eq_left]
    constructor
    · rintro (hold | ⟨r, hr, hack⟩)
      · exact .inl hold
      · obtain ⟨res, hres⟩ := Option.isSome_iff_exists.1 hack
        cases hpending : a.before.acked.getD i false with
        | true => exact .inl ((h.acked i).1 hpending)
        | false =>
          obtain ⟨ex, b, d, hholds, hacks⟩ := hout.holds_of_lastAck hans hr hpending hres
          exact .inr ⟨ex, b, d, _, hholds, hacks⟩
    · rintro (hold | ⟨ex, b, d, base, hholds, hacks⟩)
      · exact .inl hold
      · obtain ⟨r, hr, hkey, -⟩ := hholds.frozen
        obtain ⟨res, hres, -⟩ := (hout.acks_iff hans hholds).1 hacks
        exact .inr ⟨r, hout.frozen_eq ▸ hr, hkey ▸ hres ▸ rfl⟩
  · refine forall_mem_append.2 ⟨fun a' ha' i ex b d base hholds hacks => ?_, ?_⟩
    · have hacked := (h.acked i).2 ⟨a', ha', ex, b, d, base, hholds, hacks⟩
      rw [hout.keeps i hacked]
      exact h.result a' ha' i ex b d base hholds hacks
    · refine forall_mem_singleton.2 fun i ex b d base hholds hacks => ?_
      obtain ⟨res, hres, rfl⟩ := (hout.acks_iff hans hholds).1 hacks
      have hd : (inputsOf f a.before.acked b.partKey)[d]? = some i :=
        hout.frozen_eq ▸ hholds.record
      obtain ⟨r, hr, hresult⟩ := hout.results _ d i res hd hres
      obtain ⟨r', hr', hkey, -⟩ := mem_inputsOf.1 (mem_of_getElem? hd)
      obtain rfl : r = r' := Option.some.inj (hr.symm.trans hr')
      obtain ⟨r₀, hr₀, heq⟩ := exists_record_of_frozen hout.freeze hr
      obtain ⟨htopic, hpart⟩ := PartKey.mk.inj ((mem_of_lastAck hres).2.2)
      have hrpart : r.partition = b.partition := congrArg PartKey.part hkey
      rw [hrpart] at heq
      exact ⟨r₀, hr₀, by rw [hresult, htopic, hpart, ← heq]⟩

/-- The history of a run. -/
theorem history_run {W : Type} {world : World W} (hsound : ∀ w, (world.env w).Sound)
    (hans : ∀ w, (world.env w).Answers) {left : Nat} {w : W} {v : ProduceVars}
    (h : History cfg records [] v) :
    History cfg records (retryLoop cfg records world left w v).attempts
        (retryLoop cfg records world left w v).vars ∧
      ∀ xs a ys, (retryLoop cfg records world left w v).attempts = xs ++ a :: ys →
        History cfg records xs a.before := by
  have hstep : ∀ pre v w, History cfg records pre v → History cfg records
      (pre ++ [world.attempt cfg records w v]) (world.attempt cfg records w v).out.vars := by
    intro pre v w hpre
    have hbefore : History cfg records pre (world.attempt cfg records w v).before := hpre
    rcases attempt_spec (hsound w) hpre.fits with hout | ⟨f, exs, hout⟩
    · exact hbefore.unsent hout
    · exact hbefore.sent hout (hans w)
  have ⟨hend, hmid⟩ := @retryLoop_induct W cfg records world _ hstep left w v [] h
  refine ⟨hend, fun xs a ys hxs => ?_⟩
  obtain ⟨w', v', hv', rfl⟩ := hmid xs a ys hxs
  exact hv'

variable (h : SentPending cfg a.env records a.before a.out f exs)
include h

theorem SentPending.placed (hex : ex ∈ a.exchanges) (hbs : ex.request = .ok bs) (hb : b ∈ bs) :
    a.Places cfg records b := by
  have hsent := h.exchange (h.exchanges_eq ▸ hex)
  have hrecords := hsent.records bs hbs b hb
  unfold Attempt.Places Attempt.inputs
  rw [h.frozen_eq]
  refine ⟨?_, ⟨_, _, hsent.raw bs hbs b hb⟩, fun d i hd => ?_⟩
  · rw [hrecords, length_map, length_inputsOf]
  · obtain ⟨r, j, hr, hkey, -, hrouted⟩ := getElem?_inputsOf a.env.cluster hd
    obtain ⟨r₀, hr₀, heq⟩ := exists_record_of_frozen h.freeze hr
    have hpart : r.partition = b.partition := congrArg PartKey.part hkey
    refine ⟨r₀, a.env.now j, hr₀, ?_⟩
    rw [hrecords, List.getElem?_map, hrouted, ← hpart, ← heq]
    rfl

/-- A complete attempt has a batch for every partition of a pending record. -/
theorem SentPending.holds_of_complete (hcomplete : a.Complete) (hi : i < records.length)
    (hpending : a.before.acked.getD i false = false) : ∃ ex b d, a.Holds i ex b d := by
  obtain ⟨so, hspec, -⟩ := h.send
  obtain ⟨exs', hexs', hok⟩ := hcomplete
  obtain rfl : exs = exs' := Option.some.inj (h.sent.symm.trans hexs')
  have hif : i < f.length := h.freeze.length_eq ▸ hi
  have hr : f[i]? = some f[i] := List.getElem?_eq_getElem hif
  have hin : i ∈ inputsOf f a.before.acked f[i].partKey := mem_inputsOf.2 ⟨_, hr, rfl, hpending⟩
  obtain ⟨d, hd⟩ := mem_iff_getElem?.1 hin
  obtain ⟨r, j, hr', hkey, -, hrouted⟩ := getElem?_inputsOf a.env.cluster hd
  have ⟨hmem, hrkey⟩ := mem_filter.1 (mem_of_getElem? hrouted)
  -- the leader of the partition is among the brokers
  obtain ⟨ex, hex, hnode⟩ := mem_map.1 ((hspec.nodes _).2 (mem_map_of_mem hmem))
  obtain ⟨bs, hbs⟩ := hok ex hex
  have hk := ((h.exchange hex).mem bs hbs f[i].partKey).2
    ⟨_, hmem, hnode.symm, of_decide_eq_true hrkey⟩
  obtain ⟨b, hb, hbkey⟩ := mem_map.1 hk
  refine ⟨ex, b, d, h.exchanges_eq ▸ hex, ⟨bs, hbs, hb⟩, ?_⟩
  unfold Attempt.inputs
  rw [h.frozen_eq, hbkey]
  exact hd

/-- A record has one place in an attempt. -/
theorem SentPending.once (hholds : a.Holds i ex b d) (hholds' : a.Holds i ex' b' d') :
    ex = ex' ∧ b = b' ∧ d = d' := by
  obtain ⟨r, hr, hkey, -⟩ := hholds.frozen
  obtain ⟨r', hr', hkey', -⟩ := hholds'.frozen
  obtain rfl : r = r' := Option.some.inj (hr.symm.trans hr')
  have hbkey : b.partKey = b'.partKey := hkey.symm.trans hkey'
  obtain ⟨bs, hbs, hb⟩ := hholds.batch
  obtain ⟨bs', hbs', hb'⟩ := hholds'.batch
  have hex := h.exchanges_eq ▸ hholds.exchange
  obtain rfl : ex = ex' := h.exchange_unique hex (h.exchanges_eq ▸ hholds'.exchange) hbs hbs'
    (mem_map_of_mem hb) (hbkey ▸ mem_map_of_mem hb')
  obtain rfl : bs = bs' := Except.ok.inj (hbs.symm.trans hbs')
  obtain rfl : b = b' := inj_on_of_nodup_map ((h.exchange hex).nodup bs hbs) hb hb' hbkey
  have hlt := (List.getElem?_eq_some_iff.1 hholds.record).1
  exact ⟨rfl, rfl, (List.getElem?_inj hlt nodup_inputsOf).1
    (hholds.record.trans hholds'.record.symm)⟩

omit h

/-- A history is one of exact retries. -/
theorem History.exact (h : History cfg records attempts v)
    (hmid : ∀ xs a ys, attempts = xs ++ a :: ys → History cfg records xs a.before) :
    ExactRetries cfg records attempts v.results := by
  refine ⟨fun a ha ex hex bs hbs b hb => ?_, fun pre a post heq hcomplete i hi => ?_,
    fun a ha i ex b d ex' b' d' hholds hholds' => ?_,
    fun a ha a' ha' i ex b d ex' b' d' hholds hholds' => ?_, h.result⟩
  · cases h.spec a ha with
    | unsent hout =>
      unfold Attempt.exchanges at hex
      rw [hout.sent] at hex
      cases hex
    | sent f exs hout => exact hout.placed hex hbs hb
  · have hpre := hmid pre a post heq
    have hacked := not_congr (hpre.acked i)
    rw [Bool.not_eq_true] at hacked
    rw [← hacked]
    constructor
    · rintro ⟨ex, b, d, hholds⟩
      obtain ⟨r, -, -, hpending⟩ := hholds.frozen
      exact hpending
    · intro hpending
      cases h.spec a (heq ▸ mem_append_right _ mem_cons_self) with
      | unsent hout =>
        obtain ⟨exs, hexs, -⟩ := hcomplete
        cases hout.sent.symm.trans hexs
      | sent f exs hout => exact hout.holds_of_complete hcomplete hi hpending
  · cases h.spec a ha with
    | unsent hout => exact absurd hholds hout.not_holds
    | sent f exs hout => exact hout.once hholds hholds'
  · cases h.spec a ha with
    | unsent hout => exact absurd hholds hout.not_holds
    | sent f exs hout =>
      cases h.spec a' ha' with
      | unsent hout' => exact absurd hholds' hout'.not_holds
      | sent f' exs' hout' =>
        -- the frozen partitions are those of the end
        obtain rfl : f = f' := Option.some.inj ((h.frozen a ha f hout.frozen).symm.trans
          (h.frozen a' ha' f' hout'.frozen))
        obtain ⟨r, hr, hkey, -⟩ := hholds.frozen
        obtain ⟨r', hr', hkey', -⟩ := hholds'.frozen
        rw [hout.frozen_eq] at hr
        rw [hout'.frozen_eq] at hr'
        obtain rfl : r = r' := Option.some.inj (hr.symm.trans hr')
        exact hkey.symm.trans hkey'

end History

theorem getD_replicate_false : (List.replicate n false).getD i false = false := by
  rw [getD_eq_getElem?_getD]
  cases hi : (List.replicate n false)[i]? with
  | none => rfl
  | some x => exact eq_of_mem_replicate (mem_of_getElem? hi)

/-- Nothing has happened yet. -/
theorem History.start (cfg : ProducerConfig) (records : List Record)
    (identity : Option ProducerIdentity) : History cfg records [] (.start records identity) := by
  refine ⟨ProduceVars.fits_start records identity, fun a ha => (not_mem_nil ha).elim,
    fun a ha => (not_mem_nil ha).elim, fun i => ?_, fun a ha => (not_mem_nil ha).elim⟩
  refine iff_of_false (fun h => ?_) fun ⟨a, ha, _⟩ => not_mem_nil ha
  exact Bool.false_ne_true ((getD_replicate_false).symm.trans h)

/-! ## What a nil error says -/

/-- Every request of an attempt was answered, and no answer has an error code. -/
def Attempt.Clean (a : Attempt) : Prop :=
  ∃ exs, a.out.sent = some exs ∧ ∀ ex ∈ exs, ex.Clean

/-- The answers of an attempt name every partition it sent records to. -/
def Attempt.Covered (a : Attempt) : Prop :=
  ∀ k, a.inputs k ≠ [] → ∃ ex ∈ a.exchanges, ∃ res ∈ ex.entries, res.partKey = k

/-- A record has been acknowledged: its result has its topic, and in some attempt a broker answered
without an error code for the partition the record went to. -/
def Acknowledged (attempts : List Attempt) (results : List ProduceRecordResult) (i : Nat)
    (r : Record) : Prop :=
  ∃ result, results[i]? = some result ∧ result.topic = r.topic ∧
    ∃ a ∈ attempts, ∃ fr, a.frozen[i]? = some fr ∧ result.partition = fr.partition ∧
      ∃ ex ∈ a.exchanges, ∃ res ∈ ex.entries, res.errorCode = 0 ∧ res.partKey = fr.partKey

instance (attempts : List Attempt) (results : List ProduceRecordResult) (i : Nat) (r : Record) :
    Decidable (Acknowledged attempts results i r) :=
  decidable_of_iff ((results[i]?).any fun result => result.topic = r.topic &&
    attempts.any fun a => (a.frozen[i]?).any fun fr => result.partition = fr.partition &&
      a.exchanges.any fun ex => ex.entries.any fun res =>
        res.errorCode = 0 && res.partKey = fr.partKey) (by
    simp only [Acknowledged, Option.any_eq_true, List.any_eq_true, Bool.and_eq_true,
      decide_eq_true_eq])

/-- What the attempts so far say about acknowledgements, whatever the answers are. -/
structure AckHistory (cfg : ProducerConfig) (records : List Record) (pre : List Attempt)
    (v : ProduceVars) : Prop where
  fits : v.Fits records
  spec : ∀ a ∈ pre, AttemptOf cfg records a
  acked : ∀ (i : Nat) (r : Record), records[i]? = some r → v.acked.getD i false = true →
    Acknowledged pre v.results i r
  unacked : ∀ (i : Nat) (r : Record), records[i]? = some r → v.acked.getD i false = false →
    v.results[i]? = some {}

theorem AckHistory.start (cfg : ProducerConfig) (records : List Record)
    (identity : Option ProducerIdentity) : AckHistory cfg records [] (.start records identity) := by
  refine ⟨ProduceVars.fits_start records identity, fun a ha => (not_mem_nil ha).elim,
    fun i r hr hacked => ?_, fun i r hr _ => ?_⟩
  · exact (Bool.false_ne_true ((getD_replicate_false).symm.trans hacked)).elim
  · exact List.getElem?_replicate_of_lt (List.getElem?_eq_some_iff.1 hr).1

section AckHistory

variable {cfg : ProducerConfig} {records : List Record} {pre : List Attempt}

theorem Acknowledged.concat (h : Acknowledged pre results i r) :
    Acknowledged (pre ++ [a]) results i r := by
  obtain ⟨result, hresult, htopic, a', ha', hfr⟩ := h
  exact ⟨result, hresult, htopic, a', mem_append_left _ ha', hfr⟩

theorem AckHistory.unsent (h : AckHistory cfg records pre a.before)
    (hout : Unsent records a.before a.out) : AckHistory cfg records (pre ++ [a]) a.out.vars := by
  refine ⟨hout.fits h.fits, ?_, ?_, ?_⟩
  · exact forall_mem_append.2 ⟨h.spec, forall_mem_singleton.2 (.unsent hout)⟩
  · intro i r hr hacked
    rw [hout.results]
    exact (h.acked i r hr (hout.acked ▸ hacked)).concat
  · intro i r hr hacked
    rw [hout.results]
    exact h.unacked i r hr (hout.acked ▸ hacked)

/-- A frozen record has the topic of the record it stands for. -/
theorem topic_of_frozen (h : List.Forall₂ FrozenRecord records f) {i : Nat}
    (hr : records[i]? = some r) (hfr : f[i]? = some fr) : fr.topic = r.topic := by
  obtain ⟨r₀, hr₀, heq⟩ := exists_record_of_frozen h hfr
  obtain rfl : r = r₀ := Option.some.inj (hr.symm.trans hr₀)
  rw [heq]

/-- A pending record of an attempt whose partition is acknowledged. -/
theorem SentPending.acknowledged (h : SentPending cfg a.env records a.before a.out f exs)
    (hr : records[i]? = some r) (hfr : f[i]? = some fr)
    (hpending : a.before.acked.getD i false = false)
    (hack : (lastAck (exs.flatMap (·.entries)) fr.partKey).isSome) :
    Acknowledged (pre ++ [a]) a.out.vars.results i r := by
  obtain ⟨res, hres⟩ := Option.isSome_iff_exists.1 hack
  have ⟨hmem, hcode, hkey⟩ := mem_of_lastAck hres
  obtain ⟨ex, hex, hin⟩ := mem_flatMap.1 hmem
  obtain ⟨d, hd⟩ := mem_iff_getElem?.1 (mem_inputsOf.2 ⟨fr, hfr, rfl, hpending⟩)
  obtain ⟨fr', hfr', hresult⟩ := h.results _ d i res hd hres
  obtain ⟨htopic, hpart⟩ := PartKey.mk.inj hkey
  refine ⟨_, hresult, htopic.trans (topic_of_frozen h.freeze hr hfr), a,
    mem_append_right _ (mem_singleton_self a), fr, ?_, hpart, ex, ?_, res, hin, hcode, hkey⟩
  · rw [h.frozen_eq]
    exact hfr
  · rw [h.exchanges_eq]
    exact hex

theorem AckHistory.sent (h : AckHistory cfg records pre a.before)
    (hout : SentPending cfg a.env records a.before a.out f exs) :
    AckHistory cfg records (pre ++ [a]) a.out.vars := by
  have hfrozen {i : Nat} {r : Record} (hr : records[i]? = some r) : ∃ fr, f[i]? = some fr := by
    have hi : i < f.length := hout.freeze.length_eq ▸ (List.getElem?_eq_some_iff.1 hr).1
    exact ⟨f[i], List.getElem?_eq_getElem hi⟩
  refine ⟨hout.fits, ?_, fun i r hr hacked => ?_, fun i r hr hacked => ?_⟩
  · exact forall_mem_append.2 ⟨h.spec, forall_mem_singleton.2 (.sent f exs hout)⟩
  · cases hbefore : a.before.acked.getD i false with
    | true =>
      obtain ⟨result, hresult, hrest⟩ := (h.acked i r hr hbefore).concat (a := a)
      exact ⟨result, (hout.keeps i hbefore).trans hresult, hrest⟩
    | false =>
      rcases (hout.acked i).1 hacked with hold | ⟨fr, hfr, hack⟩
      · cases hbefore.symm.trans hold
      · exact hout.acknowledged hr hfr hbefore hack
  · obtain ⟨fr, hfr⟩ := hfrozen hr
    have hnot := mt (hout.acked i).2 (Bool.not_eq_true _ ▸ hacked)
    have hnone : lastAck (exs.flatMap (·.entries)) fr.partKey = none :=
      Option.not_isSome_iff_eq_none.1 fun hack => hnot (.inr ⟨fr, hfr, hack⟩)
    have hbefore : a.before.acked.getD i false = false :=
      Bool.not_eq_true _ ▸ fun hold => hnot (.inl hold)
    exact (hout.unacked i fr hfr hnone).trans (h.unacked i r hr hbefore)

theorem ackHistory_run {W : Type} {world : World W} (hsound : ∀ w, (world.env w).Sound)
    {left : Nat} {w : W} {v : ProduceVars} (h : AckHistory cfg records [] v) :
    AckHistory cfg records (retryLoop cfg records world left w v).attempts
        (retryLoop cfg records world left w v).vars := by
  have hstep : ∀ pre v w, AckHistory cfg records pre v → AckHistory cfg records
      (pre ++ [world.attempt cfg records w v]) (world.attempt cfg records w v).out.vars := by
    intro pre v w hpre
    have hbefore : AckHistory cfg records pre (world.attempt cfg records w v).before := hpre
    rcases attempt_spec (hsound w) hpre.fits with hout | ⟨f, exs, hout⟩
    · exact hbefore.unsent hout
    · exact hbefore.sent hout
  exact (@retryLoop_induct W cfg records world _ hstep left w v [] h).1

theorem AttemptOf.clean_iff (h : AttemptOf cfg records a) : a.Clean ↔ a.out.err = none := by
  cases h with
  | unsent hout =>
    refine iff_of_false ?_ hout.err
    rintro ⟨exs, hexs, -⟩
    cases hout.sent.symm.trans hexs
  | sent f exs hout =>
    obtain ⟨so, hspec, herr, -⟩ := hout.send
    rw [herr, hspec.err]
    constructor
    · rintro ⟨exs', hexs', hclean⟩
      cases hout.sent.symm.trans hexs'
      exact hclean
    · intro hclean
      exact ⟨exs, hout.sent, hclean⟩

theorem AckHistory.covered_iff (h : AckHistory cfg records attempts v) (ha : a ∈ attempts)
    (hclean : a.Clean) (hvars : v = a.out.vars) :
    (∀ (i : Nat) (r : Record), records[i]? = some r → Acknowledged attempts v.results i r) ↔
      a.Covered := by
  cases h.spec a ha with
  | unsent hout =>
    obtain ⟨exs, hexs, -⟩ := hclean
    cases hout.sent.symm.trans hexs
  | sent f exs hout =>
    obtain ⟨exs', hexs', hcodes⟩ := hclean
    obtain rfl : exs = exs' := Option.some.inj (hout.sent.symm.trans hexs')
    unfold Attempt.Covered Attempt.inputs
    rw [hout.frozen_eq, hout.exchanges_eq]
    constructor
    · intro hall k hk
      obtain ⟨i, hi⟩ := exists_mem_of_ne_nil _ hk
      obtain ⟨fr, hfr, rfl, hpending⟩ := mem_inputsOf.1 hi
      obtain ⟨r, hr, -⟩ := exists_record_of_frozen hout.freeze hfr
      obtain ⟨result, hresult, htopic, -⟩ := hall i r hr
      -- a record that is not acknowledged has the zero result, without a topic
      have hacked : v.acked.getD i false = true := by
        refine Bool.not_eq_false _ ▸ fun hfalse => ?_
        have hzero : result = {} := Option.some.inj (hresult.symm.trans (h.unacked i r hr hfalse))
        have hname := hout.topics _ (mem_pendingRecords.2 ⟨hfr, hpending⟩)
        rw [topic_of_frozen hout.freeze hr hfr] at hname
        exact hname (htopic.symm.trans (congrArg ProduceRecordResult.topic hzero))
      rcases (hout.acked i).1 (hvars ▸ hacked) with hold | ⟨fr', hfr', hack⟩
      · cases hpending.symm.trans hold
      · obtain rfl : fr = fr' := Option.some.inj (hfr.symm.trans hfr')
        obtain ⟨res, hmem, -, hkey⟩ := lastAck_isSome.1 hack
        obtain ⟨ex, hex, hin⟩ := mem_flatMap.1 hmem
        exact ⟨ex, hex, res, hin, hkey⟩
    · intro hcovered i r hr
      have hi : i < f.length := hout.freeze.length_eq ▸ (List.getElem?_eq_some_iff.1 hr).1
      have hfr : f[i]? = some f[i] := List.getElem?_eq_getElem hi
      refine h.acked i r hr (hvars ▸ (hout.acked i).2 ?_)
      cases hbefore : a.before.acked.getD i false with
      | true => exact .inl rfl
      | false =>
        have hin : i ∈ inputsOf f a.before.acked f[i].partKey :=
          mem_inputsOf.2 ⟨_, hfr, rfl, hbefore⟩
        obtain ⟨ex, hex, res, hres, hkey⟩ := hcovered _ (ne_nil_of_mem hin)
        have hcode : res.errorCode = 0 := by
          obtain ⟨rs, hrs, hzero⟩ := hcodes ex hex
          unfold Exchange.entries at hres
          rw [hrs] at hres
          exact hzero res hres
        exact .inr ⟨f[i], hfr, lastAck_isSome.2 ⟨res, mem_flatMap.2 ⟨ex, hex, hres⟩, hcode, hkey⟩⟩

end AckHistory

section Calls

variable {W : Type} {cfg : ProducerConfig} {world : World W}

/-- Retries are exact, for all records, all outcomes of all brokers and any number of attempts. -/
theorem produceSyncResult_exact (hsound : ∀ w, (world.env w).Sound)
    (hans : ∀ w, (world.env w).Answers) (p : Producer) (openErr : Option Error)
    (init : Except Error ProducerID) (records : List Record) (w : W) :
    ExactRetries cfg records (produceSyncResult cfg world p openErr init records w).attempts
      (produceSyncResult cfg world p openErr init records w).results := by
  have hnil : ExactRetries cfg records [] [] := by
    refine ⟨fun a ha => (not_mem_nil ha).elim, fun pre a post h => ?_,
      fun a ha => (not_mem_nil ha).elim, fun a ha => (not_mem_nil ha).elim,
      fun a ha => (not_mem_nil ha).elim⟩
    exact absurd h (append_ne_nil_of_right_ne_nil _ (cons_ne_nil _ _)).symm
  fun_cases produceSyncResult cfg world p openErr init records w with
  | case1 | case2 | case3 => exact hnil
  | case4 _ p =>
    have ⟨hend, hmid⟩ := @history_run cfg records W world hsound hans cfg.attempts w _
      (History.start cfg records p.identity)
    exact hend.exact hmid

/-- A nil error means that every record was acknowledged exactly if each attempt without an error
had answers that name every partition it sent. -/
theorem produceSyncResult_acked_iff (hsound : ∀ w, (world.env w).Sound) (p : Producer)
    (openErr : Option Error) (init : Except Error ProducerID) (records : List Record) (w : W) :
    ((produceSyncResult cfg world p openErr init records w).err = none →
      ∀ (i : Nat) (r : Record), records[i]? = some r →
        Acknowledged (produceSyncResult cfg world p openErr init records w).attempts
          (produceSyncResult cfg world p openErr init records w).results i r) ↔
    ∀ a ∈ (produceSyncResult cfg world p openErr init records w).attempts, a.Clean → a.Covered := by
  fun_cases produceSyncResult cfg world p openErr init records w with
  | case1 | case3 => exact iff_of_true nofun fun a ha => (not_mem_nil ha).elim
  | case2 hrecords =>
    subst hrecords
    exact iff_of_true nofun fun a ha => (not_mem_nil ha).elim
  | case4 _ p _ run =>
    obtain ⟨left, hleft⟩ := cfg.attempts_pos
    have hend := @ackHistory_run cfg records W world hsound cfg.attempts w _
      (AckHistory.start cfg records p.identity)
    have hends := @retryLoop_ends W cfg records world left w (.start records p.identity)
    rw [← hleft] at hends
    constructor
    · intro hacked a ha hclean
      have herr := (hend.spec a ha).clean_iff.1 hclean
      exact (hend.covered_iff ha hclean (hends.vars a ha herr)).1
        (hacked (hends.err.2 ⟨a, ha, herr⟩))
    · intro hcovered hnil
      obtain ⟨a, ha, herr⟩ := hends.err.1 hnil
      have hclean := (hend.spec a ha).clean_iff.2 herr
      exact (hend.covered_iff ha hclean (hends.vars a ha herr)).2 (hcovered a ha hclean)

end Calls

/-! ## A topic with one partition -/

/-- Metadata with partition 0 of topic `t`, led by broker 1. -/
def metadataT : MetadataResponse :=
  { topics := [{ name := [116], partitions := [{ partition := 0, leader := 1 }] }] }

/-- A cluster that has this metadata. -/
def clusterT : Cluster :=
  { seeds := [], md := metadataT, leaderIndex := buildLeaderIndex metadataT }

theorem clusterT_sound : clusterT.Sound := by
  refine ⟨fun t ht _ => ?_, fun t ht p hp => ?_⟩
  all_goals obtain rfl := mem_singleton.1 ht
  · decide
  · obtain rfl := mem_singleton.1 hp
    decide

/-- An attempt whose brokers answer as given. -/
def envT (respond : Int32 → List PartitionBatch → Except Error (List ProduceResult)) : AttemptEnv :=
  { freezing := clusterT
    cluster := clusterT
    partition := fun _ _ _ => 0
    repartition := fun _ _ _ => 0
    now := fun _ => ⟨62135596801, 0⟩
    clock := fun _ _ => ⟨62135596801, 0⟩
    keyOrder := ⟨id, fun ks => .refl ks⟩
    nodeOrder := ⟨id, fun ks => .refl ks⟩
    respond := respond }

/-- A configuration without compression. -/
def configT : ProducerConfig :=
  { codecs := ⟨fun b _ => .ok b, .ok, .ok, .ok, .ok, .ok, .ok, .ok⟩, apiVersion := 9 }

/-- Two records for topic `t`. -/
def recordsT : List Record :=
  [{ topic := [116], partition := -1, value := some [1] },
    { topic := [116], partition := -1, value := some [2] }]

/-- The broker's connection breaks in the first attempt; then the partition is acknowledged at
offset 7. -/
def brokenOnce : World Nat :=
  { env := fun n => envT fun _ bs =>
      if n = 0 then .error (.transport "EOF")
      else if ⟨[116], 0⟩ ∈ bs.map (·.partKey) then .ok [⟨[116], 0, 7, 0⟩] else .ok []
    next := fun n _ => n + 1 }

theorem brokenOnce_sound (n : Nat) : (brokenOnce.env n).Sound := ⟨clusterT_sound, clusterT_sound⟩

theorem produceSyncResult_exact_two :
    (produceSyncResult configT brokenOnce {} none (.ok ⟨1, 0⟩) recordsT 0).results.map (·.offset) =
      [7, 8] ∧
    (produceSyncResult configT brokenOnce {} none (.ok ⟨1, 0⟩) recordsT 0).attempts.length = 2 ∧
    ExactRetries configT recordsT
      (produceSyncResult configT brokenOnce {} none (.ok ⟨1, 0⟩) recordsT 0).attempts
      (produceSyncResult configT brokenOnce {} none (.ok ⟨1, 0⟩) recordsT 0).results := by
  refine ⟨by decide +kernel, by decide +kernel,
    produceSyncResult_exact brokenOnce_sound (fun n node bs rs _ hrs => ?_) _ _ _ _ _⟩
  simp only [brokenOnce, envT] at hrs
  split_ifs at hrs with hn hin
  · cases hrs
    refine ⟨nodup_singleton _, fun res hres => ?_⟩
    obtain rfl := mem_singleton.1 hres
    exact hin
  · cases hrs
    exact ⟨.nil, nofun⟩

/-- The broker's answer names no partition. -/
def silent : World Nat := { env := fun _ => envT fun _ _ => .ok [], next := fun n _ => n + 1 }

theorem produceSyncResult_acked_iff_brokenOnce :
    (produceSyncResult configT brokenOnce {} none (.ok ⟨1, 0⟩) recordsT 0).err = none ∧
    ∀ a ∈ (produceSyncResult configT brokenOnce {} none (.ok ⟨1, 0⟩) recordsT 0).attempts,
      a.Clean → a.Covered := by
  refine ⟨by decide +kernel,
    (produceSyncResult_acked_iff brokenOnce_sound _ _ _ _ _).1 fun _ i r hr => ?_⟩
  match i, hr with
  | 0, hr =>
    obtain rfl := Option.some.inj hr
    decide +kernel
  | 1, hr =>
    obtain rfl := Option.some.inj hr
    decide +kernel

/-- The call returns nil, and no record was acknowledged. -/
theorem produceSyncResult_nil_unacked :
    (produceSyncResult configT silent {} none (.ok ⟨1, 0⟩) recordsT 0).err = none ∧
    (produceSyncResult configT silent {} none (.ok ⟨1, 0⟩) recordsT 0).results = [{}, {}] ∧
    ¬ ∀ (i : Nat) (r : Record), recordsT[i]? = some r →
      Acknowledged (produceSyncResult configT silent {} none (.ok ⟨1, 0⟩) recordsT 0).attempts
        (produceSyncResult configT silent {} none (.ok ⟨1, 0⟩) recordsT 0).results i r := by
  have hresults : (produceSyncResult configT silent {} none (.ok ⟨1, 0⟩) recordsT 0).results =
      [{}, {}] := by decide +kernel
  refine ⟨by decide +kernel, hresults, fun hall => ?_⟩
  obtain ⟨result, hresult, htopic, -⟩ := hall 0 _ rfl
  cases hresult
  cases htopic

end GoKafka
