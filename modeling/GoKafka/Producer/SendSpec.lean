import GoKafka.Producer.Send

/-!
# What a send comes to

The specification of `sendRecords` in terms of its exchanges with the brokers.
-/

namespace GoKafka

open Assoc List

/-! ## Answers -/

/-- The entries of an answer; a failed exchange has none. -/
def Exchange.entries (ex : Exchange) : List ProduceResult :=
  match ex.answer with
  | .ok rs => rs
  | .error _ => []

/-- The exchange succeeded and no entry of the answer has an error code. -/
def Exchange.Clean (ex : Exchange) : Prop :=
  ∃ rs, ex.answer = .ok rs ∧ ∀ r ∈ rs, r.errorCode = 0

/-- The partitions an exchange reports as failed; `batch` is what was to be sent. -/
def Exchange.failedKeys (ex : Exchange) (batch : List ProduceRecord) : List PartKey :=
  match ex.answer with
  | .ok rs => (rs.filter (·.errorCode ≠ 0)).map (·.partKey)
  | .error _ => brokerPartKeys batch

/-- The entry that decides a partition's results: the last one without an error code. -/
def lastAck (entries : List ProduceResult) (k : PartKey) : Option ProduceResult :=
  (entries.filter fun r => r.errorCode = 0 ∧ r.partKey = k).getLast?

theorem lastAck_concat :
    lastAck (entries ++ [e]) k =
      if e.errorCode = 0 ∧ e.partKey = k then some e else lastAck entries k := by
  unfold lastAck
  split_ifs with h
  · simp [h]
  · simp [h]

/-- Some answer acknowledges a partition. -/
theorem lastAck_isSome :
    (lastAck entries k).isSome ↔ ∃ r ∈ entries, r.errorCode = 0 ∧ r.partKey = k := by
  unfold lastAck
  simp

theorem mem_of_lastAck (h : lastAck entries k = some r) :
    r ∈ entries ∧ r.errorCode = 0 ∧ r.partKey = k := by
  have ⟨hmem, hr⟩ := mem_filter.1 (mem_of_getLast? h)
  exact ⟨hmem, of_decide_eq_true hr⟩

/-- What an entry does to the results. -/
def applyAck (inputs : InputByKey) (results : List ProduceRecordResult) (res : ProduceResult) :
    List ProduceRecordResult :=
  if res.errorCode ≠ 0 then results
  else store (ackResults res (inputs.get res.partKey)) results

theorem length_applyAck : (applyAck inputs results res).length = results.length := by
  unfold applyAck
  split_ifs
  · rfl
  · exact length_store _

theorem length_foldl_applyAck (entries : List ProduceResult) (results : List ProduceRecordResult) :
    (entries.foldl (applyAck inputs) results).length = results.length := by
  induction entries generalizing results with
  | nil => rfl
  | cons e entries ih => exact (ih _).trans length_applyAck

namespace AnswerLoop

variable (inputs : InputByKey) (l : AnswerLoop) (rs : List ProduceResult)

theorem results_foldl :
    (rs.foldl (step inputs) l).results = rs.foldl (applyAck inputs) l.results := by
  refine (foldl_hom AnswerLoop.results fun l res => ?_).symm
  unfold step applyAck
  split_ifs <;> rfl

theorem failed_foldl : (rs.foldl (step inputs) l).failed =
    l.failed ++ (rs.filter (·.errorCode ≠ 0)).map (·.partKey) := by
  induction rs generalizing l with
  | nil => exact (append_nil _).symm
  | cons r rs ih =>
    rw [foldl_cons, ih]
    unfold step
    split_ifs with h
    · simp [h]
    · simp [h]

/-- The loop ends without an error when no entry has a code. -/
theorem err_foldl :
    (rs.foldl (step inputs) l).fatalErr.or (rs.foldl (step inputs) l).firstErr = none ↔
    l.fatalErr.or l.firstErr = none ∧ ∀ r ∈ rs, r.errorCode = 0 := by
  induction rs generalizing l with
  | nil => simp
  | cons r rs ih =>
    rw [foldl_cons, ih, forall_mem_cons, ← and_assoc]
    refine and_congr_left fun _ => ?_
    unfold step
    split_ifs with h
    · simp [h]
    · exact ⟨fun hl => ⟨hl, not_not.1 h⟩, And.left⟩

end AnswerLoop

variable {inputs : InputByKey}

theorem results_readAnswer (ex : Exchange) : (readAnswer inputs batch results ex.answer).results =
      ex.entries.foldl (applyAck inputs) results := by
  unfold readAnswer Exchange.entries
  cases ex.answer with
  | error e => rfl
  | ok rs => exact AnswerLoop.results_foldl _ _ _

theorem failed_readAnswer (ex : Exchange) :
    (readAnswer inputs batch results ex.answer).failed = ex.failedKeys batch := by
  unfold readAnswer Exchange.failedKeys
  cases ex.answer with
  | error e => rfl
  | ok rs => exact AnswerLoop.failed_foldl _ _ _

theorem err_readAnswer (ex : Exchange) :
    (readAnswer inputs batch results ex.answer).err = none ↔ ex.Clean := by
  unfold readAnswer Exchange.Clean
  cases ex.answer with
  | error e => simp
  | ok rs =>
    refine (AnswerLoop.err_foldl _ _ _).trans ?_
    simp

/-! ## Results -/

/-- The result of a record that is the `d`th of its partition's, from the entry that decides. -/
def recordResult (r : RoutedRecord) (d : Nat) : Option ProduceResult → ProduceRecordResult
  | none => {}
  | some res => ⟨r.record, res.topic, res.partition, res.offset + Int64.ofNat d⟩

/-- The offset of an acknowledged record counts from the answer's, also where the partition has one
record only. -/
theorem mem_ackResults (h : recs[d]? = some r) :
    (r.idx, recordResult r d (some res)) ∈ ackResults res recs := by
  have ⟨hd, hr⟩ := List.getElem?_eq_some_iff.1 h
  refine mem_mapIdx.2 ⟨d, hd, ?_⟩
  rw [hr]
  split_ifs with hlen
  · rfl
  · obtain rfl : d = 0 := by omega
    exact congrArg (fun o => (r.idx, ProduceRecordResult.mk r.record res.topic res.partition o))
      (Int64.add_zero _).symm

theorem map_fst_ackResults : (ackResults res recs).map Prod.fst = recs.map (·.idx) := by
  unfold ackResults
  exact ext_getElem (by simp) (by simp)

variable {routed : List RoutedRecord}

theorem get_group : InputByKey.get (group (·.partKey) routed) k = routed.filter (·.partKey = k) :=
  getD_lookup_group

/-- The results after some entries: each record's is set by the last acknowledgement of its
partition. -/
theorem getElem?_foldl_applyAck (hnodup : (routed.map (·.idx)).Nodup)
    (hlt : ∀ r ∈ routed, r.idx < n) (hr : (routed.filter (·.partKey = k))[d]? = some r) :
    (entries.foldl (applyAck (group (·.partKey) routed)) (List.replicate n {}))[r.idx]? =
      some (recordResult r d (lastAck entries k)) := by
  have ⟨hmem, hkey⟩ := mem_filter.1 (mem_of_getElem? hr)
  have hkey : r.partKey = k := of_decide_eq_true hkey
  have hsub (k : PartKey) : ((routed.filter (·.partKey = k)).map (·.idx)).Nodup :=
    hnodup.sublist (filter_sublist.map _)
  induction entries using List.reverseRecOn with
  | nil => exact List.getElem?_replicate_of_lt (hlt r hmem)
  | append_singleton entries e ih =>
    rw [foldl_append, foldl_cons, foldl_nil, lastAck_concat, applyAck]
    split_ifs with hcode hack hack
    · exact absurd hack.1 hcode
    · exact ih
    · -- an acknowledgement of the record's own partition
      rw [get_group, hack.2]
      refine getElem?_store ?_ (mem_ackResults hr) ?_
      · rw [map_fst_ackResults]
        exact hsub k
      · rw [length_foldl_applyAck, length_replicate]
        exact hlt r hmem
    · -- of another partition, so of records with other indices
      rw [get_group, getElem?_store_of_not_mem, ih]
      rw [map_fst_ackResults]
      intro hidx
      obtain ⟨r', hr', heq⟩ := mem_map.1 hidx
      have ⟨hmem', hkey'⟩ := mem_filter.1 hr'
      obtain rfl : r' = r := inj_on_of_nodup_map hnodup hmem' hmem heq
      exact hack ⟨not_not.1 hcode, (of_decide_eq_true hkey').symm.trans hkey⟩

/-! ## The exchanges of a send -/

theorem lookup_markFailed (failed : AList fun _ : PartKey => Nat) (keys : List PartKey) :
    (markFailed inputs failed keys).lookup k =
      if k ∈ keys ∧ k ∈ inputs then some (inputs.get k).length else failed.lookup k := by
  induction keys generalizing failed with
  | nil => simp [markFailed]
  | cons k' keys ih =>
    refine (ih (markFailed inputs failed [k'])).trans ?_
    by_cases hk : k = k'
    · subst hk
      cases hlook : inputs.lookup k with
      | none =>
        have hin : k ∉ inputs := AList.lookup_eq_none.1 hlook
        simp [markFailed, hin, hlook]
      | some recs =>
        have hin : k ∈ inputs := AList.lookup_isSome.1 (hlook ▸ rfl)
        simp [markFailed, hin, InputByKey.get, hlook]
    · have hother : (markFailed inputs failed [k']).lookup k = failed.lookup k := by
        rw [markFailed, foldl_cons, foldl_nil]
        split
        · exact AList.lookup_insert_ne hk
        · rfl
      rw [hother]
      simp [hk]

theorem keepError_eq_none : keepError err err' = none ↔ err = none ∧ err' = none := by
  cases err with
  | none => cases err' <;> simp [keepError]
  | some e =>
    cases err' with
    | none => simp [keepError]
    | some e' =>
      simp only [keepError]
      split_ifs <;> simp

section Sending

variable {cfg : ProducerConfig} {env : AttemptEnv} {settings : ProduceSettings}

/-- What the exchanges so far have come to. -/
structure Sending.Tallied (now : Nat → Time) (routed : List RoutedRecord) (inputs : InputByKey)
    (start : List ProduceRecordResult) (s : Sending) : Prop where
  results : s.results = (s.exchanges.flatMap (·.entries)).foldl (applyAck inputs) start
  err : s.err = none ↔ ∀ ex ∈ s.exchanges, ex.Clean
  failed : ∀ k, s.failed.lookup k =
    if (∃ ex ∈ s.exchanges, k ∈ ex.failedKeys (brokerBatch now routed ex.node)) ∧ k ∈ inputs then
      some (inputs.get k).length
    else none

/-- An exchange is added to the tally. -/
theorem Sending.Tallied.sendTo (h : s.Tallied env.now routed inputs start) (node : Int32) :
    (sendTo cfg env settings routed inputs s node).Tallied env.now routed inputs start := by
  let batch := brokerBatch env.now routed node
  let request :=
    (encodeProduceRequest cfg.codecs env.clock cfg.apiVersion settings batch s.cursor).1
  let ex : Exchange := ⟨node, request, request >>= env.respond node⟩
  refine ⟨?_, ?_, fun k => ?_⟩
  · show (readAnswer inputs batch s.results ex.answer).results =
      ((s.exchanges ++ [ex]).flatMap (·.entries)).foldl (applyAck inputs) start
    rw [results_readAnswer, h.results, flatMap_append, foldl_append, flatMap_singleton]
  · show keepError s.err (readAnswer inputs batch s.results ex.answer).err = none ↔
      ∀ ex' ∈ s.exchanges ++ [ex], ex'.Clean
    rw [keepError_eq_none, err_readAnswer, h.err, forall_mem_append, forall_mem_singleton]
  · show
      (markFailed inputs s.failed (readAnswer inputs batch s.results ex.answer).failed).lookup k =
      if (∃ ex' ∈ s.exchanges ++ [ex], k ∈ ex'.failedKeys (brokerBatch env.now routed ex'.node)) ∧
        k ∈ inputs then some (inputs.get k).length else none
    rw [lookup_markFailed, failed_readAnswer, h.failed]
    simp only [mem_append, mem_singleton, or_and_right, exists_or, exists_eq_left]
    by_cases hnew : k ∈ ex.failedKeys batch ∧ k ∈ inputs
    · rw [if_pos hnew, if_pos (Or.inr hnew)]
    · rw [if_neg hnew]
      exact if_congr (or_iff_left hnew).symm rfl rfl

/-- An exchange of a send: the request holds the broker's records, numbered from a cursor. -/
structure Exchange.SentFrom (cfg : ProducerConfig) (env : AttemptEnv) (settings : ProduceSettings)
    (routed : List RoutedRecord) (cur : SeqCursor) (ex : Exchange) : Prop where
  answer : ex.answer = ex.request >>= env.respond ex.node
  request : ∀ bs, ex.request = .ok bs →
    RequestFor cfg.codecs env.clock settings cur (brokerBatch env.now routed ex.node) bs

theorem brokerBatch_eq (now : Nat → Time) :
    brokerBatch now routed node = (routed.filter (·.leader = node)).map (·.produceRecord now) :=
  congrArg _ getD_lookup_group

theorem mem_keys_brokerBatch :
    k ∈ (brokerBatch now routed node).map (·.partKey) ↔
      ∃ r ∈ routed, r.leader = node ∧ r.partKey = k := by
  rw [brokerBatch_eq, map_map]
  simp only [mem_map, mem_filter, decide_eq_true_eq, and_assoc]
  exact Iff.rfl

/-- The records of a partition have one leader: metadata does not change while they are grouped. -/
def OneLeader (routed : List RoutedRecord) : Prop :=
  ∀ r ∈ routed, ∀ r' ∈ routed, r.partKey = r'.partKey → r.leader = r'.leader

/-- The brokers are asked in turn, and each partition's cursor stays as it was until its own broker
is. -/
theorem exchanges_foldl_sendTo (hleader : OneLeader routed) (hnodup : nodes.Nodup) {s : Sending}
    (hcur : ∀ r ∈ routed, r.leader ∈ nodes → s.cursor.get r.partKey = start.get r.partKey) :
    ∃ exs, (nodes.foldl (sendTo cfg env settings routed inputs) s).exchanges = s.exchanges ++ exs ∧
      exs.map (·.node) = nodes ∧ ∀ ex ∈ exs, ex.SentFrom cfg env settings routed start := by
  induction nodes generalizing s with
  | nil => exact ⟨[], (append_nil _).symm, rfl, nofun⟩
  | cons node nodes ih =>
    have ⟨hnode, hnodes⟩ := nodup_cons.1 hnodup
    let batch := brokerBatch env.now routed node
    let encoded := encodeProduceRequest cfg.codecs env.clock cfg.apiVersion settings batch s.cursor
    let ex : Exchange := ⟨node, encoded.1, encoded.1 >>= env.respond node⟩
    have hcur' : ∀ r ∈ routed, r.leader ∈ nodes →
        (sendTo cfg env settings routed inputs s node).cursor.get r.partKey =
          start.get r.partKey := by
      intro r hr hlead
      refine Eq.trans ?_ (hcur r hr (mem_cons_of_mem _ hlead))
      refine get_encodeProduceRequest fun hk => hnode ?_
      obtain ⟨r', hr', rfl, hkey⟩ := mem_keys_brokerBatch.1 hk
      exact hleader r' hr' r hr hkey ▸ hlead
    have ⟨exs, hexs, hnodesOf, hsent⟩ := ih hnodes hcur'
    refine ⟨ex :: exs, ?_, congrArg (node :: ·) hnodesOf, ?_⟩
    · refine hexs.trans ?_
      show (s.exchanges ++ [ex]) ++ exs = _
      rw [append_assoc]
      rfl
    · refine forall_mem_cons.2 ⟨⟨rfl, fun bs hbs => ?_⟩, hsent⟩
      have hreq : RequestFor cfg.codecs env.clock settings s.cursor batch bs :=
        encodeProduceRequest_ok hbs
      refine { hreq with baseSequence := fun b hb => (hreq.baseSequence b hb).trans ?_ }
      obtain ⟨r, hr, hlead, hkey⟩ := mem_keys_brokerBatch.1
        ((hreq.mem b.partKey).1 (mem_map_of_mem hb))
      rw [← hkey, hcur r hr (hlead ▸ mem_cons_self)]

end Sending

/-! ## Sequence counters -/

theorem reserveBlocks_concat (keys : List PartKey) :
    reserveBlocks inputs (keys ++ [k]) st =
      let (cur, st) := reserveBlocks inputs keys st
      (cur.insert k (st.sequence k), (st.reserveBlock k (inputs.get k).length).2) :=
  List.foldl_append

/-- A reserved block starts at the counter and moves it. -/
theorem reserveBlocks_spec {keys : List PartKey} (hnodup : keys.Nodup) :
    (k ∈ keys → (reserveBlocks inputs keys st).1.get k = st.sequence k) ∧
    (reserveBlocks inputs keys st).2.sequence k =
      if k ∈ keys then (st.reserveBlock k (inputs.get k).length).2.sequence k
      else st.sequence k := by
  induction keys using List.reverseRecOn with
  | nil => exact ⟨nofun, rfl⟩
  | append_singleton keys k' ih =>
    obtain ⟨hkeys, -, hdisj⟩ := nodup_append.1 hnodup
    have ⟨hcur, hseq⟩ := ih hkeys
    rw [reserveBlocks_concat]
    by_cases hk : k = k'
    · subst hk
      have hout : k ∉ keys := fun hk => hdisj k hk k (mem_singleton_self k) rfl
      rw [if_neg hout] at hseq
      simp [SeqCursor.get, hseq]
    · have hmem : k ∈ keys ++ [k'] ↔ k ∈ keys := by simp [hk]
      refine ⟨fun hin => ?_, ?_⟩
      · refine Eq.trans ?_ (hcur (hmem.1 hin))
        simp [SeqCursor.get, AList.lookup_insert_ne hk]
      · rw [ProduceState.sequence_reserveBlock_of_ne hk, hseq]
        exact if_congr hmem.symm rfl rfl

theorem rollbackPartitions_concat (keys : List PartKey) :
    rollbackPartitions failed (keys ++ [k]) st =
      (rollbackPartitions failed keys st).rollbackBlock k ((failed.lookup k).getD 0) :=
  List.foldl_append

/-- A failed partition's block is taken back. -/
theorem sequence_rollbackPartitions {keys : List PartKey} (hnodup : keys.Nodup) :
    (rollbackPartitions failed keys st).sequence k =
      if k ∈ keys then (st.rollbackBlock k ((failed.lookup k).getD 0)).sequence k
      else st.sequence k := by
  induction keys using List.reverseRecOn with
  | nil => rfl
  | append_singleton keys k' ih =>
    obtain ⟨hkeys, -, hdisj⟩ := nodup_append.1 hnodup
    have hseq := ih hkeys
    rw [rollbackPartitions_concat]
    by_cases hk : k = k'
    · subst hk
      have hout : k ∉ keys := fun hk => hdisj k hk k (mem_singleton_self k) rfl
      rw [if_neg hout] at hseq
      simp [hseq]
    · rw [ProduceState.sequence_rollbackBlock_of_ne hk, hseq]
      exact if_congr (by simp [hk]) rfl rfl

/-! ## A send -/

section Send

variable {cfg : ProducerConfig} {env : AttemptEnv} {identity : Option ProducerIdentity}

theorem mem_group : k ∈ (group (·.partKey) routed) ↔ k ∈ routed.map (·.partKey) :=
  AList.mem_keys.trans mem_keys_group

/-- The counter of a partition when a send starts; a producer without an id sends zero. -/
def baseSequence (identity : Option ProducerIdentity) (k : PartKey) : Int32 :=
  match identity with
  | none => 0
  | some id => id.state.sequence k

/-- An exchange of a send of routed records. -/
structure Exchange.Sent (cfg : ProducerConfig) (env : AttemptEnv) (routed : List RoutedRecord)
    (identity : Option ProducerIdentity) (ex : Exchange) : Prop where
  answer : ex.answer = ex.request >>= env.respond ex.node
  nodup : ∀ bs, ex.request = .ok bs → (bs.map (·.partKey)).Nodup
  mem : ∀ bs, ex.request = .ok bs → ∀ k,
    k ∈ bs.map (·.partKey) ↔ ∃ r ∈ routed, r.leader = ex.node ∧ r.partKey = k
  records : ∀ bs, ex.request = .ok bs → ∀ b ∈ bs,
    b.records = (routed.filter (·.partKey = b.partKey)).map (·.produceRecord env.now)
  baseSequence : ∀ bs, ex.request = .ok bs → ∀ b ∈ bs,
    b.baseSequence = GoKafka.baseSequence identity b.partKey
  raw : ∀ bs, ex.request = .ok bs → ∀ b ∈ bs, encodeRecordBatch cfg.codecs (env.clock b.partKey)
    b.records (produceSettings cfg (identity.map (·.pid))) b.baseSequence = .ok b.raw

/-- A partition was reported as failed. -/
def FailedIn (now : Nat → Time) (routed : List RoutedRecord) (exs : List Exchange) (k : PartKey) :
    Prop :=
  ∃ ex ∈ exs, k ∈ ex.failedKeys (brokerBatch now routed ex.node)

instance (now : Nat → Time) (exs : List Exchange) (k : PartKey) :
    Decidable (FailedIn now routed exs k) :=
  inferInstanceAs (Decidable (∃ _ ∈ _, _))

/-- What a send of routed records comes to, given its exchanges. -/
structure SendSpec (cfg : ProducerConfig) (env : AttemptEnv) (routed : List RoutedRecord)
    (identity : Option ProducerIdentity) (out : SendOut) (exs : List Exchange) : Prop where
  sent : out.sent = some exs
  nodup : (exs.map (·.node)).Nodup
  nodes : ∀ n, n ∈ exs.map (·.node) ↔ n ∈ routed.map (·.leader)
  exchange : ∀ ex ∈ exs, ex.Sent cfg env routed identity
  length : out.results.length = routed.length
  results : ∀ k d r, (routed.filter (·.partKey = k))[d]? = some r → out.results[r.idx]? =
    some (recordResult r d (lastAck (exs.flatMap (·.entries)) k))
  err : out.err = none ↔ ∀ ex ∈ exs, ex.Clean
  identity : ∀ id, identity = some id → ∃ id', out.identity = some id' ∧ id'.pid = id.pid ∧
    ∀ k, id'.state.sequence k =
      if k ∈ routed.map (·.partKey) then
        if FailedIn env.now routed exs k then
          if id.state.sequence k < 0 then 0 else id.state.sequence k
        else id.state.sequence k + Int32.ofNat (routed.filter (·.partKey = k)).length
      else id.state.sequence k

/-- A batch's records are the partition's of the send, since one broker has them all. -/
theorem Exchange.SentFrom.sent {ex : Exchange} (hleader : OneLeader routed)
    (hsettings : settings = produceSettings cfg (identity.map (·.pid)))
    (hcur : ∀ k ∈ routed.map (·.partKey),
      (if settings.sequenced then cur.get k else 0) = baseSequence identity k)
    (h : ex.SentFrom cfg env settings routed cur) : ex.Sent cfg env routed identity := by
  subst hsettings
  refine ⟨h.answer, fun bs hbs => (h.request bs hbs).nodup, fun bs hbs k => ?_,
    fun bs hbs b hb => ?_, fun bs hbs b hb => ?_, fun bs hbs => (h.request bs hbs).raw⟩
  · exact ((h.request bs hbs).mem k).trans mem_keys_brokerBatch
  all_goals
    obtain ⟨r, hr, hlead, hkey⟩ := mem_keys_brokerBatch.1
      (((h.request bs hbs).mem b.partKey).1 (mem_map_of_mem hb))
  · rw [(h.request bs hbs).records b hb, brokerBatch_eq, filter_map, filter_filter]
    refine congrArg _ (filter_congr fun r' hr' => ?_)
    show (decide (r'.partKey = b.partKey) && decide (r'.leader = ex.node)) = _
    by_cases hkey' : r'.partKey = b.partKey
    · have hlead' := (hleader r' hr' r hr (hkey'.trans hkey.symm)).trans hlead
      simp [hlead']
    · simp [hkey']
  · rw [(h.request bs hbs).baseSequence b hb]
    exact hcur _ (hkey ▸ mem_map_of_mem hr)

/-- The cursor a send numbers its batches from. -/
def startCursor (env : AttemptEnv) (routed : List RoutedRecord)
    (identity : Option ProducerIdentity) : SeqCursor :=
  (identity.map fun id => (reserveBlocks (group (·.partKey) routed)
    (env.keyOrder.keys (group (·.partKey) routed)) id.state).1).getD ∅

theorem get_startCursor (hk : k ∈ routed.map (·.partKey)) :
    (if (produceSettings cfg (identity.map (·.pid))).sequenced then
      (startCursor env routed identity).get k else 0) = baseSequence identity k := by
  cases identity with
  | none => rfl
  | some id =>
    have hmem : k ∈ env.keyOrder.keys (group (·.partKey) routed) :=
      env.keyOrder.mem_keys.2 (mem_group.2 hk)
    exact (reserveBlocks_spec (env.keyOrder.nodup_keys _)).1 hmem

/-- The variables of `sendRecords` when every broker has answered. -/
def sendAll (cfg : ProducerConfig) (env : AttemptEnv) (routed : List RoutedRecord)
    (identity : Option ProducerIdentity) : Sending :=
  (env.nodeOrder.keys (group (·.leader) routed)).foldl
    (sendTo cfg env (produceSettings cfg (identity.map (·.pid))) routed (group (·.partKey) routed))
    { results := List.replicate routed.length {}, cursor := startCursor env routed identity }

theorem tallied_sendAll : (sendAll cfg env routed identity).Tallied env.now routed
    (group (·.partKey) routed) (List.replicate routed.length {}) := by
  refine List.foldlRecOn _ _ ⟨rfl, by simp, fun k => by simp⟩ fun s hs node _ => hs.sendTo node

theorem sendRouted_eq : sendRouted cfg env routed identity =
    { results := (sendAll cfg env routed identity).results
      err := (sendAll cfg env routed identity).err
      identity := identity.map fun id =>
        { id with
          state := rollbackPartitions (sendAll cfg env routed identity).failed
            (env.keyOrder.keys (sendAll cfg env routed identity).failed)
            (reserveBlocks (group (·.partKey) routed)
              (env.keyOrder.keys (group (·.partKey) routed)) id.state).2 }
      sent := some (sendAll cfg env routed identity).exchanges } := by
  cases identity <;> rfl

/-- A counter after a send: the block is kept, or given back. -/
theorem sequence_sendRouted {s : Sending}
    (h : s.Tallied env.now routed (group (·.partKey) routed) start) :
    (rollbackPartitions s.failed (env.keyOrder.keys s.failed)
      (reserveBlocks (group (·.partKey) routed)
        (env.keyOrder.keys (group (·.partKey) routed)) st).2).sequence k =
      if k ∈ routed.map (·.partKey) then
        if FailedIn env.now routed s.exchanges k then
          if st.sequence k < 0 then 0 else st.sequence k
        else st.sequence k + Int32.ofNat (routed.filter (·.partKey = k)).length
      else st.sequence k := by
  have hreserve : (reserveBlocks (group (·.partKey) routed) _ st).2.sequence k = _ :=
    (reserveBlocks_spec (env.keyOrder.nodup_keys (group (·.partKey) routed))).2
  have hkeys : k ∈ env.keyOrder.keys (group (·.partKey) routed) ↔ k ∈ routed.map (·.partKey) :=
    env.keyOrder.mem_keys.trans mem_group
  have hfailed : k ∈ env.keyOrder.keys s.failed ↔
      FailedIn env.now routed s.exchanges k ∧ k ∈ routed.map (·.partKey) := by
    rw [env.keyOrder.mem_keys, ← AList.lookup_isSome, h.failed, ← mem_group]
    split_ifs with hif
    · exact iff_of_true rfl hif
    · exact iff_of_false Bool.false_ne_true hif
  rw [sequence_rollbackPartitions (env.keyOrder.nodup_keys _)]
  by_cases hk : k ∈ routed.map (·.partKey)
  · rw [if_pos (hkeys.2 hk), ProduceState.sequence_reserveBlock_self, get_group] at hreserve
    rw [if_pos hk]
    by_cases hfail : FailedIn env.now routed s.exchanges k
    · have hcount : (s.failed.lookup k).getD 0 = (routed.filter (·.partKey = k)).length := by
        rw [h.failed, if_pos ⟨hfail, mem_group.2 hk⟩, get_group]
        rfl
      rw [if_pos (hfailed.2 ⟨hfail, hk⟩), if_pos hfail, ProduceState.sequence_rollbackBlock_self,
        hreserve, hcount, Int32.add_sub_cancel]
    · rw [if_neg fun hin => hfail (hfailed.1 hin).1, if_neg hfail, hreserve]
  · rw [if_neg fun hin => hk (hfailed.1 hin).2, hreserve, if_neg fun hin => hk (hkeys.1 hin),
      if_neg hk]

theorem exchanges_sendAll (hleader : OneLeader routed) :
    (sendAll cfg env routed identity).exchanges.map (·.node) =
        env.nodeOrder.keys (group (·.leader) routed) ∧
      ∀ ex ∈ (sendAll cfg env routed identity).exchanges, ex.Sent cfg env routed identity := by
  let s : Sending :=
    { results := List.replicate routed.length {}, cursor := startCursor env routed identity }
  have hcur : ∀ r ∈ routed, r.leader ∈ env.nodeOrder.keys (group (·.leader) routed) →
      s.cursor.get r.partKey = (startCursor env routed identity).get r.partKey :=
    fun _ _ _ => rfl
  obtain ⟨exs, hexs, hnodes, hsent⟩ :=
    exchanges_foldl_sendTo hleader (env.nodeOrder.nodup_keys _) hcur
  have hexs : (sendAll cfg env routed identity).exchanges = exs := hexs
  rw [hexs]
  exact ⟨hnodes, fun ex hex => (hsent ex hex).sent hleader rfl fun k hk => get_startCursor hk⟩

/-- The specification of a send of routed records. -/
theorem sendRouted_spec (hnodup : (routed.map (·.idx)).Nodup)
    (hlt : ∀ r ∈ routed, r.idx < routed.length) (hleader : OneLeader routed) :
    ∃ exs, SendSpec cfg env routed identity (sendRouted cfg env routed identity) exs := by
  have htally : (sendAll cfg env routed identity).Tallied env.now routed _ _ := tallied_sendAll
  have ⟨hnodes, hsent⟩ := @exchanges_sendAll routed cfg env identity hleader
  rw [sendRouted_eq]
  refine ⟨_, rfl, ?_, fun n => ?_, hsent, ?_, fun k d r hr => ?_, htally.err, fun id hid => ?_⟩
  · rw [hnodes]
    exact env.nodeOrder.nodup_keys _
  · rw [hnodes]
    exact env.nodeOrder.mem_keys.trans (AList.mem_keys.trans mem_keys_group)
  · rw [htally.results, length_foldl_applyAck, length_replicate]
  · rw [htally.results]
    exact getElem?_foldl_applyAck hnodup hlt hr
  · subst hid
    exact ⟨_, rfl, rfl, fun k => sequence_sendRouted htally⟩

end Send

/-! ## Routing -/

/-- What brokers send as metadata: a topic with partitions has a name, and partitions are numbered
from zero on. -/
structure Cluster.Sound (c : Cluster) : Prop where
  named : ∀ t ∈ c.md.topics, t.partitions ≠ [] → t.name ≠ []
  ids : ∀ t ∈ c.md.topics, ∀ p ∈ t.partitions, 0 ≤ p.partition

/-- A record goes to the partition it names and its leader, or to one that its topic lists. -/
theorem resolvePartition_cases {partition : NilBytes → Nat → Int32}
    (h : resolvePartition c partition r = .ok (part, leader)) :
    ∃ t, c.md.topics.find? (·.name = r.topic) = some t ∧ t.partitions ≠ [] ∧
      (0 ≤ r.partition ∧ part = r.partition ∧ c.leaderNodeID r.topic part = (leader, true) ∨
        ¬ 0 ≤ r.partition ∧ ∃ pm ∈ t.partitions, pm.partition = part ∧ pm.leader = leader) := by
  revert h
  cases hfind : c.md.topics.find? (·.name = r.topic) with
  | none => simp [resolvePartition, hfind]
  | some t =>
    simp only [resolvePartition, hfind, Option.map_some, Option.getD_some]
    split_ifs with hparts hpos hidx
    · exact nofun
    · split
      · rintro ⟨⟩
        exact ⟨t, rfl, hparts, .inl ⟨hpos, rfl, ‹_›⟩⟩
      · exact nofun
    · exact nofun
    · split
      · rintro ⟨⟩
        exact ⟨t, rfl, hparts, .inr ⟨hpos, _, mem_of_getElem? ‹_›, rfl, rfl⟩⟩
      · exact nofun

theorem resolvePartition_ok (hc : c.Sound) {partition : NilBytes → Nat → Int32}
    (h : resolvePartition c partition r = .ok (part, leader)) :
    r.topic ≠ [] ∧ 0 ≤ part ∧ (0 ≤ r.partition → part = r.partition ∧
      leader = (c.leaderNodeID r.topic r.partition).1) := by
  obtain ⟨t, hfind, hparts, hcase⟩ := resolvePartition_cases h
  have hmem := mem_of_find?_eq_some hfind
  have hname := List.find?_some hfind
  have hname : t.name = r.topic := of_decide_eq_true hname
  refine ⟨hname ▸ hc.named t hmem hparts, ?_⟩
  rcases hcase with ⟨hpos, rfl, hleader⟩ | ⟨hpos, pm, hpm, rfl, -⟩
  · exact ⟨hpos, fun _ => ⟨rfl, congrArg Prod.fst hleader.symm⟩⟩
  · exact ⟨hc.ids t hmem pm hpm, fun h => absurd h hpos⟩

/-- A record and its frozen copy: only a partition that was not named is filled in. -/
structure FrozenRecord (r frozen : Record) : Prop where
  eq : frozen = { r with partition := frozen.partition }
  pos : 0 ≤ frozen.partition
  keeps : 0 ≤ r.partition → frozen = r

variable {partition : Nat → NilBytes → Nat → Int32}

theorem freezePartitions_ok (hc : c.Sound)
    (h : freezePartitions c partition i records = .ok frozen) :
    List.Forall₂ FrozenRecord records frozen := by
  induction records generalizing i frozen with
  | nil =>
    cases h
    exact .nil
  | cons r rs ih =>
    obtain ⟨fr, hfr, h⟩ := bind_eq_ok.1 h
    obtain ⟨frs, hfrs, h⟩ := bind_eq_ok.1 h
    cases h
    refine .cons ?_ (ih hfrs)
    unfold freezeRecord at hfr
    split_ifs at hfr with hneg
    · obtain ⟨⟨part, leader⟩, hres, hfr⟩ := bind_eq_ok.1 hfr
      cases hfr
      exact ⟨rfl, (resolvePartition_ok hc hres).2.1, fun hpos => absurd hneg (Int32.not_lt.2 hpos)⟩
    · cases hfr
      exact ⟨rfl, Int32.not_lt.1 hneg, fun _ => rfl⟩

/-- A record routed to the leader of the partition it names. -/
def routeTo (c : Cluster) (p : Record × Nat) : RoutedRecord :=
  ⟨p.2, p.1, p.1.partition, (c.leaderNodeID p.1.topic p.1.partition).1⟩

theorem routeRecords_ok (hc : c.Sound) (hpos : ∀ r ∈ records, 0 ≤ r.partition)
    (h : routeRecords c partition i records = .ok routed) :
    routed = (records.zipIdx i).map (routeTo c) ∧ ∀ r ∈ records, r.topic ≠ [] := by
  induction records generalizing i routed with
  | nil =>
    cases h
    exact ⟨rfl, nofun⟩
  | cons r rs ih =>
    obtain ⟨⟨part, leader⟩, hres, h⟩ := bind_eq_ok.1 h
    obtain ⟨rest, hrest, h⟩ := bind_eq_ok.1 h
    cases h
    have ⟨htopic, _, hnamed⟩ := resolvePartition_ok hc hres
    have ⟨hpart, hlead⟩ := hnamed (hpos r mem_cons_self)
    have ⟨heq, htopics⟩ := ih (fun r' hr' => hpos r' (mem_cons_of_mem _ hr')) hrest
    refine ⟨?_, forall_mem_cons.2 ⟨htopic, htopics⟩⟩
    rw [heq, hpart, hlead]
    rfl

end GoKafka
