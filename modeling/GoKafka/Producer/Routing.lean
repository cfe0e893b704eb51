import GoKafka.Producer.PartialRetry

/-!
# Metadata that changes while records are routed

`sendRecords` resolves the leader of each record's partition as it comes to the record, and the
metadata cache is shared: between two records, and between the two reads of `resolvePartition` for
one of them, other goroutines of the client may store new metadata. `routeInterleaved` is the
resolving loop under a schedule of such refreshes (`Refreshes`), and `sendInterleaved` is the send;
without refreshes they are `routeRecords` and `sendRecords` (`sendInterleaved_none`).

Records are grouped by the leader they were resolved to, but an answer is matched with all records
of its partition. `sendInterleaved_ownBroker_iff` says when that makes no difference: when no
refresh moves a partition to another leader between two of its records. In `sendInterleaved_foreign`
one does, and a record is reported acknowledged that its broker has rejected.
-/

namespace GoKafka

open Assoc List

/-! ## The program -/

/-- The metadata that other goroutines store while the records are resolved: before
`resolvePartition` reads the metadata for a record, and between that and its read of the leader. -/
structure Refreshes where
  beforeMetadata : Nat → List MetadataResponse := fun _ => []
  beforeLeader : Nat → List MetadataResponse := fun _ => []

namespace Refreshes

variable (rs : Refreshes)

/-- The cache when the metadata is read for a record; `c` is the cache when the loop comes to it. -/
def atMetadata (i : Nat) (c : Cluster) : Cluster :=
  (rs.beforeMetadata i).foldl Cluster.storeMetadata c

/-- The cache when the leader is read for a record. -/
def atLeader (i : Nat) (c : Cluster) : Cluster :=
  (rs.beforeLeader i).foldl Cluster.storeMetadata (rs.atMetadata i c)

/-- What `resolvePartition` sees for a record: the topics of its first read and the leaders of its
second. -/
def view (i : Nat) (c : Cluster) : Cluster :=
  { rs.atLeader i c with md := (rs.atMetadata i c).md }

/-- The cache when the loop comes to a record. -/
def cacheAt (c : Cluster) : Nat → Cluster
  | 0 => c
  | i + 1 => rs.atLeader i (cacheAt c i)

end Refreshes

/-- The resolving loop of `sendRecords` among refreshes, from a record's index on. -/
def routeInterleaved (rs : Refreshes) (partition : Nat → NilBytes → Nat → Int32) :
    Nat → Cluster → List Record → Except Error (List RoutedRecord)
  | _, _, [] => .ok []
  | i, c, r :: records => do
    let (part, leader) ← resolvePartition (rs.view i c) (partition i) r
    let routed ← routeInterleaved rs partition (i + 1) (rs.atLeader i c) records
    pure (⟨i, r, part, leader⟩ :: routed)

/-- `Producer.sendRecords` among refreshes. -/
def sendInterleaved (cfg : ProducerConfig) (env : AttemptEnv) (rs : Refreshes)
    (records : List Record) (identity : Option ProducerIdentity) : SendOut :=
  match routeInterleaved rs env.repartition 0 env.cluster records with
  | .error e => { results := [], err := some e, identity := identity, sent := none }
  | .ok routed => sendRouted cfg env routed identity

theorem routeInterleaved_none (partition : Nat → NilBytes → Nat → Int32) (i : Nat) (c : Cluster)
    (records : List Record) :
    routeInterleaved {} partition i c records = routeRecords c partition i records := by
  induction records generalizing i with
  | nil => rfl
  | cons r records ih =>
    rw [routeInterleaved, routeRecords]
    have hview : ({} : Refreshes).view i c = c := rfl
    have hleader : ({} : Refreshes).atLeader i c = c := rfl
    rw [hview, hleader, ih]

theorem Refreshes.cacheAt_none : ({} : Refreshes).cacheAt c i = c := by
  induction i with
  | zero => rfl
  | succ i ih => exact ih

theorem sendInterleaved_none :
    sendInterleaved cfg env {} records identity = sendRecords cfg env records identity := by
  have hroute := routeInterleaved_none env.repartition 0 env.cluster records
  cases hr : routeRecords env.cluster env.repartition 0 records with
  | error e => simp only [sendInterleaved, sendRecords, hroute, hr]
  | ok routed => simp only [sendInterleaved, sendRecords, hroute, hr]

/-! ## What the loop routes -/

/-- What `resolvePartition` comes to for a record of the call. -/
def Refreshes.resolve (rs : Refreshes) (env : AttemptEnv) (i : Nat) (r : Record) :
    Except Error (Int32 × Int32) :=
  resolvePartition (rs.view i (rs.cacheAt env.cluster i)) (env.repartition i) r

section Routed

variable {rs : Refreshes} {env : AttemptEnv} {records : List Record} {routed : List RoutedRecord}

theorem routeInterleaved_ok
    (h : routeInterleaved rs env.repartition i (rs.cacheAt env.cluster i) records = .ok routed) :
    List.Forall₂ (fun p r => r.idx = p.2 ∧ r.record = p.1 ∧
      rs.resolve env p.2 p.1 = .ok (r.part, r.leader)) (records.zipIdx i) routed := by
  induction records generalizing i routed with
  | nil =>
    cases h
    exact .nil
  | cons r records ih =>
    obtain ⟨⟨part, leader⟩, hres, h⟩ := bind_eq_ok.1 h
    obtain ⟨rest, hrest, h⟩ := bind_eq_ok.1 h
    cases h
    exact .cons ⟨rfl, rfl, hres⟩ (ih hrest)

/-- The loop ends when every record is resolved. -/
theorem routeInterleaved_of_resolved
    (h : ∀ p ∈ records.zipIdx i, ∃ q, rs.resolve env p.2 p.1 = .ok q) :
    ∃ routed, routeInterleaved rs env.repartition i (rs.cacheAt env.cluster i) records =
      .ok routed := by
  induction records generalizing i with
  | nil => exact ⟨[], rfl⟩
  | cons r records ih =>
    obtain ⟨hr, hrecords⟩ := forall_mem_cons.1 h
    obtain ⟨⟨part, leader⟩, hres⟩ := hr
    obtain ⟨routed, hrouted⟩ := ih hrecords
    exact ⟨_, bind_eq_ok.2 ⟨_, hres, bind_eq_ok.2 ⟨routed, hrouted, rfl⟩⟩⟩

variable (h : routeInterleaved rs env.repartition 0 env.cluster records = .ok routed)
include h

theorem mem_routeInterleaved (hr : r ∈ routed) :
    records[r.idx]? = some r.record ∧ rs.resolve env r.idx r.record = .ok (r.part, r.leader) := by
  obtain ⟨p, hp, hidx, hrecord, hres⟩ :=
    forall₂_exists_left (routeInterleaved_ok (i := 0) h) hr
  rw [hidx, hrecord]
  exact ⟨mk_mem_zipIdx_iff_getElem?.1 hp, hres⟩

theorem exists_mem_routeInterleaved (hr : records[i]? = some r) :
    ∃ rr ∈ routed, rr.idx = i ∧ rr.record = r ∧ rs.resolve env i r = .ok (rr.part, rr.leader) :=
  forall₂_exists_left (routeInterleaved_ok (i := 0) h).flip (List.mk_mem_zipIdx_iff_getElem?.2 hr)

theorem map_idx_routeInterleaved : routed.map (·.idx) = List.range routed.length := by
  have hforall := routeInterleaved_ok (i := 0) h
  have hidx : (records.zipIdx 0).map (·.2) = routed.map (·.idx) := by
    rw [← forall₂_eq_eq_eq, forall₂_map_left_iff, forall₂_map_right_iff]
    exact hforall.imp fun p r hr => hr.1.symm
  rw [← hidx, zipIdx_map_snd, ← hforall.length_eq, length_zipIdx, range_eq_range']

end Routed

/-! ## Each record's own broker -/

/-- The exchanges of a send. -/
def SendOut.exchanges (out : SendOut) : List Exchange := out.sent.getD []

/-- The records of a partition are sent to one broker, and a record is reported acknowledged only if
the broker it was sent to has acknowledged its partition. -/
structure OwnBroker (env : AttemptEnv) (routed : List RoutedRecord) (out : SendOut) : Prop where
  single : ∀ ex ∈ out.exchanges, ∀ ex' ∈ out.exchanges, ∀ k,
    k ∈ (brokerBatch env.now routed ex.node).map (·.partKey) →
    k ∈ (brokerBatch env.now routed ex'.node).map (·.partKey) → ex.node = ex'.node
  acked : ∀ r ∈ routed, ∀ res, out.results[r.idx]? = some res → res.topic ≠ [] →
    ∃ ex ∈ out.exchanges, ex.node = r.leader ∧
      ∃ e ∈ ex.entries, e.partKey = r.partKey ∧ e.errorCode = 0

/-- The condition on a call and the refreshes among it: if all its records can be resolved, then two
that are resolved to one partition are resolved to one leader. -/
def Refreshes.KeepLeaders (rs : Refreshes) (env : AttemptEnv) (records : List Record) : Prop :=
  (∀ p ∈ records.zipIdx, ∃ q, rs.resolve env p.2 p.1 = .ok q) →
    ∀ p ∈ records.zipIdx, ∀ p' ∈ records.zipIdx, p.1.topic = p'.1.topic →
      ∀ part leader leader', rs.resolve env p.2 p.1 = .ok (part, leader) →
        rs.resolve env p'.2 p'.1 = .ok (part, leader') → leader = leader'

section Send

variable {cfg : ProducerConfig} {env : AttemptEnv} {rs : Refreshes} {records : List Record}
  {routed : List RoutedRecord} {identity : Option ProducerIdentity}

/-- Every broker that a record was resolved to is asked. -/
theorem nodes_foldl_sendTo (s : Sending) :
    (nodes.foldl (sendTo cfg env settings routed inputs) s).exchanges.map (·.node) =
      s.exchanges.map (·.node) ++ nodes := by
  induction nodes generalizing s with
  | nil => exact (append_nil _).symm
  | cons node nodes ih =>
    rw [foldl_cons, ih]
    simp [sendTo, produceToBroker]

theorem nodes_sendRouted :
    node ∈ (sendRouted cfg env routed identity).exchanges.map (·.node) ↔
      ∃ r ∈ routed, r.leader = node := by
  have hnodes : (sendRouted cfg env routed identity).exchanges.map (·.node) =
      env.nodeOrder.keys (group (·.leader) routed) := by
    exact nodes_foldl_sendTo _
  rw [hnodes, env.nodeOrder.mem_keys, AList.mem_keys, mem_keys_group, mem_map]

/-- Two records of a partition with different leaders are in two brokers' batches. -/
theorem oneLeader_of_single
    (h : OwnBroker env routed (sendRouted cfg env routed identity)) : OneLeader routed := by
  intro r hr r' hr' hkey
  obtain ⟨ex, hex, hnode⟩ := mem_map.1 (nodes_sendRouted.2 ⟨r, hr, rfl⟩)
  obtain ⟨ex', hex', hnode'⟩ := mem_map.1 (nodes_sendRouted.2 ⟨r', hr', rfl⟩)
  rw [← hnode, ← hnode']
  refine h.single ex hex ex' hex' r.partKey ?_ ?_
  · exact mem_keys_brokerBatch.2 ⟨r, hr, hnode.symm, rfl⟩
  · exact mem_keys_brokerBatch.2 ⟨r', hr', hnode'.symm, hkey.symm⟩

/-- The specification of a send of records that are routed in order. -/
theorem sendRouted_spec_of_range (hidx : routed.map (·.idx) = List.range routed.length)
    (hleader : OneLeader routed) :
    SendSpec cfg env routed identity (sendRouted cfg env routed identity)
      (sendRouted cfg env routed identity).exchanges := by
  have hlt : ∀ r ∈ routed, r.idx < routed.length := by
    intro r hr
    have hmem := mem_map_of_mem (f := (·.idx)) hr
    rw [hidx] at hmem
    exact mem_range.1 hmem
  obtain ⟨exs, hspec⟩ := @sendRouted_spec routed cfg env identity (hidx ▸ nodup_range) hlt hleader
  rw [SendOut.exchanges, hspec.sent]
  exact hspec

/-- Where a partition has one leader, answers and records are matched within one broker. -/
theorem ownBroker_of_oneLeader (hans : env.Answers) (hleader : OneLeader routed)
    (hidx : routed.map (·.idx) = List.range routed.length) :
    OwnBroker env routed (sendRouted cfg env routed identity) := by
  have hspec := @sendRouted_spec_of_range cfg env routed identity hidx hleader
  refine ⟨fun ex _ ex' _ k hk hk' => ?_, fun r hr res hres htopic => ?_⟩
  · obtain ⟨r, hr, hlead, hkey⟩ := mem_keys_brokerBatch.1 hk
    obtain ⟨r', hr', hlead', hkey'⟩ := mem_keys_brokerBatch.1 hk'
    rw [← hlead, ← hlead']
    exact hleader r hr r' hr' (hkey.trans hkey'.symm)
  · obtain ⟨d, hd⟩ := mem_iff_getElem?.1
      (mem_filter.2 ⟨hr, decide_eq_true rfl⟩ : r ∈ routed.filter (·.partKey = r.partKey))
    rw [hspec.results _ d r hd, Option.some.injEq] at hres
    cases hack : lastAck ((sendRouted cfg env routed identity).exchanges.flatMap (·.entries))
        r.partKey with
    | none =>
      rw [hack] at hres
      exact (htopic (congrArg ProduceRecordResult.topic hres).symm).elim
    | some e =>
      obtain ⟨hmem, hcode, hkey⟩ := mem_of_lastAck hack
      obtain ⟨ex, hex, he⟩ := mem_flatMap.1 hmem
      refine ⟨ex, hex, ?_, e, he, hkey, hcode⟩
      -- the answer is about a partition of the request, and that is the leader's
      obtain ⟨r', hr', hlead, hkey'⟩ := (hspec.exchange ex hex).entry_asked hans he
      rw [← hlead]
      exact hleader r' hr' r hr (hkey'.trans hkey)

theorem oneLeader_iff (h : routeInterleaved rs env.repartition 0 env.cluster records = .ok routed) :
    OneLeader routed ↔ rs.KeepLeaders env records := by
  constructor
  · intro hleader _ p hp p' hp' htopic part leader leader' hres hres'
    obtain ⟨r, hr, hidx, hrecord, hresr⟩ :=
      exists_mem_routeInterleaved h (mk_mem_zipIdx_iff_getElem?.1 hp)
    obtain ⟨r', hr', hidx', hrecord', hresr'⟩ :=
      exists_mem_routeInterleaved h (mk_mem_zipIdx_iff_getElem?.1 hp')
    cases hres.symm.trans hresr
    obtain ⟨hpart, hlead'⟩ := Prod.mk.inj (Except.ok.inj (hres'.symm.trans hresr'))
    rw [hlead']
    refine hleader r hr r' hr' ?_
    show PartKey.mk _ _ = PartKey.mk _ _
    rw [hrecord, hrecord', htopic, hpart]
  · intro hkeep r hr r' hr' hkey
    obtain ⟨htopic, hpart⟩ := PartKey.mk.inj hkey
    obtain ⟨hrec, hres⟩ := mem_routeInterleaved h hr
    obtain ⟨hrec', hres'⟩ := mem_routeInterleaved h hr'
    refine hkeep (fun p hp => ?_) (r.record, r.idx) (mk_mem_zipIdx_iff_getElem?.2 hrec)
      (r'.record, r'.idx) (mk_mem_zipIdx_iff_getElem?.2 hrec') htopic r.part r.leader
      r'.leader hres (hpart ▸ hres')
    obtain ⟨q, -, -, -, hq⟩ :=
      exists_mem_routeInterleaved h (mk_mem_zipIdx_iff_getElem?.1 hp)
    exact ⟨_, hq⟩

/-- Each record's own broker is the one that counts exactly if the refreshes keep the leaders. -/
theorem sendInterleaved_ownBroker_iff (cfg : ProducerConfig) (rs : Refreshes)
    (records : List Record) (identity : Option ProducerIdentity) (hans : env.Answers) :
    (∀ routed, routeInterleaved rs env.repartition 0 env.cluster records = .ok routed →
        OwnBroker env routed (sendInterleaved cfg env rs records identity)) ↔
      rs.KeepLeaders env records := by
  constructor
  · intro hown hresolved
    obtain ⟨routed, hrouted⟩ := routeInterleaved_of_resolved (i := 0) hresolved
    have hsend := hown routed hrouted
    rw [sendInterleaved, show routeInterleaved rs env.repartition 0 env.cluster records = _ from
      hrouted] at hsend
    exact (oneLeader_iff hrouted).1 (oneLeader_of_single hsend) hresolved
  · intro hkeep routed hrouted
    rw [sendInterleaved, hrouted]
    exact ownBroker_of_oneLeader hans ((oneLeader_iff hrouted).2 hkeep)
      (map_idx_routeInterleaved hrouted)

end Send

/-- Two records for partition 0 of topic `t`. -/
def namedT : List Record :=
  [{ topic := [116], partition := 0, value := some [1] },
    { topic := [116], partition := 0, value := some [2] }]

/-- A refresh between the two records. -/
def refreshBetween (md : MetadataResponse) : Refreshes where
  beforeMetadata i := if i = 1 then [md] else []

/-- Broker 1 acknowledges what it is sent, and any other rejects it as not being the leader. -/
def envLedByOne : AttemptEnv :=
  envT fun node bs => .ok (bs.map fun b => ⟨b.topic, b.partition, 0, if node = 1 then 0 else 6⟩)

theorem envLedByOne_answers : envLedByOne.Answers := by
  intro node bs rs hnodup hrs
  cases hrs
  have hkeys : (bs.map fun b => (⟨b.topic, b.partition, 0, if node = 1 then 0 else 6⟩ :
      ProduceResult)).map (·.partKey) = bs.map (·.partKey) := by
    rw [map_map]
    rfl
  exact ⟨hkeys ▸ hnodup, fun res hres => hkeys ▸ mem_map_of_mem hres⟩

/-- The refresh finds the leader where it was. -/
theorem sendInterleaved_ownBroker_iff_same :
    (refreshBetween metadataT).KeepLeaders envLedByOne namedT ∧
      ∀ routed, routeInterleaved (refreshBetween metadataT) envLedByOne.repartition 0 clusterT
          namedT = .ok routed →
        OwnBroker envLedByOne routed
          (sendInterleaved configT envLedByOne (refreshBetween metadataT) namedT none) := by
  have hkeep : (refreshBetween metadataT).KeepLeaders envLedByOne namedT := by
    intro _ p hp p' hp' _ part leader leader' hres hres'
    have hone : ∀ q ∈ namedT.zipIdx,
        (refreshBetween metadataT).resolve envLedByOne q.2 q.1 = .ok (0, 1) := by decide +kernel
    have hlead := (hone p hp).symm.trans hres
    have hlead' := (hone p' hp').symm.trans hres'
    cases hlead
    cases hlead'
    rfl
  exact ⟨hkeep, (sendInterleaved_ownBroker_iff configT _ namedT none envLedByOne_answers).2 hkeep⟩

/-- Metadata with partition 0 of topic `t` led by broker 2. -/
def movedT : MetadataResponse :=
  { topics := [{ name := [116], partitions := [{ partition := 0, leader := 2 }] }] }

/-- The leader moves between the two records: the second is sent to broker 2, which rejects it, and
it is reported acknowledged. -/
theorem sendInterleaved_foreign :
    let out := sendInterleaved configT envLedByOne (refreshBetween movedT) namedT none
    out.exchanges.map (fun ex => (ex.node, ex.entries.map (·.errorCode))) = [(2, [6]), (1, [0])] ∧
      out.results.map (·.topic) = [[116], [116]] ∧
      ¬ ∀ routed, routeInterleaved (refreshBetween movedT) envLedByOne.repartition 0 clusterT
          namedT = .ok routed → OwnBroker envLedByOne routed out := by
  intro out
  have hexs : out.exchanges.map (fun ex => (ex.node, ex.entries.map (·.errorCode))) =
      [(2, [6]), (1, [0])] := by decide +kernel
  refine ⟨hexs, by decide +kernel, fun hown => ?_⟩
  have hrouted :
      routeInterleaved (refreshBetween movedT) envLedByOne.repartition 0 clusterT namedT =
      .ok [⟨0, namedT[0], 0, 1⟩, ⟨1, namedT[1], 0, 2⟩] := by rfl
  obtain ⟨res, hres, htopic⟩ : ∃ res, out.results[1]? = some res ∧ res.topic ≠ [] := by
    refine ⟨⟨namedT[1], [116], 0, 1⟩, ?_, ?_⟩ <;> decide +kernel
  obtain ⟨ex, hex, hnode, e, he, -, hcode⟩ :=
    (hown _ hrouted).acked ⟨1, namedT[1], 0, 2⟩ (by simp) res hres htopic
  have hmem := mem_map_of_mem (f := fun ex : Exchange =>
    (ex.node, ex.entries.map (·.errorCode))) hex
  have hzero := mem_map_of_mem (f := ProduceResult.errorCode) he
  rw [hexs, hnode] at hmem
  rw [hcode] at hzero
  rcases mem_cons.1 hmem with htwo | hone
  · obtain ⟨-, hcodes⟩ := Prod.mk.inj htwo
    rw [hcodes] at hzero
    cases mem_singleton.1 hzero
  · cases mem_singleton.1 hone

end GoKafka
