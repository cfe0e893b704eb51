import GoKafka.Producer.Send

/-!
# Fresh metadata that lacks a topic

Whether the metadata cache is fresh is one time for the whole cluster (`Cluster.Fresh`); which
topics it has is what the last refresh asked for. `RefreshIfStale` of a producer finds the cache
fresh after another user of the client has refreshed other topics, and `resolvePartition` then takes
a topic that exists for an unknown one (`refreshIfStale_fresh_unknown`). `refreshIfStale_lists_iff`
says when that does not happen, in terms of the calls that came before.
-/

namespace GoKafka

/-- The metadata has the topic with partitions. -/
def MetadataResponse.Lists (md : MetadataResponse) (t : Bytes) : Prop :=
  ((md.topics.find? (·.name = t)).map (·.partitions)).getD [] ≠ []

instance (md : MetadataResponse) (t : Bytes) : Decidable (md.Lists t) :=
  inferInstanceAs (Decidable (_ ≠ _))

/-- The topic is asked about; no list asks about all topics. -/
def Asks (topics : Option (List Bytes)) (t : Bytes) : Prop := ∀ ts, topics = some ts → t ∈ ts

/-- A request for metadata: the topics asked about, those the brokers have at the time, and the
brokers. -/
structure MetadataRequest where
  topics : Option (List Bytes)
  existing : List Bytes
  brokers : Cluster.Brokers
  now : Time

/-- The brokers answer with the topics that were asked about and exist. -/
def MetadataRequest.Answered (r : MetadataRequest) : Prop :=
  ∀ i md, r.brokers r.topics i = .answer md → ∀ t, md.Lists t ↔ Asks r.topics t ∧ t ∈ r.existing

/-- A call that may change the cache. -/
inductive MetadataCall where
  | refresh (r : MetadataRequest)
  | refreshIfStale (r : MetadataRequest) (force : Bool) (elapsed : Int64)

/-- The request of a call, whether it is made or not. -/
def MetadataCall.request : MetadataCall → MetadataRequest
  | .refresh r | .refreshIfStale r _ _ => r

namespace Cluster

variable (c : Cluster)

/-- The cache counts as fresh. -/
def Fresh (elapsed : Int64) : Prop :=
  ¬ c.metaRefreshedAt.isZero ∧ elapsed < if c.metadataTTL ≤ 0 then 30000000000 else c.metadataTTL

instance (elapsed : Int64) : Decidable (c.Fresh elapsed) := inferInstanceAs (Decidable (_ ∧ _))

/-- A call returns without a request. -/
def Skips : MetadataCall → Prop
  | .refresh _ => False
  | .refreshIfStale _ force elapsed => ¬ force ∧ c.Fresh elapsed

instance (call : MetadataCall) : Decidable (c.Skips call) :=
  match call with
  | .refresh _ => inferInstanceAs (Decidable False)
  | .refreshIfStale _ _ _ => inferInstanceAs (Decidable (_ ∧ _))

/-- What a call returns. -/
def call : MetadataCall → Except Error Cluster
  | .refresh r => c.refresh r.topics r.brokers r.now
  | .refreshIfStale r force elapsed => c.refreshIfStale r.topics force r.brokers elapsed r.now

theorem call_eq (call : MetadataCall) : c.call call =
    if c.Skips call then .ok c
    else c.refresh call.request.topics call.request.brokers call.request.now := by
  cases call with
  | refresh r => rfl
  | refreshIfStale r force elapsed => exact if_congr Iff.rfl rfl rfl

end Cluster

/-- The cache and the last request whose answer is in it. -/
structure Cache where
  cluster : Cluster
  loaded : Option MetadataRequest := none

namespace Cache

variable (s : Cache)

/-- A call on the cache; an error leaves it as it was. -/
def step (call : MetadataCall) : Cache :=
  match s.cluster.call call with
  | .error _ => s
  | .ok c => ⟨c, if s.cluster.Skips call then s.loaded else some call.request⟩

/-- The last request that was answered asked about a topic that the brokers had. -/
def Loaded (t : Bytes) : Prop := ∃ r, s.loaded = some r ∧ Asks r.topics t ∧ t ∈ r.existing

/-- The cache has what was loaded last. -/
def Inv : Prop := ∀ t, s.cluster.md.Lists t ↔ s.Loaded t

/-- The cache after calls one after the other, from a new one. -/
def run (seeds : List Bytes) (metadataTTL : Int64) (calls : List MetadataCall) : Cache :=
  calls.foldl step { cluster := { seeds := seeds, metadataTTL := metadataTTL } }

end Cache

/-! ## What the cache has -/

/-- A refresh that returns brings what was asked for. -/
theorem Cluster.lists_of_refresh {c : Cluster} {r : MetadataRequest} (hr : r.Answered)
    (h : c.refresh r.topics r.brokers r.now = .ok c') :
    c'.md.Lists t ↔ Asks r.topics t ∧ t ∈ r.existing := by
  obtain ⟨md, i, hi, rfl⟩ := Cluster.refresh_ok h
  exact hr i md hi t

theorem Cache.Inv.step {s : Cache} (h : s.Inv) {call : MetadataCall}
    (hanswered : call.request.Answered) : (s.step call).Inv := by
  intro t
  unfold Cache.step
  cases hcall : s.cluster.call call with
  | error e => exact h t
  | ok c =>
    rw [Cluster.call_eq] at hcall
    split_ifs at hcall ⊢ with hskip
    · cases hcall
      exact h t
    · rw [Cluster.lists_of_refresh hanswered hcall]
      refine ⟨fun hasked => ⟨_, rfl, hasked⟩, ?_⟩
      rintro ⟨r, hr, hasked⟩
      cases hr
      exact hasked

theorem Cache.inv_run (seeds : List Bytes) (metadataTTL : Int64)
    (hanswered : ∀ call ∈ calls, call.request.Answered) : (run seeds metadataTTL calls).Inv := by
  refine List.foldlRecOn _ _ (fun t => ?_) fun s hs call hcall => hs.step (hanswered call hcall)
  refine iff_of_false (fun h => h rfl) ?_
  rintro ⟨r, hr, -⟩
  cases hr

/-- The topic is not reported as unknown. -/
theorem resolvePartition_ne_unknown (h : c.md.Lists t) (partition : NilBytes → Nat → Int32)
    (hr : r.topic = t) : resolvePartition c partition r ≠ .error (.unknownTopic t) := by
  subst hr
  unfold resolvePartition
  simp only
  rw [if_neg h]
  split
  · split <;> nofun
  · split <;> nofun

/-- After any calls, `RefreshIfStale` without force guarantees that every existing topic it is asked
about is in the metadata, so that a record for it is not rejected as of an unknown topic, if and
only if it does not find fresh metadata that was loaded without one of them. -/
theorem refreshIfStale_lists_iff (seeds : List Bytes) (metadataTTL : Int64)
    {calls : List MetadataCall} (hanswered : ∀ call ∈ calls, call.request.Answered)
    {r : MetadataRequest} (hr : r.Answered) (elapsed : Int64) {ts : List Bytes}
    (hts : r.topics = some ts) :
    (∀ c', (Cache.run seeds metadataTTL calls).cluster.refreshIfStale r.topics false r.brokers
        elapsed r.now = .ok c' →
      ∀ t ∈ ts, t ∈ r.existing → c'.md.Lists t ∧ ∀ partition record, record.topic = t →
        resolvePartition c' partition record ≠ .error (.unknownTopic t)) ↔
    ((Cache.run seeds metadataTTL calls).cluster.Fresh elapsed →
      ∀ t ∈ ts, t ∈ r.existing → (Cache.run seeds metadataTTL calls).Loaded t) := by
  have hinv := Cache.inv_run seeds metadataTTL hanswered
  have hcall := Cluster.call_eq (Cache.run seeds metadataTTL calls).cluster
    (.refreshIfStale r false elapsed)
  simp only [Cluster.call, Cluster.Skips, Bool.false_eq_true, not_false_eq_true, true_and] at hcall
  rw [hcall]
  split_ifs with hfresh
  · -- the cache is returned as it is
    constructor
    · intro h _ t ht hexists
      exact (hinv t).1 (h _ rfl t ht hexists).1
    · intro h c' hc' t ht hexists
      cases hc'
      have hlists := (hinv t).2 (h hfresh t ht hexists)
      exact ⟨hlists, fun partition record => resolvePartition_ne_unknown hlists partition⟩
  · refine iff_of_true (fun c' hc' t ht hexists => ?_) fun h => absurd h hfresh
    have hasked : Asks r.topics t := by
      intro ts' hts'
      cases hts.symm.trans hts'
      exact ht
    have hlists := (Cluster.lists_of_refresh hr hc').2 ⟨hasked, hexists⟩
    exact ⟨hlists, fun partition record => resolvePartition_ne_unknown hlists partition⟩

/-! ## Two users of one client -/

/-- Metadata of topics with one partition each. -/
def onePartition (names : List Bytes) : MetadataResponse :=
  { brokers := [⟨1⟩]
    topics := names.map fun t => { name := t, partitions := [{ partition := 0, leader := 1 }] } }

theorem lists_onePartition : (onePartition names).Lists t ↔ t ∈ names := by
  unfold MetadataResponse.Lists onePartition
  rw [List.find?_map]
  cases hfind : names.find? ((fun x : TopicMeta => decide (x.name = t)) ∘ fun t =>
      { name := t, partitions := [{ partition := 0, leader := 1 }] }) with
  | none =>
    refine iff_of_false (fun h => h rfl) fun ht => ?_
    exact List.find?_eq_none.1 hfind t ht (decide_eq_true rfl)
  | some t' =>
    have hname := List.find?_some hfind
    have ht' : t' = t := of_decide_eq_true hname
    exact iff_of_true (List.cons_ne_nil _ _) (ht' ▸ List.mem_of_find?_eq_some hfind)

/-- A request for one topic to brokers that have the topics `a` and `b`. -/
def requestAB (t : Bytes) : MetadataRequest :=
  { topics := some [t]
    existing := [[97], [98]]
    brokers :=
      fun topics _ => .answer (onePartition ([[97], [98]].filter fun t => topics.all (t ∈ ·)))
    now := ⟨9, 0⟩ }

theorem requestAB_answered (t : Bytes) : (requestAB t).Answered := by
  intro i md hmd t'
  cases hmd
  rw [lists_onePartition, List.mem_filter, and_comm]
  simp [Asks, requestAB]

/-- The cache after a refresh of `b`. -/
def cacheB : Cache := Cache.run [[115]] 0 [.refresh (requestAB [98])]

theorem refreshIfStale_lists_iff_b : cacheB.cluster.Fresh 1000000000 ∧
    ∀ c', cacheB.cluster.refreshIfStale (some [[98]]) false (requestAB [98]).brokers 1000000000
        ⟨9, 0⟩ = .ok c' →
      ∀ t ∈ [[98]], t ∈ [[97], [98]] → c'.md.Lists t ∧ ∀ partition record, record.topic = t →
        resolvePartition c' partition record ≠ .error (.unknownTopic t) := by
  refine ⟨by decide, (@refreshIfStale_lists_iff [[115]] 0 [.refresh (requestAB [98])] ?_ _
    (requestAB_answered [98]) 1000000000 _ rfl).2 fun _ t ht hexists => ?_⟩
  · exact List.forall_mem_singleton.2 (requestAB_answered [98])
  · refine ⟨requestAB [98], rfl, fun ts hts => ?_, hexists⟩
    cases hts
    exact ht

/-- `b` is refreshed, and a second later `RefreshIfStale` of `a` returns nil without a request; `a`
exists, and a record for it is rejected. -/
theorem refreshIfStale_fresh_unknown : (∀ t, (requestAB t).Answered) ∧
    ∃ c', cacheB.cluster.refreshIfStale (some [[97]]) false (requestAB [97]).brokers 1000000000
        ⟨9, 0⟩ = .ok c' ∧
      [97] ∈ (requestAB [97]).existing ∧ ¬ c'.md.Lists [97] ∧
      resolvePartition c' (fun _ _ => 0) { topic := [97], partition := -1 } =
        .error (.unknownTopic [97]) := by
  exact ⟨requestAB_answered, _, rfl, by decide, by decide, by decide⟩

end GoKafka
