import GoKafka.Broker.ListOffsets
import GoKafka.Protocol.GroupOffsets

/-!
# The lag of a consumer group

`ConsumerGroupLag` of `admin_lag.go` pairs the offsets that a group has committed (`FetchOffsets`)
with the log-end offsets of the partitions (`listLatestOffsets`). The requests for the latter go to
the leaders of the partitions, each of which is asked for its own.

Two kinds of failures are taken for a lag of zero. The error codes of the first answer, of the group
and of its partitions, are not looked at; and a partition that the second answers leave out has the
log-end offset 0, as that is what the map gives. `consumerGroupLag_clean_iff` says that nothing else
goes wrong. And `listLatestOffsets` does not refresh the metadata when it does not know a leader, so
that it tries again for nothing: where answers are complete and without errors, it succeeds exactly
if the leaders are known in the metadata at some attempt (`listLatestOffsets_complete_iff`).
-/

namespace GoKafka.Admin

open Assoc List

/-! ## The program -/

/-- What `FetchOffsets` meets: the negotiated version, the coordinators of groups, the orders of its
loops over maps, and what a coordinator answers. -/
structure FetchEnv where
  negotiated : Int16 := 9
  coordinator : Bytes → Except Error Int32
  coordOrder : MapOrder Int32 := ⟨id, Assoc.perm_id⟩
  groupOrder : MapOrder Bytes := ⟨id, Assoc.perm_id⟩
  respond : Int32 → Bytes → Except Error Bytes

def errNoConsumerGroup : Error := .other "gokafka: consumer group is required"

/-- The result of `FetchOffsets`, with the groups of the answers that it has read. -/
structure Fetched where
  offsets : AList (fun _ : Bytes => List CommittedOffset) := ∅
  groups : List FetchedGroup := []

/-- The coordinator of a group. -/
def FetchEnv.findCoordinator (env : FetchEnv) (g : Bytes) : Except Error (Int32 × Bytes) :=
  if g = [] then .error errNoConsumerGroup else do return (← env.coordinator g, g)

/-- What a coordinator answers about some groups. -/
def FetchEnv.answer (env : FetchEnv) (coord : Int32) (groups : List Bytes) : Except Error Bytes :=
  env.respond coord
    (encodeOffsetFetchMultiGroupRequest env.groupOrder (index id (fun _ => []) groups))

/-- The request to a coordinator, and what its answer adds. -/
def FetchEnv.fetchFrom (env : FetchEnv) (f : Fetched) (coord : Int32) (groups : List Bytes) :
    Except Error Fetched := do
  let answer ← env.answer coord groups
  let decoded ← decodeOffsetFetchMultiGroupResponse answer
  return {
    offsets := (env.groupOrder.keys decoded).foldl
      (fun out g => out.insert g ((decoded.lookup g).getD [])) f.offsets
    groups := f.groups ++ (decodeOffsetFetchGroups answer).toOption.getD [] }

def fetchOffsets (env : FetchEnv) (groups : List Bytes) : Except Error Fetched :=
  if groups = [] then .ok {}
  else if env.negotiated < 8 then
    .error (.other ("gokafka: batched OffsetFetch requires broker OffsetFetch v8+ (negotiated v" ++
      toString env.negotiated.toInt ++ ")"))
  else do
    let byCoord := group Prod.fst (← groups.mapM env.findCoordinator)
    (env.coordOrder.keys byCoord).foldlM
      (fun f coord => env.fetchFrom f coord (((byCoord.lookup coord).getD []).map Prod.snd)) {}

/-- What `listLatestOffsets` meets: as any call that lists offsets, and the orders of its loops over
the maps of leaders and of topics. -/
structure LatestEnv extends ListEnv where
  leaderOrder : Nat → MapOrder Int32 := fun _ => ⟨id, Assoc.perm_id⟩
  topicOrder : Nat → MapOrder Bytes := fun _ => ⟨id, Assoc.perm_id⟩

/-- The state of `listLatestOffsets`: the metadata, `ends`, and the entries of answers that were
read, each answer up to its first error code. -/
structure Listing where
  cluster : Cluster
  ends : AList (fun _ : PartKey => Int64) := ∅
  read : List ListedOffset := []

/-- The loop over the entries of an answer. -/
def readEntries (refresh : Cluster → Cluster) :
    List ListedOffset → Listing → Option Error × Listing
  | [], s => (none, s)
  | o :: offs, s =>
    if o.errorCode ≠ 0 then
      (some o.error, { s with
        cluster := if isRetriable o.error then refresh s.cluster else s.cluster
        read := s.read ++ [o] })
    else
      readEntries refresh offs
        { s with ends := s.ends.insert o.partKey o.offset, read := s.read ++ [o] }

/-- The leader of a partition with what it is asked. -/
def leaderOf (c : Cluster) (pk : PartKey) : Except Error (Int32 × ListOffsetsPartition) :=
  match c.leaderBroker pk.topic pk.part with
  | .error _ => .error (errLeaderUnavailable pk.topic pk.part)
  | .ok leader => .ok (leader.nodeID, ⟨pk.topic, pk.part, -1⟩)

section Attempt

variable (env : LatestEnv) (parts : List PartKey)

/-- The loop over the leaders, with what each is asked. -/
def askLeaders (refresh : Cluster → Cluster) (asked : Int32 → List ListOffsetsPartition) (i : Nat) :
    List Int32 → Listing → Option Error × Listing
  | [], s => (none, s)
  | node :: nodes, s =>
    match encodeListOffsetsRequest (asked node) 0 >>= env.list i node with
    | .error e => (some e, s)
    | .ok offs =>
      match readEntries refresh offs s with
      | (some e, s) => (some e, s)
      | (none, s) => askLeaders refresh asked i nodes s

/-- The closure of `listLatestOffsets`. -/
def listAttempt (i : Nat) (s : Listing) : Option Error × Listing :=
  let s := { s with cluster := env.cacheAt i s.cluster }
  let pending := parts.filter (· ∉ s.ends)
  match pending.mapM (leaderOf s.cluster) with
  | .error e => (some e, s)
  | .ok leaders =>
    let byLeader := group Prod.fst leaders
    let topics := (env.topicOrder i).keys (index (·.topic) (fun _ => ()) pending)
    askLeaders env (env.refresh i topics)
      (fun node => ((byLeader.lookup node).getD []).map Prod.snd) i
      ((env.leaderOrder i).keys byLeader) s

/-- `Admin.listLatestOffsets`, with the state at its end. -/
def listLatestOffsets (maxAttempts : Int64) (c : Cluster) :
    Except Error (AList fun _ : PartKey => Int64) × Listing :=
  match (env.loop (listAttempt env parts)).run (coordinatorAttempts maxAttempts) 0 ⟨c, ∅, []⟩ with
  | (some e, s) => (.error e, s)
  | (none, s) => (.ok s.ends, s)

end Attempt

structure PartitionLag where
  topic : Bytes
  partition : Int32
  committed : Int64
  logEndOffset : Int64
  lag : Int64
  deriving DecidableEq

abbrev PartitionLag.partKey (l : PartitionLag) : PartKey := ⟨l.topic, l.partition⟩

/-- The lag of a partition, whose log-end offset is 0 if the map does not have it. -/
def partitionLag (ends : AList fun _ : PartKey => Int64) (co : CommittedOffset) : PartitionLag :=
  let logEnd := (ends.lookup co.partKey).getD 0
  { topic := co.topic, partition := co.partition, committed := co.offset, logEndOffset := logEnd
    lag := if 0 ≤ co.offset ∧ co.offset < logEnd then logEnd - co.offset else 0 }

/-- What `ConsumerGroupLag` returns, with the groups and the entries that it has read. -/
structure LagOut where
  result : Except Error (List PartitionLag)
  groups : List FetchedGroup := []
  read : List ListedOffset := []

def consumerGroupLag (fetch : FetchEnv) (list : LatestEnv) (maxAttempts : Int64) (c : Cluster)
    (group : Bytes) : LagOut :=
  if group = [] then { result := .error errNoConsumerGroup }
  else
    match fetchOffsets fetch [group] with
    | .error e => { result := .error e }
    | .ok f =>
      let committed := (f.offsets.lookup group).getD []
      if committed = [] then { result := .ok [], groups := f.groups }
      else
        match listLatestOffsets list (committed.map (·.partKey)) maxAttempts c with
        | (.error e, s) => { result := .error e, groups := f.groups, read := s.read }
        | (.ok ends, s) =>
          { result := .ok (committed.map (partitionLag ends))
            groups := f.groups
            read := s.read }

/-! ## Log-end offsets that were reported -/

/-- An entry without an error code reports an offset of a partition. -/
def Reports (read : List ListedOffset) (pk : PartKey) (off : Int64) : Prop :=
  ∃ o ∈ read, o.partKey = pk ∧ o.errorCode = 0 ∧ o.offset = off

/-- The map holds what was reported. -/
structure Listing.Sound (s : Listing) : Prop where
  reports : ∀ pk off, s.ends.lookup pk = some off → Reports s.read pk off
  mem : ∀ pk off, Reports s.read pk off → pk ∈ s.ends

theorem Reports.append {read : List ListedOffset} (h : Reports read pk off) (o : ListedOffset) :
    Reports (read ++ [o]) pk off := by
  obtain ⟨o', ho', hreport⟩ := h
  exact ⟨o', mem_append_left _ ho', hreport⟩

theorem reports_append {read : List ListedOffset} (h : Reports (read ++ [o]) pk off) :
    Reports read pk off ∨ o.partKey = pk ∧ o.errorCode = 0 := by
  obtain ⟨o', ho', hpk, hcode, hoff⟩ := h
  rcases mem_append.1 ho' with ho' | ho'
  · exact .inl ⟨o', ho', hpk, hcode, hoff⟩
  · obtain rfl := mem_singleton.1 ho'
    exact .inr ⟨hpk, hcode⟩

namespace Listing.Sound

theorem start (c : Cluster) : (⟨c, ∅, []⟩ : Listing).Sound := by
  refine ⟨fun _ _ hoff => (by cases hoff), fun _ _ hreports => ?_⟩
  obtain ⟨_, ho, -⟩ := hreports
  cases ho

theorem readEntries (h : s.Sound) (offs : List ListedOffset) :
    (readEntries refresh offs s).2.Sound := by
  fun_induction Admin.readEntries refresh offs s with
  | case1 => exact h
  | case2 o offs s hcode =>
    refine ⟨fun pk off hoff => (h.reports pk off hoff).append o, fun pk off hreports => ?_⟩
    rcases reports_append hreports with hreports | ⟨-, hzero⟩
    · exact h.mem pk off hreports
    · exact absurd hzero hcode
  | case3 o offs s hcode ih =>
    refine ih ⟨fun pk off hoff => ?_, fun pk off hreports => ?_⟩
    · by_cases hpk : pk = o.partKey
      · subst hpk
        rw [AList.lookup_insert] at hoff
        exact ⟨o, mem_append_right _ (mem_singleton_self o), rfl, not_not.1 hcode,
          Option.some.inj hoff⟩
      · rw [AList.lookup_insert_ne hpk] at hoff
        exact (h.reports pk off hoff).append o
    · rw [AList.mem_insert]
      rcases reports_append hreports with hreports | ⟨hpk, -⟩
      · exact .inr (h.mem pk off hreports)
      · exact .inl hpk.symm

theorem askLeaders (h : s.Sound) (nodes : List Int32) :
    (askLeaders env refresh asked i nodes s).2.Sound := by
  fun_induction Admin.askLeaders env refresh asked i nodes s with
  | case1 | case2 => exact h
  | case3 _ _ s offs _ e s' hentries =>
    have hread : (Admin.readEntries refresh offs s).2.Sound := h.readEntries offs
    rwa [hentries] at hread
  | case4 _ _ s offs _ s' hentries ih =>
    have hread : (Admin.readEntries refresh offs s).2.Sound := h.readEntries offs
    rw [hentries] at hread
    exact ih hread

theorem listAttempt (h : s.Sound) : (listAttempt env parts i s).2.Sound := by
  have hcache : ({ s with cluster := env.cacheAt i s.cluster } : Listing).Sound :=
    ⟨h.reports, h.mem⟩
  fun_cases Admin.listAttempt env parts i s with
  | case1 => exact hcache
  | case2 => exact hcache.askLeaders _

end Listing.Sound

/-- What `listLatestOffsets` returns is what was reported to it. -/
theorem listLatestOffsets_sound (h : listLatestOffsets env parts maxAttempts c = (.ok ends, s)) :
    s.ends = ends ∧ s.Sound := by
  have hsound := @Retry.run_induct _ _ (env.loop (listAttempt env parts))
    (coordinatorAttempts maxAttempts) 0 _ _ (fun _ _ hs => hs.listAttempt) (Listing.Sound.start c)
  rw [listLatestOffsets] at h
  rcases hrun : (env.loop (listAttempt env parts)).run (coordinatorAttempts maxAttempts) 0
    ⟨c, ∅, []⟩ with ⟨_ | e, s'⟩
  · rw [hrun] at h hsound
    cases h
    exact ⟨rfl, hsound⟩
  · rw [hrun] at h
    cases h

/-! ## The offsets of a group -/

/-- The groups of what the coordinator of a group answers about it. -/
def FetchEnv.Answers (env : FetchEnv) (group : Bytes) (groups : List FetchedGroup) : Prop :=
  ∃ coord answer, env.coordinator group = .ok coord ∧ env.answer coord [group] = .ok answer ∧
    decodeOffsetFetchGroups answer = .ok groups

theorem FetchEnv.Answers.unique {env : FetchEnv} {group : Bytes} (h : env.Answers group groups)
    (h' : env.Answers group groups') : groups' = groups := by
  obtain ⟨coord, answer, hcoord, hanswer, hgroups⟩ := h
  obtain ⟨coord', answer', hcoord', hanswer', hgroups'⟩ := h'
  cases hcoord.symm.trans hcoord'
  cases hanswer.symm.trans hanswer'
  cases hgroups.symm.trans hgroups'
  rfl

/-- The offsets of a group in an answer. -/
def committedOf (group : Bytes) (groups : List FetchedGroup) : List CommittedOffset :=
  ((index (·.group) (·.offsets) groups).lookup group).getD []

/-- `FetchOffsets` of one group reads the answer of its coordinator. -/
theorem fetchOffsets_single {group : Bytes} (h : fetchOffsets env [group] = .ok f) :
    env.Answers group f.groups ∧ (f.offsets.lookup group).getD [] = committedOf group f.groups := by
  rw [fetchOffsets, if_neg (cons_ne_nil _ _)] at h
  split_ifs at h
  obtain ⟨pairs, hpairs, h⟩ := bind_eq_ok.1 h
  rw [mapM_cons, mapM_nil] at hpairs
  obtain ⟨pair, hpair, hpairs⟩ := bind_eq_ok.1 hpairs
  cases hpairs
  rw [FetchEnv.findCoordinator] at hpair
  split_ifs at hpair
  obtain ⟨coord, hcoord, hpair⟩ := bind_eq_ok.1 hpair
  cases hpair
  have hkeys : env.coordOrder.keys (Assoc.group Prod.fst [(coord, group)]) = [coord] :=
    env.coordOrder.keys_eq_singleton fun k => by
      rw [AList.mem_keys, mem_keys_group, map_singleton, mem_singleton]
  have hgroups : (((Assoc.group Prod.fst [(coord, group)]).lookup coord).getD []).map Prod.snd =
      [group] := by
    rw [getD_lookup_group]
    simp
  dsimp only at h
  rw [hkeys] at h
  obtain ⟨f', hf', hf⟩ := bind_eq_ok.1 h
  cases hf
  dsimp only at hf'
  rw [hgroups] at hf'
  obtain ⟨answer, hanswer, hf'⟩ := bind_eq_ok.1 hf'
  obtain ⟨decoded, hdecoded, hf'⟩ := bind_eq_ok.1 hf'
  cases hf'
  obtain ⟨groups, hread, hindex⟩ := bind_eq_ok.1 hdecoded
  cases hindex
  simp only [hread, Except.toOption, Option.getD_some, nil_append]
  refine ⟨⟨coord, answer, hcoord, hanswer, hread⟩, ?_⟩
  rw [lookup_foldl_insert, committedOf]
  split_ifs with hmem
  · rfl
  · rw [AList.lookup_eq_none.2 (mt env.groupOrder.mem_keys.2 hmem)]
    rfl

/-! ## Lags without errors -/

theorem partitionLag_reported_iff {s : Listing} (h : s.Sound) :
    Reports s.read co.partKey (partitionLag s.ends co).logEndOffset ↔
      ∃ off, Reports s.read co.partKey off := by
  refine ⟨fun hreports => ⟨_, hreports⟩, fun ⟨off, hreports⟩ => ?_⟩
  obtain ⟨logEnd, hend⟩ := Option.isSome_iff_exists.1 (AList.lookup_isSome.2 (h.mem _ _ hreports))
  have hlag : (partitionLag s.ends co).logEndOffset = logEnd := by
    rw [partitionLag, hend, Option.getD_some]
  rw [hlag]
  exact h.reports _ _ hend

/-- An answer carries no error code for a group, neither of the group nor of its partitions. -/
def NoCode (group : Bytes) (groups : List FetchedGroup) : Prop :=
  ∀ g ∈ groups, g.group = group → g.errorCode = 0 ∧ ∀ co ∈ g.offsets, co.errorCode = 0

section ConsumerGroupLag

variable {fetch : FetchEnv} {list : LatestEnv} {maxAttempts : Int64} {c : Cluster} {group : Bytes}
  {lags : List PartitionLag}

/-- A call that succeeds has read the answer of the coordinator and returns the lags of the offsets
in it. -/
theorem consumerGroupLag_ok
    (h : (consumerGroupLag fetch list maxAttempts c group).result = .ok lags) :
    ∃ groups, ∃ s : Listing, fetch.Answers group groups ∧ s.Sound ∧
      lags = (committedOf group groups).map (partitionLag s.ends) ∧
      consumerGroupLag fetch list maxAttempts c group = ⟨.ok lags, groups, s.read⟩ := by
  revert h
  fun_cases consumerGroupLag fetch list maxAttempts c group with
  | case1 | case2 | case4 => exact nofun
  | case3 _ f hfetch committed hnil =>
    rintro ⟨⟩
    obtain ⟨hanswers, hcommitted⟩ := fetchOffsets_single hfetch
    have hnone : committedOf group f.groups = [] := hcommitted.symm.trans hnil
    exact ⟨f.groups, _, hanswers, .start c, by rw [hnone]; rfl, rfl⟩
  | case5 _ f hfetch committed _ ends s hlist =>
    rintro ⟨⟩
    obtain ⟨hanswers, hcommitted⟩ := fetchOffsets_single hfetch
    obtain ⟨rfl, hsound⟩ := listLatestOffsets_sound hlist
    exact ⟨f.groups, s, hanswers, hsound, by rw [← hcommitted], rfl⟩

/-- Where `ConsumerGroupLag` succeeds, no error code was read for the group and every log-end offset
was reported, exactly if the coordinator answers without an error code for the group and each
partition of the answer is reported. -/
theorem consumerGroupLag_clean_iff
    (h : (consumerGroupLag fetch list maxAttempts c group).result = .ok lags) :
    (NoCode group (consumerGroupLag fetch list maxAttempts c group).groups ∧
      ∀ l ∈ lags,
        Reports (consumerGroupLag fetch list maxAttempts c group).read l.partKey l.logEndOffset) ↔
    ∀ groups, fetch.Answers group groups → NoCode group groups ∧ ∀ co ∈ committedOf group groups,
      ∃ off, Reports (consumerGroupLag fetch list maxAttempts c group).read co.partKey off := by
  obtain ⟨groups, s, hanswers, hsound, rfl, hout⟩ := consumerGroupLag_ok h
  rw [hout]
  constructor
  · rintro ⟨hcodes, hends⟩ groups' hanswers'
    obtain rfl := hanswers.unique hanswers'
    exact ⟨hcodes, fun co hco => ⟨_, hends _ (mem_map_of_mem hco)⟩⟩
  · intro hclean
    obtain ⟨hcodes, hreported⟩ := hclean groups hanswers
    refine ⟨hcodes, fun l hl => ?_⟩
    obtain ⟨co, hco, rfl⟩ := mem_map.1 hl
    exact (partitionLag_reported_iff hsound).2 (hreported co hco)

end ConsumerGroupLag

/-- A coordinator that answers about group `g` alone, with these topics and error code. -/
def fetchOne (topics : Bytes) (code : UInt8) : FetchEnv where
  coordinator _ := .ok 1
  respond _ _ := .ok ([0, 0, 0, 0, 2, 2, 103] ++ (topics ++ [0, code, 0, 0]))

/-- Topic `t` with offset 5 of partition 0 in such an answer. -/
def offsetFive : Bytes :=
  [2, 2, 116, 2, 0, 0, 0, 0, 0, 0, 0, 0, 0, 0, 0, 5, 255, 255, 255, 255, 0, 0, 0, 0, 0]

/-- The partition ends at 7. -/
theorem consumerGroupLag_clean_iff_one :
    let fetch := fetchOne offsetFive 0
    let out := consumerGroupLag fetch { toListEnv := oneLeaderEnv [⟨[116], 0, 7, 0⟩] } 3
      (Cluster.storeMetadata { seeds := [] } leadTopic) [103]
    out.result = .ok [⟨[116], 0, 5, 7, 2⟩] ∧
    ((NoCode [103] out.groups ∧ ∀ l ∈ [(⟨[116], 0, 5, 7, 2⟩ : PartitionLag)],
      Reports out.read l.partKey l.logEndOffset) ↔
    ∀ groups, fetch.Answers [103] groups → NoCode [103] groups ∧
      ∀ co ∈ committedOf [103] groups, ∃ off, Reports out.read co.partKey off) :=
  ⟨by decide +kernel, consumerGroupLag_clean_iff (by decide +kernel)⟩

/-- A coordinator that is still loading the group (code 14) is reported as a group without offsets,
and a partition that the leader leaves out of its answer as one without lag. -/
theorem consumerGroupLag_no_lag :
    let lag (fetch : FetchEnv) := consumerGroupLag fetch { toListEnv := oneLeaderEnv [] } 3
      (Cluster.storeMetadata { seeds := [] } leadTopic) [103]
    ((lag (fetchOne [1] 14)).result = .ok [] ∧ (lag (fetchOne [1] 14)).groups = [⟨[103], [], 14⟩]) ∧
    (lag (fetchOne offsetFive 0)).result = .ok [⟨[116], 0, 5, 0, 0⟩] ∧
    (lag (fetchOne offsetFive 0)).read = [] := by
  refine ⟨⟨by decide +kernel, by decide +kernel⟩, by decide +kernel, by decide +kernel⟩

/-! ## Answers that are complete -/

/-- Every request for some of the partitions is answered with an entry for each and without error
codes. -/
def LatestEnv.Complete (env : LatestEnv) (parts : List PartKey) : Prop :=
  ∀ i node body ps, encodeListOffsetsRequest ps 0 = .ok body → (∀ p ∈ ps, p.partKey ∈ parts) →
    ∃ offs, env.list i node body = .ok offs ∧ (∀ o ∈ offs, o.errorCode = 0) ∧
      ∀ p ∈ ps, ∃ o ∈ offs, o.partKey = p.partKey

theorem readEntries_ok {refresh : Cluster → Cluster} {offs : List ListedOffset}
    (h : ∀ o ∈ offs, o.errorCode = 0) (s : Listing) :
    ∃ s', readEntries refresh offs s = (none, s') ∧ s'.read = s.read ++ offs := by
  induction offs generalizing s with
  | nil => exact ⟨s, rfl, (append_nil _).symm⟩
  | cons o offs ih =>
    obtain ⟨ho, hoffs⟩ := forall_mem_cons.1 h
    rw [readEntries, if_neg (not_not.2 ho)]
    obtain ⟨s', hs', hread⟩ := ih hoffs _
    exact ⟨s', hs', by rw [hread, append_assoc]; rfl⟩

section Complete

variable {env : LatestEnv} {parts : List PartKey} (hcomplete : env.Complete parts)
include hcomplete

/-- The leaders that are asked report all that they are asked for, or the name of a topic is too
long for a request. -/
theorem askLeaders_complete (hasked : ∀ node, ∀ p ∈ asked node, p.partKey ∈ parts)
    (nodes : List Int32) (s : Listing) :
    (∃ s', askLeaders env refresh asked i nodes s = (none, s') ∧ s.read ⊆ s'.read ∧
      ∀ node ∈ nodes, ∀ p ∈ asked node,
        p.topic.length ≤ maxInt16 ∧ ∃ off, Reports s'.read p.partKey off) ∨
    ∃ e s', askLeaders env refresh asked i nodes s = (some e, s') ∧ isRetriable e = false ∧
      ∃ pk ∈ parts, ¬ pk.topic.length ≤ maxInt16 := by
  induction nodes generalizing s with
  | nil => exact .inl ⟨s, rfl, List.Subset.refl _, fun _ hnode => by cases hnode⟩
  | cons node nodes ih =>
    rw [askLeaders]
    cases hbody : encodeListOffsetsRequest (asked node) 0 with
    | error e =>
      refine .inr ⟨e, s, rfl, isRetriable_of_encodeListOffsetsRequest_error hbody, ?_⟩
      by_contra hfit
      push Not at hfit
      obtain ⟨body, hok⟩ := (@encodeListOffsetsRequest_ok_iff (asked node) 0).2 fun p hp =>
        hfit p.partKey (hasked node p hp)
      cases hbody.symm.trans hok
    | ok body =>
      obtain ⟨offs, hlist, hcodes, hall⟩ := hcomplete i node body _ hbody (hasked node)
      obtain ⟨s', hentries, hread⟩ := @readEntries_ok refresh offs hcodes s
      have hbind : ((Except.ok body : Except Error Bytes) >>= env.list i node) = .ok offs := hlist
      simp only [hbind, hentries]
      rcases ih s' with ⟨s'', hrest, hsub, hreports⟩ | hfails
      · have hkept : s.read ⊆ s''.read := fun o ho => hsub (by simp [hread, ho])
        refine .inl ⟨s'', hrest, hkept, fun node' hnode' p hp => ?_⟩
        rcases mem_cons.1 hnode' with rfl | hnode'
        · obtain ⟨o, ho, hpk⟩ := hall p hp
          exact ⟨encodeListOffsetsRequest_ok_iff.1 ⟨body, hbody⟩ p hp, o.offset, o,
            hsub (by simp [hread, ho]), hpk, hcodes o ho, rfl⟩
        · exact hreports node' hnode' p hp
      · exact .inr hfails

omit hcomplete

/-- The metadata before an attempt if all that is stored is what other goroutines store. -/
def LatestEnv.cached (env : LatestEnv) (c : Cluster) : Nat → Cluster
  | 0 => c
  | i + 1 => env.cacheAt i (cached env c i)

/-- The leaders of the partitions are known to an attempt. -/
def LatestEnv.Known (env : LatestEnv) (parts : List PartKey) (c : Cluster) (i : Nat) : Prop :=
  ∀ pk ∈ parts, ∃ leader, (env.cached c (i + 1)).leaderBroker pk.topic pk.part = .ok leader

/-- An attempt before anything is listed: a leader is not known, and another attempt follows with
the metadata as it is; or all is listed; or the name of a topic is too long. -/
inductive Attempted (env : LatestEnv) (parts : List PartKey) (c : Cluster) (i : Nat) :
    Option Error × Listing → Prop
  | unknown (e : Error) (hretry : isRetriable e = true) (hunknown : ¬ env.Known parts c i) :
      Attempted env parts c i (some e, ⟨env.cached c (i + 1), ∅, []⟩)
  | listed (s : Listing) (hknown : env.Known parts c i)
      (hends : ∀ pk ∈ parts, pk.topic.length ≤ maxInt16 ∧ pk ∈ s.ends) :
      Attempted env parts c i (none, s)
  | failed (e : Error) (s : Listing) (hretry : isRetriable e = false)
      (hlong : ∃ pk ∈ parts, ¬ pk.topic.length ≤ maxInt16) : Attempted env parts c i (some e, s)

theorem leaderOf_ok (h : leaderOf c pk = .ok p) :
    (∃ leader, c.leaderBroker pk.topic pk.part = .ok leader) ∧ p.2.partKey = pk := by
  rw [leaderOf] at h
  split at h
  · cases h
  · next leader hleader =>
    cases h
    exact ⟨⟨leader, hleader⟩, rfl⟩

theorem leaderOf_error (h : leaderOf c pk = .error e) :
    isRetriable e = true ∧ ∀ leader, c.leaderBroker pk.topic pk.part ≠ .ok leader := by
  rw [leaderOf] at h
  split at h
  · next hleader =>
    cases h
    exact ⟨rfl, fun leader hok => by cases hleader.symm.trans hok⟩
  · cases h

include hcomplete

theorem attempted (c : Cluster) (i : Nat) :
    Attempted env parts c i (listAttempt env parts i ⟨env.cached c i, ∅, []⟩) := by
  have hpending : parts.filter (· ∉ (∅ : AList fun _ : PartKey => Int64)) = parts :=
    filter_eq_self.2 fun pk _ => by simp
  have hsound : (listAttempt env parts i ⟨env.cached c i, ∅, []⟩).2.Sound :=
    (Listing.Sound.start _).listAttempt
  simp only [listAttempt, hpending] at hsound ⊢
  cases hleaders : parts.mapM (leaderOf (env.cacheAt i (env.cached c i))) with
  | error e =>
    obtain ⟨pk, hpk, hleader⟩ := exists_of_mapM_error hleaders
    obtain ⟨hretry, hunknown⟩ := leaderOf_error hleader
    refine .unknown e hretry fun hknown => ?_
    obtain ⟨leader, hok⟩ := hknown pk hpk
    exact hunknown leader hok
  | ok leaders =>
    have hall := forall₂_of_mapM_ok hleaders
    simp only [hleaders, getD_lookup_group] at hsound ⊢
    have hasked : ∀ node, ∀ p ∈ (leaders.filter (Prod.fst · = node)).map Prod.snd,
        p.partKey ∈ parts := by
      intro node p hp
      obtain ⟨pair, hpair, rfl⟩ := mem_map.1 hp
      obtain ⟨pk, hpk, hok⟩ := forall₂_exists_left hall (mem_filter.1 hpair).1
      rw [(leaderOf_ok hok).2]
      exact hpk
    rcases askLeaders_complete hcomplete hasked _ _ with
      ⟨s, hask, -, hreports⟩ | ⟨e, s, hask, hretry, hlong⟩
    · rw [hask] at hsound ⊢
      refine .listed s (fun pk hpk => ?_) fun pk hpk => ?_
      · obtain ⟨pair, -, hok⟩ := forall₂_exists_left hall.flip hpk
        exact (leaderOf_ok hok).1
      · obtain ⟨pair, hpair, hok⟩ := forall₂_exists_left hall.flip hpk
        have hnode : pair.1 ∈ (env.leaderOrder i).keys (Assoc.group Prod.fst leaders) := by
          rw [MapOrder.mem_keys, AList.mem_keys, mem_keys_group]
          exact mem_map_of_mem hpair
        have hmem : pair.2 ∈ (leaders.filter (Prod.fst · = pair.1)).map Prod.snd :=
          mem_map_of_mem (mem_filter.2 ⟨hpair, decide_eq_true rfl⟩)
        obtain ⟨hfit, off, hoff⟩ := hreports pair.1 hnode pair.2 hmem
        obtain rfl := (leaderOf_ok hok).2
        exact ⟨hfit, hsound.mem _ off hoff⟩
    · rw [hask]
      exact .failed e s hretry hlong

theorem listed_of_run_ok (hleft : left ≠ 0)
    (h : (env.loop (listAttempt env parts)).run left 0 ⟨c, ∅, []⟩ = (none, s)) :
    ∃ i < left, env.Known parts c i ∧ (∀ j ≤ i, env.ctxErr j = none) ∧
      (∀ j < i, env.waitErr j = none) ∧ ∀ pk ∈ parts, pk.topic.length ≤ maxInt16 ∧ pk ∈ s.ends := by
  -- an attempt that is followed by another has listed and refreshed nothing
  have hstep : ∀ i (t : Listing) e, (t = ⟨env.cached c i, ∅, []⟩ ∧
      ∀ j < i, env.ctxErr j = none ∧ env.waitErr j = none) → env.ctxErr i = none →
      env.waitErr i = none → (listAttempt env parts i t).1 = some e → isRetriable e = true →
      (listAttempt env parts i t).2 = ⟨env.cached c (i + 1), ∅, []⟩ ∧
        ∀ j < i + 1, env.ctxErr j = none ∧ env.waitErr j = none := by
    rintro i t e ⟨rfl, hbefore⟩ hctx hwait herr hretry
    have hattempt := attempted hcomplete c i
    generalize listAttempt env parts i _ = out at hattempt herr ⊢
    cases hattempt with
    | unknown e' =>
      refine ⟨rfl, fun j hj => ?_⟩
      rcases Nat.lt_succ_iff_lt_or_eq.1 hj with hj | rfl
      · exact hbefore j hj
      · exact ⟨hctx, hwait⟩
    | listed s => cases herr
    | failed e' s hretry' =>
      cases herr
      cases hretry.symm.trans hretry'
  obtain ⟨i, t, ⟨rfl, hbefore⟩, hctx, hlt, hok⟩ :=
    @Retry.run_ok _ _ (env.loop (listAttempt env parts)) left 0 ⟨c, ∅, []⟩
      (fun i t => t = ⟨env.cached c i, ∅, []⟩ ∧ ∀ j < i, env.ctxErr j = none ∧ env.waitErr j = none)
      hleft hstep ⟨rfl, fun j hj => (Nat.not_lt_zero j hj).elim⟩ (congrArg Prod.fst h)
  have hattempt := attempted hcomplete c i
  rw [h] at hok
  change listAttempt env parts i _ = _ at hok
  rw [hok] at hattempt
  cases hattempt with
  | listed _ hknown hends =>
    refine ⟨i, by omega, hknown, fun j hj => ?_, fun j hj => (hbefore j hj).2, hends⟩
    rcases Nat.lt_or_eq_of_le hj with hj | rfl
    · exact (hbefore j hj).1
    · exact hctx

/-- Where answers are complete and without errors, `listLatestOffsets` returns a log-end offset for
every partition exactly if it can name the topics, and the leaders are known in the metadata, as
other goroutines store it, at one of its attempts before the context ends. -/
theorem listLatestOffsets_complete_iff (maxAttempts : Int64) (c : Cluster) :
    (∃ ends, (listLatestOffsets env parts maxAttempts c).1 = .ok ends ∧ ∀ pk ∈ parts, pk ∈ ends) ↔
      (∀ pk ∈ parts, pk.topic.length ≤ maxInt16) ∧ ∃ i < coordinatorAttempts maxAttempts,
        env.Known parts c i ∧ (∀ j ≤ i, env.ctxErr j = none) ∧ ∀ j < i, env.waitErr j = none := by
  have hleft := coordinatorAttempts_ne_zero maxAttempts
  rw [listLatestOffsets]
  rcases hrun : (env.loop (listAttempt env parts)).run (coordinatorAttempts maxAttempts) 0
    ⟨c, ∅, []⟩ with ⟨_ | e, s⟩
  · obtain ⟨i, hi, hknown, hctx, hwait, hall⟩ := listed_of_run_ok hcomplete hleft hrun
    exact ⟨fun _ => ⟨fun pk hpk => (hall pk hpk).1, i, hi, hknown, hctx, hwait⟩,
      fun _ => ⟨s.ends, rfl, fun pk hpk => (hall pk hpk).2⟩⟩
  · refine ⟨fun ⟨ends, hends, _⟩ => (by cases hends), ?_⟩
    rintro ⟨hfit, k, hk, hknown, hctx, hwait⟩
    have hnil := @Retry.run_succeeds _ _ (env.loop (listAttempt env parts))
      (coordinatorAttempts maxAttempts) 0 ⟨c, ∅, []⟩ (fun i t => t = ⟨env.cached c i, ∅, []⟩) k
      hctx hwait ?_ rfl (Nat.zero_le k) (by omega)
    · rw [hrun] at hnil
      cases hnil
    · rintro i t rfl
      have hattempt := attempted hcomplete c i
      change (listAttempt env parts i _).1 = _ ∨ _ ∧ ∃ e, (listAttempt env parts i _).1 = _ ∧ _ ∧
        (listAttempt env parts i _).2 = _
      generalize listAttempt env parts i _ = out at hattempt ⊢
      cases hattempt with
      | unknown e hretry hunknown =>
        exact .inr ⟨fun hik => hunknown (hik ▸ hknown), e, rfl, hretry, rfl⟩
      | listed s => exact .inl rfl
      | failed e s _ hlong =>
        obtain ⟨pk, hpk, hlong⟩ := hlong
        exact absurd (hfit pk hpk) hlong

end Complete

theorem complete_oneLeaderEnv :
    LatestEnv.Complete { toListEnv := oneLeaderEnv [⟨[116], 0, 7, 0⟩] } [⟨[116], 0⟩] := by
  intro i node body ps _ hps
  have hlist : decodeListOffsetsResponse (writeListOffsetsResponse [⟨[116], 0, 7, 0⟩]) =
      .ok [⟨[116], 0, 7, 0⟩] := by decide +kernel
  refine ⟨_, hlist, by decide, fun p hp => ?_⟩
  exact ⟨_, mem_singleton_self _, (mem_singleton.1 (hps p hp)).symm⟩

/-- The leader is known from the start. -/
theorem listLatestOffsets_complete_iff_one :
    let env : LatestEnv := { toListEnv := oneLeaderEnv [⟨[116], 0, 7, 0⟩] }
    let parts : List PartKey := [⟨[116], 0⟩]
    let c := Cluster.storeMetadata { seeds := [] } leadTopic
    env.Complete parts ∧
    ((∃ ends, (listLatestOffsets env parts 3 c).1 = .ok ends ∧ ∀ pk ∈ parts, pk ∈ ends) ↔
      (∀ pk ∈ parts, pk.topic.length ≤ maxInt16) ∧ ∃ i < coordinatorAttempts 3,
        env.Known parts c i ∧ (∀ j ≤ i, env.ctxErr j = none) ∧ ∀ j < i, env.waitErr j = none) :=
  ⟨complete_oneLeaderEnv, listLatestOffsets_complete_iff complete_oneLeaderEnv 3 _⟩

/-- With an empty cache the call fails in each of 25 attempts, although one refresh would make the
leader known and all answers are complete. -/
theorem listLatestOffsets_unrefreshed :
    let env : LatestEnv := { toListEnv := oneLeaderEnv [⟨[116], 0, 7, 0⟩] }
    let c : Cluster := { seeds := [] }
    env.Complete [⟨[116], 0⟩] ∧ (env.refresh 0 [[116]] c).leaderBroker [116] 0 = .ok ⟨1⟩ ∧
    (listLatestOffsets env [⟨[116], 0⟩] 3 c).1 =
      .error (.kafka ⟨6, [116], 0, "list offsets: leader unavailable"⟩) ∧
    ((env.loop (listAttempt env [⟨[116], 0⟩])).begun (coordinatorAttempts 3) 0 ⟨c, ∅, []⟩).length =
      25 :=
  ⟨complete_oneLeaderEnv, by decide +kernel, by decide +kernel, by decide +kernel⟩

end GoKafka.Admin
