import GoKafka.Producer.SendSpec

/-!
# Producing with retries

`ProduceSyncResult` of `producer.go`: partitions are chosen once (`freezePartitions`), and each
attempt sends the records no broker has acknowledged yet. An attempt is `attempt`, the loop around
it `retryLoop` (`retryRetriable` with the closure of `ProduceSyncResult`), and an `Attempt` records
what happened in one round.

What is outside the producer is a `World`: it gives the environment of the next attempt and may
react to what was sent. `attempt_spec` says what an attempt does to the record it is asked about,
and `retryLoop_induct` carries an invariant of the history of attempts along a run.
-/

namespace GoKafka

open Assoc List

/-! ## The program -/

/-- The variables of `ProduceSyncResult`, and the producer's identity. -/
structure ProduceVars where
  frozen : Option (List Record) := none
  acked : List Bool
  results : List ProduceRecordResult
  identity : Option ProducerIdentity

/-- `pendingRecords`: the records and their indices. -/
def pendingRecords (frozen : List Record) (acked : List Bool) : List (Record × Nat) :=
  frozen.zipIdx.filter fun p => !(acked.getD p.2 false)

def mergeAcked (results : List ProduceRecordResult) (acked : List Bool) (origIdx : List Nat)
    (res : List ProduceRecordResult) : List ProduceRecordResult × List Bool :=
  (origIdx.zip res).foldl (fun (results, acked) (i, r) =>
    if r.topic ≠ [] then (results.set i r, acked.set i true) else (results, acked))
    (results, acked)

/-- What an attempt comes to. Nothing is sent when the metadata, a partition or a leader is not
found. -/
structure AttemptOut where
  err : Option Error
  vars : ProduceVars
  sent : Option (List Exchange)

/-- The closure of `ProduceSyncResult`. -/
def attempt (cfg : ProducerConfig) (records : List Record) (env : AttemptEnv) (v : ProduceVars) :
    AttemptOut :=
  match env.refreshErr with
  | some e => ⟨some e, v, none⟩
  | none =>
    match v.frozen.elim (freezePartitions env.freezing env.partition 0 records) .ok with
    | .error e => ⟨some e, v, none⟩
    | .ok frozen =>
      let pending := pendingRecords frozen v.acked
      let out := sendRecords cfg env (pending.map (·.1)) v.identity
      let (results, acked) := mergeAcked v.results v.acked (pending.map (·.2)) out.results
      ⟨out.err, ⟨some frozen, acked, results, out.identity⟩, out.sent⟩

/-- A round of the loop: the environment it met, the variables before it and what it came to. -/
structure Attempt where
  env : AttemptEnv
  before : ProduceVars
  out : AttemptOut

/-- The outside of the producer: the environment of the next attempt, and what becomes of the
outside when an attempt has sent something. -/
structure World (W : Type) where
  env : W → AttemptEnv
  next : W → Option (List Exchange) → W

/-- A run of the retry loop. -/
structure ProduceRun (W : Type) where
  err : Option Error
  vars : ProduceVars
  attempts : List Attempt
  world : W

/-- The loop of `retryRetriable`, with the attempts that are left. -/
def retryLoop {W : Type} (cfg : ProducerConfig) (records : List Record) (world : World W) :
    Nat → W → ProduceVars → ProduceRun W
  | 0, w, v => ⟨none, v, [], w⟩
  | left + 1, w, v =>
    let env := world.env w
    match env.ctxErr with
    | some e => ⟨some e, v, [], w⟩
    | none =>
      let out := attempt cfg records env v
      let w := world.next w out.sent
      match out.err with
      | none => ⟨none, out.vars, [⟨env, v, out⟩], w⟩
      | some e =>
        if isRetriable e ∧ left ≠ 0 then
          match env.waitErr with
          | some e => ⟨some e, out.vars, [⟨env, v, out⟩], w⟩
          | none =>
            let rest := retryLoop cfg records world left w out.vars
            { rest with attempts := ⟨env, v, out⟩ :: rest.attempts }
        else ⟨some e, out.vars, [⟨env, v, out⟩], w⟩

/-- A producer: whether it is to have an id (`Producer.Idempotent` or a transactional id), and its
id once it has one (`pidReady`). -/
structure Producer where
  idempotent : Bool := false
  identity : Option ProducerIdentity := none

/-- `Producer.ensureProducerID`; `init` is what its InitProducerID requests come to. -/
def ensureProducerID (p : Producer) (init : Except Error ProducerID) : Except Error Producer :=
  if p.idempotent then
    match p.identity with
    | some _ => .ok p
    | none => init.map fun pid => { p with identity := some { pid := pid } }
  else .ok p

/-- The attempts a configuration allows: at least one. -/
def ProducerConfig.attempts (cfg : ProducerConfig) : Nat :=
  if cfg.maxAttempts < 1 then 1 else cfg.maxAttempts.toNat

/-- What a call of `ProduceSyncResult` returns, the producer after it, and the attempts it made. -/
structure ProduceReturn (W : Type) where
  results : List ProduceRecordResult
  err : Option Error
  producer : Producer
  attempts : List Attempt
  world : W

/-- The variables of a call before its first attempt. -/
def ProduceVars.start (records : List Record) (identity : Option ProducerIdentity) :
    ProduceVars where
  acked := List.replicate records.length false
  results := List.replicate records.length {}
  identity := identity

/-- `Producer.ProduceSyncResult`; `openErr` is what `requireOpen` returns. -/
def produceSyncResult {W : Type} (cfg : ProducerConfig) (world : World W) (p : Producer)
    (openErr : Option Error) (init : Except Error ProducerID) (records : List Record) (w : W) :
    ProduceReturn W :=
  match openErr with
  | some e => ⟨[], some e, p, [], w⟩
  | none =>
    if records = [] then ⟨[], none, p, [], w⟩
    else
      match ensureProducerID p init with
      | .error e => ⟨[], some e, p, [], w⟩
      | .ok p =>
        let run := retryLoop cfg records world cfg.attempts w (.start records p.identity)
        ⟨run.vars.results, run.err, { p with identity := run.vars.identity }, run.attempts,
          run.world⟩

/-! ## Pending records -/

variable {frozen : List Record} {acked : List Bool}

theorem mem_pendingRecords :
    (r, i) ∈ pendingRecords frozen acked ↔ frozen[i]? = some r ∧ acked.getD i false = false := by
  unfold pendingRecords
  rw [mem_filter, mk_mem_zipIdx_iff_getElem?, Bool.not_eq_true']

theorem nodup_pendingRecords : ((pendingRecords frozen acked).map (·.2)).Nodup := by
  refine List.Nodup.sublist (filter_sublist.map _) ?_
  rw [zipIdx_map_snd]
  exact nodup_range'

/-- The pending records of a partition, by their indices in the call. -/
def inputsOf (frozen : List Record) (acked : List Bool) (k : PartKey) : List Nat :=
  ((pendingRecords frozen acked).filter (·.1.partKey = k)).map (·.2)

theorem mem_inputsOf : i ∈ inputsOf frozen acked k ↔
    ∃ r, frozen[i]? = some r ∧ r.partKey = k ∧ acked.getD i false = false := by
  unfold inputsOf
  simp only [mem_map, mem_filter, Prod.exists, mem_pendingRecords, decide_eq_true_eq]
  constructor
  · rintro ⟨r, i, ⟨⟨hr, hacked⟩, hkey⟩, rfl⟩
    exact ⟨r, hr, hkey, hacked⟩
  · rintro ⟨r, hr, hkey, hacked⟩
    exact ⟨r, i, ⟨⟨hr, hacked⟩, hkey⟩, rfl⟩

theorem nodup_inputsOf : (inputsOf frozen acked k).Nodup :=
  nodup_pendingRecords.sublist (List.filter_sublist.map _)

/-- The pending records as an attempt routes them. -/
def routedPending (c : Cluster) (frozen : List Record) (acked : List Bool) : List RoutedRecord :=
  ((pendingRecords frozen acked).map (·.1)).zipIdx.map (routeTo c)

theorem routedPending_eq : routedPending c frozen acked =
    (pendingRecords frozen acked).zipIdx.map fun q => routeTo c (q.1.1, q.2) := by
  unfold routedPending
  rw [zipIdx_map, map_map]
  rfl

theorem length_routedPending :
    (routedPending c frozen acked).length = (pendingRecords frozen acked).length := by
  rw [routedPending_eq, length_map, length_zipIdx]

theorem map_idx_routedPending (c : Cluster) : (routedPending c frozen acked).map (·.idx) =
    List.range (pendingRecords frozen acked).length := by
  rw [routedPending_eq, map_map, range_eq_range', ← zipIdx_map_snd]
  rfl

theorem oneLeader_routedPending : OneLeader (routedPending c frozen acked) := by
  intro r hr r' hr' hkey
  obtain ⟨p, -, rfl⟩ := mem_map.1 hr
  obtain ⟨p', -, rfl⟩ := mem_map.1 hr'
  have ⟨htopic, hpart⟩ := PartKey.mk.inj hkey
  exact congrArg₂ (fun t p => (c.leaderNodeID t p).1) htopic hpart

/-- The pending records of a partition, with their positions in the send. -/
def positionsOf (frozen : List Record) (acked : List Bool) (k : PartKey) :
    List ((Record × Nat) × Nat) :=
  (pendingRecords frozen acked).zipIdx.filter (·.1.1.partKey = k)

theorem inputsOf_eq : inputsOf frozen acked k = (positionsOf frozen acked k).map (·.1.2) := by
  have hfst : (pendingRecords frozen acked).zipIdx.map (·.1) = pendingRecords frozen acked :=
    zipIdx_map_fst 0 _
  unfold inputsOf positionsOf
  rw [← hfst, filter_map, map_map, hfst]
  rfl

theorem filter_routedPending :
    (routedPending c frozen acked).filter (·.partKey = k) =
      (positionsOf frozen acked k).map fun q => routeTo c (q.1.1, q.2) := by
  rw [routedPending_eq, filter_map]
  rfl

theorem length_inputsOf : (inputsOf frozen acked k).length =
    ((routedPending c frozen acked).filter (·.partKey = k)).length := by
  rw [inputsOf_eq, filter_routedPending, length_map, length_map]

/-- The two remappings of indices agree: the `d`th pending record of a partition is the `d`th the
send has for it, and its position in the send leads back to its index in the call. -/
theorem getElem?_inputsOf (c : Cluster) {d : Nat} (h : (inputsOf frozen acked k)[d]? = some i) :
    ∃ r j, frozen[i]? = some r ∧ r.partKey = k ∧ (pendingRecords frozen acked)[j]? = some (r, i) ∧
      ((routedPending c frozen acked).filter (·.partKey = k))[d]? = some (routeTo c (r, j)) := by
  rw [inputsOf_eq, List.getElem?_map, Option.map_eq_some_iff] at h
  obtain ⟨⟨⟨r, i'⟩, j⟩, hq, rfl⟩ := h
  have ⟨hmem, hkey⟩ := mem_filter.1 (mem_of_getElem? hq)
  have hj : (pendingRecords frozen acked)[j]? = some (r, i') :=
    mk_mem_zipIdx_iff_getElem?.1 hmem
  refine ⟨r, j, (mem_pendingRecords.1 (mem_of_getElem? hj)).1, of_decide_eq_true hkey, hj, ?_⟩
  rw [filter_routedPending, List.getElem?_map, hq]
  rfl

theorem mem_keys_routedPending {c : Cluster} {k : PartKey} :
    k ∈ (routedPending c frozen acked).map (·.partKey) ↔
      ∃ (i : Nat) (r : Record), frozen[i]? = some r ∧ r.partKey = k ∧
        acked.getD i false = false := by
  constructor
  · intro hk
    obtain ⟨rr, hrr, rfl⟩ := mem_map.1 hk
    rw [routedPending_eq] at hrr
    obtain ⟨⟨⟨r, i⟩, j⟩, hq, rfl⟩ := mem_map.1 hrr
    have ⟨hr, hpending⟩ := mem_pendingRecords.1 (fst_mem_of_mem_zipIdx hq)
    exact ⟨i, r, hr, rfl, hpending⟩
  · rintro ⟨i, r, hr, rfl, hpending⟩
    obtain ⟨d, hd⟩ := mem_iff_getElem?.1 (mem_inputsOf.2 ⟨r, hr, rfl, hpending⟩)
    have ⟨r', j, _, hkey, _, hrouted⟩ := getElem?_inputsOf c hd
    have hmem := (mem_filter.1 (mem_of_getElem? hrouted)).1
    exact mem_map.2 ⟨_, hmem, hkey⟩

/-! ## Merging -/

/-- `mergeAcked` writes the results that have a topic, and marks their records. -/
theorem mergeAcked_eq : mergeAcked results acked origIdx res =
      (store ((origIdx.zip res).filter (·.2.topic ≠ [])) results,
        store (((origIdx.zip res).filter (·.2.topic ≠ [])).map fun w => (w.1, true)) acked) := by
  unfold mergeAcked
  induction origIdx.zip res generalizing results acked with
  | nil => rfl
  | cons w ws ih =>
    rw [foldl_cons]
    by_cases hw : w.2.topic ≠ []
    · simp only [if_pos hw, ih, filter_cons, decide_eq_true hw]
      rfl
    · simp only [if_neg hw, ih, filter_cons, decide_eq_false hw]
      rfl

/-! ## An attempt -/

/-- The metadata an attempt meets is sound. -/
structure AttemptEnv.Sound (env : AttemptEnv) : Prop where
  freezing : env.freezing.Sound
  cluster : env.cluster.Sound

/-- The variables fit the records of the call. -/
structure ProduceVars.Fits (v : ProduceVars) (records : List Record) : Prop where
  acked : v.acked.length = records.length
  results : v.results.length = records.length
  frozen : ∀ f, v.frozen = some f → List.Forall₂ FrozenRecord records f

theorem ProduceVars.fits_start (records : List Record) (identity : Option ProducerIdentity) :
    (start records identity).Fits records :=
  ⟨List.length_replicate, List.length_replicate, nofun⟩

/-- An attempt that sent nothing. -/
structure Unsent (records : List Record) (v : ProduceVars) (out : AttemptOut) : Prop where
  sent : out.sent = none
  err : out.err ≠ none
  acked : out.vars.acked = v.acked
  results : out.vars.results = v.results
  identity : out.vars.identity = v.identity
  kept : ∀ f, v.frozen = some f → out.vars.frozen = some f
  frozen : ∀ f, out.vars.frozen = some f → List.Forall₂ FrozenRecord records f

theorem Unsent.fits {records : List Record} {v : ProduceVars} {out : AttemptOut}
    (h : Unsent records v out) (hfits : v.Fits records) : out.vars.Fits records :=
  ⟨h.acked ▸ hfits.acked, h.results ▸ hfits.results, h.frozen⟩

/-- An attempt that sent the pending records of `f`, with its exchanges. -/
structure SentPending (cfg : ProducerConfig) (env : AttemptEnv) (records : List Record)
    (v : ProduceVars) (out : AttemptOut) (f : List Record) (exs : List Exchange) : Prop where
  sent : out.sent = some exs
  frozen : out.vars.frozen = some f
  kept : v.frozen = none ∨ v.frozen = some f
  freeze : List.Forall₂ FrozenRecord records f
  topics : ∀ p ∈ pendingRecords f v.acked, p.1.topic ≠ []
  send : ∃ so, SendSpec cfg env (routedPending env.cluster f v.acked) v.identity so exs ∧
    out.err = so.err ∧ out.vars.identity = so.identity
  fits : out.vars.Fits records
  acked : ∀ i : Nat, out.vars.acked.getD i false = true ↔ v.acked.getD i false = true ∨
    ∃ r, f[i]? = some r ∧ (lastAck (exs.flatMap (·.entries)) r.partKey).isSome
  results : ∀ (k : PartKey) (d i : Nat) (res : ProduceResult), (inputsOf f v.acked k)[d]? = some i →
    lastAck (exs.flatMap (·.entries)) k = some res → ∃ r, f[i]? = some r ∧
      out.vars.results[i]? = some ⟨r, res.topic, res.partition, res.offset + Int64.ofNat d⟩
  keeps : ∀ i : Nat, v.acked.getD i false = true → out.vars.results[i]? = v.results[i]?
  unacked : ∀ (i : Nat) (r : Record), f[i]? = some r →
    lastAck (exs.flatMap (·.entries)) r.partKey = none →
    out.vars.results[i]? = v.results[i]?

section Attempt

variable {cfg : ProducerConfig} {env : AttemptEnv} {records : List Record} {v : ProduceVars}

variable {exs : List Exchange}

/-- Where a pending record's result stands after a send. -/
theorem result_of_inputsOf
    (hspec : SendSpec cfg env (routedPending c frozen acked) v.identity so exs)
    (h : (inputsOf frozen acked k)[d]? = some i) :
    ∃ r j, frozen[i]? = some r ∧ r.partKey = k ∧ (pendingRecords frozen acked)[j]? = some (r, i) ∧
      so.results[j]? = some (recordResult (routeTo c (r, j)) d
        (lastAck (exs.flatMap (·.entries)) k)) := by
  have ⟨r, j, hr, hkey, hj, hrouted⟩ := getElem?_inputsOf c h
  exact ⟨r, j, hr, hkey, hj, hspec.results k d _ hrouted⟩

/-- What is merged after a send, by the index in the call: the result of the pending record there,
if its partition was acknowledged. -/
theorem mem_mergeWrites (hspec : SendSpec cfg env (routedPending c frozen acked) v.identity so exs)
    (htopics : ∀ p ∈ pendingRecords frozen acked, p.1.topic ≠ []) :
    (i, result) ∈ (((pendingRecords frozen acked).map (·.2)).zip so.results).filter
        (·.2.topic ≠ []) ↔
      ∃ k d r res, (inputsOf frozen acked k)[d]? = some i ∧ frozen[i]? = some r ∧
        lastAck (exs.flatMap (·.entries)) k = some res ∧
        result = ⟨r, res.topic, res.partition, res.offset + Int64.ofNat d⟩ := by
  rw [mem_filter, mem_iff_getElem?]
  constructor
  · rintro ⟨⟨j, hj⟩, htopic⟩
    obtain ⟨hidx, hres⟩ := List.getElem?_zip_eq_some.1 hj
    rw [List.getElem?_map, Option.map_eq_some_iff] at hidx
    obtain ⟨⟨r, i'⟩, hpend, rfl⟩ := hidx
    have ⟨hr, hacked⟩ := mem_pendingRecords.1 (mem_of_getElem? hpend)
    obtain ⟨d, hd⟩ := mem_iff_getElem?.1 (mem_inputsOf.2 ⟨r, hr, rfl, hacked⟩)
    have ⟨r', j', hr', _, hj', hres'⟩ := result_of_inputsOf hspec hd
    obtain rfl : r = r' := Option.some.inj (hr.symm.trans hr')
    -- an index of the call is pending at one position
    obtain rfl : j = j' := by
      have hidx (j : Nat) (hj : (pendingRecords frozen acked)[j]? = some (r, i')) :
          ((pendingRecords frozen acked).map (·.2))[j]? = some i' := by
        rw [List.getElem?_map, hj]
        rfl
      exact (List.getElem?_inj (List.getElem?_eq_some_iff.1 (hidx j hpend)).1
        nodup_pendingRecords).1 ((hidx j hpend).trans (hidx j' hj').symm)
    have hresult := Option.some.inj (hres.symm.trans hres')
    cases hack : lastAck (exs.flatMap (·.entries)) r.partKey with
    | none =>
      rw [hack] at hresult
      exact absurd (congrArg ProduceRecordResult.topic hresult) (of_decide_eq_true htopic)
    | some res =>
      rw [hack] at hresult
      exact ⟨_, d, r, res, hd, hr, hack, hresult⟩
  · rintro ⟨k, d, r, res, hd, hr, hack, rfl⟩
    have ⟨r', j, hr', hkey, hj, hres⟩ := result_of_inputsOf hspec hd
    obtain rfl : r = r' := Option.some.inj (hr.symm.trans hr')
    rw [hack] at hres
    refine ⟨⟨j, List.getElem?_zip_eq_some.2 ⟨?_, hres⟩⟩, decide_eq_true ?_⟩
    · rw [List.getElem?_map, hj]
      rfl
    · have htopic := htopics _ (mem_of_getElem? hj)
      have hres : res.topic = r.topic :=
        congrArg PartKey.topic ((mem_of_lastAck hack).2.2.trans hkey.symm)
      exact fun hnil => htopic (hres.symm.trans hnil)

theorem nodup_mergeWrites {res : List ProduceRecordResult}
    (hlen : res.length = (pendingRecords frozen acked).length) :
    (((((pendingRecords frozen acked).map (·.2)).zip res).filter (·.2.topic ≠ [])).map
      Prod.fst).Nodup := by
  refine List.Nodup.sublist (filter_sublist.map _) ?_
  rw [map_fst_zip (by rw [length_map, hlen])]
  exact nodup_pendingRecords

theorem mem_map_mergeWrites
    (hspec : SendSpec cfg env (routedPending c frozen acked) v.identity so exs)
    (htopics : ∀ p ∈ pendingRecords frozen acked, p.1.topic ≠ []) :
    i ∈ ((((pendingRecords frozen acked).map (·.2)).zip so.results).filter
        (·.2.topic ≠ [])).map Prod.fst ↔
      acked.getD i false = false ∧ ∃ r, frozen[i]? = some r ∧
        (lastAck (exs.flatMap (·.entries)) r.partKey).isSome := by
  constructor
  · intro hi
    obtain ⟨⟨i, result⟩, hmem, rfl⟩ := mem_map.1 hi
    obtain ⟨k, d, r, res, hd, hr, hack, -⟩ := (mem_mergeWrites hspec htopics).1 hmem
    obtain ⟨r', hr', rfl, hpending⟩ := mem_inputsOf.1 (mem_of_getElem? hd)
    obtain rfl : r = r' := Option.some.inj (hr.symm.trans hr')
    exact ⟨hpending, r, hr, hack ▸ rfl⟩
  · rintro ⟨hpending, r, hr, hack⟩
    obtain ⟨res, hres⟩ := Option.isSome_iff_exists.1 hack
    obtain ⟨d, hd⟩ := mem_iff_getElem?.1 (mem_inputsOf.2 ⟨r, hr, rfl, hpending⟩)
    exact mem_map.2 ⟨_, (mem_mergeWrites hspec htopics).2 ⟨_, d, r, res, hd, hr, hres, rfl⟩, rfl⟩

/-- An attempt that routes its pending records. -/
theorem sentPending_of_route (hfits : v.Fits records)
    (hfreeze : List.Forall₂ FrozenRecord records frozen)
    (hkept : v.frozen = none ∨ v.frozen = some frozen)
    (htopics : ∀ p ∈ pendingRecords frozen v.acked, p.1.topic ≠ [])
    (hspec : SendSpec cfg env (routedPending env.cluster frozen v.acked) v.identity so exs)
    (herr : out.err = so.err) (hsent : out.sent = so.sent)
    (hvars : out.vars = ⟨some frozen, (mergeAcked v.results v.acked
        ((pendingRecords frozen v.acked).map (·.2)) so.results).2,
      (mergeAcked v.results v.acked ((pendingRecords frozen v.acked).map (·.2)) so.results).1,
      so.identity⟩) : SentPending cfg env records v out frozen exs := by
  let ws := (((pendingRecords frozen v.acked).map (·.2)).zip so.results).filter (·.2.topic ≠ [])
  have hlen : so.results.length = (pendingRecords frozen v.acked).length :=
    hspec.length.trans length_routedPending
  have hnodup : (ws.map Prod.fst).Nodup := nodup_mergeWrites hlen
  have hresults : out.vars.results = store ws v.results := by rw [hvars, mergeAcked_eq]
  have hacked : out.vars.acked = store (ws.map fun w => (w.1, true)) v.acked := by
    rw [hvars, mergeAcked_eq]
  have hfst : (ws.map fun w => (w.1, true)).map Prod.fst = ws.map Prod.fst := by
    rw [map_map]
    rfl
  have hmem {i : Nat} : i ∈ ws.map Prod.fst ↔ _ := mem_map_mergeWrites hspec htopics
  have hbound {i : Nat} {r : Record} (hr : frozen[i]? = some r) : i < records.length :=
    hfreeze.length_eq ▸ (List.getElem?_eq_some_iff.1 hr).1
  refine ⟨hsent.trans hspec.sent, by rw [hvars], hkept, hfreeze, htopics,
    ⟨so, hspec, herr, by rw [hvars]⟩, ⟨?_, ?_, fun f hf => ?_⟩, fun i => ?_,
    fun k d i res hd hack => ?_, fun i hi => ?_, fun i r hr hnone => ?_⟩
  · rw [hacked, length_store, hfits.acked]
  · rw [hresults, length_store, hfits.results]
  · rw [hvars] at hf
    cases hf
    exact hfreeze
  · rw [hacked, getD_eq_getElem?_getD]
    by_cases hi : i ∈ ws.map Prod.fst
    · have ⟨_, r, hr, hack⟩ := hmem.1 hi
      have hlt : i < v.acked.length := hfits.acked ▸ hbound hr
      obtain ⟨w, hw, rfl⟩ := mem_map.1 hi
      have hmark : (w.1, true) ∈ ws.map fun w => (w.1, true) := mem_map.2 ⟨w, hw, rfl⟩
      rw [getElem?_store (hfst ▸ hnodup) hmark hlt]
      exact iff_of_true rfl (.inr ⟨r, hr, hack⟩)
    · rw [getElem?_store_of_not_mem (hfst ▸ hi), ← getD_eq_getElem?_getD]
      refine ⟨Or.inl, fun h => h.elim id fun ⟨r, hr, hack⟩ => ?_⟩
      exact Bool.not_eq_false _ ▸ fun hfalse => hi (hmem.2 ⟨hfalse, r, hr, hack⟩)
  · have ⟨r, j, hr, _, _, _⟩ := result_of_inputsOf hspec hd
    refine ⟨r, hr, ?_⟩
    rw [hresults]
    exact getElem?_store hnodup ((mem_mergeWrites hspec htopics).2
      ⟨k, d, r, res, hd, hr, hack, rfl⟩) (hfits.results ▸ hbound hr)
  · rw [hresults]
    refine getElem?_store_of_not_mem fun hin => ?_
    exact Bool.false_ne_true ((hmem.1 hin).1.symm.trans hi)
  · rw [hresults]
    refine getElem?_store_of_not_mem fun hin => ?_
    have ⟨_, r', hr', hack⟩ := hmem.1 hin
    obtain rfl : r = r' := Option.some.inj (hr.symm.trans hr')
    rw [hnone] at hack
    cases hack

/-- The partitions that an attempt uses: chosen before, or chosen now. -/
theorem frozen_of_elim (henv : env.Sound) (hfits : v.Fits records)
    (hfrozen : v.frozen.elim (freezePartitions env.freezing env.partition 0 records) .ok = .ok f) :
    (v.frozen = none ∨ v.frozen = some f) ∧ List.Forall₂ FrozenRecord records f := by
  cases hv : v.frozen with
  | none =>
    rw [hv] at hfrozen
    exact ⟨.inl rfl, freezePartitions_ok henv.freezing hfrozen⟩
  | some f' =>
    rw [hv] at hfrozen
    cases hfrozen
    exact ⟨.inr rfl, hfits.frozen f hv⟩

theorem pos_pendingRecords (hfreeze : List.Forall₂ FrozenRecord records f) (acked : List Bool) :
    ∀ r ∈ (pendingRecords f acked).map (·.1), 0 ≤ r.partition := by
  intro r hr
  obtain ⟨p, hp, rfl⟩ := mem_map.1 hr
  have hmem := mem_of_getElem? (mem_pendingRecords.1 hp).1
  have ⟨r', _, hfr⟩ := forall₂_exists_left hfreeze hmem
  exact hfr.pos

/-- An attempt sends the pending records, or it changes nothing but the frozen partitions and
returns an error. -/
theorem attempt_spec (henv : env.Sound) (hfits : v.Fits records) :
    Unsent records v (attempt cfg records env v) ∨
      ∃ f exs, SentPending cfg env records v (attempt cfg records env v) f exs := by
  unfold attempt
  cases hrefresh : env.refreshErr with
  | some e => exact .inl ⟨rfl, nofun, rfl, rfl, rfl, fun f hf => hf, hfits.frozen⟩
  | none =>
    cases hfrozen : v.frozen.elim (freezePartitions env.freezing env.partition 0 records) .ok with
    | error e => exact .inl ⟨rfl, nofun, rfl, rfl, rfl, fun f hf => hf, hfits.frozen⟩
    | ok f =>
      have ⟨hkept, hfreeze⟩ := frozen_of_elim henv hfits hfrozen
      have hpos := pos_pendingRecords hfreeze v.acked
      cases hroute : routeRecords env.cluster env.repartition 0
          ((pendingRecords f v.acked).map (·.1)) with
      | error e =>
        refine .inl ?_
        simp only [sendRecords, hroute]
        refine ⟨rfl, nofun, ?_, ?_, rfl, fun f' hf' => ?_, fun f' hf' => ?_⟩
        · simp [mergeAcked]
        · simp [mergeAcked]
        · rcases hkept with hnone | hsome
          · cases hnone.symm.trans hf'
          · exact hsome.symm.trans hf'
        · cases hf'
          exact hfreeze
      | ok routed =>
        have ⟨hrouted, htopics⟩ := routeRecords_ok henv.cluster hpos hroute
        obtain rfl : routed = routedPending env.cluster f v.acked := hrouted
        have hidx := @map_idx_routedPending f v.acked env.cluster
        have ⟨exs, hspec⟩ := @sendRouted_spec _ cfg env v.identity
          (hidx ▸ nodup_range) (fun r hr => ?_) oneLeader_routedPending
        · refine .inr ⟨f, exs, ?_⟩
          simp only [sendRecords, hroute]
          exact sentPending_of_route hfits hfreeze hkept (fun p hp => htopics _
            (mem_map_of_mem hp)) hspec rfl rfl rfl
        · have hmem : r.idx ∈ List.range (pendingRecords f v.acked).length :=
            hidx ▸ mem_map_of_mem hr
          rw [length_routedPending]
          exact mem_range.1 hmem

end Attempt

/-! ## Runs -/

section Runs

variable {W : Type} {cfg : ProducerConfig} {records : List Record} {world : World W}

/-- The round a run makes from a state of the world. -/
def World.attempt (world : World W) (cfg : ProducerConfig) (records : List Record) (w : W)
    (v : ProduceVars) : Attempt :=
  ⟨world.env w, v, GoKafka.attempt cfg records (world.env w) v⟩

/-- An invariant of the attempts made so far holds before every attempt of a run and at its end. -/
theorem retryLoop_induct (P : List Attempt → ProduceVars → Prop)
    (hstep : ∀ pre v w, P pre v → P (pre ++ [world.attempt cfg records w v])
      (world.attempt cfg records w v).out.vars)
    {left : Nat} {w : W} {v : ProduceVars} {pre : List Attempt} (h : P pre v) :
    P (pre ++ (retryLoop cfg records world left w v).attempts)
        (retryLoop cfg records world left w v).vars ∧
      ∀ xs a ys, (retryLoop cfg records world left w v).attempts = xs ++ a :: ys →
        ∃ w' v', P (pre ++ xs) v' ∧ a = world.attempt cfg records w' v' := by
  revert pre
  fun_induction retryLoop with
  | case1 | case2 =>
    intro pre h
    refine ⟨(append_nil pre).symm ▸ h, fun xs a ys hxs => ?_⟩
    exact absurd hxs (append_ne_nil_of_right_ne_nil _ (cons_ne_nil _ _)).symm
  | case3 _ w v | case4 _ w v | case6 _ w v =>
    intro pre h
    refine ⟨hstep pre v w h, fun xs a ys hxs => ?_⟩
    rcases cons_eq_append_iff.1 hxs with ⟨rfl, hcons⟩ | ⟨xs', rfl, hrest⟩
    · cases hcons
      exact ⟨w, v, (append_nil pre).symm ▸ h, rfl⟩
    · exact absurd hrest (append_ne_nil_of_right_ne_nil _ (cons_ne_nil _ _)).symm
  | case5 _ w v =>
    rename_i ih
    intro pre h
    obtain ⟨hend, hmid⟩ := ih (hstep pre v w h)
    rw [append_assoc] at hend
    refine ⟨hend, fun xs a ys hxs => ?_⟩
    rcases cons_eq_append_iff.1 hxs with ⟨rfl, hcons⟩ | ⟨xs', rfl, hrest⟩
    · cases hcons
      exact ⟨w, v, (append_nil pre).symm ▸ h, rfl⟩
    · obtain ⟨w', v', hP, ha⟩ := hmid xs' a ys hrest
      exact ⟨w', v', by rwa [append_assoc] at hP, ha⟩

/-- An invariant of the outside and the variables holds at the end of a run whose attempts all meet
a condition under which an attempt keeps it. -/
theorem retryLoop_invariant (P : W → ProduceVars → Prop) (Q : Attempt → Prop)
    (hstep : ∀ w v, P w v → Q (world.attempt cfg records w v) →
      P (world.next w (world.attempt cfg records w v).out.sent)
        (world.attempt cfg records w v).out.vars) (h : P w v)
    (hQ : ∀ a ∈ (retryLoop cfg records world left w v).attempts, Q a) :
    P (retryLoop cfg records world left w v).world (retryLoop cfg records world left w v).vars := by
  fun_induction retryLoop with
  | case1 | case2 => exact h
  | case3 _ w v | case4 _ w v | case6 _ w v => exact hstep w v h (hQ _ (mem_singleton_self _))
  | case5 _ w v _ _ _ _ _ _ _ _ _ ih =>
    obtain ⟨hfirst, hothers⟩ := forall_mem_cons.1 hQ
    exact ih (hstep w v h hfirst) hothers

/-- A run returns nil after an attempt without an error, which is its last one. -/
structure ProduceRun.Ends (run : ProduceRun W) : Prop where
  err : run.err = none ↔ ∃ a ∈ run.attempts, a.out.err = none
  vars : ∀ a ∈ run.attempts, a.out.err = none → run.vars = a.out.vars

theorem retryLoop_ends (left : Nat) (w : W) (v : ProduceVars) :
    (retryLoop cfg records world (left + 1) w v).Ends := by
  generalize hn : left + 1 = n
  fun_induction retryLoop generalizing left with
  | case1 => cases hn
  | case2 => exact ⟨by simp, by simp⟩
  | case3 _ _ _ _ _ _ _ herr => exact ⟨by simpa using herr, by simp⟩
  | case4 _ _ _ _ _ _ _ _ herr | case6 _ _ _ _ _ _ _ _ herr =>
    exact ⟨by simp [herr], by simp⟩
  | case5 _ _ _ _ _ _ _ _ herr hmore _ _ ih =>
    -- the failed attempt is not the one without an error
    obtain ⟨left', hleft'⟩ := Nat.exists_eq_succ_of_ne_zero hmore.2
    obtain ⟨herrs, hvars⟩ := ih left' hleft'.symm
    exact ⟨by simpa [herr] using herrs, by simpa [herr] using hvars⟩

theorem ProducerConfig.attempts_pos (cfg : ProducerConfig) : ∃ left, cfg.attempts = left + 1 := by
  refine ⟨cfg.attempts - 1, ?_⟩
  unfold attempts
  split_ifs
  · rfl
  · omega

end Runs

end GoKafka
