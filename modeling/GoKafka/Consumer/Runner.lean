import GoKafka.Consumer.Commit
import GoKafka.Lib.Workers

/-!
# Running a handler

`Consumer.Run` in `consumer_runner.go` polls, gives the records to workers that call the handler,
and commits what they processed. A round is described by its `RunRound`: what Poll returns, the
schedule of the workers with the outcomes of the handler, and what the commit meets; what Poll does
to the member is arbitrary. A schedule may end before the workers are done, so that the events of a
run (`RunEvent`) are those of any execution, cut at any point. No OffsetCommit overtakes the handler
(`run_atLeastOnce`): whatever a request says, the handler has returned success for all records that
were polled before it.
-/

namespace GoKafka

open Workers List

/-! ## Workers -/

/-- The first error among the results, or the records in the order of the results. -/
def drainResults : List (Record × Option Error) → Except Error (List Record)
  | [] => .ok []
  | (_, some e) :: _ => .error e
  | (r, none) :: results => do
    let processed ← drainResults results
    return r :: processed

/-- The goroutines of `processRecordsParallel`: all handlers are under way. -/
def processRecordsParallel (recs : List Record) (schedule : List (Act (Option Error))) :
    Pool Record (Option Error) :=
  Pool.run recs.length { busy := recs } schedule

/-- The goroutines of `Consumer.processRecords`: a pool that shares a queue, or one for each
record. -/
def processRecords (workers : Int64) (recs : List Record) (schedule : List (Act (Option Error))) :
    Pool Record (Option Error) :=
  let workers := if workers ≤ 0 then 1 else workers
  if recs.length ≤ workers.toNatClampNeg then processRecordsParallel recs schedule
  else Pool.run workers.toNatClampNeg { unsent := recs } schedule

/-! ## The loop -/

/-- What a round of `Run` meets: whether the context is done before it and after a Poll that fails,
the answer of Poll, the schedule of the workers, the member when it commits and what the commit
meets, and the result of `Leave`. -/
structure RunRound where
  cancelled : Bool := false
  polled : Except Error (List Record)
  interrupted : Bool := false
  schedule : List (Act (Option Error)) := []
  member : Committer
  attempt : Nat → CommitAttempt
  left : Except Error Unit := .ok ()

/-- What happens in a run: Poll returns records, the handler returns for a record, and an
OffsetCommit is sent. -/
inductive RunEvent where
  | polled (records : List Record)
  | handled (result : Record × Option Error)
  | sent (request : OffsetCommitRequest)

/-- The configuration that `Run` reads. -/
structure Runner where
  opened : Except Error Unit := .ok ()
  workers : Int64 := 1
  autoCommit : Bool := true

/-- How a round ends: the next one follows, the workers are not done yet, or `Run` returns. -/
inductive RoundEnd where
  | next
  | waiting
  | returned (result : Except Error Unit)

/-- A round of the loop of `Run`. -/
def Runner.round (c : Runner) (round : RunRound) : RoundEnd × List RunEvent :=
  if round.cancelled then (.returned round.left, [])
  else
    match round.polled with
    | .error e => (.returned (if round.interrupted then round.left else .error e), [])
    | .ok recs =>
      if recs = [] then (.next, [])
      else
        let pool := processRecords c.workers recs round.schedule
        let events := .polled recs :: pool.log.map .handled
        if ¬ pool.Idle then (.waiting, events)
        else
          match drainResults pool.results with
          | .error e => (.returned (.error e), events)
          | .ok processed =>
            if c.autoCommit then
              let call := round.member.commit processed round.attempt
              let events := events ++ call.requests.map .sent
              match call.result with
              | .error e => (.returned (.error e), events)
              | .ok () => (.next, events)
            else (.next, events)

/-- A run so far: its result, if it has returned, and its events. -/
structure Running where
  result : Option (Except Error Unit)
  events : List RunEvent := []

/-- The loop of `Run`. -/
def Runner.loop (c : Runner) : List RunRound → Running
  | [] => { result := none }
  | round :: rounds =>
    match c.round round with
    | (.returned result, events) => { result := some result, events := events }
    | (.waiting, events) => { result := none, events := events }
    | (.next, events) =>
      { result := (c.loop rounds).result, events := events ++ (c.loop rounds).events }

def Runner.run (c : Runner) (rounds : List RunRound) : Running :=
  match c.opened with
  | .error e => { result := some (.error e) }
  | .ok () => c.loop rounds

/-! ## At least once -/

/-- The records that Poll returned. -/
def polledRecords (events : List RunEvent) : List Record :=
  events.flatMap fun
    | .polled records => records
    | _ => []

/-- The records for which the handler returned success. -/
def succeeded (events : List RunEvent) : List Record :=
  events.filterMap fun
    | .handled (r, none) => some r
    | _ => none

/-- When an offset is committed for a partition, the handler has returned success for each record
of the partition below it, as often as Poll had returned it. -/
def AtLeastOnce (events : List RunEvent) : Prop :=
  ∀ before request after, events = before ++ .sent request :: after →
    ∀ pk n, request.offsets.lookup pk = some n → ∀ r : Record, r.partKey = pk → r.offset < n →
      (polledRecords before).count r ≤ (succeeded before).count r

/-! ## Results -/

theorem drainResults_ok (h : drainResults results = .ok processed) :
    ∀ result ∈ results, result.2 = none := by
  induction results generalizing processed with
  | nil => exact nofun
  | cons result results ih =>
    obtain ⟨r, outcome⟩ := result
    cases outcome with
    | some e => cases h
    | none =>
      obtain ⟨rest, hrest, -⟩ := bind_eq_ok.1 h
      exact forall_mem_cons.2 ⟨rfl, ih hrest⟩

theorem conserves_processRecords (workers : Int64) (recs : List Record)
    (schedule : List (Act (Option Error))) :
    (processRecords workers recs schedule).Conserves recs := by
  rw [processRecords]
  generalize (if workers ≤ 0 then 1 else workers) = size
  split_ifs
  · exact (Pool.conserves_busy).run _ schedule
  · exact (Pool.conserves_unsent).run _ schedule

/-! ## Events -/

/-- The handler has returned success for all records polled so far. -/
def Balanced (events : List RunEvent) : Prop := (succeeded events).Perm (polledRecords events)

theorem balanced_append (h : Balanced events) (h' : Balanced more) : Balanced (events ++ more) := by
  rw [Balanced, succeeded, polledRecords, filterMap_append, flatMap_append]
  exact h.append h'

theorem balanced_sent (requests : List OffsetCommitRequest) : Balanced (requests.map .sent) := by
  induction requests with
  | nil => exact .nil
  | cons request requests ih => exact ih

/-- The events of a round up to its commit. -/
theorem balanced_round {pool : Pool Record (Option Error)} (hconserves : pool.Conserves recs)
    (hidle : pool.Idle) (hprocessed : drainResults pool.results = .ok processed) :
    Balanced (.polled recs :: pool.log.map .handled) := by
  obtain ⟨hlog, hresults⟩ := hconserves.idle hidle
  have hnone : ∀ result ∈ pool.log, result.2 = none := fun result hresult =>
    drainResults_ok hprocessed result (hresults.mem_iff.2 hresult)
  have hsucceeded : ∀ log : List (Record × Option Error), (∀ result ∈ log, result.2 = none) →
      succeeded (log.map .handled) = log.map Prod.fst := by
    intro log hlog
    induction log with
    | nil => rfl
    | cons result log ih =>
      obtain ⟨r, outcome⟩ := result
      obtain ⟨rfl, hrest⟩ := forall_mem_cons.1 hlog
      exact congrArg (r :: ·) (ih hrest)
  have hpolled : ∀ log : List (Record × Option Error), polledRecords (log.map .handled) = [] := by
    intro log
    induction log with
    | nil => rfl
    | cons result log ih => exact ih
  change (succeeded (pool.log.map .handled)).Perm (recs ++ polledRecords (pool.log.map .handled))
  rw [hsucceeded pool.log hnone, hpolled, append_nil]
  exact hlog

/-- Whenever a request is sent, the events before it are balanced. -/
def Settled (events : List RunEvent) : Prop :=
  ∀ before request after, events = before ++ .sent request :: after → Balanced before

theorem settled_append (h : Settled events) (hb : Balanced events) (h' : Settled more) :
    Settled (events ++ more) := by
  intro before request after heq
  rcases append_eq_append_iff.1 heq with ⟨rest, rfl, hmore⟩ | ⟨rest, hevents, hrest⟩
  · exact balanced_append hb (h' rest request after hmore)
  · cases rest with
    | nil =>
      rw [append_nil] at hevents
      exact hevents ▸ hb
    | cons event rest =>
      cases hrest
      exact h before request rest hevents

theorem settled_round (recs : List Record) (log : List (Record × Option Error)) :
    Settled (.polled recs :: log.map .handled) := by
  intro before request after heq
  have hmem : RunEvent.sent request ∈ RunEvent.polled recs :: log.map RunEvent.handled := by
    rw [heq]
    exact mem_append_right _ mem_cons_self
  rcases mem_cons.1 hmem with h | h
  · cases h
  · obtain ⟨result, -, h⟩ := mem_map.1 h
    cases h

theorem settled_sent (requests : List OffsetCommitRequest) : Settled (requests.map .sent) := by
  intro before request after heq
  obtain ⟨sent, rest, -, rfl, -⟩ := map_eq_append_iff.1 heq
  exact balanced_sent sent

/-- A round sends requests only after its records are processed. -/
theorem settled_of_round (c : Runner) (round : RunRound) :
    Settled (c.round round).2 ∧ ((c.round round).1 = .next → Balanced (c.round round).2) := by
  have hconserves (recs : List Record) := conserves_processRecords c.workers recs round.schedule
  fun_cases Runner.round c round with
  | case1 | case2 => exact ⟨settled_sent [], fun h => by cases h⟩
  | case3 => exact ⟨settled_sent [], fun _ => .nil⟩
  | case4 _ recs _ _ pool | case5 _ recs _ _ pool =>
    exact ⟨settled_round recs pool.log, fun h => by cases h⟩
  | case6 _ recs _ _ pool _ hidle _ hprocessed =>
    have hbalanced := balanced_round (hconserves recs) (not_not.1 hidle) hprocessed
    exact ⟨settled_append (settled_round recs pool.log) hbalanced (settled_sent _),
      fun h => by cases h⟩
  | case7 _ recs _ _ pool _ hidle _ hprocessed =>
    have hbalanced := balanced_round (hconserves recs) (not_not.1 hidle) hprocessed
    exact ⟨settled_append (settled_round recs pool.log) hbalanced (settled_sent _),
      fun _ => balanced_append hbalanced (balanced_sent _)⟩
  | case8 _ recs _ _ pool _ hidle _ hprocessed =>
    exact ⟨settled_round recs pool.log,
      fun _ => balanced_round (hconserves recs) (not_not.1 hidle) hprocessed⟩

theorem settled_loop (c : Runner) (rounds : List RunRound) : Settled (c.loop rounds).events := by
  have hround {round : RunRound} {ends : RoundEnd} {events : List RunEvent}
      (h : c.round round = (ends, events)) : Settled events ∧ (ends = .next → Balanced events) := by
    have hsettled := settled_of_round c round
    rwa [h] at hsettled
  fun_induction Runner.loop with
  | case1 => exact settled_sent []
  | case2 _ _ _ _ hends | case3 _ _ _ hends => exact (hround hends).1
  | case4 _ _ _ hends ih => exact settled_append (hround hends).1 ((hround hends).2 rfl) ih

/-- In every run of `Run`, any number of workers, any schedule and any outcomes of the handler. -/
theorem run_atLeastOnce (c : Runner) (rounds : List RunRound) :
    AtLeastOnce (c.run rounds).events := by
  have hsettled : Settled (c.run rounds).events := by
    rw [Runner.run]
    split
    · exact settled_sent []
    · exact settled_loop c rounds
  intro before request after heq pk n _ r _ _
  exact ((hsettled before request after heq).count_eq r).ge

/-- A round with two records of a partition, the second of which is processed first. -/
def swappedRound : RunRound where
  polled := .ok [{ topic := [116], partition := 0, offset := 5 },
    { topic := [116], partition := 0, offset := 6 }]
  schedule := [.finish 1 none, .report 0, .finish 0 none, .report 0]
  member := { member := newMember }
  attempt _ := { answer := .ok 0, rejoin := joinIn 7 (.ok []) }

/-- The last record processed is the first one polled, so offset 6 is committed after both. -/
theorem run_atLeastOnce_two : ((Runner.run { workers := 2 } [swappedRound]).events.filterMap fun
      | .sent request => some (request.offsets.lookup ⟨[116], 0⟩)
      | _ => none) = [some 6] ∧
    (succeeded (Runner.run { workers := 2 } [swappedRound]).events).map (·.offset) = [6, 5] ∧
    AtLeastOnce (Runner.run { workers := 2 } [swappedRound]).events :=
  ⟨by decide +kernel, by decide +kernel, run_atLeastOnce _ _⟩

end GoKafka
