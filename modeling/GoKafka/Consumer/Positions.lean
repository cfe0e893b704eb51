import GoKafka.Consumer.Delivery

/-!
# The delivered position

A position moves in two ways: a round of Poll advances it past what the round delivered, and a call
outside Poll puts it somewhere (`Seek`, or a rebalance with the committed offsets it loads), also
while the fetches of a round are under way (`Move`). A run is a list of steps; its `history` is the
list of the updates it makes. `pollAmid_moves` is what one round guarantees where the entries of a
partition come from one node, in order: a position that it moves passes only records that it
returned. Over a stretch of a history in which nothing puts the position of a partition, every
offset it passes was passed by a round (`Chained.passed`), so that a Commit without records, which
sends the positions (`offsetsToCommit`), never commits past a record that Poll did not return.
-/

namespace GoKafka

open Assoc Cut List

/-! ## Positions -/

namespace Assignments

/-- The position of a partition, if it is assigned. -/
def position (s : Assignments) (pk : PartKey) : Option Int64 :=
  (index (·.partKey) (·.offset) s.list).lookup pk

theorem position_of_mem {s : Assignments} (ha : a ∈ s.list) :
    s.position a.partKey = some a.offset :=
  lookup_index_of_nodup s.nodup ha

theorem exists_of_position {s : Assignments} (h : s.position pk = some f) :
    ∃ a ∈ s.list, a.partKey = pk ∧ a.offset = f := by
  rw [position, lookup_index] at h
  obtain ⟨a, hlast, hoffset⟩ := Option.map_eq_some_iff.1 h
  obtain ⟨ha, hkey⟩ := mem_filter.1 (mem_of_getLast? hlast)
  exact ⟨a, ha, of_decide_eq_true hkey, hoffset⟩

/-- The assignments after a Seek; an error leaves the positions. -/
def seek (s : Assignments) (topic : Bytes) (partition : Int32) (offset : Int64) : Assignments where
  list := ((GoKafka.seek topic partition offset s.list).toOption).getD s.list
  nodup := by
    rw [GoKafka.seek]
    split_ifs
    · exact (map_partKey_putOffset).symm ▸ s.nodup
    · exact s.nodup

end Assignments

/-- The offsets a Commit sends (`commitOffsets`): one past each record, or without records the
positions. -/
def offsetsToCommit (s : Assignments) (records : List Record) : AList fun _ : PartKey => Int64 :=
  if records = [] then index (·.partKey) (·.offset) s.list
  else index (·.partKey) (·.offset + 1) records

/-! ## Runs -/

/-- A call that puts positions: `Seek`, or a rebalance that ends with the assignments `s`. -/
inductive Move where
  | seek (topic : Bytes) (partition : Int32) (offset : Int64)
  | assign (s : Assignments)

/-- The assignments after the call. -/
def Move.apply : Move → Assignments → Assignments
  | .seek topic partition offset, s => s.seek topic partition offset
  | .assign s', _ => s'

/-- A step of a consumer: a round of Poll with the calls that meet it between its fetches and its
advance, or a call between rounds. A Poll that rebalances is the failed round, the rebalance and the
round after it. -/
inductive ConsumerStep where
  | poll (env : PollEnv) (mid : List Move)
  | move (m : Move)

/-- A round of a run: what it met, the assignments its fetches were issued from, those when the
responses had arrived, the records it returned and the assignments after it. -/
structure Visit where
  env : PollEnv
  start : Assignments
  moved : Assignments
  records : List Record
  after : Assignments

/-- An update of the assignments: by a call that puts positions, or by a round. -/
inductive Update where
  | put (before after : Assignments)
  | visit (v : Visit)

def Update.before : Update → Assignments
  | .put before _ => before
  | .visit v => v.moved

def Update.after : Update → Assignments
  | .put _ after => after
  | .visit v => v.after

/-- The assignments after updates. -/
def lastState (s : Assignments) : List Update → Assignments
  | [] => s
  | u :: us => lastState u.after us

/-- The updates of calls. -/
def puts : Assignments → List Move → List Update
  | _, [] => []
  | s, m :: ms => .put s (m.apply s) :: puts (m.apply s) ms

/-- A round of Poll that the calls meet. -/
def visit (C : Codecs) (maxPoll : Nat) (env : PollEnv) (s : Assignments) (mid : List Move) :
    Visit :=
  let moved := lastState s (puts s mid)
  let result := pollAmid C maxPoll env s moved
  { env := env, start := s, moved := moved, records := returned result.1, after := result.2 }

/-- The updates of a run. -/
def history (C : Codecs) (maxPoll : Nat) : Assignments → List ConsumerStep → List Update
  | _, [] => []
  | s, .move m :: steps => .put s (m.apply s) :: history C maxPoll (m.apply s) steps
  | s, .poll env mid :: steps =>
    puts s mid ++ .visit (visit C maxPoll env s mid) ::
      history C maxPoll (visit C maxPoll env s mid).after steps

/-- Each update starts from the assignments the one before it left. -/
inductive Chained : Assignments → List Update → Prop
  | nil {s : Assignments} : Chained s []
  | cons {u : Update} {us : List Update} (h : Chained u.after us) : Chained u.before (u :: us)

theorem lastState_append (s : Assignments) :
    lastState s (us ++ us') = lastState (lastState s us) us' := by
  induction us generalizing s with
  | nil => rfl
  | cons u us ih => exact ih u.after

variable {s : Assignments}

theorem chained_append : Chained s (us ++ us') ↔ Chained s us ∧ Chained (lastState s us) us' := by
  induction us generalizing s with
  | nil => exact ⟨fun h => ⟨.nil, h⟩, fun h => h.2⟩
  | cons u us ih =>
    constructor
    · rintro (_ | hrest)
      exact ⟨.cons (ih.1 hrest).1, (ih.1 hrest).2⟩
    · rintro ⟨_ | hfirst, hrest⟩
      exact .cons (ih.2 ⟨hfirst, hrest⟩)

theorem chained_puts (s : Assignments) : Chained s (puts s ms) := by
  induction ms generalizing s with
  | nil => exact .nil
  | cons m ms ih => exact .cons (u := .put s (m.apply s)) (ih (m.apply s))

theorem chained_history (C : Codecs) (maxPoll : Nat) (s : Assignments)
    (steps : List ConsumerStep) : Chained s (history C maxPoll s steps) := by
  induction steps generalizing s with
  | nil => exact .nil
  | cons step steps ih =>
    cases step with
    | move m => exact .cons (u := .put s (m.apply s)) (ih (m.apply s))
    | poll env mid =>
      exact chained_append.2 ⟨chained_puts s, .cons (u := .visit (visit C maxPoll env s mid))
        (ih (visit C maxPoll env s mid).after)⟩

theorem mem_history (h : .visit v ∈ history C maxPoll s steps) :
    v.records = returned (pollAmid C maxPoll v.env v.start v.moved).1 ∧
      v.after = (pollAmid C maxPoll v.env v.start v.moved).2 := by
  have hputs : ∀ s ms, .visit v ∉ puts s ms := by
    intro s ms hmem
    induction ms generalizing s with
    | nil => cases hmem
    | cons m ms ih =>
      rcases mem_cons.1 hmem with heq | hmem
      · cases heq
      · exact ih _ hmem
  induction steps generalizing s with
  | nil => cases h
  | cons step steps ih =>
    cases step with
    | move m =>
      rcases mem_cons.1 h with heq | h
      · cases heq
      · exact ih h
    | poll env mid =>
      rcases mem_append.1 h with h | h
      · exact (hputs s mid h).elim
      · rcases mem_cons.1 h with heq | h
        · cases heq
          exact ⟨rfl, rfl⟩
        · exact ih h

/-! ## What one round guarantees -/

/-- The decoded responses of a round, node by node. -/
def decodedResponses (C : Codecs) (env : PollEnv) (s : Assignments) :
    Except Error (List (List FetchedRecord)) := do
  let fetches ← buildFetches env s.list
  decodeResponses C env (nodeFetches env fetches)

theorem fetchedRecords_eq_ok (h : fetchedRecords C env s = .ok fetched) :
    ∃ lists, decodedResponses C env s = .ok lists ∧ lists.flatten = fetched := by
  obtain ⟨fetches, hbuild, h⟩ := bind_eq_ok.1 h
  obtain ⟨lists, hdec, h⟩ := bind_eq_ok.1 h
  exact ⟨lists, bind_eq_ok.2 ⟨fetches, hbuild, hdec⟩, Except.ok.inj h⟩

/-- The entries of a partition come from one node, in increasing order. -/
structure NodeOrder (lists : List (List FetchedRecord)) : Prop where
  increasing : ∀ l ∈ lists, l.Pairwise fun r r' => r.partKey = r'.partKey → r.offset < r'.offset
  oneNode : lists.Pairwise fun l l' => ∀ r ∈ l, ∀ r' ∈ l', r.partKey ≠ r'.partKey

instance (lists : List (List FetchedRecord)) : Decidable (NodeOrder lists) :=
  decidable_of_iff
    ((∀ l ∈ lists, l.Pairwise fun r r' => r.partKey = r'.partKey → r.offset < r'.offset) ∧
      lists.Pairwise fun l l' => ∀ r ∈ l, ∀ r' ∈ l', r.partKey ≠ r'.partKey)
    ⟨fun h => ⟨h.1, h.2⟩, fun h => ⟨h.increasing, h.oneNode⟩⟩

theorem NodeOrder.flatten (h : NodeOrder lists) :
    lists.flatten.Pairwise fun r r' => r.partKey = r'.partKey → r.offset < r'.offset :=
  List.pairwise_flatten.2 ⟨h.increasing, h.oneNode.imp fun hne r hr r' hr' hkey =>
    (hne r hr r' hr' hkey).elim⟩

/-- The responses of a round are in order. -/
def Visit.Ordered (C : Codecs) (v : Visit) : Prop :=
  ∀ lists, decodedResponses C v.env v.start = .ok lists → NodeOrder lists

/-- The data entries of the round's responses for the partition, from `f` on and below `n`, were
returned. -/
def Visit.Returned (C : Codecs) (v : Visit) (pk : PartKey) (f n : Int64) : Prop :=
  ∀ fetched, fetchedRecords C v.env v.start = .ok fetched → ∀ fr ∈ fetched, fr.isData = true →
    fr.partKey = pk → f ≤ fr.offset → fr.offset < n →
    ∃ rec ∈ v.records, (fetchItem fr).record = some rec

theorem record_of_isData (h : fr.isData = true) : ∃ rec, (fetchItem fr).record = some rec :=
  Option.isSome_iff_exists.1 ((hasRecord_fetchItem).trans h)

/-- An update by `advanceDelivered`: the position moves to the cursor, forward. -/
theorem position_advanceDelivered (hf : s.position pk = some f) :
    (advanceDelivered s start cursor).position pk = some f ∨
      ∃ n, (advanceDelivered s start cursor).position pk = some n ∧ f < n ∧
        cursor.lookup pk = some n := by
  obtain ⟨a, ha, rfl, rfl⟩ := s.exists_of_position hf
  have hafter : a.advance (index (·.partKey) (·.offset) start) cursor ∈
      (advanceDelivered s start cursor).list := mem_map_of_mem ha
  have hpos := Assignments.position_of_mem hafter
  rw [PartitionOffset.partKey_advance] at hpos
  rw [hpos, PartitionOffset.advance]
  cases hcursor : cursor.lookup a.partKey with
  | none => exact .inl rfl
  | some n =>
    dsimp only
    split_ifs with hlt
    · exact .inr ⟨n, rfl, hlt.2, rfl⟩
    · exact .inl rfl

/-- A round leaves a position, or moves it forward past records that it returned. -/
theorem pollAmid_moves (hmax : maxPoll ≠ 0) {v : Visit}
    (hrecords : v.records = returned (pollAmid C maxPoll v.env v.start v.moved).1)
    (hafter : v.after = (pollAmid C maxPoll v.env v.start v.moved).2) (hordered : v.Ordered C)
    (hf : v.moved.position pk = some f) :
    v.after.position pk = some f ∨
      ∃ n, v.after.position pk = some n ∧ f < n ∧ v.Returned C pk f n := by
  simp only [Visit.Returned, hrecords, hafter]
  rcases pollAmid_cases hmax with ⟨-, hsame⟩ | ⟨fetched, hfetched, hround⟩
  · rw [hsame]
    exact .inl hf
  · rw [hround]
    rcases position_advanceDelivered hf with hsame | ⟨n, hn, hlt, hcursor⟩
    · exact .inl hsame
    · refine .inr ⟨n, hn, hlt, fun _ heq fr hfr hdata hkey _ hfrn => ?_⟩
      cases hfetched.symm.trans heq
      rw [lookup_index] at hcursor
      obtain ⟨last, hlast, rfl⟩ := Option.map_eq_some_iff.1 hcursor
      obtain ⟨hlmem, hlkey⟩ := mem_filter.1 (mem_of_getLast? hlast)
      obtain ⟨rec, hrec⟩ := record_of_isData hdata
      refine ⟨rec, mem_filterMap.2 ⟨fr, ?_, hrec⟩, hrec⟩
      -- an entry behind the last one taken has a larger offset
      obtain ⟨lists, hlists, rfl⟩ := fetchedRecords_eq_ok hfetched
      have hinc := (hordered lists hlists).flatten
      obtain ⟨rest, hrest⟩ := cut_isPrefixOf (p := FetchedRecord.isData) maxPoll lists.flatten
      rw [← hrest] at hfr hinc
      rcases mem_append.1 hfr with hfr | hfr
      · exact hfr
      · have hbehind := (pairwise_append.1 hinc).2.2 last hlmem fr hfr
          ((of_decide_eq_true hlkey).trans hkey.symm)
        exact absurd hbehind (not_lt.2 (le_of_lt_add_one hfrn))

/-! ## What a run guarantees -/

/-- Nothing but rounds moves the position of the partition. -/
def OnlyPolled (pk : PartKey) (us : List Update) : Prop :=
  ∀ before after, .put before after ∈ us → after.position pk = before.position pk

/-- Where only rounds move a position, each offset it passes was passed by a round. -/
theorem Chained.passed (h : Chained s us) (hpolled : OnlyPolled pk us)
    (hmoves : ∀ v, .visit v ∈ us → ∀ f, v.moved.position pk = some f →
      v.after.position pk = some f ∨
        ∃ n, v.after.position pk = some n ∧ f < n ∧ v.Returned C pk f n)
    (hstart : s.position pk = some start) (hn : (lastState s us).position pk = some n)
    (hlow : start ≤ o) (hhigh : o < n) :
    ∃ v f n', .visit v ∈ us ∧ v.moved.position pk = some f ∧ v.after.position pk = some n' ∧
      f ≤ o ∧ o < n' ∧ v.Returned C pk f n' := by
  induction h generalizing start with
  | nil =>
    rw [lastState, hstart, Option.some_inj] at hn
    exact absurd (hlow.trans_lt hhigh) (hn ▸ lt_irrefl start)
  | @cons u us h ih =>
    -- below the offset, a later update passes it
    have hlater : ∀ {m}, u.after.position pk = some m → m ≤ o →
        ∃ v f n', .visit v ∈ u :: us ∧ v.moved.position pk = some f ∧
          v.after.position pk = some n' ∧ f ≤ o ∧ o < n' ∧ v.Returned C pk f n' := by
      intro m hm hle
      obtain ⟨v, f, n', hv, hpassed⟩ := ih
        (fun before after hput => hpolled before after (mem_cons_of_mem _ hput))
        (fun v hv => hmoves v (mem_cons_of_mem _ hv)) hm hn hle
      exact ⟨v, f, n', mem_cons_of_mem _ hv, hpassed⟩
    cases u with
    | put before after =>
      exact hlater ((hpolled before after mem_cons_self).trans hstart) hlow
    | visit v =>
      rcases hmoves v mem_cons_self start hstart with hsame | ⟨m, hm, -, hreturned⟩
      · exact hlater hsame hlow
      · rcases le_or_gt m o with hle | hgt
        · exact hlater hm hle
        · exact ⟨v, start, m, mem_cons_self, hstart, hm, hlow, hgt, hreturned⟩

theorem maxPollRecords_ne_zero : maxPollRecords configured ≠ 0 := by
  rw [maxPollRecords]
  split_ifs <;> omega

/-- Over any run: a round that moves a position from `f` to `n` returned every data entry of its
responses in between; and a Commit without records, anywhere in the run, sends for a partition an
offset of which everything below was passed by such rounds, down to where the position was last
put. -/
theorem commit_returned (C : Codecs) (configured : Int) (s : Assignments)
    (steps : List ConsumerStep)
    (hordered : ∀ v, .visit v ∈ history C (maxPollRecords configured) s steps → v.Ordered C) :
    (∀ v, .visit v ∈ history C (maxPollRecords configured) s steps →
      ∀ pk f n, v.moved.position pk = some f → v.after.position pk = some n → f ≠ n →
        f < n ∧ v.Returned C pk f n) ∧
    ∀ earlier since later,
      history C (maxPollRecords configured) s steps = earlier ++ since ++ later →
      ∀ pk, OnlyPolled pk since →
      ∀ start, (lastState s earlier).position pk = some start →
      ∀ n, (offsetsToCommit (lastState s (earlier ++ since)) []).lookup pk = some n →
      ∀ o, start ≤ o → o < n → ∃ v f n', .visit v ∈ since ∧
        v.moved.position pk = some f ∧ v.after.position pk = some n' ∧ f ≤ o ∧ o < n' ∧
        v.Returned C pk f n' := by
  have hmoves : ∀ v, .visit v ∈ history C (maxPollRecords configured) s steps → ∀ pk f,
      v.moved.position pk = some f → v.after.position pk = some f ∨
        ∃ n, v.after.position pk = some n ∧ f < n ∧ v.Returned C pk f n := by
    intro v hv pk f hf
    obtain ⟨hrecords, hafter⟩ := mem_history hv
    exact pollAmid_moves maxPollRecords_ne_zero hrecords hafter (hordered v hv) hf
  refine ⟨?_, ?_⟩
  · intro v hv pk f n hf hn hne
    rcases hmoves v hv pk f hf with hsame | ⟨m, hm, hlt, hreturned⟩
    · rw [hn, Option.some_inj] at hsame
      exact absurd hsame.symm hne
    · obtain rfl : n = m := Option.some_inj.1 (hn.symm.trans hm)
      exact ⟨hlt, hreturned⟩
  · intro earlier since later hsplit pk hpolled start hstart n hn o hlow hhigh
    have hchain := chained_history C (maxPollRecords configured) s steps
    rw [hsplit] at hchain hmoves
    have hsince := (chained_append.1 (chained_append.1 hchain).1).2
    rw [lastState_append] at hn
    exact hsince.passed hpolled
      (fun v hv => hmoves v (mem_append_left _ (mem_append_right _ hv)) pk)
      hstart hn hlow hhigh

/-- A seek to offset 0 and a round with a limit of one record. -/
def seekThenPoll : List Update :=
  history shortCodecs (maxPollRecords 1) (consumerAt 5)
    [.move (.seek [116] 0 0), .poll twoRecordEnv []]

/-- The position 1 that a Commit then sends was reached by a round that returned the record at
offset 0. -/
theorem commit_returned_one :
    (offsetsToCommit (lastState (consumerAt 5) seekThenPoll) []).lookup ⟨[116], 0⟩ = some 1 ∧
    ∃ v f n, .visit v ∈ seekThenPoll ∧ v.moved.position ⟨[116], 0⟩ = some f ∧
      v.after.position ⟨[116], 0⟩ = some n ∧ f ≤ 0 ∧ 0 < n ∧
      v.Returned shortCodecs ⟨[116], 0⟩ f n := by
  let sought := Move.apply (.seek [116] 0 0) (consumerAt 5)
  let round := visit shortCodecs (maxPollRecords 1) twoRecordEnv sought []
  have hrun : seekThenPoll = [.put (consumerAt 5) sought, .visit round] := rfl
  have hordered : ∀ v, .visit v ∈ seekThenPoll → v.Ordered shortCodecs := by
    intro v hv lists hlists
    rw [hrun] at hv
    obtain rfl : v = round := by simpa using hv
    have hall : (decodedResponses shortCodecs twoRecordEnv sought).toOption.all
        (fun lists => decide (NodeOrder lists)) = true := by decide +kernel
    rw [show decodedResponses shortCodecs twoRecordEnv sought = .ok lists from hlists] at hall
    exact of_decide_eq_true hall
  have hcommit : (offsetsToCommit (lastState (consumerAt 5) seekThenPoll) []).lookup ⟨[116], 0⟩ =
      some 1 := by decide +kernel
  have hpolled : OnlyPolled ⟨[116], 0⟩ [.visit round] := by
    intro before after hput
    cases mem_singleton.1 hput
  obtain ⟨v, f, n, hv, hpassed⟩ := (commit_returned shortCodecs 1 (consumerAt 5) _ hordered).2
    [.put (consumerAt 5) sought] [.visit round] [] rfl ⟨[116], 0⟩ hpolled 0 (by decide +kernel)
    1 hcommit 0 (by decide) (by decide)
  refine ⟨hcommit, v, f, n, ?_, hpassed⟩
  exact mem_cons_of_mem _ hv

end GoKafka
