import GoKafka.Consumer.Joined
import GoKafka.Protocol.Totals

/-!
# The JoinGroup requests of a join

The join loop of `joinAndAssign` request by request. The outer loop counts its rounds, at most 20;
the inner loop sends JoinGroup again, without counting, as long as the broker answers
MEMBER_ID_REQUIRED. `joinRequests` runs both loops on a stream of answers, for as many requests as
its fuel allows, and where they end they are `joinLoop` of the rounds that these answers make
(`joinRequests_eq_joinLoop`). The number of requests is bounded if and only if one of the answers
ends the call, whatever else happens, or 20 of them are not MEMBER_ID_REQUIRED
(`joinGroupBounded_iff`).
-/

namespace GoKafka

open Assoc

/-! ## The program -/

/-- What comes back for a JoinGroup request: its failure, or the two results of
`DecodeJoinGroupResponse`. -/
inductive JoinAnswer where
  | failed (e : Error)
  | decoded (joined : JoinGroupResponse) (err : Option Error)

/-- The answer in the bytes of a response. -/
def JoinAnswer.ofResponse (ver : Int16) : Except Error Bytes → JoinAnswer
  | .error e => .failed e
  | .ok rb =>
    match decodeJoinGroupResponseFlex ver rb with
    | .error e => .decoded ⟨0, [], [], "", ∅⟩ (some e)
    | .ok (joined, err) => .decoded joined err

/-- The body of the inner loop: the end of the round, or none when the loop goes on. -/
def GroupMember.joinRequest (m : GroupMember) (a : JoinAttempt) :
    JoinAnswer → Option Attempted × GroupMember
  | .failed e => (some (.failed e), m)
  | .decoded joined none =>
    (m.joinAttempt { a with required := [], joined := .ok joined }).map some id
  | .decoded joined (some e) =>
    if e = errMemberIDRequired then (none, { m with memberID := joined.memberID })
    else (m.joinAttempt { a with required := [], joined := .error e }).map some id

/-- The two loops, from a request on and with the rounds that are left: the number of requests and
the end of the loops, unless more requests are sent than the fuel allows. -/
def joinRequests (answer : Nat → JoinAnswer) (attempt : Nat → JoinAttempt) :
    Nat → Nat → Nat → Nat → GroupMember → Option (Nat × JoinLoop)
  | _, sent, 0, _, m => some (sent, { result := .ok [], member := m })
  | 0, _, _ + 1, _, _ => none
  | fuel + 1, sent, left + 1, i, m =>
    match m.joinRequest (attempt i) (answer sent) with
    | (none, m) => joinRequests answer attempt fuel (sent + 1) (left + 1) i m
    | (some (.failed e), m) => some (sent + 1, { result := .error e, member := m })
    | (some (.synced generation raw), m) =>
      some (sent + 1, { result := .ok raw, member := m, syncs := [(generation, raw)] })
    | (some .again, m) => joinRequests answer attempt fuel (sent + 1) left (i + 1) m

/-- The number of JoinGroup requests of `joinAndAssign`, up to the fuel. -/
def GroupMember.joinGroupRequests (m : GroupMember) (answer : Nat → JoinAnswer) (env : JoinEnv)
    (fuel : Nat) : Option Nat :=
  if m.nextGen then some 0
  else if m.topicRegex ≠ [] then some 0
  else
    match m.prepare env with
    | .error _ => some 0
    | .ok m => (joinRequests answer env.attempt fuel 0 20 0 m).map (·.1)

/-- Whatever the member and everything else it meets, `joinAndAssign` returns after a number of
JoinGroup requests that only depends on their answers. -/
def JoinGroupBounded (answer : Nat → JoinAnswer) : Prop :=
  ∃ bound, ∀ (m : GroupMember) (env : JoinEnv), (m.joinGroupRequests answer env bound).isSome

/-! ## Answers -/

/-- MEMBER_ID_REQUIRED. -/
def JoinAnswer.asksForID : JoinAnswer → Bool
  | .decoded _ (some e) => e = errMemberIDRequired
  | _ => false

/-- The answer ends the call: the request fails, its error is not retried, or the member is the
leader and cannot read the subscription of a member. -/
def JoinAnswer.Ends : JoinAnswer → Prop
  | .failed _ => True
  | .decoded _ (some e) => e ≠ errMemberIDRequired ∧ e.apiCode.any coordinatorRetriable = false
  | .decoded joined none => joined.memberID = joined.leaderID ∧
    ∃ mid ∈ joined.assignments, ∃ e,
      decodeConsumerSubscription ((joined.assignments.lookup mid).getD []) = .error e

/-- The number of answers before a request that are not MEMBER_ID_REQUIRED. -/
def roundsBefore (answer : Nat → JoinAnswer) (sent : Nat) : Nat :=
  (List.range sent).countP fun j => !(answer j).asksForID

theorem roundsBefore_succ (answer : Nat → JoinAnswer) (sent : Nat) :
    roundsBefore answer (sent + 1) =
      roundsBefore answer sent + if (answer sent).asksForID then 0 else 1 := by
  rw [roundsBefore, List.range_succ, List.countP_append, ← roundsBefore]
  cases hask : (answer sent).asksForID <;> simp [hask]

variable {answer : JoinAnswer}

/-- The inner loop goes on when the broker asks for an id. -/
theorem joinRequest_of_asksForID (h : answer.asksForID = true) (m : GroupMember) :
    ∃ joined : JoinGroupResponse,
      m.joinRequest a answer = (none, { m with memberID := joined.memberID }) := by
  cases answer with
  | failed e => cases h
  | decoded joined err =>
    cases err with
    | none => cases h
    | some e =>
      obtain rfl := of_decide_eq_true h
      refine ⟨joined, ?_⟩
      rw [GroupMember.joinRequest, if_pos rfl]

/-- Otherwise the round is over. -/
theorem joinRequest_of_not_asksForID (h : answer.asksForID = false) (m : GroupMember) :
    ∃ r m', m.joinRequest a answer = (some r, m') := by
  cases answer with
  | failed e => exact ⟨_, _, rfl⟩
  | decoded joined err =>
    cases err with
    | none => exact ⟨_, _, rfl⟩
    | some e => exact ⟨_, _, if_neg (of_decide_eq_false h)⟩

theorem asksForID_of_joinRequest (h : GroupMember.joinRequest m a answer = (r, m')) :
    answer.asksForID = r.isNone := by
  cases hask : answer.asksForID with
  | true =>
    obtain ⟨joined, hnone⟩ := joinRequest_of_asksForID hask m
    cases h.symm.trans hnone
    rfl
  | false =>
    obtain ⟨r', m'', hsome⟩ := joinRequest_of_not_asksForID hask m
    cases h.symm.trans hsome
    rfl

/-! ## The rounds of the answers -/

/-- The join loop from a round on meets the attempts from there on. -/
theorem joinLoop_congr {attempt attempt' : Nat → JoinAttempt} {left i : Nat}
    (h : ∀ j, i ≤ j → attempt j = attempt' j) (m : GroupMember) :
    joinLoop attempt left i m = joinLoop attempt' left i m := by
  induction left generalizing i m with
  | zero => rfl
  | succ left ih =>
    rw [joinLoop, joinLoop, h i le_rfl]
    split
    · rfl
    · rfl
    · exact ih (fun j hj => h j (Nat.le_of_succ_le hj)) _

/-- Attempts that differ from the given ones in the answers to JoinGroup only. -/
def Answered (attempt attempt' : Nat → JoinAttempt) : Prop :=
  ∀ j, ∃ required joined, attempt' j = { attempt j with required := required, joined := joined }

theorem Answered.update {attempt attempt' : Nat → JoinAttempt} (h : Answered attempt attempt')
    (i : Nat) (required : List Bytes) (joined : Except Error JoinGroupResponse) :
    Answered attempt (Function.update attempt' i
      { attempt i with required := required, joined := joined }) := by
  intro j
  by_cases hj : j = i
  · subst hj
    exact ⟨required, joined, Function.update_self ..⟩
  · rw [Function.update_of_ne hj]
    exact h j

/-- An answer that ends a round makes the round of `joinAttempt`. -/
theorem joinRequest_eq_joinAttempt {answer : JoinAnswer} {m m' : GroupMember} {a : JoinAttempt}
    {r : Attempted} (hfailed : ∀ e, answer = .failed e → e.apiCode.any coordinatorRetriable = false)
    (h : m.joinRequest a answer = (some r, m')) :
    ∃ joined, m.joinAttempt { a with required := [], joined := joined } = (r, m') := by
  cases answer with
  | failed e =>
    refine ⟨.error e, ?_⟩
    cases h
    simp [GroupMember.joinAttempt, hfailed e rfl]
  | decoded joined err =>
    cases err with
    | none =>
      cases h
      exact ⟨.ok joined, rfl⟩
    | some e =>
      rw [GroupMember.joinRequest] at h
      split at h
      · cases h
      · obtain ⟨hr, hm⟩ := Prod.mk.inj h
        exact ⟨.error e, Prod.ext (Option.some.inj hr) hm⟩

/-- Where the two loops end, they end as `joinLoop` does on rounds made of the answers, as long as
no request fails with a code of the coordinator. -/
theorem joinRequests_eq_joinLoop {answer : Nat → JoinAnswer} {attempt : Nat → JoinAttempt}
    (hfailed : ∀ k e, answer k = .failed e → e.apiCode.any coordinatorRetriable = false)
    {fuel sent left i n : Nat} {m : GroupMember} {loop : JoinLoop}
    (h : joinRequests answer attempt fuel sent left i m = some (n, loop)) :
    ∃ attempt', Answered attempt attempt' ∧ joinLoop attempt' left i m = loop := by
  have hown : Answered attempt attempt := fun j => ⟨_, _, rfl⟩
  fun_induction joinRequests with
  | case1 =>
    cases h
    exact ⟨attempt, hown, rfl⟩
  | case2 => cases h
  | case3 fuel sent left i m m' hrequest ih =>
    obtain ⟨attempt', hsame, hloop⟩ := ih h
    obtain ⟨joined, hnone⟩ :=
      @joinRequest_of_asksForID _ (attempt i) (asksForID_of_joinRequest hrequest) m
    cases hrequest.symm.trans hnone
    obtain ⟨required, last, hi⟩ := hsame i
    -- the id stands before those of the same round
    refine ⟨_, hsame.update i (joined.memberID :: required) last, ?_⟩
    have hround : m.joinAttempt { attempt i with
          required := joined.memberID :: required, joined := last } =
        GroupMember.joinAttempt { m with memberID := joined.memberID } (attempt' i) := by
      rw [hi]
      simp only [GroupMember.joinAttempt, List.getLast?_cons, Option.getD_some]
      rfl
    rw [← hloop, joinLoop, joinLoop, Function.update_self, hround]
    split
    · rfl
    · rfl
    · exact joinLoop_congr (fun j hj => Function.update_of_ne (by omega) ..) _
  | case4 _ sent _ i _ _ _ hrequest | case5 _ sent _ i _ _ _ _ hrequest =>
    cases h
    obtain ⟨joined, hround⟩ := joinRequest_eq_joinAttempt (hfailed sent) hrequest
    refine ⟨_, hown.update i [] joined, ?_⟩
    rw [joinLoop, Function.update_self, hround]
  | case6 _ sent _ i _ _ hrequest ih =>
    obtain ⟨joined, hround⟩ := joinRequest_eq_joinAttempt (hfailed sent) hrequest
    obtain ⟨attempt', hsame, hloop⟩ := ih h
    refine ⟨_, hsame.update i [] joined, ?_⟩
    rw [joinLoop, Function.update_self, hround, ← hloop]
    exact joinLoop_congr (fun j hj => Function.update_of_ne (by omega) ..) _

/-! ## The subscriptions that the leader reads -/

theorem memberSubscription_eq_error :
    memberSubscription mid raw = .error e ↔ decodeConsumerSubscription raw = .error e := by
  rw [memberSubscription]
  split
  · next e' he => rw [he, Except.error.injEq, Except.error.injEq]
  · next topics ht =>
    constructor
    · intro h
      cases h
    · intro h
      rw [ht] at h
      cases h

theorem mapM_fails_iff {ε α β : Type} {f : α → Except ε β} {xs : List α} :
    (∃ e, xs.mapM f = .error e) ↔ ∃ x ∈ xs, ∃ e, f x = .error e := by
  induction xs with
  | nil =>
    simp only [List.not_mem_nil, false_and, exists_false, iff_false]
    rintro ⟨e, h⟩
    cases h
  | cons x xs ih =>
    rw [List.mapM_cons, List.exists_mem_cons_iff, ← ih]
    cases hx : f x with
    | error e => exact ⟨fun _ => .inl ⟨e, rfl⟩, fun _ => ⟨e, rfl⟩⟩
    | ok b =>
      cases hxs : xs.mapM f with
      | error e => exact ⟨fun _ => .inr ⟨e, rfl⟩, fun _ => ⟨e, rfl⟩⟩
      | ok bs =>
        constructor
        · rintro ⟨e, h⟩
          cases h
        · rintro (⟨e, h⟩ | ⟨e, h⟩) <;> cases h

/-- An answer that ends the call. -/
theorem JoinAnswer.Ends.joinRequest (h : answer.Ends) (m : GroupMember) (a : JoinAttempt) :
    ∃ e m', m.joinRequest a answer = (some (.failed e), m') := by
  cases answer with
  | failed e => exact ⟨e, m, rfl⟩
  | decoded joined err =>
    cases err with
    | some e =>
      rw [GroupMember.joinRequest, if_neg h.1]
      simp [GroupMember.joinAttempt, h.2]
    | none =>
      obtain ⟨hleader, mid, hmid, e, he⟩ := h
      obtain ⟨e', he'⟩ := (@mapM_fails_iff _ _ _ (fun mid =>
        memberSubscription mid ((joined.assignments.lookup mid).getD []))
          (a.memberOrder.keys joined.assignments)).2
        ⟨mid, a.memberOrder.mem_keys.2 hmid, e, memberSubscription_eq_error.2 he⟩
      rw [GroupMember.joinRequest]
      simp [GroupMember.joinAttempt, GroupMember.syncAssignments, hleader, he', bind, Except.bind]

/-! ## Bounded -/

section Loops

variable {answer : Nat → JoinAnswer} {attempt : Nat → JoinAttempt}

theorem JoinAnswer.Ends.not_asksForID {a : JoinAnswer} (h : a.Ends) : a.asksForID = false := by
  cases a with
  | failed e => rfl
  | decoded joined err =>
    cases err with
    | none => rfl
    | some e => exact decide_eq_false h.1

theorem roundsBefore_of_joinRequest
    (h : GroupMember.joinRequest m a (answer sent) = (r, m')) :
    roundsBefore answer (sent + 1) = roundsBefore answer sent + r.elim 0 fun _ => 1 := by
  rw [roundsBefore_succ, asksForID_of_joinRequest h]
  cases r <;> rfl

/-- The loops do not get past an answer that ends the call. -/
theorem joinRequests_of_ends (hends : (answer k).Ends) (hsent : sent ≤ k) (hfuel : k < sent + fuel)
    (left i : Nat) (m : GroupMember) : (joinRequests answer attempt fuel sent left i m).isSome := by
  fun_induction joinRequests with
  | case1 | case4 | case5 => rfl
  | case2 => omega
  | case3 fuel sent left i m m' hrequest ih =>
    have hne : sent ≠ k := by
      rintro rfl
      cases hends.not_asksForID.symm.trans (asksForID_of_joinRequest hrequest)
    exact ih (by omega) (by omega)
  | case6 fuel sent left i m m' hrequest ih =>
    have hne : sent ≠ k := by
      rintro rfl
      obtain ⟨e, m'', hfailed⟩ := hends.joinRequest m (attempt i)
      cases hrequest.symm.trans hfailed
    exact ih (by omega) (by omega)

/-- The loops end when the rounds are used up. -/
theorem joinRequests_of_rounds (hfuel : sent + fuel = k)
    (hleft : roundsBefore answer sent + left ≤ roundsBefore answer k) (i : Nat) (m : GroupMember) :
    (joinRequests answer attempt fuel sent left i m).isSome := by
  fun_induction joinRequests with
  | case1 | case4 | case5 => rfl
  | case2 sent =>
    obtain rfl : sent = k := hfuel
    omega
  | case3 fuel sent left i m m' hrequest ih =>
    have hrounds : roundsBefore answer (sent + 1) = roundsBefore answer sent :=
      roundsBefore_of_joinRequest hrequest
    exact ih (by omega) (by omega)
  | case6 fuel sent left i m m' hrequest ih =>
    have hrounds : roundsBefore answer (sent + 1) = roundsBefore answer sent + 1 :=
      roundsBefore_of_joinRequest hrequest
    exact ih (by omega) (by omega)

theorem roundsBefore_le (h : joinRequests answer attempt fuel sent left i m = some (n, loop)) :
    roundsBefore answer n ≤ roundsBefore answer sent + left := by
  fun_induction joinRequests with
  | case1 =>
    cases h
    exact le_rfl
  | case2 => cases h
  | case3 fuel sent left i m m' hrequest ih =>
    have hrounds : roundsBefore answer (sent + 1) = roundsBefore answer sent :=
      roundsBefore_of_joinRequest hrequest
    exact (ih h).trans (by omega)
  | case4 _ sent _ _ _ _ _ hrequest | case5 _ sent _ _ _ _ _ _ hrequest =>
    have hrounds : roundsBefore answer (sent + 1) = roundsBefore answer sent + 1 :=
      roundsBefore_of_joinRequest hrequest
    cases h
    omega
  | case6 fuel sent left i m m' hrequest ih =>
    have hrounds : roundsBefore answer (sent + 1) = roundsBefore answer sent + 1 :=
      roundsBefore_of_joinRequest hrequest
    exact (ih h).trans (by omega)

/-- `joinAndAssign` sends at most 20 requests more than there are answers MEMBER_ID_REQUIRED. -/
theorem joinGroupRequests_le {m : GroupMember} (h : m.joinGroupRequests answer env fuel = some n) :
    n ≤ 20 + (List.range n).countP fun j => (answer j).asksForID := by
  rw [GroupMember.joinGroupRequests] at h
  split_ifs at h
  · cases h
    exact Nat.zero_le _
  · cases h
    exact Nat.zero_le _
  · split at h
    · cases h
      exact Nat.zero_le _
    · obtain ⟨⟨n, loop⟩, hloop, rfl⟩ := Option.map_eq_some_iff.1 h
      have hrounds : roundsBefore answer n ≤ 0 + 20 := roundsBefore_le hloop
      have hlen := List.length_eq_countP_add_countP (fun j => (answer j).asksForID)
        (l := List.range n)
      simp only [List.length_range, Bool.not_eq_true, Bool.decide_eq_false] at hlen
      rw [roundsBefore] at hrounds
      dsimp only
      omega

end Loops

/-! ## Not bounded -/

/-- A round whose SyncGroup asks to join again. -/
def syncAgain : JoinAttempt where
  joined := .error (.other "")
  brokers := groupBrokers
  sync _ := .error (.api "sync group" 27)

/-- A join all of whose rounds are repeated, if the answers to JoinGroup allow it. -/
def joinAgain : JoinEnv where
  brokers := groupBrokers
  attempt _ := syncAgain
  load := { fetched := fun _ => .error (.other "") }

/-- The broker asks for an id twice, and the third request fails. -/
def asksTwice (k : Nat) : JoinAnswer :=
  if k < 2 then .decoded ⟨0, [], [109, 49], "", ∅⟩ (some errMemberIDRequired)
  else .failed (.transport "EOF")

theorem joinGroupRequests_asksTwice :
    newMember.joinGroupRequests asksTwice joinAgain 5 = some 3 ∧
      3 ≤ 20 + (List.range 3).countP fun j => (asksTwice j).asksForID :=
  ⟨rfl, @joinGroupRequests_le asksTwice joinAgain 5 3 newMember rfl⟩

theorem syncAssignments_ok (h : ¬ (JoinAnswer.decoded joined none).Ends) (m : GroupMember) :
    ∃ r, m.syncAssignments syncAgain joined = .ok r := by
  rw [GroupMember.syncAssignments]
  split_ifs with hleader
  · exact ⟨_, rfl⟩
  · rw [not_not] at hleader
    have hmembers : ¬ ∃ e, (syncAgain.memberOrder.keys joined.assignments).mapM (fun mid =>
        memberSubscription mid ((joined.assignments.lookup mid).getD [])) = .error e := by
      rw [mapM_fails_iff]
      rintro ⟨mid, hmid, e, he⟩
      exact h ⟨hleader, mid, syncAgain.memberOrder.mem_keys.1 hmid, e,
        memberSubscription_eq_error.1 he⟩
    cases hread : (syncAgain.memberOrder.keys joined.assignments).mapM (fun mid =>
        memberSubscription mid ((joined.assignments.lookup mid).getD [])) with
    | error e => exact absurd ⟨e, hread⟩ hmembers
    | ok members =>
      cases hempty : members.isEmpty with
      | true =>
        exact ⟨_, bind_eq_ok.2 ⟨members, rfl, if_pos hempty⟩⟩
      | false =>
        have hrefresh : ∃ c, m.cluster.refresh
            (some (syncAgain.topicOrder.order (members.flatMap (·.topics)).dedup))
            syncAgain.brokers syncAgain.now = .ok c := ⟨_, rfl⟩
        obtain ⟨c, hc⟩ := hrefresh
        obtain ⟨out, hout, -⟩ := computeGroupAssignments_given (topicParts c.md)
        refine ⟨(out, c), bind_eq_ok.2 ⟨members, rfl, ?_⟩⟩
        rw [if_neg (by rw [hempty]; exact Bool.false_ne_true)]
        exact bind_eq_ok.2 ⟨c, hc, bind_eq_ok.2 ⟨out, hout, rfl⟩⟩

/-- Where the answer does not end the call, the round is repeated. -/
theorem joinRequest_syncAgain (hask : a.asksForID = false) (hends : ¬ a.Ends) (m : GroupMember) :
    ∃ m', m.joinRequest syncAgain a = (some .again, m') := by
  cases a with
  | failed e => exact absurd trivial hends
  | decoded joined err =>
    cases err with
    | some e =>
      have hne : e ≠ errMemberIDRequired := of_decide_eq_false hask
      have hretry : e.apiCode.any coordinatorRetriable = true := by
        cases h : e.apiCode.any coordinatorRetriable with
        | true => rfl
        | false => exact absurd ⟨hne, h⟩ hends
      rw [GroupMember.joinRequest, if_neg hne]
      simp [GroupMember.joinAttempt, hretry, lookupAgain, syncAgain]
    | none =>
      obtain ⟨⟨assignments, cluster⟩, hsync⟩ := syncAssignments_ok hends
        { m with memberID := joined.memberID, generation := joined.generationID }
      have hsync' : GroupMember.syncAssignments
          { m with memberID := joined.memberID, generation := joined.generationID }
          { syncAgain with required := [], joined := .ok joined } joined =
          .ok (assignments, cluster) := hsync
      refine ⟨{ m with
        memberID := joined.memberID, generation := joined.generationID, cluster := cluster }, ?_⟩
      rw [GroupMember.joinRequest, GroupMember.joinAttempt]
      dsimp only
      rw [hsync']
      rfl

theorem joinRequests_eq_none {answer : Nat → JoinAnswer} (hends : ∀ k, ¬ (answer k).Ends)
    {sent left : Nat} (hrounds : ∀ k, roundsBefore answer k < roundsBefore answer sent + left)
    (fuel i : Nat) (m : GroupMember) :
    joinRequests answer (fun _ => syncAgain) fuel sent left i m = none := by
  fun_induction joinRequests with
  | case1 => exact absurd (hrounds _) (Nat.lt_irrefl _)
  | case2 => rfl
  | case3 _ _ _ _ _ _ hrequest ih =>
    exact ih fun k => roundsBefore_of_joinRequest hrequest ▸ hrounds k
  | case4 _ sent _ _ m _ _ hrequest | case5 _ sent _ _ m _ _ _ hrequest =>
    obtain ⟨m', hagain⟩ :=
      joinRequest_syncAgain (asksForID_of_joinRequest hrequest) (hends sent) m
    cases hrequest.symm.trans hagain
  | case6 _ sent left _ _ _ hrequest ih =>
    refine ih fun k => ?_
    have hsucc : roundsBefore answer (sent + 1) = roundsBefore answer sent + 1 :=
      roundsBefore_of_joinRequest hrequest
    have := hrounds k
    omega

theorem not_bounded {answer : Nat → JoinAnswer} (hends : ∀ k, ¬ (answer k).Ends)
    (hrounds : ∀ k, roundsBefore answer k < 20) : ¬ JoinGroupBounded answer := by
  rintro ⟨bound, hbound⟩
  have hloop : ∃ m, newMember.joinGroupRequests answer joinAgain bound =
      (joinRequests answer (fun _ => syncAgain) bound 0 20 0 m).map (·.1) := ⟨_, rfl⟩
  obtain ⟨m, hm⟩ := hloop
  have hnone := @joinRequests_eq_none answer hends 0 20
    (fun k => (hrounds k).trans_le (Nat.le_add_left _ _)) bound 0 m
  have hsome := hbound newMember joinAgain
  rw [hm, hnone] at hsome
  cases hsome

/-- The number of JoinGroup requests is bounded if and only if one of the answers ends the call or
20 of them are not MEMBER_ID_REQUIRED. -/
theorem joinGroupBounded_iff (answer : Nat → JoinAnswer) : JoinGroupBounded answer ↔
      (∃ k, (answer k).Ends) ∨ ∃ k, 20 ≤ roundsBefore answer k := by
  constructor
  · rintro ⟨bound, hbound⟩
    by_contra hnot
    rw [not_or, not_exists, not_exists] at hnot
    exact not_bounded hnot.1 (fun k => not_le.1 (hnot.2 k)) ⟨bound, hbound⟩
  · intro h
    have hloop : ∃ bound, ∀ (m : GroupMember) (attempt : Nat → JoinAttempt),
        (joinRequests answer attempt bound 0 20 0 m).isSome := by
      rcases h with ⟨k, hends⟩ | ⟨k, hrounds⟩
      · exact ⟨k + 1, fun m attempt =>
          joinRequests_of_ends hends (Nat.zero_le k) (by omega) 20 0 m⟩
      · refine ⟨k, fun m attempt => joinRequests_of_rounds (Nat.zero_add k) ?_ 0 m⟩
        exact (Nat.zero_add 20).trans_le hrounds
    obtain ⟨bound, hbound⟩ := hloop
    refine ⟨bound, fun m env => ?_⟩
    rw [GroupMember.joinGroupRequests]
    split_ifs
    · rfl
    · rfl
    · split
      · rfl
      · rw [Option.isSome_map]
        exact hbound _ _

/-- The bytes of MEMBER_ID_REQUIRED with the id `m1`. -/
def memberIDRequired : Bytes :=
  [0, 0, 0, 0, 0, 79, 255, 255, 255, 255, 1, 1, 3, 109, 49, 1, 0]

/-- A broker that always answers MEMBER_ID_REQUIRED. -/
theorem joinGroup_unbounded : ¬ JoinGroupBounded fun _ => .ofResponse 6 (.ok memberIDRequired) := by
  have hask : (JoinAnswer.ofResponse 6 (.ok memberIDRequired)).asksForID = true := by
    decide +kernel
  refine not_bounded (fun k hends => ?_) fun k => ?_
  · rw [hends.not_asksForID] at hask
    cases hask
  · have hzero : roundsBefore (fun _ => .ofResponse 6 (.ok memberIDRequired)) k = 0 := by
      simp [roundsBefore, hask]
    rw [hzero]
    decide

end GoKafka
