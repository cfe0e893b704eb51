import GoKafka.Lib.Run
import GoKafka.Consumer.Share

/-!
# What a share consumer has still to acknowledge

With implicit acknowledgement a share consumer keeps the records that Poll returned
(`pendingAccept`) and accepts them in the next Poll; a record that the caller acknowledges itself is
taken out. `ShareLedger` runs calls of a consumer beside the set of delivered records for which no
terminal acknowledgement has succeeded: a request that a broker answers without an error
acknowledges the records that it names, whatever becomes of the call's other requests.

`pendingAccept_exact_iff` says along which runs the consumer's list is that set after every call.
Two steps break it. An implicit acceptance that fails has dropped the list before its first request
(`pendingAccept_forgets`), and a call that fails at one broker keeps the records that another broker
has acknowledged.
-/

namespace GoKafka

open Assoc List

/-! ## The ranges of a request -/

/-- The offset is in the range. -/
def ShareAckBatch.Has (b : ShareAckBatch) (o : Int64) : Prop :=
  b.firstOffset ≤ o ∧ o ≤ b.lastOffset

/-- What an offset that follows adds to those before it; the sum does not wrap. -/
theorem le_next_iff {next o : Int64} (hle : last ≤ next) (hnext : next = last + 1) :
    o ≤ next ↔ o ≤ last ∨ o = next := by
  subst hnext
  have hmax : last ≠ Int64.maxValue := by
    rintro rfl
    exact absurd hle (by decide)
  rw [Int64.le_iff_toInt_le, Int64.le_iff_toInt_le, ← Int64.toInt_inj, toInt_add_one hmax]
  omega

/-- The ranges from an open one on have its offsets and those to come. -/
theorem has_coalesceLoop (hfirst : first ≤ last) (hsorted : (last :: os).Pairwise (· ≤ ·)) :
    (∃ b ∈ coalesceLoop type first last os, b.Has o) ↔ (first ≤ o ∧ o ≤ last) ∨ o ∈ os := by
  fun_induction coalesceLoop type first last os with
  | case1 => simp [ShareAckBatch.Has]
  | case2 first last next os hjoins ih =>
    have hle : last ≤ next := rel_of_pairwise_cons hsorted mem_cons_self
    have hwider : o ≤ next ↔ o ≤ last ∨ o = next := by
      obtain rfl | hnext := hjoins
      · exact ⟨.inl, fun h => h.elim id le_of_eq⟩
      · exact le_next_iff hle hnext
    have hnext : o = next → first ≤ o := fun h => h ▸ hfirst.trans hle
    rw [ih (hfirst.trans hle) hsorted.of_cons, mem_cons, hwider, and_or_left,
      and_iff_right_of_imp hnext, or_assoc]
  | case3 first last next os hapart ih =>
    simp only [mem_cons, exists_eq_or_imp, ih le_rfl hsorted.of_cons]
    rw [ShareAckBatch.Has, le_antisymm_iff, and_comm (a := next ≤ o)]

/-- The ranges have the offsets, and no others. -/
theorem has_coalesceAckBatches (o : Int64) :
    (∃ b ∈ coalesceAckBatches offsets type, b.Has o) ↔ o ∈ offsets := by
  have hmem : o ∈ offsets.insertionSort (· ≤ ·) ↔ o ∈ offsets :=
    (perm_insertionSort _ offsets).mem_iff
  have hsorted := pairwise_insertionSort (· ≤ ·) offsets
  unfold coalesceAckBatches
  rw [← hmem]
  cases hsort : offsets.insertionSort (· ≤ ·) with
  | nil => simp
  | cons first os =>
    rw [hsort] at hsorted
    simp only [has_coalesceLoop le_rfl hsorted, mem_cons]
    rw [← le_antisymm_iff, eq_comm]

/-! ## What a call acknowledges -/

/-- The node that leads a partition. -/
def Cluster.leaderID (c : Cluster) (k : PartKey) : Int32 :=
  match c.leaderBroker k.topic k.part with
  | .ok b => b.nodeID
  | .error _ => 0

theorem ackEntries_ok (h : ackEntries c records = .ok entries) :
    entries.map (·.record) = records ∧ ∀ e ∈ entries, e.leader = c.leaderID e.record.partKey := by
  fun_induction ackEntries generalizing entries with
  | case1 =>
    cases h
    exact ⟨rfl, nofun⟩
  | case2 => cases h
  | case3 r rs id _ ih =>
    obtain ⟨b, hleader, h⟩ := bind_eq_ok.1 h
    obtain ⟨rest, hrest, h⟩ := bind_eq_ok.1 h
    cases h
    obtain ⟨hrecords, hleaders⟩ := ih hrest
    refine ⟨congrArg (r :: ·) hrecords, forall_mem_cons.2 ⟨?_, hleaders⟩⟩
    simp [Cluster.leaderID, hleader]

/-- The records of a broker's request. -/
def ackedBy (grouped : AList fun _ : Int32 => List AckEntry) (broker : Int32) : List RecordKey :=
  ((grouped.lookup broker).getD []).map (·.record.key3)

theorem mem_ackedBy :
    k ∈ ackedBy (Assoc.group (·.leader) entries) broker ↔
      ∃ e ∈ entries, e.leader = broker ∧ e.record.key3 = k := by
  simp [ackedBy, getD_lookup_group, and_assoc]

/-- The loop over the brokers leaves the list of pending records alone, and acknowledges what it
sent before its first failure. -/
theorem sendAcks_cases (env : AckEnv) (type : ShareAckType)
    (grouped : AList fun _ : Int32 => List AckEntry) (brokers : List Int32) (s : ShareConsumer)
    (hout : sendAcks env type grouped brokers s = out) :
    out.consumer.pendingAccept = s.pendingAccept ∧
    (out.err = none ∧ out.acked = brokers.flatMap (ackedBy grouped) ∨
      ∃ e done failed rest, out.err = some e ∧ brokers = done ++ failed :: rest ∧
        out.acked = done.flatMap (ackedBy grouped)) := by
  subst hout
  fun_induction sendAcks with
  | case1 => exact ⟨rfl, .inl ⟨rfl, rfl⟩⟩
  | case2 broker brokers _ _ _ _ e => exact ⟨rfl, .inr ⟨e, [], broker, brokers, rfl, rfl, rfl⟩⟩
  | case3 broker brokers s entries epoch request hok rest ih =>
    obtain ⟨hpending, ⟨herr, hacked⟩ | ⟨e, done, failed, after, herr, hsplit, hacked⟩⟩ := ih
    · exact ⟨hpending, .inl ⟨herr, congrArg (_ ++ ·) hacked⟩⟩
    · exact ⟨hpending, .inr ⟨e, broker :: done, failed, after, herr, congrArg (broker :: ·) hsplit,
        congrArg (_ ++ ·) hacked⟩⟩

/-- How `acknowledge` goes: all records are acknowledged, or it fails, the pending records stay, and
one of its records is not acknowledged. -/
theorem ShareConsumer.acknowledge_cases (s : ShareConsumer)
    (hout : s.acknowledge cfg env type records = out) :
    (out.err = none ∧ (∀ k, k ∈ out.acked ↔ k ∈ records.map (·.key3)) ∧
      out.consumer.pendingAccept =
        if type = .renew then s.pendingAccept else (s.clearPending cfg records).pendingAccept) ∨
    ∃ e, out.err = some e ∧ out.consumer.pendingAccept = s.pendingAccept ∧
      ∃ r ∈ records, r.key3 ∉ out.acked := by
  subst hout
  unfold ShareConsumer.acknowledge
  by_cases hnil : records = []
  · subst hnil
    rw [if_pos rfl]
    refine .inl ⟨rfl, fun k => Iff.rfl, ?_⟩
    have hclear : s.clearPending cfg [] = s := by
      unfold ShareConsumer.clearPending
      split_ifs <;> simp
    rw [hclear, ite_self]
  rw [if_neg hnil]
  cases hentries : ackEntries env.cluster records with
  | error e =>
    obtain ⟨r, hr⟩ := exists_mem_of_ne_nil records hnil
    exact .inr ⟨e, rfl, rfl, r, hr, not_mem_nil⟩
  | ok entries =>
    obtain ⟨rfl, hleaders⟩ := ackEntries_ok hentries
    dsimp only
    have hcases := sendAcks_cases env type (Assoc.group (·.leader) entries)
      (env.brokerOrder.keys (Assoc.group (·.leader) entries)) s rfl
    have hmem : ∀ b, b ∈ env.brokerOrder.keys (Assoc.group (·.leader) entries) ↔
        b ∈ entries.map (·.leader) := by
      intro b
      rw [MapOrder.mem_keys, AList.mem_keys, mem_keys_group]
    have hnodup := env.brokerOrder.nodup_keys (Assoc.group (·.leader) entries)
    generalize env.brokerOrder.keys (Assoc.group (·.leader) entries) = brokers at *
    generalize sendAcks env type (Assoc.group (·.leader) entries) brokers s = out at hcases ⊢
    obtain ⟨hpending, ⟨herr, hacked⟩ | ⟨e, done, failed, rest, herr, rfl, hacked⟩⟩ := hcases
    · have hall : ∀ k, k ∈ out.acked ↔ k ∈ (entries.map (·.record)).map (·.key3) := by
        intro k
        rw [hacked, mem_flatMap, map_map, mem_map]
        constructor
        · rintro ⟨b, -, hb⟩
          obtain ⟨e, he, -, hkey⟩ := mem_ackedBy.1 hb
          exact ⟨e, he, hkey⟩
        · rintro ⟨e, he, hkey⟩
          exact ⟨e.leader, (hmem _).2 (mem_map_of_mem he), mem_ackedBy.2 ⟨e, he, rfl, hkey⟩⟩
      refine .inl ?_
      simp only [herr]
      split_ifs with hrenew
      · exact ⟨herr, hall, hpending⟩
      · refine ⟨rfl, hall, ?_⟩
        simp only [ShareConsumer.clearPending]
        split_ifs
        · simp [hpending]
        · exact hpending
    · refine .inr ⟨e, ?_⟩
      simp only [herr]
      -- a record of the broker that failed is in no request that succeeded: its partition has
      -- one leader
      obtain ⟨entry, hentry, hfailed⟩ := mem_map.1 ((hmem failed).1 (by simp))
      refine ⟨trivial, hpending, entry.record, mem_map_of_mem hentry, fun hin => ?_⟩
      rw [hacked, mem_flatMap] at hin
      obtain ⟨b, hb, hin⟩ := hin
      obtain ⟨other, hother, rfl, hkey⟩ := mem_ackedBy.1 hin
      have hpart : other.record.partKey = entry.record.partKey := by
        rw [Record.key3, Record.key3, RecordKey.mk.injEq] at hkey
        rw [Record.partKey, hkey.1, hkey.2.1]
      rw [hleaders other hother, hpart, ← hleaders entry hentry, hfailed] at hb
      exact (nodup_append.1 hnodup).2.2 _ hb _ mem_cons_self rfl

/-! ## What a Poll leaves pending -/

section Pending

variable (C : Codecs) {cfg : ShareConfig} (s : ShareConsumer)

@[simp] theorem ShareConsumer.pendingAccept_fetchShare (broker : Int32)
    (parts : List ShareAssignment) (maxRecords waitMs : Int64) (topicName : UUID → Option Bytes)
    (answer : ShareFetchRequest → Except Error Bytes) :
    (s.fetchShare C broker parts maxRecords waitMs topicName answer).2.pendingAccept =
      s.pendingAccept := by
  simp only [ShareConsumer.fetchShare]
  split <;> rfl

theorem ShareConsumer.pendingAccept_visit (broker : Int32) (parts : List ShareAssignment)
    (maxRecords waitMs : Int64) (v : ShareVisit) :
    (s.visit C broker parts maxRecords waitMs v).2.pendingAccept = s.pendingAccept := by
  have hfetch {s s' : ShareConsumer} {answer : ShareFetchRequest → Except Error Bytes}
      {result : Except Error (List Record)}
      (h : s.fetchShare C broker parts maxRecords waitMs v.topicName answer = (result, s')) :
      s'.pendingAccept = s.pendingAccept := by
    have hkept := s.pendingAccept_fetchShare C broker parts maxRecords waitMs v.topicName answer
    rwa [h] at hkept
  fun_cases ShareConsumer.visit C s broker parts maxRecords waitMs v with
  | case1 _ _ hfirst | case2 _ _ hfirst | case3 _ _ hfirst | case6 _ _ hfirst => exact hfetch hfirst
  | case4 _ _ hfirst _ _ _ _ _ hagain | case5 _ _ hfirst _ _ _ _ _ hagain =>
    have hkept := hfetch hfirst
    exact (hfetch hagain).trans hkept

theorem pendingAccept_shareRound (maxPoll : Nat) (waitMs : Int64)
    (byBroker : AList fun _ : Int32 => List ShareAssignment) (visit : Int32 → ShareVisit)
    (brokers : List Int32) (out : List Record) :
    (shareRound C maxPoll waitMs byBroker visit brokers out s).consumer.pendingAccept =
      s.pendingAccept := by
  have hkept {s s' : ShareConsumer} {broker : Int32} {parts : List ShareAssignment}
      {maxRecords : Int64} {v : VisitEnd}
      (h : s.visit C broker parts maxRecords waitMs (visit broker) = (v, s')) :
      s'.pendingAccept = s.pendingAccept := by
    have hvisit := s.pendingAccept_visit C broker parts maxRecords waitMs (visit broker)
    rwa [h] at hvisit
  fun_induction shareRound with
  | case1 => rfl
  | case2 _ _ _ _ _ _ hvisit | case4 _ _ _ _ _ _ hvisit => exact hkept hvisit
  | case3 _ _ _ _ _ hvisit _ ih | case5 _ _ _ _ _ _ hvisit _ _ ih => exact ih.trans (hkept hvisit)

/-- The records that Poll returned, if it has returned. -/
def SharePolled.delivered (p : SharePolled) : List Record := (p.returned.map Prod.fst).getD []

variable (himplicit : cfg.implicit = true)
include himplicit

/-- The rounds leave pending what they deliver. -/
theorem pendingAccept_pollRounds (byBroker : AList fun _ : Int32 => List ShareAssignment)
    (rounds : List ShareRound) (hs : s.pendingAccept = []) :
    (pollRounds C cfg byBroker rounds s).consumer.pendingAccept =
      (pollRounds C cfg byBroker rounds s).delivered := by
  have hround (r : ShareRound) (waitMs : Int64) {s : ShareConsumer} (hs : s.pendingAccept = []) :=
    (pendingAccept_shareRound C s cfg.maxPoll waitMs byBroker r.visit (r.order.keys byBroker)
      []).trans hs
  fun_induction pollRounds with
  | case1 | case2 => exact hs
  | case3 r _ _ waitMs | case6 r _ _ waitMs => exact hround r waitMs hs
  | case4 | case5 =>
    rw [ShareConsumer.trackDelivered, if_pos himplicit]
    rfl
  | case7 r _ _ waitMs _ _ _ _ _ _ ih => exact ih (hround r waitMs hs)

/-- What Poll leaves pending: nothing changes when it fails early; a failed acceptance leaves
nothing, with a record that is not acknowledged; and else everything that was pending is
acknowledged, and what Poll delivers is pending. -/
theorem ShareConsumer.pendingAccept_poll (env : SharePollEnv) (hp : s.poll C cfg env = p) :
    (¬ s.AcceptFails cfg env ∧ p.acked = [] ∧ p.delivered = [] ∧
      p.consumer.pendingAccept = s.pendingAccept) ∨
    (s.AcceptFails cfg env ∧ p.delivered = [] ∧ p.consumer.pendingAccept = [] ∧
      ∃ r ∈ s.pendingAccept, r.key3 ∉ p.acked) ∨
    (¬ s.AcceptFails cfg env ∧ (∀ k, k ∈ p.acked ↔ k ∈ s.pendingAccept.map (·.key3)) ∧
      p.consumer.pendingAccept = p.delivered) := by
  subst hp
  have hjoined := s.pendingAccept_joinIfNeeded cfg env.join
  obtain ⟨hfails, e, s', hpending, hpoll⟩ | ⟨accepted, haccepted, hcases⟩ := s.poll_cases
  · rw [hpoll]
    exact .inl ⟨hfails, rfl, rfl, hpending⟩
  rw [ShareConsumer.acceptPending, if_pos himplicit, hjoined] at haccepted
  have hack := ShareConsumer.acknowledge_cases _ haccepted
  have hcleared : accepted.consumer.pendingAccept = [] := by
    obtain ⟨-, -, hclear⟩ | ⟨-, -, hkept, -⟩ := hack
    · simpa [ShareConsumer.clearPending, himplicit] using hclear
    · exact hkept
  obtain ⟨hfails, e, herr, hpoll⟩ | ⟨hfails, herr, hpoll⟩ := hcases
  · obtain ⟨hnone, -⟩ | ⟨-, -, -, hleft⟩ := hack
    · cases herr.symm.trans hnone
    · rw [hpoll]
      exact .inr (.inl ⟨hfails, rfl, hcleared, hleft⟩)
  · obtain ⟨-, hall, -⟩ | ⟨e, hsome, -⟩ := hack
    · rw [hpoll]
      exact .inr (.inr ⟨hfails, hall, pendingAccept_pollRounds C accepted.consumer himplicit _ _
        hcleared⟩)
    · cases herr.symm.trans hsome

end Pending

/-! ## Runs -/

/-- `ShareConsumer.Renew`; it needs version 2 of the request. -/
def ShareConsumer.renew (s : ShareConsumer) (cfg : ShareConfig) (env : AckEnv) (negotiated : Int16)
    (records : List Record) : AckOut :=
  if negotiated < 2 then
    { err := some (.other ("gokafka: share Renew requires ShareAcknowledge v2 (broker negotiated v"
        ++ toString negotiated.toInt ++ ")"))
      consumer := s }
  else s.acknowledge cfg env .renew records

/-- A call of a share consumer, with what it meets. -/
inductive ShareCall where
  | poll (env : SharePollEnv)
  | acknowledge (env : AckEnv) (records : List Record)
  | release (env : AckEnv) (records : List Record)
  | reject (env : AckEnv) (records : List Record)
  | renew (env : AckEnv) (negotiated : Int16) (records : List Record)

/-- A consumer, and the delivered records for which no terminal acknowledgement has succeeded. -/
structure ShareLedger where
  consumer : ShareConsumer
  outstanding : Finset RecordKey

namespace ShareLedger

/-- The keys of records. -/
def keysOf (records : List Record) : Finset RecordKey := (records.map (·.key3)).toFinset

theorem mem_keysOf : k ∈ keysOf records ↔ k ∈ records.map (·.key3) := List.mem_toFinset

/-- A terminal acknowledgement: what a broker has acknowledged is not outstanding any more. -/
def settle (l : ShareLedger) (out : AckOut) : ShareLedger :=
  ⟨out.consumer, l.outstanding \ out.acked.toFinset⟩

/-- A call. -/
def next (C : Codecs) (cfg : ShareConfig) (l : ShareLedger) : ShareCall → ShareLedger
  | .poll env =>
    let p := l.consumer.poll C cfg env
    ⟨p.consumer, (l.outstanding \ p.acked.toFinset) ∪ keysOf p.delivered⟩
  | .acknowledge env records => l.settle (l.consumer.acknowledge cfg env .accept records)
  | .release env records => l.settle (l.consumer.acknowledge cfg env .release records)
  | .reject env records => l.settle (l.consumer.acknowledge cfg env .reject records)
  | .renew env negotiated records =>
    ⟨(l.consumer.renew cfg env negotiated records).consumer, l.outstanding⟩

/-- The pending records are the outstanding ones. -/
def Exact (l : ShareLedger) : Prop := keysOf l.consumer.pendingAccept = l.outstanding

/-- A call that does not fail, or fails without having acknowledged an outstanding record. -/
def NothingSettled (l : ShareLedger) (out : AckOut) : Prop :=
  out.err ≠ none → Disjoint l.outstanding out.acked.toFinset

/-- The steps that keep the pending records exact: a Poll whose implicit acceptance does not fail,
and a terminal acknowledgement that does not fail halfway. -/
def Settles (cfg : ShareConfig) (l : ShareLedger) : ShareCall → Prop
  | .poll env => ¬ l.consumer.AcceptFails cfg env
  | .acknowledge env records =>
    l.NothingSettled (l.consumer.acknowledge cfg env .accept records)
  | .release env records => l.NothingSettled (l.consumer.acknowledge cfg env .release records)
  | .reject env records => l.NothingSettled (l.consumer.acknowledge cfg env .reject records)
  | .renew _ _ _ => True

variable {C : Codecs} {cfg : ShareConfig} {l : ShareLedger}

section Steps

variable (hl : l.Exact)
include hl

theorem exact_renew (env : AckEnv) (negotiated : Int16) (records : List Record) :
    (l.next C cfg (.renew env negotiated records)).Exact := by
  have hpending : (l.consumer.renew cfg env negotiated records).consumer.pendingAccept =
      l.consumer.pendingAccept := by
    unfold ShareConsumer.renew
    split_ifs
    · rfl
    · obtain ⟨-, -, hpending⟩ | ⟨-, -, hpending, -⟩ :=
        l.consumer.acknowledge_cases rfl
      · exact hpending
      · exact hpending
  rw [next, Exact, hpending]
  exact hl

variable (himplicit : cfg.implicit = true)
include himplicit

theorem exact_settle_iff (htype : type ≠ .renew) (env : AckEnv) (records : List Record) :
    (l.settle (l.consumer.acknowledge cfg env type records)).Exact ↔
      l.NothingSettled (l.consumer.acknowledge cfg env type records) := by
  generalize hout : l.consumer.acknowledge cfg env type records = out
  obtain ⟨hnone, hall, hpending⟩ | ⟨e, hsome, hpending, -⟩ :=
    l.consumer.acknowledge_cases hout
  · refine iff_of_true ?_ fun h => absurd hnone h
    rw [if_neg htype, ShareConsumer.clearPending, if_pos himplicit] at hpending
    rw [Exact, settle, hpending, ← hl]
    ext k
    simp only [mem_keysOf, Finset.mem_sdiff, mem_toFinset, hall]
    constructor
    · rintro hk
      obtain ⟨r, hr, rfl⟩ := mem_map.1 hk
      obtain ⟨hr, hnot⟩ := mem_filter.1 hr
      exact ⟨mem_map_of_mem hr, of_decide_eq_true hnot⟩
    · rintro ⟨hk, hnot⟩
      obtain ⟨r, hr, rfl⟩ := mem_map.1 hk
      exact mem_map_of_mem (mem_filter.2 ⟨hr, decide_eq_true hnot⟩)
  · rw [Exact, settle, hpending, hl, NothingSettled, hsome, eq_comm,
      Finset.sdiff_eq_self_iff_disjoint]
    simp

theorem exact_poll_iff (env : SharePollEnv) :
    (l.next C cfg (.poll env)).Exact ↔ ¬ l.consumer.AcceptFails cfg env := by
  generalize hp : l.consumer.poll C cfg env = p
  have hnext : l.next C cfg (.poll env) =
      ⟨p.consumer, (l.outstanding \ p.acked.toFinset) ∪ keysOf p.delivered⟩ := by
    rw [next, hp]
  rw [hnext, Exact, ← hl]
  dsimp only
  obtain ⟨hfails, hacked, hdelivered, hpending⟩ | ⟨hfails, hdelivered, hpending, r, hr, hleft⟩ |
    ⟨hfails, hall, hpending⟩ := l.consumer.pendingAccept_poll C himplicit env hp
  · refine iff_of_true ?_ hfails
    simp [hpending, hacked, hdelivered, keysOf]
  · refine iff_of_false (fun heq => ?_) (not_not_intro hfails)
    -- nothing is pending any more, and the record that was not acknowledged is outstanding
    have hout : r.key3 ∈ keysOf l.consumer.pendingAccept \ p.acked.toFinset :=
      Finset.mem_sdiff.2 ⟨mem_keysOf.2 (mem_map_of_mem hr), by simpa using hleft⟩
    have hin := Finset.mem_union_left (keysOf p.delivered) hout
    rw [← heq, hpending] at hin
    exact Finset.notMem_empty _ hin
  · refine iff_of_true ?_ hfails
    have hnone : keysOf l.consumer.pendingAccept \ p.acked.toFinset = ∅ := by
      rw [Finset.sdiff_eq_empty_iff_subset]
      intro k hk
      exact mem_toFinset.2 ((hall k).2 (mem_keysOf.1 hk))
    rw [hnone, hpending]
    simp

theorem exact_next_iff (call : ShareCall) :
    (l.next C cfg call).Exact ↔ l.Settles cfg call := by
  cases call with
  | poll env => exact exact_poll_iff hl himplicit env
  | acknowledge env records => exact exact_settle_iff hl himplicit (by decide) env records
  | release env records => exact exact_settle_iff hl himplicit (by decide) env records
  | reject env records => exact exact_settle_iff hl himplicit (by decide) env records
  | renew env negotiated records =>
    exact iff_of_true (exact_renew hl env negotiated records) trivial

end Steps

/-- After every call the pending records are the outstanding ones, exactly along the runs in which
no implicit acceptance fails and no other acknowledgement fails after one of its requests has
acknowledged an outstanding record. -/
theorem pendingAccept_exact_iff (C : Codecs) (cfg : ShareConfig) (himplicit : cfg.implicit = true)
    (l : ShareLedger) (hl : l.Exact) (calls : List ShareCall) :
    (∀ l' ∈ Run.states (next C cfg) l calls,
        keysOf l'.consumer.pendingAccept = l'.outstanding) ↔
      Run.Along (next C cfg) (Settles cfg) l calls :=
  Run.states_iff_along (fun _ call h hcall => (exact_next_iff h himplicit call).2 hcall)
    (fun _ h => h) (fun _ call h hnext => (exact_next_iff h himplicit call).1 hnext) hl

/-- Broker 1 leads partition 0 of topic `t`. -/
def sharedMetadata : MetadataResponse where
  brokers := [⟨1⟩]
  topics := [⟨[116], Vector.replicate 16 1, [⟨0, 1, -1⟩]⟩]

/-- Requests to acknowledge records of that partition come to `answer`. -/
def ackAnswering (answer : Except Error Unit) : AckEnv where
  cluster :=
    { seeds := [], md := sharedMetadata, leaderIndex := buildLeaderIndex sharedMetadata }
  brokerOrder := ⟨id, .refl⟩
  partOrder := ⟨id, .refl⟩
  respond _ _ := answer

/-- A Poll by a member with that partition, in which offsets 7 and 8 are fetched. -/
def sharedEnv (answer : Except Error Unit) : SharePollEnv where
  join := ⟨[109], [⟨[116], 0, Vector.replicate 16 1, 1⟩], ∅, none⟩
  ack := ackAnswering answer
  rounds := [{ order := ⟨id, .refl⟩, visit := fun _ => visitShared }]

/-- A member with offsets 7 and 8 pending. -/
def sharedLedger : ShareLedger where
  consumer :=
    { group := [103], memberID := [109], assignments := [⟨[116], 0, Vector.replicate 16 1, 1⟩]
      shareSession := (∅ : AList fun _ : Int32 => Int32).insert 1 1
      pendingAccept := sharedRecords }
  outstanding := {⟨[116], 0, 7⟩, ⟨[116], 0, 8⟩}

/-- The first Poll of a new consumer leaves both records pending. -/
theorem next_sharedEnv :
    next shortCodecs ⟨[103], true, 0⟩ ⟨{}, ∅⟩ (.poll (sharedEnv answer)) = sharedLedger := by
  have hround : ∀ byBroker s, shareRound shortCodecs 500 500 byBroker (fun _ => visitShared) [1] []
      s = ⟨.complete, sharedRecords, { s with
        shareSession := s.shareSession.insert 1 ((s.shareSession.lookup 1).getD 0 + 1) },
        [.fetched sharedRecords]⟩ := by
    intro byBroker s
    simp only [shareRound, visit_shared]
    rfl
  have hpoll := @pollRounds_over shortCodecs ⟨[103], true, 0⟩
    (Assoc.group (·.leader) sharedLedger.consumer.assignments)
    { order := ⟨id, .refl⟩, visit := fun _ => visitShared } []
    { sharedLedger.consumer with shareSession := ∅, pendingAccept := [] } 500 _ rfl
    (hround _ _) rfl (List.cons_ne_nil _ _)
  have hconsumer :
      (ShareConsumer.poll shortCodecs {} ⟨[103], true, 0⟩ (sharedEnv answer)).consumer =
      sharedLedger.consumer := congrArg (·.consumer) hpoll
  have hdelivered :
      (ShareConsumer.poll shortCodecs {} ⟨[103], true, 0⟩ (sharedEnv answer)).delivered =
      sharedRecords := congrArg (·.delivered) hpoll
  simp only [next, hconsumer, hdelivered]
  rfl

/-- The two records are delivered, and one of them is acknowledged by the caller. -/
theorem pendingAccept_exact_iff_two :
    ShareLedger.Exact ⟨{}, ∅⟩ ∧
    ∀ l' ∈ Run.states (next shortCodecs ⟨[103], true, 0⟩) ⟨{}, ∅⟩
        [.poll (sharedEnv (.ok ())), .release (ackAnswering (.ok ())) (sharedRecords.take 1)],
      keysOf l'.consumer.pendingAccept = l'.outstanding := by
  refine ⟨rfl,
    (pendingAccept_exact_iff _ _ rfl ⟨{}, ∅⟩ rfl _).2 ⟨fun h => h.failed rfl, ?_, trivial⟩⟩
  exact fun h => absurd rfl h

/-- The next Poll's acceptance fails: nothing is pending, and both records are outstanding. -/
theorem pendingAccept_forgets :
    let l := [ShareCall.poll (sharedEnv (.ok ())),
        .poll (sharedEnv (.error (.transport "EOF")))].foldl
      (next shortCodecs ⟨[103], true, 0⟩) ⟨{}, ∅⟩
    l.consumer.pendingAccept = [] ∧ l.outstanding = {⟨[116], 0, 7⟩, ⟨[116], 0, 8⟩} := by
  rw [foldl_cons, next_sharedEnv]
  exact ⟨rfl, by decide⟩

end ShareLedger

end GoKafka
