import GoKafka.Record
import GoKafka.Lib.Assoc

/-!
# Cluster metadata

The metadata cache of `internal/broker/cluster.go`: the last Metadata response and two indexes of
it. One `Cluster` is shared by every producer, consumer and admin of a client, each of which
refreshes the topics it works with; `refresh` replaces the whole cache by the response
(`refresh_frame_iff` says what that means for the topics of the others).

The connection to a seed broker is not modelled: a `MetadataAttempt` is what one round of the
refresh loop comes to.
-/

namespace GoKafka

open Assoc

/-- `protocol.Broker`, as far as the cache is asked about it. -/
structure Broker where
  nodeID : Int32
  deriving DecidableEq

/-- `protocol.PartitionMeta`: leadership of a partition. -/
structure PartitionMeta where
  partition : Int32
  leader : Int32
  leaderEpoch : Int32 := -1
  deriving DecidableEq

structure TopicMeta where
  name : Bytes
  topicID : UUID := Vector.replicate 16 0
  partitions : List PartitionMeta
  deriving DecidableEq

structure MetadataResponse where
  brokers : List Broker := []
  topics : List TopicMeta := []
  deriving DecidableEq

/-- A map from topic and partition: `map[string]map[int32]int32`. -/
abbrev PartitionIndex := AList fun _ : Bytes => AList fun _ : Int32 => Int32

/-- The loops of `buildLeaderIndex` and `buildLeaderEpochIndex`. -/
def buildIndex (field : PartitionMeta → Int32) (md : MetadataResponse) : PartitionIndex :=
  index (·.name) (fun t : TopicMeta => index (·.partition) field t.partitions) md.topics

def buildLeaderIndex : MetadataResponse → PartitionIndex := buildIndex (·.leader)

def buildLeaderEpochIndex : MetadataResponse → PartitionIndex := buildIndex (·.leaderEpoch)

/-- The metadata cache of `Cluster`. A nil index is an empty one. -/
structure Cluster where
  seeds : List Bytes
  metadataTTL : Int64 := 0
  md : MetadataResponse := {}
  leaderIndex : PartitionIndex := ∅
  leaderEpochIndex : PartitionIndex := ∅
  metaRefreshedAt : Time := ⟨0, 0⟩

/-- The entry of an index. -/
def PartitionIndex.find? (i : PartitionIndex) (topic : Bytes) (part : Int32) : Option Int32 :=
  (i.lookup topic).bind (·.lookup part)

namespace Cluster

variable (c : Cluster)

def leaderEpoch (topic : Bytes) (part : Int32) : Int32 :=
  (c.leaderEpochIndex.find? topic part).getD (-1)

def partitionLeader (topic : Bytes) (part : Int32) : Int32 × Bool :=
  match c.leaderIndex.find? topic part with
  | some leader => (leader, true)
  | none => (0, false)

def leaderNodeID (topic : Bytes) (part : Int32) : Int32 × Bool := c.partitionLeader topic part

def topicIDByName (name : Bytes) : Option UUID :=
  (c.md.topics.find? (·.name = name)).map (·.topicID)

def topicNameByID (id : UUID) : Option Bytes :=
  (c.md.topics.find? (·.topicID = id)).map (·.name)

def leaderBroker (topic : Bytes) (part : Int32) : Except Error Broker :=
  let notFound : Error :=
    .other ("broker: leader not found for " ++ topic.text ++ "-" ++ toString part.toInt)
  match c.leaderIndex.find? topic part with
  | none => .error notFound
  | some leader =>
    match c.md.brokers.find? (·.nodeID = leader) with
    | none => .error notFound
    | some b => .ok b

end Cluster

/-- What a round of the refresh loop comes to: no seed can be dialled, the request fails, the
response cannot be unwrapped, it cannot be decoded, or it is the metadata. -/
inductive MetadataAttempt where
  | seedError (e : Error)
  | requestError (e : Error)
  | bodyError (e : Error)
  | decodeError (e : Error)
  | answer (md : MetadataResponse)

/-- The loop of `Cluster.refresh` from a round on, with the rounds that are left. -/
def refreshLoop (attempt : Nat → MetadataAttempt) :
    Nat → Nat → Option Error → Except Error MetadataResponse
  | 0, _, lastErr => .error (lastErr.getD (.other "broker: metadata refresh failed"))
  | left + 1, i, _ =>
    match attempt i with
    | .seedError e => .error e
    | .requestError e | .bodyError e => refreshLoop attempt left (i + 1) (some e)
    | .decodeError e => .error e
    | .answer md => .ok md

/-- The end of `Cluster.refresh`: the cache is replaced with its lock held. -/
def Cluster.storeMetadata (c : Cluster) (md : MetadataResponse) : Cluster :=
  { c with
    md := md, leaderIndex := buildLeaderIndex md, leaderEpochIndex := buildLeaderEpochIndex md }

namespace Cluster

/-- The brokers a refresh talks to: what each round comes to, for the topics asked about (no list
asks about all topics). -/
abbrev Brokers := Option (List Bytes) → Nat → MetadataAttempt

/-- `Cluster.refresh`. -/
def refreshMeta (c : Cluster) (topics : Option (List Bytes)) (brokers : Brokers) :
    Except Error Cluster := do
  let md ← refreshLoop (brokers topics) (c.seeds.length + 1) 0 none
  return c.storeMetadata md

def refresh (c : Cluster) (topics : Option (List Bytes)) (brokers : Brokers) (now : Time) :
    Except Error Cluster := do
  let c ← c.refreshMeta topics brokers
  return { c with metaRefreshedAt := now }

/-- `Cluster.RefreshIfStale`; `elapsed` is the time since the last refresh, in nanoseconds. -/
def refreshIfStale (c : Cluster) (topics : Option (List Bytes)) (force : Bool) (brokers : Brokers)
    (elapsed : Int64) (now : Time) : Except Error Cluster :=
  let ttl := if c.metadataTTL ≤ 0 then 30000000000 else c.metadataTTL
  if ¬ force ∧ ¬ c.metaRefreshedAt.isZero ∧ elapsed < ttl then .ok c
  else c.refresh topics brokers now

end Cluster

/-! ## What a refresh keeps -/

theorem refreshLoop_ok (h : refreshLoop attempt left i e = .ok md) :
    ∃ j, attempt j = .answer md := by
  induction left generalizing i e with
  | zero => cases h
  | succ left ih =>
    rw [refreshLoop] at h
    split at h
    · cases h
    · exact ih h
    · exact ih h
    · cases h
    · next md' hi =>
      cases h
      exact ⟨i, hi⟩

/-- A successful refresh replaces the cache by an answer of the brokers. -/
theorem Cluster.refresh_ok {c : Cluster} (h : c.refresh topics brokers now = .ok c') :
    ∃ md i, brokers topics i = .answer md ∧ c' = { c with
      md := md, leaderIndex := buildLeaderIndex md
      leaderEpochIndex := buildLeaderEpochIndex md, metaRefreshedAt := now } := by
  rw [Cluster.refresh, Cluster.refreshMeta] at h
  cases hloop : refreshLoop (brokers topics) (c.seeds.length + 1) 0 none with
  | error e => rw [hloop] at h; cases h
  | ok md =>
    rw [hloop] at h
    cases h
    obtain ⟨i, hi⟩ := refreshLoop_ok hloop
    exact ⟨md, i, hi, rfl⟩

/-- The index has nothing for a topic outside the response. -/
theorem find?_buildIndex (ht : t ∉ md.topics.map (·.name)) :
    (buildIndex field md).find? t p = none := by
  rw [PartitionIndex.find?, buildIndex, lookup_index_eq_none.2 ht]
  rfl

/-- The cache knows nothing of the topic. -/
structure Cluster.Unknown (c : Cluster) (t : Bytes) : Prop where
  leader : ∀ p, c.leaderNodeID t p = (0, false)
  epoch : ∀ p, c.leaderEpoch t p = -1
  id : c.topicIDByName t = none

/-- The two caches answer alike about the topic. -/
structure Cluster.SameAnswers (c c' : Cluster) (t : Bytes) : Prop where
  leader : ∀ p, c'.leaderNodeID t p = c.leaderNodeID t p
  epoch : ∀ p, c'.leaderEpoch t p = c.leaderEpoch t p
  id : c'.topicIDByName t = c.topicIDByName t

/-- After a refresh whose answer does not have the topic, the cache knows nothing of it. -/
theorem Cluster.unknown_of_refresh {c : Cluster} (h : c.refresh topics brokers now = .ok c')
    (ht : ∀ i md, brokers topics i = .answer md → t ∉ md.topics.map (·.name)) : c'.Unknown t := by
  obtain ⟨md, i, hi, rfl⟩ := Cluster.refresh_ok h
  have hnone := ht i md hi
  have hname : md.topics.find? (·.name = t) = none := by
    rw [List.find?_eq_none]
    intro tm htm heq
    exact hnone (List.mem_map.2 ⟨tm, htm, by simpa using heq⟩)
  refine ⟨fun p => ?_, fun p => ?_, ?_⟩
  · simp [leaderNodeID, partitionLeader, buildLeaderIndex, find?_buildIndex hnone]
  · simp [leaderEpoch, buildLeaderEpochIndex, find?_buildIndex hnone]
  · simp [topicIDByName, hname]

/-- A refresh keeps the answers about a topic it did not ask for if and only if there were none. -/
theorem Cluster.refresh_frame_iff (c c' : Cluster) (ts : List Bytes) (brokers : Brokers)
    (now : Time) (hok : c.refresh (some ts) brokers now = .ok c')
    (hexact : ∀ i md, brokers (some ts) i = .answer md →
      ∀ t, t ∈ md.topics.map (·.name) ↔ t ∈ ts) (t : Bytes) (ht : t ∉ ts) :
    c.SameAnswers c' t ↔ c.Unknown t := by
  have hgone := Cluster.unknown_of_refresh hok fun i md hi hmem => ht ((hexact i md hi t).1 hmem)
  constructor
  · intro hsame
    exact ⟨fun p => (hsame.leader p).symm.trans (hgone.leader p),
      fun p => (hsame.epoch p).symm.trans (hgone.epoch p), hsame.id.symm.trans hgone.id⟩
  · intro hunknown
    exact ⟨fun p => (hgone.leader p).trans (hunknown.leader p).symm,
      fun p => (hgone.epoch p).trans (hunknown.epoch p).symm, hgone.id.trans hunknown.id.symm⟩

/-- A cache that knows the topic `a`, led by node 1. -/
def oneTopicCluster : Cluster :=
  let md : MetadataResponse :=
    { brokers := [⟨1⟩]
      topics := [{ name := [97], partitions := [{ partition := 0, leader := 1 }] }] }
  { seeds := [[115]], md := md, leaderIndex := buildLeaderIndex md
    leaderEpochIndex := buildLeaderEpochIndex md }

/-- A broker that answers every round with the topic `b`. -/
def answersB : Cluster.Brokers := fun _ _ =>
  .answer { brokers := [⟨1⟩]
            topics := [{ name := [98], partitions := [{ partition := 0, leader := 1 }] }] }

/-- The cache after a refresh of `b` keeps the answers about `a` or `c` if there were none. -/
theorem Cluster.refresh_frame_iff_b :
    ∃ c', oneTopicCluster.refresh (some [[98]]) answersB ⟨9, 0⟩ = .ok c' ∧
      (oneTopicCluster.SameAnswers c' [97] ↔ oneTopicCluster.Unknown [97]) ∧
      (oneTopicCluster.SameAnswers c' [99] ↔ oneTopicCluster.Unknown [99]) := by
  have hexact : ∀ i md, answersB (some [[98]]) i = .answer md →
      ∀ t, t ∈ md.topics.map (·.name) ↔ t ∈ [[98]] := by
    intro i md h t
    cases h
    rfl
  exact ⟨_, rfl, refresh_frame_iff _ _ [[98]] answersB ⟨9, 0⟩ rfl hexact _ (by decide),
    refresh_frame_iff _ _ [[98]] answersB ⟨9, 0⟩ rfl hexact _ (by decide)⟩

/-- The leader of `a` is known, and after a refresh of `b` it is not. -/
theorem Cluster.refresh_loses_leader :
    ∃ c', oneTopicCluster.refresh (some [[98]]) answersB ⟨9, 0⟩ = .ok c' ∧
      oneTopicCluster.leaderNodeID [97] 0 = (1, true) ∧
      c'.leaderNodeID [97] 0 = (0, false) ∧
      (∀ i md, answersB (some [[98]]) i = .answer md →
        ∀ t, t ∈ md.topics.map (·.name) ↔ t ∈ [[98]]) := by
  refine ⟨_, rfl, by decide, by decide, ?_⟩
  intro i md h t
  cases h
  rfl

end GoKafka
