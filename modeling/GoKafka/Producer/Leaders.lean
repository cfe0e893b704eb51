import GoKafka.Producer.Partitioner
import GoKafka.Producer.PartialRetry

/-!
# Leaders that the metadata does not list

While a partition elects its leader, the metadata gives it the leader -1, or a node that is not
among the brokers. `resolvePartition` means to return an error then that the produce loop tries
again, after a refresh of the metadata; but it asks only whether the partition has an entry. A
record with a partition of its own finds its leader in the index, any other record takes that of the
listed partition, and the leader is returned as it is. `Cluster.Conn` then knows no such node, which
is not an error to try again.

`resolvePartition_produceable_iff` says for which metadata and record the result can be worked with.
-/

namespace GoKafka

open Assoc

/-! ## Connections -/

/-- The error of `Cluster.Conn` for a node that the metadata does not list. -/
def errUnknownNode (node : Int32) : Error := .other ("broker: unknown node " ++ toString node.toInt)

/-- `Cluster.Conn` without a pooled connection, up to its checks of the broker's address. -/
def Cluster.connBroker (c : Cluster) (node : Int32) : Except Error Broker :=
  match c.md.brokers.find? (·.nodeID = node) with
  | some b => .ok b
  | none => .error (errUnknownNode node)

/-- The nodes of the metadata. -/
def MetadataResponse.nodes (md : MetadataResponse) : List Int32 := md.brokers.map (·.nodeID)

/-! ## Leaders -/

/-- What the produce loop can work with: a leader that the metadata lists, or an error that is tried
again; or the topic is unknown. -/
def Produceable (md : MetadataResponse) (topic : Bytes) : Except Error (Int32 × Int32) → Prop
  | .ok (_, leader) => leader ∈ md.nodes
  | .error e => isRetriable e = true ∨ e = .unknownTopic topic

/-- The entry for a partition that the leader index keeps: the last one in the last entry for the
topic. -/
def MetadataResponse.lastEntry (md : MetadataResponse) (topic : Bytes) (part : Int32) :
    Option PartitionMeta :=
  (md.topics.filter (·.name = topic)).getLast?.bind fun t =>
    (t.partitions.filter (·.partition = part)).getLast?

/-- The leader of a record's partition, if it has an entry, is a node of the metadata. -/
structure LeaderListed (md : MetadataResponse) (partition : NilBytes → Nat → Int32) (r : Record) :
    Prop where
  named : 0 ≤ r.partition → ∀ pm, md.lastEntry r.topic r.partition = some pm → pm.leader ∈ md.nodes
  chosen : r.partition < 0 → ∃ (i : Nat) (pm : PartitionMeta),
    (partition r.key (md.partitionsOf r.topic).length).toInt = i ∧
      (md.partitionsOf r.topic)[i]? = some pm ∧ pm.leader ∈ md.nodes

section Leaders

variable {c : Cluster}

theorem find?_buildLeaderIndex :
    (buildLeaderIndex md).find? topic part = (md.lastEntry topic part).map (·.leader) := by
  rw [PartitionIndex.find?, buildLeaderIndex, buildIndex, lookup_index, MetadataResponse.lastEntry]
  cases (md.topics.filter (·.name = topic)).getLast? with
  | none => rfl
  | some t =>
    rw [Option.map_some, Option.bind_some, Option.bind_some, lookup_index]

theorem leaderNodeID_storeMetadata :
    (c.storeMetadata md).leaderNodeID topic part =
      match md.lastEntry topic part with
      | some pm => (pm.leader, true)
      | none => (0, false) := by
  rw [Cluster.leaderNodeID, Cluster.partitionLeader, Cluster.storeMetadata, find?_buildLeaderIndex]
  cases md.lastEntry topic part with
  | none => rfl
  | some pm => rfl

/-- A record that names its partition. -/
theorem produceable_named (hne : md.partitionsOf r.topic ≠ []) (hnamed : 0 ≤ r.partition) :
    Produceable md r.topic (resolvePartition (c.storeMetadata md) partition r) ↔
      ∀ pm, md.lastEntry r.topic r.partition = some pm → pm.leader ∈ md.nodes := by
  rw [resolvePartition_storeMetadata, if_neg hne, if_pos hnamed, leaderNodeID_storeMetadata]
  cases md.lastEntry r.topic r.partition with
  | none => exact ⟨fun _ => nofun, fun _ => .inl rfl⟩
  | some pm =>
    constructor
    · intro hnode pm' hpm
      cases hpm
      exact hnode
    · exact fun h => h pm rfl

/-- A record whose partition is the partitioner's choice. -/
theorem produceable_chosen (hne : md.partitionsOf r.topic ≠ []) (hneg : r.partition < 0) :
    Produceable md r.topic (resolvePartition (c.storeMetadata md) partition r) ↔
      ∃ (i : Nat) (pm : PartitionMeta),
        (partition r.key (md.partitionsOf r.topic).length).toInt = i ∧
          (md.partitionsOf r.topic)[i]? = some pm ∧ pm.leader ∈ md.nodes := by
  constructor
  · intro h
    rw [resolvePartition_storeMetadata, if_neg hne, if_neg (Int32.not_le.2 hneg)] at h
    by_cases hindex : partition r.key (md.partitionsOf r.topic).length < 0
    · rw [if_pos hindex] at h
      rcases h with h | h <;> cases h
    · rw [if_neg hindex] at h
      have hnonneg : 0 ≤ (partition r.key (md.partitionsOf r.topic).length).toInt :=
        Int.not_lt.1 fun hlt => hindex (Int32.lt_iff_toInt_lt.2 hlt)
      cases hpm : (md.partitionsOf r.topic)[(partition r.key
          (md.partitionsOf r.topic).length).toNatClampNeg]? with
      | none =>
        rw [hpm] at h
        rcases h with h | h <;> cases h
      | some pm =>
        rw [hpm] at h
        exact ⟨_, pm, (Int.toNat_of_nonneg hnonneg).symm, hpm, h⟩
  · rintro ⟨i, pm, hi, hpm, hnode⟩
    rw [resolvePartition_unassigned partition hne hneg hi hpm]
    exact hnode

end Leaders

/-- For every metadata, record and partitioner: `resolvePartition` returns a leader that the
metadata lists or an error that is tried again, unless the topic is unknown, exactly if the leader
of the record's partition is a node of the metadata. -/
theorem resolvePartition_produceable_iff (c : Cluster) (md : MetadataResponse)
    (partition : NilBytes → Nat → Int32) (r : Record) :
    Produceable md r.topic (resolvePartition (c.storeMetadata md) partition r) ↔
      (md.partitionsOf r.topic ≠ [] → LeaderListed md partition r) := by
  by_cases hne : md.partitionsOf r.topic = []
  · rw [resolvePartition_storeMetadata, if_pos hne]
    exact ⟨fun _ h => absurd hne h, fun _ => .inr rfl⟩
  · by_cases hnamed : 0 ≤ r.partition
    · rw [produceable_named hne hnamed]
      exact ⟨fun h _ => ⟨fun _ => h, fun hneg => absurd hnamed (Int32.not_le.2 hneg)⟩,
        fun h => (h hne).named hnamed⟩
    · have hneg : r.partition < 0 := Int32.not_le.1 hnamed
      rw [produceable_chosen hne hneg]
      exact ⟨fun h _ => ⟨fun hpos => absurd hpos hnamed, fun _ => h⟩, fun h => (h hne).chosen hneg⟩

/-! ## An election -/

/-- Partition 0 of topic `t` elects its leader. -/
def electing : MetadataResponse where
  brokers := [⟨1⟩]
  topics := [{ name := [116], partitions := [{ partition := 0, leader := -1 }] }]

/-- The brokers during the election: whoever is not in the metadata cannot be reached. -/
def electingWorld : World Nat where
  env _ :=
    { envT fun node _ =>
        (Cluster.connBroker (clusterT.storeMetadata electing) node).bind fun _ => .ok []
      with freezing := clusterT.storeMetadata electing, cluster := clusterT.storeMetadata electing }
  next n _ := n + 1

/-- During an election the leader of a record with or without a partition of its own is -1, which is
not a node; and a produce of three attempts fails in its first. -/
theorem resolvePartition_electing :
    resolvePartition (clusterT.storeMetadata electing) HashPartitioner.partition
      { topic := [116], partition := 0 } = .ok (0, -1) ∧
    resolvePartition (clusterT.storeMetadata electing) HashPartitioner.partition
      { topic := [116], partition := -1 } = .ok (0, -1) ∧
    -1 ∉ electing.nodes ∧
    configT.maxAttempts = 3 ∧
    (produceSyncResult configT electingWorld {} none (.ok ⟨1, 0⟩) recordsT 0).attempts.length = 1 ∧
    (produceSyncResult configT electingWorld {} none (.ok ⟨1, 0⟩) recordsT 0).err =
      some (errUnknownNode (-1)) := by
  refine ⟨by decide, by decide, by decide, rfl, by decide +kernel, by decide +kernel⟩

end GoKafka
