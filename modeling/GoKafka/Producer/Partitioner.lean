import GoKafka.Lib.Mixing
import GoKafka.Producer.Send

/-!
# Partitioners

`partitioner.go`: the partitioner of the client, and what `resolvePartition` makes of its choice.
`HashPartitioner` computes `murmur2` of the key as the brokers' default partitioner does, and its
documentation says that keyed records go where the other clients send them: to the partition whose
id is the hash modulo the number of partitions (`defaultPartition`).

`resolvePartition` takes the choice of a partitioner for an index into the partitions as the
metadata lists them. `resolvePartition_hash_iff` says when that is the same: for one key, if the
partition of that id is listed at that index; for all keys, if the partitions are listed in the
order of their ids. The second needs that `murmur2` takes every value, which it does on keys of four
bytes (`murmur2_surjective`), as each of its steps can be undone.
-/

namespace GoKafka

open Mixing

/-! ## The program -/

/-- The multiplier of `murmur2`. -/
def murmurM : UInt32 := 0x5bd1e995

/-- A round of the loop of `murmur2`: four bytes are mixed into the hash. -/
def murmurBlock (h : UInt32) (b0 b1 b2 b3 : UInt8) : UInt32 :=
  let k := b0.toUInt32 ||| b1.toUInt32 <<< 8 ||| b2.toUInt32 <<< 16 ||| b3.toUInt32 <<< 24
  let k := k * murmurM
  let k := k ^^^ (k >>> 24)
  let k := k * murmurM
  (h * murmurM) ^^^ k

/-- The loop of `murmur2` over the whole blocks of four bytes, and its `switch` on the bytes that
are left. -/
def murmurBytes (h : UInt32) : Bytes → UInt32
  | b0 :: b1 :: b2 :: b3 :: data => murmurBytes (murmurBlock h b0 b1 b2 b3) data
  | [b0, b1, b2] => (h ^^^ b2.toUInt32 <<< 16 ^^^ b1.toUInt32 <<< 8 ^^^ b0.toUInt32) * murmurM
  | [b0, b1] => (h ^^^ b1.toUInt32 <<< 8 ^^^ b0.toUInt32) * murmurM
  | [b0] => (h ^^^ b0.toUInt32) * murmurM
  | [] => h

/-- The end of `murmur2`. -/
def murmurFinish (h : UInt32) : UInt32 :=
  let h := h ^^^ (h >>> 13)
  let h := h * murmurM
  h ^^^ (h >>> 15)

def murmur2 (data : Bytes) : Int32 :=
  (murmurFinish (murmurBytes (0x9747b28c ^^^ UInt32.ofNat data.length) data)).toInt32

def toPositive (v : Int32) : Int32 := v &&& 0x7fffffff

def HashPartitioner.partition (key : NilBytes) (n : Nat) : Int32 :=
  if n = 0 then 0
  else if key.bytes = [] then 0
  else toPositive (murmur2 key.bytes) % Int32.ofNat n

/-! ## The values of the hash -/

theorem murmurBlock_surjective : ∃ b0 b1 b2 b3, murmurBlock h b0 b1 b2 b3 = k := by
  have hunit : 0xe59b19bd * murmurM = 1 := by decide
  obtain ⟨k₁, hk₁⟩ := xor32_surjective (h * murmurM) k
  obtain ⟨k₂, hk₂⟩ := mul_surjective hunit k₁
  obtain ⟨k₃, hk₃⟩ := xorShift32_surjective (s := 24) (by decide) k₂
  obtain ⟨k₄, hk₄⟩ := mul_surjective hunit k₃
  refine ⟨k₄.toUInt8, (k₄ >>> 8).toUInt8, (k₄ >>> 16).toUInt8, (k₄ >>> 24).toUInt8, ?_⟩
  dsimp only at hk₁ hk₂ hk₃ hk₄
  rw [murmurBlock, or_bytes, hk₄, hk₃, hk₂, hk₁]

theorem murmurFinish_surjective : Function.Surjective murmurFinish := by
  have hunit : 0xe59b19bd * murmurM = 1 := by decide
  exact ((xorShift32_surjective (s := 15) (by decide)).comp (mul_surjective hunit)).comp
    (xorShift32_surjective (s := 13) (by decide))

/-- `murmur2` takes every value on keys of four bytes. -/
theorem murmur2_surjective : ∃ data, data ≠ [] ∧ murmur2 data = v := by
  obtain ⟨h, hfinish⟩ := murmurFinish_surjective v.toUInt32
  obtain ⟨b0, b1, b2, b3, hblock⟩ := murmurBlock_surjective
  refine ⟨[b0, b1, b2, b3], nofun, ?_⟩
  have hbytes : murmurBytes (0x9747b28c ^^^ UInt32.ofNat 4) [b0, b1, b2, b3] = h := hblock
  exact congrArg UInt32.toInt32 ((congrArg murmurFinish hbytes).trans hfinish)

-- a vector of the tests
example : murmur2 [102, 111, 111, 98, 97, 114] = -790332482 := by decide

/-! ## The default partitioner -/

/-- The partition of a key in the default partitioner of Kafka: the low 31 bits of its hash modulo
the number of partitions. -/
def defaultPartition (key : Bytes) (n : Nat) : Nat :=
  ((murmur2 key).toUInt32 &&& 0x7fffffff).toNat % n

theorem toNat_and_low31 (v : UInt32) : (v &&& 0x7fffffff).toNat = v.toNat % 2 ^ 31 :=
  Nat.and_two_pow_sub_one_eq_mod v.toNat 31

theorem toInt_toPositive : (toPositive v).toInt = (v.toUInt32 &&& 0x7fffffff).toNat := by
  have hlow := toNat_and_low31 v.toUInt32
  exact BitVec.toInt_eq_toNat_of_lt (by
    change 2 * (v.toUInt32 &&& 0x7fffffff).toNat < 2 ^ 32
    omega)

theorem toInt_mod_ofNat (ha : 0 ≤ a.toInt) (hn : n ≤ 2 ^ 31) :
    (a % Int32.ofNat n).toInt = a.toInt % n := by
  rw [Int32.toInt_mod, Int.tmod_eq_emod_of_nonneg ha]
  -- `int32` of 2³¹ is negative, and the remainder is the same
  rcases Nat.lt_or_eq_of_le hn with hlt | rfl
  · rw [Int32.toInt_ofNat_of_lt hlt]
  · exact (Int.emod_neg a.toInt (2 ^ 31))

/-- `HashPartitioner` computes the default partition. -/
theorem HashPartitioner.toInt_partition (hkey : key.bytes ≠ []) (hn : 0 < n) (hle : n ≤ 2 ^ 31) :
    (partition key n).toInt = defaultPartition key.bytes n := by
  rw [partition, if_neg hn.ne', if_neg hkey,
    toInt_mod_ofNat (by rw [toInt_toPositive]; exact Int.natCast_nonneg _) hle, toInt_toPositive,
    defaultPartition, Int.natCast_emod]

theorem exists_defaultPartition (hi : i < n) (hn : n ≤ 2 ^ 31) :
    ∃ key, key ≠ [] ∧ defaultPartition key n = i := by
  obtain ⟨key, hkey, hhash⟩ := murmur2_surjective
  refine ⟨key, hkey, ?_⟩
  have hlow : (Int32.ofNat i).toUInt32.toNat % 2 ^ 31 = i := by
    have hword : (Int32.ofNat i).toUInt32.toNat = i % 2 ^ 32 := rfl
    omega
  rw [defaultPartition, hhash, toNat_and_low31, hlow, Nat.mod_eq_of_lt hi]

/-! ## Keyed records -/

/-- The partitions that `resolvePartition` finds for a topic, as the metadata lists them. -/
def MetadataResponse.partitionsOf (md : MetadataResponse) (topic : Bytes) : List PartitionMeta :=
  ((md.topics.find? (·.name = topic)).map (·.partitions)).getD []

/-- Their ids. -/
def MetadataResponse.idsOf (md : MetadataResponse) (topic : Bytes) : List Int :=
  (md.partitionsOf topic).map (·.partition.toInt)

/-- The ids of `n` partitions, in order. -/
def idsUpTo (n : Nat) : List Int := (List.range n).map Int.ofNat

/-- A record that names no partition goes to the default partition of its key. -/
def RoutedByDefault (c : Cluster) (md : MetadataResponse) (r : Record) : Prop :=
  ∃ part leader,
    resolvePartition (c.storeMetadata md) HashPartitioner.partition r = .ok (part, leader) ∧
      part.toInt = defaultPartition r.key.bytes (md.partitionsOf r.topic).length

/-- The records that the default partitioner places by their keys. -/
structure Record.Keyed (r : Record) (topic : Bytes) : Prop where
  topic : r.topic = topic
  unassigned : r.partition < 0
  key : r.key.bytes ≠ []

section Keyed

variable {c : Cluster} {md : MetadataResponse} {topic : Bytes}

theorem resolvePartition_storeMetadata (partition : NilBytes → Nat → Int32) :
    resolvePartition (c.storeMetadata md) partition r =
      if md.partitionsOf r.topic = [] then .error (.unknownTopic r.topic)
      else if 0 ≤ r.partition then
        match (c.storeMetadata md).leaderNodeID r.topic r.partition with
        | (leader, true) => .ok (r.partition, leader)
        | (_, false) =>
          .error (.kafka ⟨errCodeLeaderNotAvail, r.topic, r.partition, "leader not available"⟩)
      else
        match if partition r.key (md.partitionsOf r.topic).length < 0 then none
          else (md.partitionsOf r.topic)[(partition r.key
            (md.partitionsOf r.topic).length).toNatClampNeg]? with
        | some pm => .ok (pm.partition, pm.leader)
        | none => .error (.panic "runtime error: index out of range") := rfl

/-- Without a partition of its own a record goes to the one listed at the partitioner's index. -/
theorem resolvePartition_unassigned (partition : NilBytes → Nat → Int32) {r : Record}
    (hne : md.partitionsOf r.topic ≠ []) (hneg : r.partition < 0) {i : Nat} {pm : PartitionMeta}
    (hi : (partition r.key (md.partitionsOf r.topic).length).toInt = i)
    (hpm : (md.partitionsOf r.topic)[i]? = some pm) :
    resolvePartition (c.storeMetadata md) partition r = .ok (pm.partition, pm.leader) := by
  have hindex : ¬ partition r.key (md.partitionsOf r.topic).length < 0 := by
    rw [Int32.lt_iff_toInt_lt, hi]
    exact Int.not_lt.2 (Int.natCast_nonneg i)
  have hnat : (partition r.key (md.partitionsOf r.topic).length).toNatClampNeg = i := by
    rw [Int32.toNatClampNeg, hi, Int.toNat_natCast]
  rw [resolvePartition_storeMetadata, if_neg hne, if_neg (Int32.not_le.2 hneg), if_neg hindex, hnat,
    hpm]

variable (hperm : (md.idsOf topic).Perm (idsUpTo (md.partitionsOf topic).length))
include hperm

theorem length_partitionsOf_le : (md.partitionsOf topic).length ≤ 2 ^ 31 := by
  by_contra hlarge
  have hmem : Int.ofNat (2 ^ 31) ∈ md.idsOf topic :=
    hperm.mem_iff.2 (List.mem_map_of_mem (List.mem_range.2 (Nat.lt_of_not_le hlarge)))
  obtain ⟨pm, -, hpm⟩ := List.mem_map.1 hmem
  have hlt := pm.partition.toInt_lt
  rw [hpm] at hlt
  exact absurd hlt (by decide)

theorem routedByDefault_iff (hne : md.partitionsOf topic ≠ []) (hr : r.Keyed topic) :
    RoutedByDefault c md r ↔
      (md.idsOf topic)[defaultPartition r.key.bytes (md.partitionsOf topic).length]? =
        some (defaultPartition r.key.bytes (md.partitionsOf topic).length : Int) := by
  obtain ⟨rfl, hneg, hkey⟩ := hr
  have hpos : 0 < (md.partitionsOf r.topic).length := List.length_pos_iff.2 hne
  have hindex := HashPartitioner.toInt_partition hkey hpos (length_partitionsOf_le hperm)
  have hlt : defaultPartition r.key.bytes (md.partitionsOf r.topic).length <
      (md.partitionsOf r.topic).length := Nat.mod_lt _ hpos
  have hres := @resolvePartition_unassigned c md _ r hne hneg _ _ hindex
    (List.getElem?_eq_getElem hlt)
  rw [RoutedByDefault, hres, MetadataResponse.idsOf, List.getElem?_map,
    List.getElem?_eq_getElem hlt]
  constructor
  · rintro ⟨part, leader, hok, hpart⟩
    cases hok
    exact congrArg some hpart
  · intro hid
    exact ⟨_, _, rfl, Option.some.inj hid⟩

end Keyed

/-- For a topic whose partitions are 0 to n - 1 in some order, `resolvePartition` with
`HashPartitioner` takes a keyed record to the default partition of its key exactly if the metadata
lists that partition at the index of its id; and it does so for every key exactly if the metadata
lists the partitions in the order of their ids. -/
theorem resolvePartition_hash_iff (c : Cluster) (md : MetadataResponse) (topic : Bytes)
    (hne : md.partitionsOf topic ≠ [])
    (hperm : (md.idsOf topic).Perm (idsUpTo (md.partitionsOf topic).length)) :
    (∀ r : Record, r.Keyed topic → (RoutedByDefault c md r ↔
      (md.idsOf topic)[defaultPartition r.key.bytes (md.partitionsOf topic).length]? =
        some (defaultPartition r.key.bytes (md.partitionsOf topic).length : Int))) ∧
    ((∀ r : Record, r.Keyed topic → RoutedByDefault c md r) ↔
      md.idsOf topic = idsUpTo (md.partitionsOf topic).length) := by
  refine ⟨fun r hr => routedByDefault_iff hperm hne hr, fun hall => ?_, fun hlisted r hr => ?_⟩
  · -- every index is the default partition of a key
    refine List.ext_getElem? fun i => ?_
    rcases Nat.lt_or_ge i (md.partitionsOf topic).length with hi | hi
    · obtain ⟨key, hkey, hdefault⟩ := exists_defaultPartition hi (length_partitionsOf_le hperm)
      have hkeyed : ({ topic := topic, partition := -1, key := some key } : Record).Keyed topic :=
        ⟨rfl, (by decide : (-1 : Int32) < 0), hkey⟩
      have hid := (routedByDefault_iff (c := c) hperm hne hkeyed).1 (hall _ hkeyed)
      change (md.idsOf topic)[defaultPartition key _]? = some (defaultPartition key _ : Int) at hid
      rw [hdefault] at hid
      rw [hid, idsUpTo, List.getElem?_map, List.getElem?_range hi]
      rfl
    · rw [List.getElem?_eq_none (by rwa [MetadataResponse.idsOf, List.length_map]),
        List.getElem?_eq_none (by rwa [idsUpTo, List.length_map, List.length_range])]
  · have hlt : defaultPartition r.key.bytes (md.partitionsOf topic).length <
        (md.partitionsOf topic).length := Nat.mod_lt _ (List.length_pos_iff.2 hne)
    rw [routedByDefault_iff hperm hne hr, hlisted, idsUpTo, List.getElem?_map,
      List.getElem?_range hlt]
    rfl

/-- Metadata that lists two partitions of topic `a`, in an order of choice. -/
def twoPartitions (first second : Int32) : MetadataResponse where
  brokers := [⟨1⟩]
  topics := [{ name := [97], partitions := [⟨first, 1, -1⟩, ⟨second, 1, -1⟩] }]

theorem resolvePartition_hash_iff_two :
    (∀ r : Record, r.Keyed [97] → RoutedByDefault { seeds := [] } (twoPartitions 0 1) r) ↔
      (twoPartitions 0 1).idsOf [97] = idsUpTo 2 :=
  (resolvePartition_hash_iff { seeds := [] } (twoPartitions 0 1) [97] (by decide) (by decide)).2

/-- A key whose hash is even goes to partition 0 when the metadata lists the partitions in order,
and to partition 1 when it lists them the other way round. -/
theorem resolvePartition_hash_swapped :
    let r : Record := { topic := [97], partition := -1, key := some [50, 49] }
    defaultPartition [50, 49] 2 = 0 ∧
    resolvePartition (Cluster.storeMetadata { seeds := [] } (twoPartitions 0 1))
      HashPartitioner.partition r = .ok (0, 1) ∧
    resolvePartition (Cluster.storeMetadata { seeds := [] } (twoPartitions 1 0))
      HashPartitioner.partition r = .ok (1, 1) := by
  refine ⟨by decide, by decide, by decide⟩

end GoKafka
