import GoKafka.Broker.Cluster
import GoKafka.Lib.Retry
import GoKafka.Protocol.ListOffsets

/-!
# Calls that list offsets

What `seekByTimestamp` of `offset.go` and `listLatestOffsets` of `admin_lag.go` have in common: they
look up the leaders of partitions in the metadata, send them ListOffsets requests and try again
while leaders are unavailable (`retryRetriable` with the attempts of `coordinatorRetry`). An attempt
may refresh the metadata; whether that succeeds is not looked at.
-/

namespace GoKafka

/-- What a call meets outside, by attempt: the metadata that other goroutines store before it, the
brokers its refresh talks to, what a broker answers to a request, and the end of the context before
the attempt and in the wait after it. -/
structure ListEnv where
  stored : Nat → List MetadataResponse := fun _ => []
  brokers : Nat → Cluster.Brokers
  now : Nat → Time := fun _ => ⟨0, 0⟩
  respond : Nat → Int32 → Bytes → Except Error Bytes
  ctxErr : Nat → Option Error := fun _ => none
  waitErr : Nat → Option Error := fun _ => none

/-- The attempts that `coordinatorRetry` allows with `Retry.MaxAttempts`. -/
def coordinatorAttempts (maxAttempts : Int64) : Nat :=
  if maxAttempts < 25 then 25 else maxAttempts.toInt.toNat

theorem coordinatorAttempts_ne_zero (maxAttempts : Int64) :
    coordinatorAttempts maxAttempts ≠ 0 := by
  rw [coordinatorAttempts]
  split_ifs with h
  · decide
  · have hle : (25 : Int64).toInt ≤ maxAttempts.toInt := Int64.le_iff_toInt_le.1 (Int64.not_lt.1 h)
    have hint : (25 : Int64).toInt = 25 := by decide
    omega

namespace ListEnv

variable (env : ListEnv)

/-- The loop of `retryRetriable` around a closure. -/
def loop {σ : Type} (fn : Nat → σ → Option Error × σ) : Retry.Loop σ Error where
  attempt := fn
  retriable := isRetriable
  ctxErr := env.ctxErr
  waitErr := env.waitErr

/-- The metadata when an attempt reads it. -/
def cacheAt (i : Nat) (c : Cluster) : Cluster := (env.stored i).foldl Cluster.storeMetadata c

/-- `Cluster.Refresh` in an attempt, whose error is ignored. -/
def refresh (i : Nat) (topics : List Bytes) (c : Cluster) : Cluster :=
  match c.refresh (some topics) (env.brokers i) (env.now i) with
  | .ok c => c
  | .error _ => c

/-- A request and the decoded answer to it. -/
def list (i : Nat) (node : Int32) (body : Bytes) : Except Error (List ListedOffset) := do
  decodeListOffsetsResponse (← env.respond i node body)

end ListEnv

/-- The error for a partition whose leader is not known. -/
def errLeaderUnavailable (topic : Bytes) (part : Int32) : Error :=
  .kafka ⟨errCodeNotLeaderForPart, topic, part, "list offsets: leader unavailable"⟩

/-- The error for an entry of an answer that has an error code. -/
def ListedOffset.error (o : ListedOffset) : Error :=
  .kafka ⟨o.errorCode, o.topic, o.partition, "list offsets failed"⟩

/-- No broker is reached. -/
def unreachable : ListEnv where
  brokers _ _ _ := .seedError (.other "")
  respond _ _ _ := .error (.other "")

/-- The metadata of topic `t`, whose only partition is led by node 1. -/
def leadTopic : MetadataResponse where
  brokers := [⟨1⟩]
  topics := [{ name := [116], partitions := [⟨0, 1, -1⟩] }]

/-- A broker of that topic that answers with these entries. -/
def oneLeaderEnv (offs : List ListedOffset) : ListEnv where
  brokers _ _ _ := .answer leadTopic
  respond _ _ _ := .ok (writeListOffsetsResponse offs)

end GoKafka
