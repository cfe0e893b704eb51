import GoKafka.Errors

/-!
# Records and timestamps

`record.go` and the part of Go's `time.Time` the protocol code uses.
-/

namespace GoKafka

instance neZeroNanoseconds : NeZero 1000000000 := ⟨by decide⟩

/-- Go's `time.Time`: seconds since January 1 of year 1 and nanoseconds within the second. -/
structure Time where
  sec : Int64
  nsec : Fin 1000000000
  deriving DecidableEq

def Time.isZero (t : Time) : Bool := t.sec = 0 && t.nsec.val = 0

/-- `time.Time.UnixMilli`, with the seconds from year 1 to 1970 taken off. -/
def Time.unixMilli (t : Time) : Int64 :=
  (t.sec - 62135596800) * 1000 + Int64.ofNat (t.nsec.val / 1000000)

/-- `time.UnixMilli`, for a time a signed word of seconds can say. -/
def Time.ofUnixMilli (ms : Int64) : Time :=
  { sec := Int64.ofInt (ms.toInt / 1000) + 62135596800
    nsec := ⟨(ms.toInt % 1000).toNat * 1000000, by omega⟩ }

/-- A record header as the wire code sees it: a key and a value. -/
abbrev WireHeader := NilBytes × NilBytes

structure Header where
  key : Bytes
  value : NilBytes
  deriving DecidableEq

structure Record where
  topic : Bytes
  partition : Int32
  offset : Int64 := 0
  key : NilBytes := none
  value : NilBytes := none
  headers : List Header := []
  timestamp : Time := ⟨0, 0⟩
  deliveryCount : Int16 := 0
  deriving DecidableEq

/-- A topic partition: `partKey` in `producer.go`. -/
structure PartKey where
  topic : Bytes
  part : Int32
  deriving DecidableEq

/-- The partition of a record. -/
abbrev Record.partKey (r : Record) : PartKey := ⟨r.topic, r.partition⟩

/-- `recordHeaders`: headers as the produce path hands them to the encoder. -/
def recordHeaders (hdrs : List Header) : List WireHeader :=
  hdrs.map fun h => (some h.key, h.value)

/-- `fetchHeaders`: headers as the fetch path hands them to the application. -/
def fetchHeaders (h : List WireHeader) : List Header :=
  h.map fun p => ⟨p.1.bytes, p.2⟩

end GoKafka
