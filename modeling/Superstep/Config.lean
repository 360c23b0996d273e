import Superstep.Edges.Strategy
import Superstep.Error

/-!
# Configuration

`Config` holds every setting of the partition store and of request delivery. Settings
that are not given keep the values of the production preset, and unknown settings are
ignored. Times are in milliseconds.
-/

namespace Superstep

structure Config where
  /-- Age after which an unacknowledged request is sent again. -/
  requestTimeout : UInt64
  /-- Time between two checks for requests to send again. -/
  waitingInterval : UInt64
  /-- Times a request is sent before it is given up. -/
  maxRequestAttempts : UInt32
  /-- Consecutive failures to connect after which a destination is unreachable. -/
  maxReconnectAttempts : UInt32
  /-- Expected number of threads that use one partition. -/
  mapConcurrency : UInt64
  edgeStrategy : EdgeStrategy
  partitionKind : PartitionKind
deriving DecidableEq

structure PartitionConfig where
  mapConcurrency : UInt64
  edgeStrategy : EdgeStrategy
  kind : PartitionKind
deriving DecidableEq

structure DeliveryConfig where
  requestTimeout : Nat
  waitingInterval : Nat
  maxRequestAttempts : Nat
  maxReconnectAttempts : Nat
deriving DecidableEq

namespace Config

/-- Long timeouts, for large clusters. -/
def production : Config where
  requestTimeout := 600000
  waitingInterval := 15000
  maxRequestAttempts := 10
  maxReconnectAttempts := 30
  mapConcurrency := 16
  edgeStrategy := .hashed
  partitionKind := .byteArray

/-- Short timeouts, so that failures show quickly. -/
def testing : Config where
  requestTimeout := 200
  waitingInterval := 50
  maxRequestAttempts := 5
  maxReconnectAttempts := 3
  mapConcurrency := 4
  edgeStrategy := .hashed
  partitionKind := .byteArray

instance : Inhabited Config := ⟨production⟩

/-- Refuses settings the library cannot run with; the first refusal is reported. -/
def validate (c : Config) : Except InvalidArgument Unit := do
  if c.requestTimeout = 0 then throw (.notPositive "request_timeout_ms")
  if c.waitingInterval = 0 then throw (.notPositive "waiting_interval_ms")
  if c.maxRequestAttempts = 0 then throw (.belowOne "max_request_attempts")
  if c.mapConcurrency = 0 then throw (.belowOne "map_concurrency")

def partition (c : Config) : PartitionConfig where
  mapConcurrency := c.mapConcurrency
  edgeStrategy := c.edgeStrategy
  kind := c.partitionKind

/-- The settings of request delivery, with one attempt at the least. -/
def delivery (c : Config) : DeliveryConfig where
  requestTimeout := c.requestTimeout.toNat
  waitingInterval := c.waitingInterval.toNat
  maxRequestAttempts := max 1 c.maxRequestAttempts.toNat
  maxReconnectAttempts := c.maxReconnectAttempts.toNat

end Config

instance : Inhabited PartitionConfig := ⟨Config.production.partition⟩

/-- Doubles `power` until it reaches `bound` or does not fit a word of 64 bits, in which
case it wraps to zero. -/
def nextPowerOfTwo (bound : UInt64) : UInt64 :=
  go 64 1
where
  /-- The search, with the number of doublings that are left. -/
  go : Nat → UInt64 → UInt64
    | 0, power => power
    | n + 1, power => if bound ≤ power then power else go n (2 * power)

/-- The number of shards of a partition's map: a power of two, at least two and at least
the expected concurrency. -/
def PartitionConfig.shardAmount (c : PartitionConfig) : UInt64 :=
  nextPowerOfTwo (max 2 c.mapConcurrency)

/-! ## Settings as they are given -/

/-- The value of one setting as a configuration file gives it. -/
inductive Setting where
  | number (n : Nat)
  | name (s : String)
  | other

namespace Setting

/-- The number of a setting that must fit `width` bytes. -/
def word? (width : Nat) : Setting → Option Nat
  | number n => if n < BigEndian.limit width then some n else none
  | _ => none

/-- The name of a setting that must be one. -/
def name? : Setting → Option String
  | name s => some s
  | _ => none

end Setting

/-- The configuration with one setting replaced; none when the value does not fit. -/
def Config.set? (c : Config) (key : String) (value : Setting) : Option Config :=
  match key with
  | "request_timeout_ms" => do
    return { c with requestTimeout := UInt64.ofNat (← value.word? 8) }
  | "waiting_interval_ms" => do
    return { c with waitingInterval := UInt64.ofNat (← value.word? 8) }
  | "max_request_attempts" => do
    return { c with maxRequestAttempts := UInt32.ofNat (← value.word? 4) }
  | "max_reconnect_attempts" => do
    return { c with maxReconnectAttempts := UInt32.ofNat (← value.word? 4) }
  | "map_concurrency" => do
    return { c with mapConcurrency := UInt64.ofNat (← value.word? 8) }
  | "edge_strategy" => do
    return { c with edgeStrategy := ← EdgeStrategy.ofName? (← value.name?) }
  | "partition_kind" => do
    return { c with partitionKind := ← PartitionKind.ofSetting? (← value.name?) }
  | _ => some c

/-- The configuration with the given settings; none when one of them does not fit. -/
def Config.ofSettings? (settings : List (String × Setting)) : Option Config :=
  settings.foldlM (fun c (key, value) => c.set? key value) default

end Superstep
