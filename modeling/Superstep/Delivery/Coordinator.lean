import Superstep.Config
import Superstep.Message.Frame
import Superstep.Metrics
import Superstep.Table

/-!
# The delivery coordinator

A coordinator sends the requests of one worker. It numbers them separately for each
destination, keeps the encoded frame of each until the destination answers, and sends the
same frame again when it is overdue or its connection is lost. A request leaves the
pending ones once: acknowledged, or given up for a reason that is reported later.

This module holds the state and what happens to it when something is heard: responses,
lost connections, refused connects, time. What a coordinator asks of its transport is in
`Superstep.Delivery.Task`.
-/

namespace Superstep

/-- Where the latest copy of a pending frame went. -/
inductive Route where
  /-- It is about to be written. -/
  | dispatching
  | sent (connection : ConnectionId)
  | unsent
deriving DecidableEq

/-- A request that is not settled yet. -/
structure PendingRequest where
  frame : Bytes
  dispatchedAt : Nat
  attempts : Nat
  route : Route
deriving DecidableEq

/-- What a coordinator knows of one destination. -/
structure Peer where
  connection : Option ConnectionId
  nextId : RequestId
  /-- Connects that failed since a connection last came into use, up to the size of a word. -/
  refusals : UInt32
deriving DecidableEq, Inhabited

/-- Names a request of one coordinator. -/
abbrev RequestKey := WorkerId × RequestId

/-- The sender's side of request delivery. -/
structure Coordinator where
  worker : WorkerId
  config : DeliveryConfig
  peers : Table WorkerId Peer
  /-- The requests that are not settled yet. -/
  pending : Table RequestKey PendingRequest
  /-- The requests given up and not reported yet, oldest first. -/
  failures : List DeliveryFailure
  /-- Whether the next check for overdue requests is to come at once. -/
  resendRequested : Bool
  stopped : Bool
  metrics : Metrics

namespace Coordinator

def new (worker : WorkerId) (config : DeliveryConfig) : Coordinator :=
  ⟨worker, config, .empty, .empty, [], false, false, {}⟩

/-- The error of calls after the shutdown. -/
def stoppedError : Error := .shutdown "delivery coordinator"

/-- What is known of a destination; a new one has no connection and begins with id 0. -/
def peer (c : Coordinator) (worker : WorkerId) : Peer :=
  (c.peers.get? worker).getD ⟨none, ⟨0⟩, 0⟩

def live (c : Coordinator) (worker : WorkerId) : Option ConnectionId :=
  (c.peer worker).connection

/-- The id that the next request to a destination will have. -/
def nextId (c : Coordinator) (worker : WorkerId) : RequestId := (c.peer worker).nextId

def setPeer (c : Coordinator) (worker : WorkerId) (f : Peer → Peer) : Coordinator :=
  { c with peers := c.peers.insert worker (f (c.peer worker)) }

def count (c : Coordinator) (f : Metrics → Metrics) : Coordinator :=
  { c with metrics := f c.metrics }

/-- Says where the latest copy of a request went, if the request is still pending. -/
def setRoute (c : Coordinator) (key : RequestKey) (route : Route) : Coordinator :=
  { c with pending := c.pending.modify key fun r => { r with route } }

/-! ## Giving requests up -/

/-- Gives up the pending requests for which `reason` has one, and counts them. -/
def giveUp (c : Coordinator) (reason : RequestKey → PendingRequest → Option FailureReason) :
    Coordinator :=
  let given := c.pending.toList.filterMap fun (key, request) =>
    (reason key request).map fun why => DeliveryFailure.mk key.1 key.2 why
  { c with
    pending := c.pending.filter fun key request => (reason key request).isNone
    failures := c.failures ++ given
    metrics := { c.metrics with failed := c.metrics.failed + given.length } }

/-- Failed connects in a row after which a destination is unreachable. -/
def patience (c : Coordinator) : Nat := max 1 c.config.maxReconnectAttempts

/-- The count of failed connects to a destination once another one fails. -/
def refusalsNext (c : Coordinator) (worker : WorkerId) : UInt32 := (c.peer worker).refusals + 1

/-- Records a failed connect. When there have been too many in a row, every request to the
destination is given up. -/
def refused (c : Coordinator) (worker : WorkerId) : Coordinator :=
  let refusals := c.refusalsNext worker
  let c := c.setPeer worker fun p => { p with refusals }
  if refusals.toNat < c.patience then c
  else c.giveUp fun key _ =>
    if key.1 = worker then some (.unreachable refusals.toNat) else none

/-! ## Connections -/

def connected (c : Coordinator) (worker : WorkerId) (connection : ConnectionId) : Coordinator :=
  (c.setPeer worker fun p => { p with connection := some connection, refusals := 0 }).count
    fun m => { m with opened := m.opened + 1 }

/-- The destination for which `connection` is the live one. -/
def holder? (c : Coordinator) (connection : ConnectionId) : Option WorkerId :=
  (c.peers.toList.find? fun e => e.2.connection = some connection).map Prod.fst

/-- Stops using a connection that is lost. Nothing happens when it was replaced before. -/
def forget (c : Coordinator) (connection : ConnectionId) : Coordinator :=
  match c.holder? connection with
  | none => c
  | some worker =>
    (c.setPeer worker fun p => { p with connection := none }).count
      fun m => { m with lost := m.lost + 1 }

def askForCheck (c : Coordinator) : Coordinator := { c with resendRequested := true }

/-- Hears that a connection was closed at the other end or by the network: it is taken out of
use, and if it was in use, a check is asked for. Others may come in between the two. -/
def onClosed (c : Coordinator) (connection : ConnectionId) : Coordinator :=
  match c.holder? connection with
  | none => c
  | some _ => (c.forget connection).askForCheck

/-! ## Responses -/

/-- Settles a pending request as its response says. A response to anything else is
stale. -/
def settle (c : Coordinator) (response : ResponseFrame) : Coordinator :=
  let key : RequestKey := (response.responder, response.id)
  if c.pending.contains key then
    let c := { c with pending := c.pending.erase key }
    match response with
    | .ack _ _ => c.count fun m => { m with acks := m.acks + 1 }
    | .failed worker id reason =>
      { c with
        failures := c.failures ++ [⟨worker, id, .rejected reason⟩]
        metrics := { c.metrics with failed := c.metrics.failed + 1 } }
  else c

/-- Hears a frame on one of its connections. Only responses count. -/
def onResponse (c : Coordinator) (bytes : Bytes) : Coordinator :=
  match Frame.decode bytes with
  | .ok (.response response) => c.settle response
  | .ok (.request _) => c
  | .error _ => c

/-! ## Waiting -/

/-- Waits until every request is settled; none while that would take longer. Returns the
failures since the last time, each of them once. -/
def await (c : Coordinator) : Option (Except Error Unit) × Coordinator :=
  if c.pending.size ≠ 0 then
    if c.stopped then (some (.error stoppedError), c) else (none, c)
  else if c.failures = [] then (some (.ok ()), c)
  else (some (.error (.deliveryFailed c.failures)), { c with failures := [] })

end Coordinator

end Superstep
