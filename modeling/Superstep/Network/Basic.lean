import Superstep.Network.Link

/-!
# The network

A network connects senders to the servers registered with it. Connections are numbered in
the order in which they are opened, over the whole network. A connection keeps the server
that it was opened to, whatever is registered later. Its opener holds it until one of the
two closes it; the frames that it had accepted by then are still served.
-/

namespace Superstep

/-- Who opened a connection. -/
inductive Endpoint where
  /-- The coordinator of a worker. -/
  | coordinator (worker : WorkerId)
  /-- A coordinator with a timer of its own. -/
  | timed
  /-- Nobody who keeps track of requests. -/
  | raw
deriving DecidableEq

/-- A connection of the network. -/
structure Connection where
  owner : Endpoint
  /-- The number of the server at the other end. -/
  server : Nat
  /-- Whether its opener still holds it. -/
  held : Bool
  link : Link

/-- Servers, and connections to them. -/
structure Network (I V E M : Type) where
  /-- Every server there was, by number. -/
  servers : Table Nat (Server I V E M)
  /-- The server that new connections to a worker lead to. -/
  registered : Table WorkerId Nat
  /-- The workers to which no new connection succeeds. -/
  unreachable : List WorkerId
  /-- Every connection there was. -/
  connections : Table ConnectionId Connection
  plan : FaultPlan
  nextConnection : Nat

namespace Network

variable {I V E M : Type}

def empty : Network I V E M := ⟨.empty, .empty, [], .empty, .none, 1⟩

/-- Registers a server for its worker, in the place of one that was registered before. -/
def register (n : Network I V E M) (server : Server I V E M) : Network I V E M :=
  let number := n.servers.size
  { n with
    servers := n.servers.insert number server
    registered := n.registered.insert server.worker number }

def deregister (n : Network I V E M) (worker : WorkerId) : Network I V E M :=
  { n with registered := n.registered.erase worker }

/-- Lets new connections to a worker succeed or fail. -/
def setReachable (n : Network I V E M) (worker : WorkerId) (reachable : Bool) :
    Network I V E M :=
  let others := n.unreachable.filter fun w => w ≠ worker
  { n with unreachable := if reachable then others else worker :: others }

def connect (n : Network I V E M) (owner : Endpoint) (worker : WorkerId) :
    Except Error ConnectionId × Network I V E M :=
  match n.registered.get? worker with
  | some server =>
    if n.unreachable.contains worker then (.error (.unreachable worker), n)
    else
      let id : ConnectionId := ⟨UInt64.ofNat n.nextConnection⟩
      (.ok id, { n with
        connections := n.connections.insert id ⟨owner, server, true, .empty⟩
        nextConnection := n.nextConnection + 1 })
  | none => (.error (.unreachable worker), n)

/-- Hands a frame to a connection. One that was cut, or that `owner` does not hold, takes
none, and is not held from then on. -/
def send (n : Network I V E M) (owner : Endpoint) (id : ConnectionId) (frame : Bytes) :
    Except Error Unit × Network I V E M :=
  match n.connections.get? id with
  | none => (.error .connectionClosed, n)
  | some connection =>
    if connection.held && connection.owner = owner then
      match connection.link.accept? frame with
      | some link =>
        (.ok (), { n with connections := n.connections.insert id { connection with link } })
      | none => (.error .connectionClosed,
        { n with connections := n.connections.insert id { connection with held := false } })
    else (.error .connectionClosed, n)

def close (n : Network I V E M) (owner : Endpoint) (id : ConnectionId) : Network I V E M :=
  { n with connections := n.connections.mapValues fun key connection =>
      if key = id && connection.owner = owner then { connection with held := false }
      else connection }

/-- Closes every connection that `owner` holds. -/
def closeAll (n : Network I V E M) (owner : Endpoint) : Network I V E M :=
  { n with connections := n.connections.mapValues fun _ connection =>
      if connection.owner = owner then { connection with held := false } else connection }

/-- The number of connections that `owner` holds and that were not cut. -/
def openConnections (n : Network I V E M) (owner : Endpoint) : Nat :=
  (n.connections.filter fun _ connection =>
    connection.owner = owner && connection.held && !connection.link.cut).size

variable [VertexId I] [Value V] [Value E] [Value M]

/-- Serves the next frame of a connection. A second copy is delivered as it is. Returns
what the opener hears of it, and what the server was given; none when no frame is
waiting. -/
def serve (n : Network I V E M) (id : ConnectionId) :
    Option (List Heard × List Bytes × Network I V E M) := do
  let connection ← n.connections.get? id
  let (frame, again, link) ← connection.link.pop?
  let server ← n.servers.get? connection.server
  let (action, plan) := if again then (.deliver, n.plan) else n.plan.actionFor frame
  let served := link.carry (fun bytes server => server.handle bytes) frame server action
  return (served.heard, served.handled, { n with
    connections := n.connections.insert id { connection with link := served.link }
    servers := n.servers.insert connection.server served.server
    plan })

end Network

end Superstep
