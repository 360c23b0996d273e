import Superstep.Clock
import Superstep.Delivery.Medium
import Superstep.Network.Basic

/-!
# Clusters

A network with the coordinators that send over it and one clock. Here a frame that is
handed to the network is served, and its responses are heard, before anything else
happens, so that a run is determined by its calls.
-/

namespace Superstep

/-- A network and its coordinators. -/
structure Cluster (I V E M : Type) where
  network : Network I V E M
  coordinators : Table Endpoint Coordinator
  clock : Clock
  /-- The last server that was registered for each worker. -/
  latest : Table WorkerId Nat
  /-- What was heard on connections without a coordinator, oldest first. -/
  heard : List Heard
  /-- How many times servers were given a frame. -/
  handled : Nat

namespace Cluster

variable {I V E M : Type}

def empty : Cluster I V E M := ⟨.empty, .empty, .start, .empty, [], 0⟩

def register (c : Cluster I V E M) (server : Server I V E M) : Cluster I V E M :=
  { c with
    latest := c.latest.insert server.worker c.network.servers.size
    network := c.network.register server }

/-- The last server that was registered for a worker. -/
def server? (c : Cluster I V E M) (worker : WorkerId) : Option (Server I V E M) := do
  c.network.servers.get? (← c.latest.get? worker)

/-- Puts the server of a worker back after it was used. -/
def setServer (c : Cluster I V E M) (worker : WorkerId) (server : Server I V E M) :
    Cluster I V E M :=
  match c.latest.get? worker with
  | none => c
  | some number =>
    { c with network := { c.network with
        servers := c.network.servers.insert number server } }

def coordinator (c : Cluster I V E M) (e : Endpoint) : Coordinator :=
  (c.coordinators.get? e).getD (.new default Config.production.delivery)

/-- Lets the owner of a connection hear something. -/
def hear (c : Cluster I V E M) (id : ConnectionId) (owner : Endpoint) (what : Heard) :
    Cluster I V E M :=
  match c.coordinators.get? owner with
  | none => { c with heard := c.heard ++ [what] }
  | some coordinator =>
    let next := match what with
      | .response frame => coordinator.onResponse frame
      | .closed => coordinator.onClosed id
    { c with coordinators := c.coordinators.insert owner next }

variable [VertexId I] [Value V] [Value E] [Value M]

/-- Serves a connection, at most `times` times. -/
def serve (c : Cluster I V E M) (owner : Endpoint) (id : ConnectionId) :
    (times : Nat) → Cluster I V E M
  | 0 => c
  | times + 1 =>
    match c.network.serve id with
    | none => c
    | some (heard, handled, network) =>
      let c := { c with network, handled := c.handled + handled.length }
      (heard.foldl (fun c what => c.hear id owner what) c).serve owner id times

/-- Hands a frame to the network and lets it be served, and its second copy if there is
one. -/
def send (c : Cluster I V E M) (owner : Endpoint) (id : ConnectionId) (frame : Bytes) :
    Except Error Unit × Cluster I V E M :=
  match c.network.send owner id frame with
  | (.error e, network) => (.error e, { c with network })
  | (.ok _, network) => (.ok (), { c with network }.serve owner id 2)

/-- The network as the transport of the coordinator at an endpoint. -/
def transport (e : Endpoint) : Medium (Cluster I V E M) where
  coordinator c := c.coordinator e
  setCoordinator next c := { c with coordinators := c.coordinators.insert e next }
  now c := c.clock.now
  connect worker c :=
    let (result, network) := c.network.connect e worker
    (result.toOption, { c with network })
  write id frame c :=
    let (result, c) := c.send e id frame
    (result.toBool, c)
  close id c := { c with network := c.network.close e id }

/-- Shuts the coordinator at an endpoint down and removes it, with all its
connections. -/
def release (c : Cluster I V E M) (e : Endpoint) : Cluster I V E M :=
  let c := (transport e).shutdown c
  { c with coordinators := c.coordinators.erase e, network := c.network.closeAll e }

/-- Puts a new coordinator at an endpoint, in the place of one that is there. -/
def install (c : Cluster I V E M) (e : Endpoint) (coordinator : Coordinator) :
    Cluster I V E M :=
  let c := if (c.coordinators.get? e).isSome then c.release e else c
  { c with coordinators := c.coordinators.insert e coordinator }

/-! ## A coordinator with its own timer -/

/-- Lets the timer of the timed coordinator turn at most `turns` times, until nothing is
pending. A turn waits for the interval to pass unless a check was asked for. -/
def turn (c : Cluster I V E M) : (turns : Nat) → Cluster I V E M
  | 0 => c
  | turns + 1 =>
    let coordinator := c.coordinator .timed
    if coordinator.pending.size = 0 then c
    else
      let wait :=
        if coordinator.resendRequested then 0 else max 1 coordinator.config.waitingInterval
      ((transport .timed).tick { c with clock := c.clock.advance wait }).turn turns

/-- Turns after which every request of a coordinator is settled: each of its attempts takes
the timeout, counted in intervals, and a turn more. -/
def turnsNeeded (config : DeliveryConfig) : Nat :=
  (config.maxRequestAttempts + 1) * (config.requestTimeout / max 1 config.waitingInterval + 2)

/-- How a run of a timed coordinator went. -/
structure TimedRun where
  sends : List (Except Error RequestId)
  awaited : Option (Except Error Unit)
  pending : Nat

/-- Sends requests through a new coordinator with a timer and a clock of its own, waits
for all of them, and removes the coordinator. -/
def runTimed (c : Cluster I V E M) (worker : WorkerId) (config : DeliveryConfig)
    (peer : WorkerId) (requests : List (Except Error (Request I M))) :
    TimedRun × Cluster I V E M :=
  let t := transport (I := I) (V := V) (E := E) (M := M) .timed
  let sendOne (state : List (Except Error RequestId) × Cluster I V E M)
      (request : Except Error (Request I M)) : List (Except Error RequestId) × Cluster I V E M :=
    match request.bind fun r => r.encode.map fun payload => (r.type, payload) with
    | .error e => (state.1 ++ [.error e], state.2)
    | .ok (type, payload) =>
      let (id, c) := t.send peer type payload state.2
      (state.1 ++ [id], c)
  let (sends, ran) := requests.foldl sendOne ([], c.install .timed (.new worker config))
  let ran := ran.turn (turnsNeeded config)
  let (awaited, ran) := t.await ran
  let pending := (t.coordinator ran).pending.size
  (⟨sends, awaited, pending⟩, { ran.release .timed with clock := c.clock })

end Cluster

end Superstep
