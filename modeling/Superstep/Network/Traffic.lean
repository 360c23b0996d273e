import Superstep.Network.Basic

/-!
# Traffic

A network with whatever goes on in it, one event at a time, and a journal of what is seen of its
connections: which frames a connection accepted, which of them the network took off the link, what
the server was given and answered, and what the opener heard.

What the network does is decided beforehand: for each connection there is an action for its first
frame, its second frame and so on. Servers may change in any way between two frames.
-/

namespace Superstep

/-- What is seen of a connection. -/
inductive Sighting where
  | opened
  /-- The connection accepted a frame. -/
  | accepted (frame : Bytes)
  /-- The network took a frame off the link. -/
  | taken (frame : Bytes)
  /-- The server was given a frame, and gave this answer. -/
  | handed (frame : Bytes) (answer : Option Bytes)
  /-- The opener heard something. -/
  | heard (what : Heard)

namespace Sighting

def accepted? : Sighting → Option Bytes
  | accepted frame => some frame
  | _ => none

def taken? : Sighting → Option Bytes
  | taken frame => some frame
  | _ => none

def handed? : Sighting → Option (Bytes × Option Bytes)
  | handed frame answer => some (frame, answer)
  | _ => none

def heard? : Sighting → Option Heard
  | heard what => some what
  | _ => none

end Sighting

/-- A network and a journal. -/
structure Traffic (I V E M : Type) where
  network : Network I V E M
  /-- What was seen of which connection, oldest first. -/
  journal : List (ConnectionId × Sighting)

namespace Traffic

variable {I V E M : Type}

/-- What can go on in a network. -/
inductive Event (I V E M : Type) where
  | register (server : Server I V E M)
  | deregister (worker : WorkerId)
  | reach (worker : WorkerId) (reachable : Bool)
  /-- A server becomes another one, without a frame. -/
  | change (number : Nat) (f : Server I V E M → Server I V E M)
  | connect (owner : Endpoint) (worker : WorkerId)
  | send (owner : Endpoint) (connection : ConnectionId) (frame : Bytes)
  | close (owner : Endpoint) (connection : ConnectionId)
  /-- An opener closes all of its connections. -/
  | closeAll (owner : Endpoint)
  /-- The next frame of a connection is served, if there is one. -/
  | serve (connection : ConnectionId)

def start : Traffic I V E M := ⟨.empty, []⟩

/-! ## What is seen of one connection -/

/-- What was seen of a connection since it was opened. -/
def seen (t : Traffic I V E M) (id : ConnectionId) : List Sighting :=
  t.journal.foldl (fun seen entry =>
    if entry.1 = id then
      match entry.2 with
      | .opened => []
      | sighting => seen ++ [sighting]
    else seen) []

/-- The frames that the connection accepted. -/
def accepted (t : Traffic I V E M) (id : ConnectionId) : List Bytes :=
  (t.seen id).filterMap Sighting.accepted?

/-- The frames that the network took off the link. -/
def taken (t : Traffic I V E M) (id : ConnectionId) : List Bytes :=
  (t.seen id).filterMap Sighting.taken?

/-- The frames that the server was given, with its answers. -/
def handed (t : Traffic I V E M) (id : ConnectionId) : List (Bytes × Option Bytes) :=
  (t.seen id).filterMap Sighting.handed?

/-- What the opener heard. -/
def heard (t : Traffic I V E M) (id : ConnectionId) : List Heard :=
  (t.seen id).filterMap Sighting.heard?

/-! ## Events -/

def note (t : Traffic I V E M) (id : ConnectionId) (sightings : List Sighting) :
    Traffic I V E M :=
  { t with journal := t.journal ++ sightings.map fun sighting => (id, sighting) }

def connect (t : Traffic I V E M) (owner : Endpoint) (worker : WorkerId) : Traffic I V E M :=
  match t.network.connect owner worker with
  | (.ok id, network) => { t with network }.note id [.opened]
  | (.error _, network) => { t with network }

def send (t : Traffic I V E M) (owner : Endpoint) (id : ConnectionId) (frame : Bytes) :
    Traffic I V E M :=
  match t.network.send owner id frame with
  | (.ok _, network) => { t with network }.note id [.accepted frame]
  | (.error _, network) => { t with network }

variable [VertexId I] [Value V] [Value E] [Value M]

/-- What is seen when a frame is served that the server at the other end is given. A second copy was
taken off the link before. -/
def sightings (server : Server I V E M) (frame : Bytes) (again : Bool) (heard : List Heard)
    (handled : List Bytes) : List Sighting :=
  (if again then [] else [.taken frame])
    ++ handled.map (fun bytes => .handed bytes (server.handle bytes).1) ++ heard.map .heard

/-- Serves the next frame of a connection, and does `action` to it when it is a request. -/
def serve (t : Traffic I V E M) (id : ConnectionId) (action : FaultAction) : Traffic I V E M :=
  let network := { t.network with plan := .always action }
  match network.connections.get? id with
  | none => t
  | some connection =>
    match connection.link.pop?, network.servers.get? connection.server, network.serve id with
    | some (frame, again, _), some server, some (heard, handled, next) =>
      { t with network := next }.note id (sightings server frame again heard handled)
    | _, _, _ => t

/-- What an event does, when these actions are in store for the frames of each connection. -/
def step (fates : ConnectionId → Nat → FaultAction) (t : Traffic I V E M) :
    Event I V E M → Traffic I V E M
  | .register server => { t with network := t.network.register server }
  | .deregister worker => { t with network := t.network.deregister worker }
  | .reach worker reachable => { t with network := t.network.setReachable worker reachable }
  | .change number f =>
    { t with network := { t.network with servers := t.network.servers.modify number f } }
  | .connect owner worker => t.connect owner worker
  | .send owner connection frame => t.send owner connection frame
  | .close owner connection => { t with network := t.network.close owner connection }
  | .closeAll owner => { t with network := t.network.closeAll owner }
  | .serve connection => t.serve connection (fates connection (t.taken connection).length)

def run (fates : ConnectionId → Nat → FaultAction) (t : Traffic I V E M)
    (events : List (Event I V E M)) : Traffic I V E M :=
  events.foldl (step fates) t

end Traffic

end Superstep
