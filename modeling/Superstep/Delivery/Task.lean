import Superstep.Delivery.Coordinator

/-!
# Dispatching requests

Sending and sending again both hand frames to the transport, connecting where there is no
connection. Many threads may do so at once, the transport may take its time over each
call, and the coordinator may hear anything meanwhile. So dispatching is a `Task`: it
stands in front of a call of the transport, or in front of its next look at the
coordinator. Between two such places a thread has the coordinator to itself; no state but
that of the task is held from one to the next.
-/

namespace Superstep

/-- Frames for one destination, one at the least. -/
structure Shipment where
  peer : WorkerId
  /-- The next request to be written, with its frame. -/
  first : RequestId × Bytes
  /-- The requests behind it. -/
  rest : List (RequestId × Bytes)
  /-- Whether the requests were dispatched before. -/
  again : Bool

/-- Work with the transport, standing at the place where it goes on. -/
inductive Task where
  | idle
  /-- Is about to look for a connection to the destination of the shipment. -/
  | seeking (s : Shipment) (later : List Shipment)
  /-- Waits for a new connection to the destination of the shipment. -/
  | connecting (s : Shipment) (later : List Shipment)
  /-- Found no connection for the shipment and is about to say so. -/
  | stranded (s : Shipment) (later : List Shipment)
  /-- Waits for the first frame of the shipment to be written to the connection. -/
  | writing (connection : ConnectionId) (s : Shipment) (later : List Shipment)
  /-- Could not write the first frame of the shipment and is about to say so. -/
  | failing (connection : ConnectionId) (s : Shipment) (later : List Shipment)

namespace Shipment

def frames (s : Shipment) : List (RequestId × Bytes) := s.first :: s.rest

/-- The number of steps that a shipment takes at the most: to look for a connection and to
make one, and two for each frame. -/
def weight (s : Shipment) : Nat := 2 * s.frames.length + 2

/-- The number of steps that some shipments take at the most. -/
def weights (shipments : List Shipment) : Nat :=
  shipments.foldr (fun s n => s.weight + n) 0

end Shipment

namespace Task

/-- The work of dispatching some shipments one after the other. -/
def ofShipments : List Shipment → Task
  | [] => idle
  | s :: later => seeking s later

/-- The number of steps that a task takes at the most. -/
def weight : Task → Nat
  | idle => 0
  | seeking s later => s.weight + Shipment.weights later
  | connecting s later => s.weight - 1 + Shipment.weights later
  | stranded _ later => 1 + Shipment.weights later
  | writing _ s later => 2 * s.frames.length + Shipment.weights later
  | failing _ s later => 2 * s.frames.length - 1 + Shipment.weights later

end Task

/-- What follows from the answer to a call. -/
structure Progress where
  coordinator : Coordinator
  /-- A connection to be closed first. -/
  close : Option ConnectionId
  task : Task

namespace Coordinator

/-- Marks the requests of a shipment as not taken by any connection. -/
def markUnsent (c : Coordinator) (s : Shipment) : Coordinator :=
  s.frames.foldl (fun c f => c.setRoute (s.peer, f.1) .unsent) c

/-- Turns to the first frame of a shipment. -/
def write (c : Coordinator) (connection : ConnectionId) (s : Shipment) (later : List Shipment) :
    Coordinator × Task :=
  (if s.again then c.count fun m => { m with resent := m.resent + 1 } else c,
    .writing connection s later)

/-- Turns to the frame behind the first one of a shipment, or to the next shipment. -/
def advance (c : Coordinator) (connection : ConnectionId) (s : Shipment)
    (later : List Shipment) : Coordinator × Task :=
  match s.rest with
  | [] => (c, .ofShipments later)
  | first :: rest => c.write connection { s with first, rest } later

/-- The next look of a task at the coordinator. A task that waits for the transport stays
where it is. -/
def look (c : Coordinator) : Task → Coordinator × Task
  | .seeking s later =>
    if c.stopped then (c, .stranded s later)
    else
      match c.live s.peer with
      | some connection => c.write connection s later
      | none => (c, .connecting s later)
  | .stranded s later => (c.markUnsent s, .ofShipments later)
  | .failing connection s later =>
    (c.setRoute (s.peer, s.first.1) .unsent).askForCheck.advance connection s later
  | task => (c, task)

/-- A connect was answered with a connection, or failed. A connection that was opened
while another one came into use is closed again. -/
def afterConnect (c : Coordinator) (s : Shipment) (later : List Shipment) :
    Option ConnectionId → Progress
  | none => ⟨c.refused s.peer, none, .stranded s later⟩
  | some connection =>
    match c.live s.peer with
    | some existing =>
      let (c, task) := c.write existing s later
      ⟨c, some connection, task⟩
    | none =>
      let (c, task) := (c.connected s.peer connection).write connection s later
      ⟨c, none, task⟩

/-- A frame was written, or could not be. A connection that takes no frame is lost and
closed. The request is checked again soon unless it now rests with the live
connection. -/
def afterWrite (c : Coordinator) (connection : ConnectionId) (s : Shipment)
    (later : List Shipment) (accepted : Bool) : Progress :=
  if accepted then
    let c := c.setRoute (s.peer, s.first.1) (.sent connection)
    let c := if c.live s.peer = some connection then c else c.askForCheck
    let (c, task) := c.advance connection s later
    ⟨c, none, task⟩
  else ⟨c.forget connection, some connection, .failing connection s later⟩

/-! ## Sending -/

/-- Takes a request on: gives it an id and keeps its frame. -/
def takeOn (c : Coordinator) (now : Nat) (peer : WorkerId) (type : RequestType) (payload : Bytes) :
    Except Error (RequestId × Shipment × Coordinator) := do
  if c.stopped then throw stoppedError
  let id := c.nextId peer
  let frame ← RequestFrame.encode { sender := c.worker, id, type, payload }
  let c := c.setPeer peer fun p => { p with nextId := id.next }
  let c := { c with pending := c.pending.insert (peer, id) ⟨frame, now, 1, .dispatching⟩ }
  let c := c.count fun m => { m with sent := m.sent + 1 }
  return (id, ⟨peer, (id, frame), [], false⟩, c)

/-- Begins to send a request: takes it on, and leaves the work of dispatching it. -/
def send (c : Coordinator) (now : Nat) (peer : WorkerId) (type : RequestType) (payload : Bytes) :
    Except Error (RequestId × Coordinator × Task) := do
  let (id, shipment, c) ← c.takeOn now peer type payload
  return (id, c, .ofShipments [shipment])

/-! ## Sending again -/

/-- Whether a request has to be sent again: no live connection has it, or it has waited
longer than the timeout. One that is about to be written is only overdue by time. -/
def isOverdue (c : Coordinator) (now : Nat) (key : RequestKey) (r : PendingRequest) : Bool :=
  let lost := match r.route with
    | .dispatching => false
    | .sent connection => c.live key.1 ≠ some connection
    | .unsent => true
  lost || now - r.dispatchedAt > c.config.requestTimeout

/-- Whether a request has no attempt left. -/
def isExhausted (c : Coordinator) (r : PendingRequest) : Bool :=
  c.config.maxRequestAttempts ≤ r.attempts

/-- Puts a request with its frame to the shipment for its destination. -/
def load (peer : WorkerId) (frame : RequestId × Bytes) : List Shipment → List Shipment
  | [] => [⟨peer, frame, [], true⟩]
  | s :: later =>
    if s.peer = peer then { s with rest := s.rest ++ [frame] } :: later
    else s :: load peer frame later

/-- Begins a check for overdue requests: those without an attempt left are given up, the
others are to be dispatched again. Returns the shipments. -/
def checkOverdue (c : Coordinator) (now : Nat) : Coordinator × List Shipment :=
  let overdue := fun key r => c.isOverdue now key r
  let retried := c.pending.filter fun key r => overdue key r && !c.isExhausted r
  let kept := c.giveUp fun key r =>
    if overdue key r && c.isExhausted r then some (.retriesExhausted r.attempts) else none
  let pending := kept.pending.mapValues fun key r =>
    if overdue key r then
      { r with attempts := r.attempts + 1, dispatchedAt := now, route := .dispatching }
    else r
  ({ kept with pending },
    retried.toList.foldl (fun loaded e => load e.1.1 (e.1.2, e.2.frame) loaded) [])

/-- Begins to send overdue requests again: selects them, and leaves the work of
dispatching them. -/
def resend (c : Coordinator) (now : Nat) : Coordinator × Task :=
  if c.stopped then (c, .idle)
  else
    let (c, shipments) := c.checkOverdue now
    (c, .ofShipments shipments)

/-! ## Shutdown -/

/-- Shuts the coordinator down. Returns the connections that are to be closed; a second
shutdown has none. -/
def shutdown (c : Coordinator) : List ConnectionId × Coordinator :=
  if c.stopped then ([], c)
  else
    (c.peers.values.filterMap Peer.connection,
      { c with
        stopped := true
        peers := c.peers.mapValues fun _ p => { p with connection := none } })

end Coordinator

end Superstep
