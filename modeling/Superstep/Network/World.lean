import Superstep.Clock
import Superstep.Delivery.Sender
import Superstep.Network.Basic

/-!
# Worlds

A world is a network, a server for each of its hosts, and a sender for every worker. Unlike a
cluster it leaves everything open that the network and the threads decide: when a call is
carried out, when its answer is taken up, which connection is served next and what is done to
the frame, when a response is heard, and what a worker does with its holdings meanwhile.

A world keeps a log of what happened to the holdings of its hosts.
-/

namespace Superstep

inductive Answer where
  | connected (answer : Option ConnectionId)
  | written (accepted : Bool)

/-- What an answer is to the sender, when the thread takes it up. -/
def Answer.event (thread : Nat) : Answer → Sender.Event
  | connected answer => .connected thread answer
  | written accepted => .written thread accepted

/-- What something that is heard on a connection is to the sender. -/
def Heard.event (connection : ConnectionId) : Heard → Sender.Event
  | response bytes => .response bytes
  | closed => .closed connection

/-- An entry of the log. -/
inductive Happening (I V E M : Type) where
  /-- A server was given a request, and did this with it. -/
  | handled (host : WorkerId) (frame : RequestFrame) (outcome : Except Error Admission)
  /-- A worker changed what it holds. -/
  | used (host : WorkerId) (change : Holdings I V E M → Holdings I V E M)

namespace Happening

variable {I V E M : Type}

/-- What the host did with a copy of this request, if that is what happened. -/
def outcome? (host sender : WorkerId) (id : RequestId) :
    Happening I V E M → Option (Except Error Admission)
  | handled host' frame outcome =>
    if host' = host ∧ frame.sender = sender ∧ frame.id = id then some outcome else none
  | used _ _ => none

/-- The copy of this request that the host applied, if that is what happened. -/
def applied? (host sender : WorkerId) (id : RequestId) : Happening I V E M → Option RequestFrame
  | handled host' frame (.ok .applied) =>
    if host' = host ∧ frame.sender = sender ∧ frame.id = id then some frame else none
  | _ => none

end Happening

/-- A network with its hosts and their senders. -/
structure World (I V E M : Type) where
  network : Network I V E M
  senders : WorkerId → Sender
  clock : Clock
  /-- Answers to calls that threads have not taken up yet. -/
  answers : Table (WorkerId × Nat) Answer
  /-- What was said on connections and is not heard yet. -/
  mail : List (WorkerId × ConnectionId × Heard)
  /-- What happened to the holdings, oldest first. -/
  log : List (Happening I V E M)

namespace World

variable {I V E M : Type}

/-- What can happen in a world. -/
inductive Event (I V E M : Type) where
  | send (worker peer : WorkerId) (type : RequestType) (payload : Bytes)
  /-- A worker begins to send overdue requests again. -/
  | resend (worker : WorkerId)
  | wake (worker : WorkerId)
  | await (worker : WorkerId)
  | shutdown (worker : WorkerId)
  /-- A thread looks at the coordinator and goes on to its next call. -/
  | look (worker : WorkerId) (thread : Nat)
  /-- The network carries out the call of a thread. -/
  | call (worker : WorkerId) (thread : Nat)
  | answer (worker : WorkerId) (thread : Nat)
  /-- The network closes a connection as it was asked to. -/
  | close (worker : WorkerId) (connection : ConnectionId)
  /-- The network does this with the next frame of a connection. -/
  | serve (connection : ConnectionId) (action : FaultAction)
  /-- Something that was said on a connection is heard. -/
  | hear (place : Nat)
  /-- The thread that heard that this connection is lost asks for a check. -/
  | alarm (worker : WorkerId) (connection : ConnectionId)
  /-- Time passes. -/
  | advance (ms : Nat)
  /-- New connections to a worker succeed or fail from now on. -/
  | reach (worker : WorkerId) (reachable : Bool)
  /-- A worker changes what it holds. -/
  | use (worker : WorkerId) (change : Holdings I V E M → Holdings I V E M)

/-- A world at its beginning: every host has one server, registered under its own id, and no
request was sent. -/
def start (hosts : Table WorkerId (Holdings I V E M)) (metered : Bool)
    (config : WorkerId → DeliveryConfig) : World I V E M where
  network := hosts.toList.foldl
    (fun n host => n.register (.serving host.1 host.2 metered)) .empty
  senders worker := .new worker (config worker)
  clock := .start
  answers := .empty
  mail := []
  log := []

/-- Lets something happen to one sender. -/
def tell (w : World I V E M) (worker : WorkerId) (e : Sender.Event) : World I V E M :=
  { w with senders := fun other =>
      if other = worker then (w.senders worker).step e else w.senders other }

/-- Carries out the call that a thread waits for, unless that was done. -/
def call (w : World I V E M) (worker : WorkerId) (thread : Nat) : World I V E M :=
  match w.answers.get? (worker, thread), (w.senders worker).tasks[thread]? with
  | none, some (.connecting shipment _) =>
    let (result, network) := w.network.connect (.coordinator worker) shipment.peer
    { w with
      network
      answers := w.answers.insert (worker, thread) (.connected result.toOption) }
  | none, some (.writing connection shipment _) =>
    let (result, network) := w.network.send (.coordinator worker) connection shipment.first.2
    { w with
      network
      answers := w.answers.insert (worker, thread) (.written result.toBool) }
  | _, _ => w

variable [VertexId I] [Value V] [Value E] [Value M]

/-- What the log says of a frame that a server is given. -/
def handling (server : Server I V E M) (bytes : Bytes) : Option (Happening I V E M) :=
  match Frame.decode bytes with
  | .ok (.request frame) => some (.handled server.worker frame (server.accept frame).1)
  | _ => none

/-- Serves the next frame of a connection. -/
def serve (w : World I V E M) (id : ConnectionId) (action : FaultAction) : World I V E M :=
  let network := { w.network with plan := .always action }
  match network.connections.get? id with
  | some ⟨.coordinator worker, number, _, _⟩ =>
    match network.servers.get? number, network.serve id with
    | some server, some (heard, handled, next) =>
      { w with
        network := next
        mail := w.mail ++ heard.map fun what => (worker, id, what)
        log := w.log ++ handled.filterMap (handling server) }
    | _, _ => w
  | _ => w

/-- Lets a worker change what its server holds. -/
def use (w : World I V E M) (worker : WorkerId)
    (change : Holdings I V E M → Holdings I V E M) : World I V E M :=
  match w.network.registered.get? worker with
  | none => w
  | some number =>
    match w.network.servers.get? number with
    | none => w
    | some server =>
      let next := { server with holdings := change server.holdings }
      { w with
        network := { w.network with servers := w.network.servers.insert number next }
        log := w.log ++ [.used worker change] }

def step (w : World I V E M) : Event I V E M → World I V E M
  | .send worker peer type payload => w.tell worker (.send w.clock.now peer type payload)
  | .resend worker => w.tell worker (.resend w.clock.now)
  | .wake worker => w.tell worker .wake
  | .await worker => w.tell worker .await
  | .shutdown worker => w.tell worker .shutdown
  | .look worker thread => w.tell worker (.look thread)
  | .call worker thread => w.call worker thread
  | .answer worker thread =>
    match w.answers.get? (worker, thread) with
    | none => w
    | some answer =>
      { w with answers := w.answers.erase (worker, thread) }.tell worker (answer.event thread)
  | .close worker connection =>
    if (w.senders worker).asked.contains connection then
      { w with network := w.network.close (.coordinator worker) connection }
    else w
  | .serve connection action => w.serve connection action
  | .hear place =>
    match w.mail[place]? with
    | none => w
    | some (worker, connection, what) =>
      { w with mail := w.mail.eraseIdx place }.tell worker (what.event connection)
  | .alarm worker connection => w.tell worker (.alarm connection)
  | .advance ms => { w with clock := w.clock.advance ms }
  | .reach worker reachable => { w with network := w.network.setReachable worker reachable }
  | .use worker change => w.use worker change

def run (w : World I V E M) (events : List (Event I V E M)) : World I V E M := events.foldl step w

/-! ## What the log says -/

def server? (w : World I V E M) (host : WorkerId) : Option (Server I V E M) := do
  w.network.servers.get? (← w.network.registered.get? host)

/-- What a host did with the copies of one request, in the order in which it was given
them. -/
def outcomes (w : World I V E M) (host sender : WorkerId) (id : RequestId) :
    List (Except Error Admission) :=
  w.log.filterMap (Happening.outcome? host sender id)

/-- The answers that a host gave to the copies of one request, in the order in which it was
given them. -/
def replies (w : World I V E M) (host sender : WorkerId) (id : RequestId) :
    List ResponseFrame :=
  (w.outcomes host sender id).map (Server.answer host id)

/-- The copies of one request that a host applied. -/
def applications (w : World I V E M) (host sender : WorkerId) (id : RequestId) :
    List RequestFrame :=
  w.log.filterMap (Happening.applied? host sender id)

/-- What the entry of the log does to the holdings of a host: an application carries the
request out, anything else that a server does leaves them as they are. -/
def effect (host : WorkerId) (h : Holdings I V E M) : Happening I V E M → Holdings I V E M
  | .handled host' frame (.ok .applied) => if host' = host then (h.applyFrame frame).2 else h
  | .handled _ _ _ => h
  | .used host' change => if host' = host then change h else h

end World

end Superstep
