import Superstep.Delivery.Task

/-!
# Senders

A sender is a coordinator at work: the tasks of all the threads that dispatch requests for it,
and a journal of what passed between it, its callers and its transport. What happens to it is
an `Event`. Any thread may go on at any time, the transport may answer a call in any way and
as late as it likes, and responses and lost connections may be heard in between. Time is part
of the events that look at it.

An event is what a thread does while it has the coordinator to itself. A thread that has it
twice in a row takes two: one that hears of a lost connection first takes it out of use, and asks
for a check when it has the coordinator again.
-/

namespace Superstep

/-- The request that a failure is about. -/
def DeliveryFailure.key (f : DeliveryFailure) : RequestKey := (f.destination, f.request)

/-- An entry of a sender's journal. -/
inductive Note where
  /-- A send returned the id of this frame for the destination. -/
  | issued (peer : WorkerId) (frame : RequestFrame)
  | acknowledged (key : RequestKey)
  /-- Waiting for all requests came to an end. -/
  | awaited (result : Except Error Unit)
  | connected (peer : WorkerId) (answer : Option ConnectionId)
  | wrote (connection : ConnectionId) (peer : WorkerId) (frame : RequestId × Bytes)
      (accepted : Bool)
  | closing (connection : ConnectionId)
  | closed (connection : ConnectionId)

namespace Note

def issued? : Note → Option (WorkerId × RequestFrame)
  | issued peer frame => some (peer, frame)
  | _ => none

def acknowledged? : Note → Option RequestKey
  | acknowledged key => some key
  | _ => none

def closing? : Note → Option ConnectionId
  | closing connection => some connection
  | _ => none

def failures : Note → List DeliveryFailure
  | awaited (.error (.deliveryFailed failures)) => failures
  | _ => []

end Note

/-- A coordinator, the tasks of its threads, and its journal. A task keeps its place when it
is done. -/
structure Sender where
  coordinator : Coordinator
  tasks : List Task
  journal : List Note
  /-- The connections that were in use when they were reported closed, as long as the threads
  that heard of it have not asked for a check. -/
  alarms : List ConnectionId

namespace Sender

/-- What can happen to a sender. -/
inductive Event where
  | send (now : Nat) (peer : WorkerId) (type : RequestType) (payload : Bytes)
  /-- A caller or the timer begins to send overdue requests again. -/
  | resend (now : Nat)
  /-- The timer wakes up, and no longer has to. -/
  | wake
  /-- A thread looks at the coordinator and goes on to its next call. -/
  | look (thread : Nat)
  | connected (thread : Nat) (answer : Option ConnectionId)
  | written (thread : Nat) (accepted : Bool)
  | response (bytes : Bytes)
  | closed (connection : ConnectionId)
  /-- The thread that took this connection out of use when it was reported closed asks for a
  check. -/
  | alarm (connection : ConnectionId)
  | await
  | shutdown

def new (worker : WorkerId) (config : DeliveryConfig) : Sender :=
  ⟨.new worker config, [], [], []⟩

/-! ## What the journal says -/

/-- The requests issued so far, with their destinations. -/
def issued (s : Sender) : List (WorkerId × RequestFrame) := s.journal.filterMap Note.issued?

def sentTo (s : Sender) (peer : WorkerId) : List RequestFrame :=
  (s.issued.filter fun e => e.1 = peer).map Prod.snd

def issuedKeys (s : Sender) : List RequestKey := s.issued.map fun e => (e.1, e.2.id)

def acked (s : Sender) : List RequestKey := s.journal.filterMap Note.acknowledged?

def asked (s : Sender) : List ConnectionId := s.journal.filterMap Note.closing?

def reported (s : Sender) : List DeliveryFailure := s.journal.flatMap Note.failures

/-! ## Steps -/

/-- What the journal says of a frame that arrives: the request that it acknowledges, if it is
pending. -/
def noteResponse (c : Coordinator) (bytes : Bytes) : List Note :=
  match Frame.decode bytes with
  | .ok (.response (.ack responder id)) =>
    if c.pending.contains (responder, id) then [.acknowledged (responder, id)] else []
  | _ => []

/-- Takes up what follows from the answer to a thread's call. -/
def goOn (s : Sender) (thread : Nat) (note : Note) (p : Progress) : Sender :=
  { s with
    coordinator := p.coordinator
    tasks := s.tasks.set thread p.task
    journal := s.journal ++ note :: p.close.toList.map .closing }

/-- What an event does to a sender. An answer to a call that a thread has not made does
nothing. -/
def step (s : Sender) : Event → Sender
  | .send now peer type payload =>
    match s.coordinator.send now peer type payload with
    | .error _ => s
    | .ok (id, c, task) =>
      { s with
        coordinator := c
        tasks := s.tasks ++ [task]
        journal := s.journal
          ++ [.issued peer { sender := s.coordinator.worker, id, type, payload }] }
  | .resend now =>
    let (c, task) := s.coordinator.resend now
    { s with coordinator := c, tasks := s.tasks ++ [task] }
  | .wake => { s with coordinator := { s.coordinator with resendRequested := false } }
  | .look thread =>
    match s.tasks[thread]? with
    | none => s
    | some task =>
      let (c, task) := s.coordinator.look task
      { s with coordinator := c, tasks := s.tasks.set thread task }
  | .connected thread answer =>
    match s.tasks[thread]? with
    | some (.connecting shipment later) =>
      s.goOn thread (.connected shipment.peer answer)
        (s.coordinator.afterConnect shipment later answer)
    | _ => s
  | .written thread accepted =>
    match s.tasks[thread]? with
    | some (.writing connection shipment later) =>
      s.goOn thread (.wrote connection shipment.peer shipment.first accepted)
        (s.coordinator.afterWrite connection shipment later accepted)
    | _ => s
  | .response bytes =>
    { s with
      coordinator := s.coordinator.onResponse bytes
      journal := s.journal ++ noteResponse s.coordinator bytes }
  | .closed connection =>
    { s with
      coordinator := s.coordinator.forget connection
      journal := s.journal ++ [.closed connection]
      alarms := if (s.coordinator.holder? connection).isSome then s.alarms ++ [connection]
        else s.alarms }
  | .alarm connection =>
    if connection ∈ s.alarms then
      { s with coordinator := s.coordinator.askForCheck, alarms := s.alarms.erase connection }
    else s
  | .await =>
    match s.coordinator.await with
    | (none, _) => s
    | (some result, c) => { s with coordinator := c, journal := s.journal ++ [.awaited result] }
  | .shutdown =>
    let (connections, c) := s.coordinator.shutdown
    { s with coordinator := c, journal := s.journal ++ connections.map .closing }

def run (s : Sender) (events : List Event) : Sender := events.foldl step s

end Sender

/-! ## Where a request stands -/

/-- Where a request that was issued stands. -/
inductive Standing where
  | pending
  /-- The destination has it on record. -/
  | acknowledged
  /-- It was given up, and nobody was told yet. -/
  | unreported (reason : FailureReason)
  /-- It was given up, and a caller was told. -/
  | reported (reason : FailureReason)
deriving DecidableEq

/-- Whether a request that stands here may come to stand there. -/
def Standing.MayBecome : Standing → Standing → Prop
  | pending, _ => True
  | acknowledged, later => later = acknowledged
  | unreported reason, later => later = unreported reason ∨ later = reported reason
  | reported reason, later => later = reported reason

/-- Everything that a sender holds about a request: one standing for each place in which the
request is found. -/
def Sender.standings (s : Sender) (key : RequestKey) : List Standing :=
  (s.coordinator.pending.keys.filter (· = key)).map (fun _ => Standing.pending) ++
    (s.acked.filter (· = key)).map (fun _ => Standing.acknowledged) ++
    (s.coordinator.failures.filter (·.key = key)).map (fun f => Standing.unreported f.reason) ++
    (s.reported.filter (·.key = key)).map fun f => Standing.reported f.reason

end Superstep
