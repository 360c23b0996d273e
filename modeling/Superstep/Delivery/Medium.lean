import Superstep.Delivery.Task

/-!
# Coordinators over a transport

A `Medium` is a world in which one coordinator lives and whose transport answers calls at
once. The coordinator may hear responses and lost connections while the transport works on
a call; that is part of what the call does to the world.
-/

namespace Superstep

/-- A world with a coordinator and a transport. -/
structure Medium (W : Type) where
  coordinator : W → Coordinator
  setCoordinator : Coordinator → W → W
  now : W → Nat
  /-- Opens a connection to a worker; none when that fails. -/
  connect : WorkerId → W → Option ConnectionId × W
  /-- Writes a frame to a connection; says whether the connection took it. -/
  write : ConnectionId → Bytes → W → Bool × W
  close : ConnectionId → W → W

namespace Medium

variable {W : Type}

def apply (m : Medium W) (p : Progress) (w : W) : W :=
  let w := m.setCoordinator p.coordinator w
  match p.close with
  | some connection => m.close connection w
  | none => w

/-- Carries a task through at most `steps` steps. Returns the number of frames that were
handed to the transport. -/
def runFor (m : Medium W) : (steps : Nat) → Task → W → Nat × W
  | 0, _, w => (0, w)
  | _, .idle, w => (0, w)
  | steps + 1, .connecting s later, w =>
    let (answer, w) := m.connect s.peer w
    let p := (m.coordinator w).afterConnect s later answer
    m.runFor steps p.task (m.apply p w)
  | steps + 1, .writing connection s later, w =>
    let (accepted, w) := m.write connection s.first.2 w
    let p := (m.coordinator w).afterWrite connection s later accepted
    let (written, w) := m.runFor steps p.task (m.apply p w)
    (written + 1, w)
  | steps + 1, task, w =>
    let (c, task) := (m.coordinator w).look task
    m.runFor steps task (m.setCoordinator c w)

def run (m : Medium W) (task : Task) (w : W) : Nat × W := m.runFor task.weight task w

def send (m : Medium W) (peer : WorkerId) (type : RequestType) (payload : Bytes) (w : W) :
    Except Error RequestId × W :=
  match (m.coordinator w).send (m.now w) peer type payload with
  | .error e => (.error e, w)
  | .ok (id, c, task) => (.ok id, (m.run task (m.setCoordinator c w)).2)

/-- Sends overdue requests again. Returns the number of frames that were handed to the
transport. -/
def resend (m : Medium W) (w : W) : Nat × W :=
  let (c, task) := (m.coordinator w).resend (m.now w)
  m.run task (m.setCoordinator c w)

def shutdown (m : Medium W) (w : W) : W :=
  let (connections, c) := (m.coordinator w).shutdown
  connections.foldl (fun w connection => m.close connection w) (m.setCoordinator c w)

/-- Waits for every request; none while that would take longer. -/
def await (m : Medium W) (w : W) : Option (Except Error Unit) × W :=
  let (result, c) := (m.coordinator w).await
  (result, m.setCoordinator c w)

/-- The background check, when `interval` has passed or a check was asked for: overdue
requests are sent again. -/
def tick (m : Medium W) (w : W) : W :=
  (m.resend (m.setCoordinator { m.coordinator w with resendRequested := false } w)).2

end Medium

end Superstep
