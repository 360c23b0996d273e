import Superstep.Clock
import Superstep.Delivery.Medium

/-!
# A scripted transport

A transport without a network. A script for each worker says how connects to it and writes
to its connections turn out, and everything that the coordinator asks for is logged. The
connections to worker `w` are numbered `100 * w + 1`, `100 * w + 2`, and so on.
-/

namespace Superstep

/-- How a call of the transport fails. -/
inductive LinkFault where
  | unreachable | closed | io
deriving DecidableEq

def LinkFault.name : LinkFault → String
  | unreachable => "unreachable"
  | closed => "closed"
  | io => "io"

def LinkFault.ofName? (name : String) : Option LinkFault :=
  [unreachable, closed, io].find? fun fault => fault.name = name

/-- What becomes of a frame that is written. -/
inductive WriteMode where
  | accept
  | fail (fault : LinkFault)
  /-- It is accepted, and the loss of the connection is heard before the write returns. -/
  | die
  /-- It is accepted, and its acknowledgement is heard before the write returns. -/
  | ack
deriving DecidableEq

def WriteMode.name : WriteMode → String
  | accept => "ok"
  | fail fault => fault.name
  | die => "die"
  | ack => "ack"

def WriteMode.ofName? (name : String) : Option WriteMode :=
  match [accept, die, ack].find? fun mode => mode.name = name with
  | some mode => some mode
  | none => (LinkFault.ofName? name).map fail

/-- How calls that concern one worker turn out. -/
structure Script where
  /-- How connects fail; none when they succeed. -/
  connect : Option LinkFault
  write : WriteMode
  /-- The number of connects before which another request to the worker is sent. -/
  races : Nat
  opened : Nat
deriving DecidableEq

/-- A call that the coordinator made. -/
inductive LinkEvent where
  /-- A connect, and the connection it opened. -/
  | connect (peer : WorkerId) (connection : Option ConnectionId)
  /-- A write, and what became of it. -/
  | write (peer : WorkerId) (connection : ConnectionId) (frame : Bytes) (mode : WriteMode)
  | close (peer : WorkerId) (connection : ConnectionId)

/-- Where a call stands in a listing of the log: by worker, then connects, writes and
closes, then by connection and frame. -/
def LinkEvent.place : LinkEvent → List Nat
  | connect peer none => [peer.val.toNat, 0, 0]
  | connect peer (some connection) => [peer.val.toNat, 0, connection.val.toNat + 1]
  | write peer connection frame _ =>
    [peer.val.toNat, 1, connection.val.toNat] ++ frame.map UInt8.toNat
  | close peer connection => [peer.val.toNat, 2, connection.val.toNat]

/-- A coordinator with a clock and a scripted transport. -/
structure Scripted where
  coordinator : Coordinator
  clock : Clock
  scripts : Table WorkerId Script
  /-- The connections opened so far, with their workers. -/
  connections : Table ConnectionId WorkerId
  log : List LinkEvent
  /-- Whether the coordinator was given away. -/
  released : Bool

namespace Scripted

def new (worker : WorkerId) (config : DeliveryConfig) : Scripted :=
  ⟨.new worker config, .start, .empty, .empty, [], false⟩

def script (w : Scripted) (peer : WorkerId) : Script :=
  (w.scripts.get? peer).getD ⟨none, .accept, 0, 0⟩

def setScript (w : Scripted) (peer : WorkerId) (f : Script → Script) : Scripted :=
  { w with scripts := w.scripts.insert peer (f (w.script peer)) }

def record (w : Scripted) (event : LinkEvent) : Scripted := { w with log := w.log ++ [event] }

def peerOf (w : Scripted) (connection : ConnectionId) : WorkerId :=
  (w.connections.get? connection).getD default

def connectPlain (peer : WorkerId) (w : Scripted) : Option ConnectionId × Scripted :=
  match (w.script peer).connect with
  | some _ => (none, w.record (.connect peer none))
  | none =>
    let opened := (w.script peer).opened + 1
    let connection : ConnectionId := ⟨UInt64.ofNat (100 * peer.val.toNat + opened)⟩
    let w := w.setScript peer fun s => { s with opened }
    let w := { w with connections := w.connections.insert connection peer }
    (some connection, w.record (.connect peer (some connection)))

def hear (w : Scripted) (frame : Bytes) : Scripted :=
  { w with coordinator := w.coordinator.onResponse frame }

/-- Lets the coordinator hear of the loss of a connection. -/
def lose (w : Scripted) (connection : ConnectionId) : Scripted :=
  { w with coordinator := w.coordinator.onClosed connection }

/-- The acknowledgement by `peer` of the request in a frame. -/
def ackOf? (peer : WorkerId) (frame : Bytes) : Option Bytes :=
  match Frame.decode frame with
  | .ok (.request request) => some (ResponseFrame.ack peer request.id).encode
  | _ => none

def write (connection : ConnectionId) (frame : Bytes) (w : Scripted) : Bool × Scripted :=
  let peer := w.peerOf connection
  let mode := (w.script peer).write
  let w := w.record (.write peer connection frame mode)
  match mode with
  | .accept => (true, w)
  | .fail _ => (false, w)
  | .die => (true, w.lose connection)
  | .ack =>
    match ackOf? peer frame with
    | some response => (true, w.hear response)
    | none => (true, w)

/-- The transport, given how it connects. -/
def medium (connect : WorkerId → Scripted → Option ConnectionId × Scripted) :
    Medium Scripted where
  coordinator := Scripted.coordinator
  setCoordinator c w := { w with coordinator := c }
  now w := w.clock.now
  connect := connect
  write := write
  close connection w := w.record (.close (w.peerOf connection) connection)

/-- The body of the requests that are sent before a connect is answered. -/
def raceBody : Bytes := Utf8.encode "race"

/-- Answers a connect behind `races` other requests to the same worker: each of them is
sent first, by way of a connect of its own where there is no connection. -/
def connectAmid : (races : Nat) → WorkerId → Scripted → Option ConnectionId × Scripted
  | 0, peer, w => connectPlain peer w
  | races + 1, peer, w =>
    let w := w.setScript peer fun s => { s with races }
    let (_, w) := (medium (connectAmid races)).send peer .sendPartition raceBody w
    connectPlain peer w

def transport : Medium Scripted :=
  medium fun peer w => connectAmid (w.script peer).races peer w

/-- Gives the coordinator away: it is shut down, and hears nothing from then on. -/
def release (w : Scripted) : Scripted :=
  { transport.shutdown w with released := true }

end Scripted

end Superstep
