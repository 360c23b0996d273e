import Superstep.Server

/-!
# Links

A link carries the frames of one connection to a server, in order, and the server's
responses back. The network may interfere with each request: lose the response, deliver
the request twice, or cut the link before the request arrives. The second copy of a
request that is delivered twice comes right behind the first. A link that was cut serves
nothing any more; one that its sender closed still serves what it had accepted.
-/

namespace Superstep

/-- What the network does with one request. -/
inductive FaultAction where
  | deliver
  /-- Delivers the request and loses the response. -/
  | dropResponse
  /-- Cuts the link in front of the request. -/
  | closeConnection
  /-- Delivers the request twice, and both responses. -/
  | duplicate
deriving DecidableEq

def FaultAction.name : FaultAction → String
  | deliver => "deliver"
  | dropResponse => "drop"
  | closeConnection => "close"
  | duplicate => "duplicate"

def FaultAction.ofName? (name : String) : Option FaultAction :=
  [deliver, dropResponse, closeConnection, duplicate].find? fun action => action.name = name

/-- How the network chooses what to do with requests. -/
inductive FaultPlan where
  | none
  /-- It does something to the first request, if that is still to come, and delivers the
  others. -/
  | first (action : FaultAction) (fired : Bool)
  /-- It does the same to every request. -/
  | always (action : FaultAction)
deriving DecidableEq

namespace FaultPlan

def next : FaultPlan → FaultAction × FaultPlan
  | none => (.deliver, none)
  | first action false => (action, first action true)
  | first action true => (.deliver, first action true)
  | always action => (action, always action)

/-- Whether the first request has been seen, for a plan that waits for it. -/
def fired? : FaultPlan → Option Bool
  | first _ fired => some fired
  | _ => Option.none

/-- The plan in which each fault is certain or impossible. Of two certain faults the one
named first wins. -/
def ofCertain (dropResponse closeConnection duplicate : Bool) : FaultPlan :=
  if dropResponse then always .dropResponse
  else if closeConnection then always .closeConnection
  else if duplicate then always .duplicate
  else always .deliver

/-- What to do with a frame: only requests are interfered with. -/
def actionFor (plan : FaultPlan) (frame : Bytes) : FaultAction × FaultPlan :=
  match Frame.decode frame with
  | .ok (.request _) => plan.next
  | _ => (.deliver, plan)

end FaultPlan

/-- What the sender of a link hears. -/
inductive Heard where
  | response (frame : Bytes)
  | closed
deriving DecidableEq

/-- One connection. -/
structure Link where
  /-- The frames that were accepted and not served yet, oldest first. -/
  queue : List Bytes
  /-- A frame that was served once and is to be served a second time. -/
  copy : Option Bytes
  cut : Bool
deriving DecidableEq

/-- What serving one frame did. -/
structure Served (S : Type) where
  link : Link
  server : S
  heard : List Heard
  handled : List Bytes

namespace Link

def empty : Link := ⟨[], none, false⟩

/-- Accepts a frame, unless the link was cut. -/
def accept? (l : Link) (frame : Bytes) : Option Link :=
  if l.cut then none else some { l with queue := l.queue ++ [frame] }

def pass {S : Type} (handle : Bytes → S → Option Bytes × S) (frame : Bytes) (server : S) :
    List Heard × S :=
  let (response, server) := handle frame server
  ((response.map Heard.response).toList, server)

/-- Does `action` to `frame`, which was taken off the link. -/
def carry {S : Type} (l : Link) (handle : Bytes → S → Option Bytes × S) (frame : Bytes)
    (server : S) : FaultAction → Served S
  | .deliver =>
    let (heard, server) := pass handle frame server
    ⟨l, server, heard, [frame]⟩
  | .dropResponse =>
    let (_, server) := pass handle frame server
    ⟨l, server, [], [frame]⟩
  | .closeConnection => ⟨{ l with cut := true }, server, [.closed], []⟩
  | .duplicate =>
    let (heard, server) := pass handle frame server
    ⟨{ l with copy := some frame }, server, heard, [frame]⟩

/-- Takes the next frame to be served, and says whether it is a second copy; none when
there is none or the link was cut. -/
def pop? (l : Link) : Option (Bytes × Bool × Link) :=
  match l.cut, l.copy, l.queue with
  | false, some frame, _ => some (frame, true, { l with copy := none })
  | false, none, frame :: queue => some (frame, false, { l with queue })
  | _, _, _ => none

end Link

end Superstep
