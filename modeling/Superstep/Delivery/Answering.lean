import Superstep.Delivery.Medium

/-!
# Transports that answer and do nothing else

A transport that answers each call as it likes, also by the calls before. Its coordinator hears
nothing while a task is carried out: responses and lost connections are heard before or after it.
All calls are kept, with their answers.
-/

namespace Superstep

/-- A call of the transport, with its answer. -/
inductive TransportCall where
  | connect (peer : WorkerId) (answer : Option ConnectionId)
  | write (connection : ConnectionId) (frame : Bytes) (accepted : Bool)
  | close (connection : ConnectionId)
deriving DecidableEq

/-- How a transport answers, given the calls so far. -/
structure Answering where
  connect : List TransportCall → WorkerId → Option ConnectionId
  write : List TransportCall → ConnectionId → Bytes → Bool

/-- A coordinator, a clock that stands still, and the calls that were made. -/
structure Alone where
  coordinator : Coordinator
  now : Nat
  calls : List TransportCall

namespace Answering

/-- The world of a coordinator whose transport only answers. -/
def medium (t : Answering) : Medium Alone where
  coordinator := Alone.coordinator
  setCoordinator c w := { w with coordinator := c }
  now := Alone.now
  connect peer w :=
    let answer := t.connect w.calls peer
    (answer, { w with calls := w.calls ++ [.connect peer answer] })
  write connection frame w :=
    let accepted := t.write w.calls connection frame
    (accepted, { w with calls := w.calls ++ [.write connection frame accepted] })
  close connection w := { w with calls := w.calls ++ [.close connection] }

end Answering

end Superstep
