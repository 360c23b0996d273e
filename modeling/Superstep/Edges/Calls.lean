import Superstep.Edges.Basic

/-!
# Calls of edge containers

Everything that a vertex asks of the container of its edges, and what it is told.
`Edges.run` makes one call after another and returns every answer.
-/

namespace Superstep.Edges

/-- A call of an edge container. -/
inductive Call (I E : Type) where
  | add (target : I) (value : E)
  | remove (target : I)
  | get (target : I)
  | count
  | clear
  /-- Goes through the edges. -/
  | list
  | encode
  /-- Replaces the edges by those of a section at the front of some bytes. -/
  | decode (input : Bytes)

/-- What a call returns. -/
inductive Answer (I E : Type) where
  | isNew (new : Bool)
  | value (found : Option E)
  | number (n : Nat)
  | done
  | listed (edges : List (I × E))
  | bytes (bytes : Bytes)
  /-- How a decode ended, and the bytes that it left. -/
  | decoded (outcome : Except Corruption Unit) (rest : Bytes)

variable {I E : Type} [VertexId I] [Value E]

def perform (es : Edges I E) : Call I E → Answer I E × Edges I E
  | .add target value => ((es.add target value).map .isNew id)
  | .remove target => ((es.remove target).map .value id)
  | .get target => (.value (es.get? target), es)
  | .count => (.number es.count, es)
  | .clear => (.done, es.clear)
  | .list => (.listed es.toList, es)
  | .encode => (.bytes es.encode, es)
  | .decode input =>
    let read := es.decodeInto input
    (.decoded read.outcome read.rest, read.target)

/-- Makes the calls in turn. Returns every answer, and what becomes of the container. -/
def run (es : Edges I E) : List (Call I E) → List (Answer I E) × Edges I E
  | [] => ([], es)
  | call :: calls =>
    let (answer, es) := es.perform call
    let (answers, es) := es.run calls
    (answer :: answers, es)

end Superstep.Edges
