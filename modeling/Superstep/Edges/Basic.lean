import Superstep.Edges.Lazy
import Superstep.Edges.Sorted
import Superstep.Edges.Strategy

/-!
# Outgoing edges

The edges of a vertex form a map from target to value. Three interchangeable
representations keep it; they read each other's encoded forms, and two containers are
compared as maps, whatever their representations.
-/

namespace Superstep

/-- The outgoing edges of a vertex, in the representation chosen for it. -/
inductive Edges (I E : Type) where
  | hashed (table : Table I E)
  | sorted (list : SortedEdges I E)
  /-- The encoded bytes, or a list once they have been changed. -/
  | lazy (edges : LazyEdges I E)

namespace Edges

variable {I E : Type} [VertexId I] [Value E]

def empty : EdgeStrategy → Edges I E
  | .hashed => hashed .empty
  | .sorted => sorted .empty
  | .lazy => lazy .empty

def strategy : Edges I E → EdgeStrategy
  | hashed _ => .hashed
  | sorted _ => .sorted
  | lazy _ => .lazy

def clear : Edges I E → Edges I E
  | hashed _ => hashed .empty
  | sorted _ => sorted .empty
  | lazy edges => lazy edges.clear

def toList : Edges I E → List (I × E)
  | hashed table => table.toList
  | sorted list => list.pairs
  | lazy edges => edges.toList

def count : Edges I E → Nat
  | hashed table => table.size
  | sorted list => list.pairs.length
  | lazy edges => edges.count

/-- Bounds on the number of edges that a listing yields, known before it begins. A
container that is still encoded promises only the upper one. -/
def sizeHint : Edges I E → Nat × Nat
  | lazy edges => (if edges.isMaterialized then edges.count else 0, edges.count)
  | es => (es.count, es.count)

def get? : Edges I E → I → Option E
  | hashed table, target => table.get? target
  | sorted list, target => list.get? target
  | lazy edges, target => edges.get? target

/-- Adds an edge or overwrites its value; also says whether it is new. -/
def add : Edges I E → I → E → Bool × Edges I E
  | hashed table, target, value => (!table.contains target, hashed (table.insert target value))
  | sorted list, target, value => (list.add target value).map id sorted
  | lazy edges, target, value => (edges.add target value).map id lazy

def remove : Edges I E → I → Option E × Edges I E
  | hashed table, target => (table.get? target, hashed (table.erase target))
  | sorted list, target => (list.remove target).map id sorted
  | lazy edges, target => (edges.remove target).map id lazy

def addAll (es : Edges I E) (edges : List (I × E)) : Edges I E :=
  edges.foldl (fun es edge => (es.add edge.1 edge.2).2) es

def ofList (strategy : EdgeStrategy) (edges : List (I × E)) : Edges I E :=
  (empty strategy).addAll edges

def encode : Edges I E → Bytes
  | lazy edges => edges.encode
  | es => Section.encode es.toList

/-- Reads a section into a map. A target that occurs twice is an error at its second
occurrence. -/
def decodeHashed (input : Bytes) : Refill (Table I E) :=
  match (Section.count I E).run input with
  | (.error e, rest) => ⟨.error e, .empty, rest⟩
  | (.ok n, rest) => Section.gather n .empty rest

/-- Replaces the edges of a container by an encoded section, and keeps the representation.
A section that cannot be read leaves the container with part of it or with nothing,
depending on the representation, but with none of its former edges. -/
def decodeInto (es : Edges I E) (input : Bytes) : Refill (Edges I E) :=
  match es with
  | hashed _ =>
    let r := decodeHashed (I := I) (E := E) input
    ⟨r.outcome, hashed r.target, r.rest⟩
  | sorted _ =>
    let r := SortedEdges.decode (I := I) (E := E) input
    ⟨r.outcome, sorted r.target, r.rest⟩
  | lazy edges =>
    let r := edges.decode input
    ⟨r.outcome, lazy r.target, r.rest⟩

/-- Whether two containers hold the same targets with values that compare equal: their
counts agree, and every edge of the one is found in the other. -/
def same (a b : Edges I E) : Bool :=
  a.count = b.count &&
    a.toList.all fun edge =>
      match b.get? edge.1 with
      | some value => Value.same value edge.2
      | none => false

/-- The same edges in another representation, by way of their encoded form. That form
cannot be read when a target is repeated; the new container then has what
`decodeInto` leaves. -/
def convert (es : Edges I E) (strategy : EdgeStrategy) : Refill (Edges I E) :=
  (empty strategy).decodeInto es.encode

/-- The section with its edges in target order; a section that cannot be read as a whole
stays as it is. -/
def canonicalSection (I E : Type) [VertexId I] [Value E] (bytes : Bytes) : Bytes :=
  let r := SortedEdges.decode (I := I) (E := E) bytes
  match r.outcome with
  | .ok _ => Section.encode r.target.pairs
  | .error _ => bytes

end Edges

end Superstep
