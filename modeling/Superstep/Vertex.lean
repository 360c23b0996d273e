import Superstep.Codec.Blob
import Superstep.Codec.Scalar
import Superstep.Edges.Basic

/-!
# Vertices

A vertex has an id, a value, outgoing edges and a flag by which it votes to halt. Its
encoded form is the id, the value, the edge section and one byte for the flag.

Decoding over a vertex goes field by field: a failure leaves the fields before it
decoded, the failing one as its own decoder leaves it, and the later ones as they were.
-/

namespace Superstep

structure Vertex (I V E : Type) where
  id : I
  value : V
  edges : Edges I E
  halted : Bool

namespace Vertex

variable {I V E : Type} [VertexId I] [Value V] [Value E]

def new (id : I) (value : V) (strategy : EdgeStrategy) : Vertex I V E :=
  ⟨id, value, .empty strategy, false⟩

/-- An active vertex with default id and value and no edges. -/
def blank (strategy : EdgeStrategy) : Vertex I V E := new default default strategy

instance : Inhabited (Vertex I V E) := ⟨blank default⟩

/-- Makes the vertex a new one, and keeps the representation of its edges. -/
def reset (v : Vertex I V E) (id : I) (value : V) : Vertex I V E :=
  ⟨id, value, v.edges.clear, false⟩

/-- Whether two vertices have equal ids, values and flags and the same edges. -/
def same (a b : Vertex I V E) : Bool :=
  decide (a.id = b.id) && Value.same a.value b.value && a.halted == b.halted &&
    a.edges.same b.edges

def minLen (I V : Type) [VertexId I] [Value V] : Nat :=
  Codec.minLen (α := I) + Codec.minLen (α := V) + 4 + 1

def encode (v : Vertex I V E) : Bytes :=
  Codec.encode v.id ++ Codec.encode v.value ++ v.edges.encode ++ Codec.encode v.halted

/-- Decodes over a vertex, keeping the representation of its edges. -/
def decodeInto (v : Vertex I V E) (input : Bytes) : Refill (Vertex I V E) :=
  let id := Codec.decodeInto v.id input
  let v := { v with id := id.target }
  match id.outcome with
  | .error e => ⟨.error e, v, id.rest⟩
  | .ok _ =>
    let value := Codec.decodeInto v.value id.rest
    let v := { v with value := value.target }
    match value.outcome with
    | .error e => ⟨.error e, v, value.rest⟩
    | .ok _ =>
      let edges := v.edges.decodeInto value.rest
      let v := { v with edges := edges.target }
      match edges.outcome with
      | .error e => ⟨.error e, v, edges.rest⟩
      | .ok _ =>
        let halted := Codec.decodeInto v.halted edges.rest
        ⟨halted.outcome, { v with halted := halted.target }, halted.rest⟩

def decode : Decoder (Vertex I V E) := fun input =>
  let refill := decodeInto (blank default : Vertex I V E) input
  (refill.outcome.map fun _ => refill.target, refill.rest)

def copy (I V E : Type) [VertexId I] [Value V] [Value E] : Copier Unit := do
  Codec.copy (α := I)
  Codec.copy (α := V)
  Section.copy I E
  Codec.copy (α := Bool)

instance : Codec (Vertex I V E) where
  minLen := minLen I V
  encode := encode
  decode := decode
  decodeInto := decodeInto
  copy := copy I V E

/-- The vertex that has the given edges, added one after the other. -/
def withEdges (id : I) (value : V) (strategy : EdgeStrategy) (edges : List (I × E)) :
    Vertex I V E :=
  ⟨id, value, .ofList strategy edges, false⟩

/-- The vertex with one more edge, or another value for an edge it has; also says whether
the edge is new. -/
def addEdge (v : Vertex I V E) (target : I) (value : E) : Bool × Vertex I V E :=
  let (isNew, edges) := v.edges.add target value
  (isNew, { v with edges })

/-- The vertex without the edge to `target`; also returns the value of the edge. -/
def removeEdge (v : Vertex I V E) (target : I) : Option E × Vertex I V E :=
  let (removed, edges) := v.edges.remove target
  (removed, { v with edges })

def halt (v : Vertex I V E) : Vertex I V E := { v with halted := true }

def wake (v : Vertex I V E) : Vertex I V E := { v with halted := false }

/-- The blob of a vertex with its edges in target order; a blob that cannot be read stays
as it is. -/
def canonicalBlob (I V E : Type) [VertexId I] [Value V] [Value E] (blob : Bytes) : Bytes :=
  let (outcome, v) := Blob.decodeInto (blank .sorted : Vertex I V E) blob
  match outcome, Blob.encode v with
  | .ok _, .ok ordered => ordered
  | _, _ => blob

end Vertex

end Superstep
