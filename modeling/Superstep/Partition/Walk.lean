import Superstep.Partition.Basic

/-!
# Walking a partition

A walk visits each vertex once through the scratch vertex. The ids to be visited are fixed
when it begins; ids that writers removed meanwhile are skipped, ids that they added are
not visited. A vertex that cannot be decoded is reported in its turn, and the walk goes on
behind it.
-/

namespace Superstep

/-- A walk under way. -/
structure Walk (I : Type) where
  keys : List I

namespace Walk

variable {I V E : Type} [VertexId I] [Value V] [Value E]

/-- A walk over the vertices present now. -/
def start (p : Partition I V E) : Walk I := ⟨p.ids⟩

def remaining (w : Walk I) : Nat := w.keys.length

/-- Goes on to the next vertex that is present: what it is, or the error in its place, or
none at the end of the walk. -/
def next (w : Walk I) (p : Partition I V E) :
    Option (Except Error (Vertex I V E)) × Walk I × Partition I V E :=
  go w.keys p
where
  /-- Visits the given ids up to the first that yields something. -/
  go : List I → Partition I V E → Option (Except Error (Vertex I V E)) × Walk I × Partition I V E
    | [], p => (none, ⟨[]⟩, p)
    | key :: keys, p =>
      match p.load key with
      | (.ok true, p) => (some (.ok p.scratch), ⟨keys⟩, p)
      | (.ok false, p) => go keys p
      | (.error e, p) => (some (.error e), ⟨keys⟩, p)

/-- Walks to the end. Returns what the vertices yielded, in order. -/
def finish (w : Walk I) (p : Partition I V E) :
    List (Except Error (Vertex I V E)) × Partition I V E :=
  go w.keys p
where
  /-- Visits all the given ids. -/
  go : List I → Partition I V E → List (Except Error (Vertex I V E)) × Partition I V E
    | [], p => ([], p)
    | key :: keys, p =>
      match p.load key with
      | (.ok true, p) =>
        let (later, last) := go keys p
        (.ok p.scratch :: later, last)
      | (.ok false, p) => go keys p
      | (.error e, p) =>
        let (later, last) := go keys p
        (.error e :: later, last)

/-- Goes on while writers make the edits of `rounds`, once behind each round. Returns what
the calls yielded, in order. -/
def nextAmid (w : Walk I) : (rounds : List (List (Edit I V E))) → Partition I V E →
    List (Option (Except Error (Vertex I V E))) × Walk I × Partition I V E
  | [], p => ([], w, p)
  | round :: rounds, p =>
    let (found, w, p) := w.next { p with records := p.records.editAll round }
    let (later, w, p) := w.nextAmid rounds p
    (found :: later, w, p)

end Walk

end Superstep
