import Superstep.Edges.Section

/-!
# Edges ordered by target

A list of edges in ascending order of their targets. Looking a target up halves the list
until one edge is left. Equal maps have equal lists, and so equal encoded forms.

A decode that fails leaves the edges it had read as they are, in whatever order; lookups
then go on to halve that list.
-/

namespace Superstep

/-- Edges kept in ascending order of target. -/
structure SortedEdges (I E : Type) where
  pairs : List (I × E)

namespace SortedEdges

variable {I E : Type} [VertexId I] [Value E]

def empty : SortedEdges I E := ⟨[]⟩

/-- The result of looking a target up. -/
inductive Place where
  /-- The target is at this index. -/
  | found (index : Nat)
  /-- The target is absent and belongs at this index. -/
  | gap (index : Nat)
deriving DecidableEq

/-- How the target at `index` compares to `target`. -/
def probe (pairs : List (I × E)) (target : I) (index : Nat) : Ordering :=
  match pairs[index]? with
  | some edge => compare edge.1 target
  | none => .gt

/-- Halves the `size` edges from `base` on until one is left, and returns its index.
`rounds` bounds the number of halvings. -/
def narrow (pairs : List (I × E)) (target : I) : (rounds base size : Nat) → Nat
  | 0, base, _ => base
  | rounds + 1, base, size =>
    if size ≤ 1 then base
    else
      let half := size / 2
      let next := if probe pairs target (base + half) = .gt then base else base + half
      narrow pairs target rounds next (size - half)

def place (s : SortedEdges I E) (target : I) : Place :=
  if s.pairs = [] then .gap 0
  else
    let base := narrow s.pairs target s.pairs.length 0 s.pairs.length
    match probe s.pairs target base with
    | .eq => .found base
    | .lt => .gap (base + 1)
    | .gt => .gap base

def get? (s : SortedEdges I E) (target : I) : Option E :=
  match s.place target with
  | .found index => s.pairs[index]?.map Prod.snd
  | .gap _ => none

def add (s : SortedEdges I E) (target : I) (value : E) : Bool × SortedEdges I E :=
  match s.place target with
  | .found index => (false, ⟨s.pairs.modify index fun edge => (edge.1, value)⟩)
  | .gap index => (true, ⟨s.pairs.insertIdx index (target, value)⟩)

def remove (s : SortedEdges I E) (target : I) : Option E × SortedEdges I E :=
  match s.place target with
  | .found index => (s.pairs[index]?.map Prod.snd, ⟨s.pairs.eraseIdx index⟩)
  | .gap _ => (none, s)

def inOrder (a b : I × E) : Bool := (compare a.1 b.1).isLE

/-- The first target that two neighbours share. -/
def firstRepeat? : List (I × E) → Option I
  | a :: b :: rest => if a.1 = b.1 then some a.1 else firstRepeat? (b :: rest)
  | _ => none

/-- Reads a section. The edges are sorted when all of them were read; a target that occurs
twice is then an error, reported for the least such target. -/
def decode (input : Bytes) : Refill (SortedEdges I E) :=
  match (Section.count I E).run input with
  | (.error e, rest) => ⟨.error e, empty, rest⟩
  | (.ok n, rest) =>
    let read := Section.collect (I := I) (E := E) n rest
    match read.outcome with
    | .error e => ⟨.error e, ⟨read.target⟩, read.rest⟩
    | .ok _ =>
      let sorted := read.target.mergeSort inOrder
      match firstRepeat? sorted with
      | some target => ⟨.error (.duplicateTarget (VertexId.text target)), ⟨sorted⟩, read.rest⟩
      | none => ⟨.ok (), ⟨sorted⟩, read.rest⟩

end SortedEdges

end Superstep
