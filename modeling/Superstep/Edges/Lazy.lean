import Superstep.Edges.Section

/-!
# Edges kept encoded

A container that keeps an edge section in its encoded form. Decoding checks the section
and copies its bytes; lookups scan them. The first mutation turns the bytes into a list in
encoded order, and from then on new edges go to its end.

The bytes, the list and the set of targets are storage that is used again and again. Either
the bytes or the list is in use; the rest may hold what was there before.
-/

namespace Superstep

/-- Edges in encoded form, or in a list once they have been changed. -/
structure LazyEdges (I E : Type) where
  /-- The encoded edges behind the count of their section. -/
  encoded : Bytes
  /-- The number of encoded edges. -/
  encodedCount : Nat
  /-- The edges in order of arrival. -/
  pairs : Table I E
  /-- Whether a mutation has turned the bytes into a list. -/
  isMaterialized : Bool
  /-- The targets that were met in the section that is being decoded. -/
  seen : List I

namespace LazyEdges

variable {I E : Type} [VertexId I] [Value E]

def empty : LazyEdges I E := ⟨[], 0, .empty, false, []⟩

/-- The container without edges. It keeps its storage, and the set of targets as it is. -/
def clear (s : LazyEdges I E) : LazyEdges I E :=
  { s with encoded := [], encodedCount := 0, pairs := .empty, isMaterialized := false }

/-- The edges, in encoded order or in order of arrival. -/
def toList (s : LazyEdges I E) : List (I × E) :=
  if s.isMaterialized then s.pairs.toList else Section.scan s.encodedCount s.encoded

/-- Turns the bytes into a list that can be changed. -/
def materialize (s : LazyEdges I E) : LazyEdges I E :=
  if s.isMaterialized then s
  else
    { s with
      encoded := []
      encodedCount := 0
      pairs := .ofList (Section.scan s.encodedCount s.encoded)
      isMaterialized := true }

def count (s : LazyEdges I E) : Nat :=
  if s.isMaterialized then s.pairs.size else s.encodedCount

def get? (s : LazyEdges I E) (target : I) : Option E :=
  (s.toList.find? fun edge => edge.1 = target).map Prod.snd

def add (s : LazyEdges I E) (target : I) (value : E) : Bool × LazyEdges I E :=
  let s := s.materialize
  (!s.pairs.contains target, { s with pairs := s.pairs.insert target value })

/-- Removes an edge and returns its value. Removing an absent edge changes nothing. -/
def remove (s : LazyEdges I E) (target : I) : Option E × LazyEdges I E :=
  match s.get? target with
  | none => (none, s)
  | some value =>
    let s := s.materialize
    (some value, { s with pairs := s.pairs.erase target })

def encode (s : LazyEdges I E) : Bytes :=
  if s.isMaterialized then Section.encode s.pairs.toList
  else BigEndian.encode 4 s.encodedCount ++ s.encoded

/-- Goes through `n` edges, which must not have a target in `seen` nor one that was met
before. Returns the outcome, the targets met before a failure, and the bytes that are left.
A repeated target empties the set. -/
def check (E : Type) [Value E] : (n : Nat) → (seen : List I) → Bytes → Refill (List I)
  | 0, seen, input => ⟨.ok (), seen, input⟩
  | n + 1, seen, input =>
    match (Section.pair (I := I) (E := E)).run input with
    | (.error e, rest) => ⟨.error e, seen, rest⟩
    | (.ok (target, _), rest) =>
      if target ∈ seen then ⟨.error (.duplicateTarget (VertexId.text target)), [], rest⟩
      else check E n (target :: seen) rest

/-- Reads a section into the storage: checks it, refuses a target that occurs twice, and
copies its bytes. A section that cannot be read leaves no edges. -/
def decode (s : LazyEdges I E) (input : Bytes) : Refill (LazyEdges I E) :=
  let s := s.clear
  match (Section.count I E).run input with
  | (.error e, rest) => ⟨.error e, s, rest⟩
  | (.ok n, start) =>
    let checked := check (I := I) E n [] start
    match checked.outcome with
    | .error e => ⟨.error e, { s with seen := checked.target }, checked.rest⟩
    | .ok _ =>
      let consumed := start.take (start.length - checked.rest.length)
      ⟨.ok (), { s with encoded := s.encoded ++ consumed, encodedCount := n, seen := [] },
        checked.rest⟩

end LazyEdges

end Superstep
