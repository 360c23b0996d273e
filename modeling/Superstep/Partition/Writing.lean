import Superstep.Partition.Basic

/-!
# Writing a partition

The ids to be written are fixed when writing begins. Writers may change the records while
it goes on: vertices they add are not written, and removing one whose turn is still to
come makes the call fail. Each entry has the contents of its vertex at its turn.
-/

namespace Superstep

/-- How writing went. -/
structure Written (I V E : Type) where
  outcome : Except Error Unit
  /-- The records afterwards, with the edits that were made meanwhile. -/
  records : Records I V E
  sink : Sink
  signals : Nat

namespace Partition

variable {I V E : Type} [VertexId I] [Value V] [Value E]

/-- Writes pieces one after the other, up to the first that fails. -/
def writePieces (sink : Sink) : List Bytes → Except Error Unit × Sink
  | [] => (.ok (), sink)
  | piece :: rest =>
    match sink.write piece with
    | (.error e, sink) => (.error e, sink)
    | (.ok _, sink) => writePieces sink rest

/-- The pieces of the entry of `key`, from the records as they are now. -/
def entryNow (id : PartitionId) (records : Records I V E) (key : I) :
    Except Error (List Bytes) := do
  let some record := records.get? key
    | throw (.invalidArgument (.removedWhileWriting id (VertexId.text key)))
  let blob ← record.toBlob
  if blob.length < wordLimit then return Layout.entryPieces key blob
  else throw (.invalidArgument (.blobTooLong blob.length))

/-- Writes the entries of `keys`. The edits of `rounds` are made one round at a time,
each round behind one entry. -/
def writeEntries (id : PartitionId) :
    (keys : List I) → (rounds : List (List (Edit I V E))) → Records I V E → Sink → Written I V E
  | [], _, records, sink => ⟨sink.flush, records, sink, 0⟩
  | key :: keys, rounds, records, sink =>
    match entryNow id records key with
    | .error e => ⟨.error e, records, sink, 0⟩
    | .ok pieces =>
      match writePieces sink pieces with
      | (.error e, sink) => ⟨.error e, records, sink, 0⟩
      | (.ok _, sink) =>
        let next := records.editAll (rounds.headD [])
        let later := writeEntries id keys rounds.tail next sink
        { later with signals := later.signals + 1 }

/-- Writes the partition while writers make the edits of `rounds`: the first round when
the header is written, each further one behind an entry. -/
def writeAmid (p : Partition I V E) (rounds : List (List (Edit I V E))) (sink : Sink) :
    Written I V E :=
  let keys := p.ids
  if keys.length < wordLimit then
    let records := p.records.editAll (rounds.headD [])
    match writePieces sink (Layout.header p.id keys.length) with
    | (.error e, sink) => ⟨.error e, records, sink, 0⟩
    | (.ok _, sink) => writeEntries p.id keys rounds.tail records sink
  else ⟨.error (.invalidArgument (.tooManyEntries p.id)), p.records, sink, 0⟩

/-- The partition after it was written. -/
def afterWriting (p : Partition I V E) (written : Written I V E) : Partition I V E :=
  { p with records := written.records, signals := p.signals + written.signals }

def writeTo (p : Partition I V E) (sink : Sink) : Except Error Sink × Partition I V E :=
  let written := p.writeAmid [] sink
  (written.outcome.map fun _ => written.sink, p.afterWriting written)

def toBytes (p : Partition I V E) : Except Error Bytes × Partition I V E :=
  let (result, p) := p.writeTo .unlimited
  (result.map Sink.written, p)

end Partition

end Superstep
