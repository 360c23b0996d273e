import Superstep.Partition.Walk
import Superstep.Partition.Writing

/-!
# Partitions and their writers

A workspace holds named partitions and named writers. A writer changes the records of the
partition it was made for from any thread. It keeps acting on those records after the
partition is gone, and the partition sees what its writers do.
-/

namespace Superstep

/-- Named partitions and named writers over shared records. -/
structure Workspace (I V E : Type) where
  /-- The records, each under the number by which partitions and writers refer to them. -/
  shared : Table Nat (Records I V E)
  /-- The partitions, each with the number of its records. -/
  partitions : Table String (Desk I V E × Nat)
  /-- The writers, each the number of its records. -/
  writers : Table String Nat
  /-- The number for the next records. -/
  next : Nat

namespace Workspace

variable {I V E : Type} [VertexId I] [Value V] [Value E]

def empty : Workspace I V E := ⟨.empty, .empty, .empty, 0⟩

/-- Adds a partition with records of its own, in the place of one that has its name. -/
def add (w : Workspace I V E) (name : String) (p : Partition I V E) : Workspace I V E where
  shared := w.shared.insert w.next p.records
  partitions := w.partitions.insert name (p.toDesk, w.next)
  writers := w.writers
  next := w.next + 1

/-- The number of the records of the partition of this name. -/
def number? (w : Workspace I V E) (name : String) : Option Nat :=
  (w.partitions.get? name).map Prod.snd

/-- The partition of this name, with its records as they are now. -/
def get? (w : Workspace I V E) (name : String) : Option (Partition I V E) := do
  let (desk, number) ← w.partitions.get? name
  let records ← w.shared.get? number
  return { desk with records }

/-- Puts a partition back after it was used. Its writers see the new records. -/
def update (w : Workspace I V E) (name : String) (p : Partition I V E) : Workspace I V E :=
  match w.partitions.get? name with
  | none => w
  | some (_, number) =>
    { w with
      shared := w.shared.insert number p.records
      partitions := w.partitions.insert name (p.toDesk, number) }

/-- Uses the partition of this name. -/
def withPartition {R : Type} (w : Workspace I V E) (name : String)
    (f : Partition I V E → R × Partition I V E) : Option R × Workspace I V E :=
  match w.get? name with
  | none => (none, w)
  | some p =>
    let (result, p) := f p
    (some result, w.update name p)

def drop (w : Workspace I V E) (name : String) : Workspace I V E :=
  { w with partitions := w.partitions.erase name, writers := w.writers.erase name }

/-- Whether writers share the records of this number. -/
def isShared (w : Workspace I V E) (number : Nat) : Bool := w.writers.values.contains number

/-- What is left when a partition is taken out. Its records are moved out as well, unless
writers share them. -/
def without (w : Workspace I V E) (name : String) (number : Nat) : Workspace I V E :=
  { w with
    shared := if w.isShared number then w.shared else w.shared.erase number
    partitions := w.partitions.erase name }

/-- Takes a partition out, with a copy of its records when writers share them. -/
def take (w : Workspace I V E) (name : String) : Option (Partition I V E × Workspace I V E) := do
  let (desk, number) ← w.partitions.get? name
  let records ← w.shared.get? number
  return ({ desk with records }, w.without name number)

/-- Merges the partition `source` into `target`. `source` is gone afterwards, also when
the merge fails. -/
def merge (w : Workspace I V E) (target source : String) :
    Option (Except Error Unit) × Workspace I V E :=
  match w.take source with
  | none => (none, w)
  | some (other, w) => w.withPartition target fun p => p.merge other

/-- Replaces the contents of the partition `target` by a serialized copy of `source`. -/
def transfer (w : Workspace I V E) (target source : String) :
    Option (Except Error Unit) × Workspace I V E :=
  match w.withPartition source Partition.toBytes with
  | (some (.ok bytes), w) => w.withPartition target fun p => p.readBytes bytes
  | (some (.error e), w) => (some (.error e), w)
  | (none, w) => (none, w)

/-- Makes a writer of a partition. -/
def makeWriter (w : Workspace I V E) (writer name : String) : Workspace I V E :=
  match w.partitions.get? name with
  | none => w
  | some (_, number) => { w with writers := w.writers.insert writer number }

/-- Makes another writer on the same records. -/
def copyWriter (w : Workspace I V E) (copy writer : String) : Workspace I V E :=
  match w.writers.get? writer with
  | none => w
  | some number => { w with writers := w.writers.insert copy number }

def writerRecords? (w : Workspace I V E) (writer : String) : Option (Records I V E) := do
  w.shared.get? (← w.writers.get? writer)

/-- Lets a writer make an edit; also says whether the id had a record before. -/
def edit (w : Workspace I V E) (writer : String) (e : Edit I V E) :
    Option (Except Error Bool) × Workspace I V E :=
  match w.writers.get? writer with
  | none => (none, w)
  | some number =>
    match w.shared.get? number with
    | none => (none, w)
    | some records =>
      let (result, records) := records.edit e
      (some result, { w with shared := w.shared.insert number records })

/-- What is done with writers from any thread. -/
inductive WriterCall (I V E : Type) where
  | edit (writer : String) (e : Edit I V E)
  | copy (copy writer : String)

/-- The workspace after some calls of writers, one after the other. -/
def callAll (w : Workspace I V E) : List (WriterCall I V E) → Workspace I V E
  | [] => w
  | .edit writer e :: calls => (w.edit writer e).2.callAll calls
  | .copy copy writer :: calls => (w.copyWriter copy writer).callAll calls

end Workspace

end Superstep
