import Superstep.Ledger.Basic
import Superstep.Message.Request
import Superstep.Message.Store
import Superstep.Metrics

/-!
# Request servers

A server answers the request frames of one worker. It applies each request to what the
worker holds once, however many copies of it arrive, and answers every copy. A request
that cannot be applied changes nothing and is answered with the cause.
-/

namespace Superstep

/-- What a worker holds between supersteps. -/
structure Holdings (I V E M : Type) where
  partitions : Table PartitionId (Partition I V E)
  messages : MessageStore I M
  config : PartitionConfig

namespace Holdings

variable {I V E M : Type}

def empty (config : PartitionConfig) : Holdings I V E M := ⟨.empty, .empty, config⟩

variable [VertexId I] [Value V] [Value E] [Value M]

/-- Adds a partition under its id, or merges it into the one that has this id. -/
def addPartition (h : Holdings I V E M) (p : Partition I V E) :
    Except Error Unit × Holdings I V E M :=
  match h.partitions.get? p.id with
  | none => (.ok (), { h with partitions := h.partitions.insert p.id p })
  | some held =>
    let (result, merged) := held.merge p
    (result, { h with partitions := h.partitions.insert p.id merged })

def removePartition (h : Holdings I V E M) (id : PartitionId) :
    Option (Partition I V E) × Holdings I V E M :=
  (h.partitions.get? id, { h with partitions := h.partitions.erase id })

def withPartition {R : Type} (h : Holdings I V E M) (id : PartitionId)
    (f : Partition I V E → R × Partition I V E) : Option R × Holdings I V E M :=
  match h.partitions.get? id with
  | none => (none, h)
  | some p =>
    let (result, p) := f p
    (some result, { h with partitions := h.partitions.insert id p })

def vertexCount (h : Holdings I V E M) : Nat :=
  h.partitions.values.foldr (fun p n => p.size + n) 0

def apply (h : Holdings I V E M) : Request I M → Except Error Unit × Holdings I V E M
  | .messages parts =>
    (.ok (), { h with
      messages := parts.foldl (fun store part => store.addBatch part.1 part.2) h.messages })
  | .partition bytes =>
    match Partition.ofBytes bytes h.config with
    | .error e => (.error e, h)
    | .ok p => h.addPartition p

/-- Reads the request in a frame and carries it out. -/
def applyFrame (frame : RequestFrame) (h : Holdings I V E M) :
    Except Error Unit × Holdings I V E M :=
  match Request.decode frame.type frame.payload with
  | .error e => (.error (.corruption e), h)
  | .ok request => h.apply request

end Holdings

/-- The server of one worker. -/
structure Server (I V E M : Type) where
  worker : WorkerId
  holdings : Holdings I V E M
  ledger : Ledger
  /-- Whether the server counts what it does. -/
  metered : Bool
  metrics : Metrics

namespace Server

variable {I V E M : Type}

/-- A server for what a worker holds, that has not seen any request. -/
def serving (worker : WorkerId) (holdings : Holdings I V E M) (metered : Bool) :
    Server I V E M :=
  ⟨worker, holdings, .empty, metered, {}⟩

def new (worker : WorkerId) (config : PartitionConfig) (metered : Bool) : Server I V E M :=
  .serving worker (.empty config) metered

/-- Counts something, if the server counts at all. -/
def count (s : Server I V E M) (f : Metrics → Metrics) : Server I V E M :=
  if s.metered then { s with metrics := f s.metrics } else s

/-- The answer to a request with which this was done: a failure tells the cause. -/
def answer (worker : WorkerId) (id : RequestId) : Except Error Admission → ResponseFrame
  | .ok _ => .ack worker id
  | .error e => .failed worker id e.message

def countOutcome (s : Server I V E M) : Except Error Admission → Server I V E M
  | .ok .applied => s.count fun m => { m with applied := m.applied + 1 }
  | .ok .duplicate => s.count fun m => { m with duplicates := m.duplicates + 1 }
  | .error _ => s.count fun m => { m with rejected := m.rejected + 1 }

variable [VertexId I] [Value V] [Value E] [Value M]

/-- Applies a request unless it was applied before. -/
def accept (s : Server I V E M) (frame : RequestFrame) :
    Except Error Admission × Server I V E M :=
  let (result, ledger, holdings) :=
    s.ledger.accept frame.sender frame.id (Holdings.applyFrame frame) s.holdings
  (result, { s with ledger, holdings })

/-- Applies a request unless it was applied before, and answers it. -/
def process (s : Server I V E M) (frame : RequestFrame) : ResponseFrame × Server I V E M :=
  let (result, s) := s.accept frame
  (answer s.worker frame.id result, s.countOutcome result)

/-- Answers a frame off a connection. Only requests have an answer. -/
def handle (s : Server I V E M) (bytes : Bytes) : Option Bytes × Server I V E M :=
  match Frame.decode bytes with
  | .ok (.request frame) =>
    let (response, s) := s.process frame
    (some response.encode, s)
  | .ok (.response _) => (none, s)
  | .error _ => (none, s)

end Server

end Superstep
