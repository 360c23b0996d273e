import Superstep.Error
import Superstep.Ledger.SeenIds
import Superstep.Table

/-!
# The ledger of applied requests

A server keeps the ids of the requests it applied, separately for each sender, so that a
copy that arrives again is recognised. An application that fails leaves no record.
-/

namespace Superstep

/-- What became of a request that was accepted. Both outcomes are acknowledged. -/
inductive Admission where
  | applied
  | duplicate
deriving DecidableEq

/-- The ids of the requests applied for each sender. -/
structure Ledger where
  senders : Table WorkerId SeenIds
deriving Inhabited

namespace Ledger

def empty : Ledger := ⟨.empty⟩

def seen (l : Ledger) (sender : WorkerId) : SeenIds := (l.senders.get? sender).getD .empty

def contains (l : Ledger) (sender : WorkerId) (id : RequestId) : Bool :=
  (l.seen sender).contains id

/-- The number of requests applied for `sender`. -/
def applied (l : Ledger) (sender : WorkerId) : UInt64 := (l.seen sender).size

def record (l : Ledger) (sender : WorkerId) (id : RequestId) : Ledger :=
  ⟨l.senders.insert sender ((l.seen sender).insert id).2⟩

/-- Applies a request to `state` unless it was applied before, and records it when that
succeeds. Returns the state afterwards: `apply` may have changed it before it failed. -/
def accept {σ : Type} (l : Ledger) (sender : WorkerId) (id : RequestId)
    (apply : σ → Except Error Unit × σ) (state : σ) : Except Error Admission × Ledger × σ :=
  if l.contains sender id then (.ok .duplicate, l, state)
  else
    match apply state with
    | (.ok _, next) => (.ok .applied, l.record sender id, next)
    | (.error e, next) => (.error e, l, next)

end Ledger

end Superstep
