/-!
# Delivery metrics

Counters of what happened to requests on both sides of a connection.
-/

namespace Superstep

/-- Counters of the delivery protocol. A sender keeps the first six, a server the last
three. -/
structure Metrics where
  /-- Requests handed over for delivery. -/
  sent : Nat := 0
  /-- Frames of pending requests written again. -/
  resent : Nat := 0
  /-- Acknowledgements of pending requests. -/
  acks : Nat := 0
  failed : Nat := 0
  opened : Nat := 0
  lost : Nat := 0
  applied : Nat := 0
  /-- Requests that had been applied before. -/
  duplicates : Nat := 0
  /-- Requests that could not be applied. -/
  rejected : Nat := 0
deriving DecidableEq, Inhabited

/-- The counters with their names. -/
def Metrics.toList (m : Metrics) : List (String × Nat) :=
  [("sent", m.sent), ("resent", m.resent), ("acks", m.acks), ("failed", m.failed),
    ("opened", m.opened), ("lost", m.lost), ("applied", m.applied),
    ("duplicates", m.duplicates), ("rejected", m.rejected)]

end Superstep
