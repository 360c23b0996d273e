import Superstep.Network.Link
import Superstep.Proofs.Frames
import Superstep.Proofs.SeenIds
import Superstep.Proofs.Table

/-!
# Superstep — what a server does with a request

* **`accept_cases`** — a request that is on record is a duplicate and changes nothing; any other
  is carried out, and goes on record exactly when that succeeds;
* **`applyFrame_error`** — a request that cannot be carried out changes nothing;
* **`Steady.error`** — and it cannot be carried out later either, as long as only requests change
  what the worker holds: a partition keeps its kind, and kinds are all that a request that can
  be read ever fails for.
-/

namespace Superstep

/-! ## Ledgers

A ledger has a set of ids for each sender, and what is recorded for one leaves the others. All facts
about it are those of `SeenIds`, one sender at a time. -/

namespace Ledger

def Normal (l : Ledger) : Prop := ∀ sender, (l.seen sender).Normal

theorem normal_empty : empty.Normal := fun _ => SeenIds.normal_empty

@[simp] theorem contains_empty (sender : WorkerId) (id : RequestId) :
    empty.contains sender id = false := SeenIds.contains_empty id

theorem seen_record (l : Ledger) (sender sender' : WorkerId) (id : RequestId) :
    (l.record sender id).seen sender'
      = if sender' = sender then ((l.seen sender).insert id).2 else l.seen sender' := by
  unfold record seen
  rw [Table.get?_insert]
  split <;> rfl

/-- A ledger stays normal as long as some id of the sender is missing from it. -/
theorem normal_record {l : Ledger} {sender : WorkerId} {id m : RequestId} (h : l.Normal)
    (hm : l.contains sender m = false) (hne : m ≠ id) : (l.record sender id).Normal := by
  intro sender'
  rw [seen_record]
  split
  · exact SeenIds.normal_insert (h sender) hm hne
  · exact h sender'

/-- **A record is added, and none is lost**, as long as some id of the sender is missing
still. -/
theorem contains_record {l : Ledger} {sender : WorkerId} {id m : RequestId} (h : l.Normal)
    (hm : l.contains sender m = false) (hne : m ≠ id) (sender' : WorkerId) (id' : RequestId) :
    (l.record sender id).contains sender' id' = true
      ↔ (sender' = sender ∧ id' = id) ∨ l.contains sender' id' = true := by
  rw [contains, seen_record]
  split
  · next hsender =>
    subst hsender
    rw [SeenIds.contains_insert (h sender') hm hne, contains]
    simp
  · next hsender => simp [hsender, contains]

@[simp] theorem applied_empty (sender : WorkerId) : empty.applied sender = 0 := rfl

/-- **A record counts for its sender.** -/
theorem applied_record {l : Ledger} {sender : WorkerId} {id m : RequestId} (h : l.Normal)
    (hid : l.contains sender id = false) (hm : l.contains sender m = false) (hne : m ≠ id)
    (sender' : WorkerId) : ((l.record sender id).applied sender').toNat
      = (l.applied sender').toNat + if sender' = sender then 1 else 0 := by
  rw [applied, seen_record]
  split
  · next heq =>
    subst heq
    exact SeenIds.size_insert (h sender') hid hm hne
  · rfl

end Ledger

/-! ## Carrying requests out

A request is read, and then applied to what is held. It fails when it cannot be read, which depends
on nothing that is held, or when the partition that it brings is of another kind. -/

variable {I V E M : Type}

namespace Server

@[simp] theorem count_worker (s : Server I V E M) (f : Metrics → Metrics) :
    (s.count f).worker = s.worker := by
  unfold count
  split <;> rfl

@[simp] theorem count_ledger (s : Server I V E M) (f : Metrics → Metrics) :
    (s.count f).ledger = s.ledger := by
  unfold count
  split <;> rfl

@[simp] theorem count_holdings (s : Server I V E M) (f : Metrics → Metrics) :
    (s.count f).holdings = s.holdings := by
  unfold count
  split <;> rfl

@[simp] theorem count_metered (s : Server I V E M) (f : Metrics → Metrics) :
    (s.count f).metered = s.metered := by
  unfold count
  split <;> rfl

theorem count_metrics {s : Server I V E M} (h : s.metered = true) (f : Metrics → Metrics) :
    (s.count f).metrics = f s.metrics := by
  rw [count, if_pos h]

end Server

namespace Holdings

/-- `h'` is what may become of `h` when nothing but requests changes it: the settings are the
same, and every partition is still there, of the same kind. -/
structure Steady (h h' : Holdings I V E M) : Prop where
  config : h'.config = h.config
  partitions : ∀ {id p}, h.partitions.get? id = some p →
    ∃ p', h'.partitions.get? id = some p' ∧ p'.kind = p.kind

theorem Steady.refl (h : Holdings I V E M) : Steady h h := ⟨rfl, fun hp => ⟨_, hp, rfl⟩⟩

end Holdings

variable [VertexId I]

/-- **Partitions merge** exactly when they are of one kind. -/
theorem Partition.merge_cases (p other : Partition I V E) :
    (p.kind = other.kind ∧ ∃ records, p.merge other = (.ok (), { p with records })
        ∧ records.kind = p.kind)
      ∨ (p.kind ≠ other.kind
        ∧ p.merge other = (.error (.kindMismatch p.kind other.kind), p)) := by
  unfold Partition.merge Partition.kind
  cases hp : p.records <;> cases ho : other.records
  · exact Or.inl ⟨rfl, _, rfl, rfl⟩
  · exact Or.inr ⟨by simp [Records.kind], rfl⟩
  · exact Or.inr ⟨by simp [Records.kind], rfl⟩
  · exact Or.inl ⟨rfl, _, rfl, rfl⟩

namespace Holdings

/-- **A partition is refused only for its kind**, and then nothing changes. -/
theorem addPartition_cases (h : Holdings I V E M) (p : Partition I V E) :
    (∃ held, h.partitions.get? p.id = some held ∧ held.kind ≠ p.kind
        ∧ h.addPartition p = (.error (.kindMismatch held.kind p.kind), h))
      ∨ ((∀ held, h.partitions.get? p.id = some held → held.kind = p.kind)
        ∧ ∃ h', h.addPartition p = (.ok (), h') ∧ Steady h h') := by
  cases hget : h.partitions.get? p.id with
  | none =>
    refine Or.inr ⟨by simp, { h with partitions := h.partitions.insert p.id p }, ?_, rfl, ?_⟩
    · simp only [addPartition, hget]
    · intro id q hq
      have hne : id ≠ p.id := by rintro rfl; rw [hget] at hq; cases hq
      exact ⟨q, by rw [Table.get?_insert_of_ne _ _ hne]; exact hq, rfl⟩
  | some held =>
    -- what is held takes the other in, or is of another kind and stays
    rcases Partition.merge_cases held p with ⟨hkind, records, hmerge, hsame⟩ | ⟨hkind, hmerge⟩
    · refine Or.inr ⟨fun _ h => by cases h; exact hkind,
        { h with partitions := h.partitions.insert p.id { held with records } }, ?_, rfl, ?_⟩
      · simp only [addPartition, hget, hmerge]
      · intro id q hq
        by_cases hid : id = p.id
        · subst hid
          rw [hget] at hq
          cases hq
          exact ⟨_, Table.get?_insert_self _ _ _, hsame⟩
        · exact ⟨q, by rw [Table.get?_insert_of_ne _ _ hid]; exact hq, rfl⟩
    · refine Or.inl ⟨held, rfl, hkind, ?_⟩
      simp only [addPartition, hget, hmerge]
      rw [Table.insert_eq_self hget]

end Holdings

variable [Value V] [Value E]

namespace Holdings

variable [Value M]

/-- The request in the frame cannot be carried out on these holdings. -/
def Refuses (h : Holdings I V E M) (frame : RequestFrame) : Prop :=
  ∃ e, (h.applyFrame frame).1 = .error e

/-- A partition that can be read is added. -/
theorem applyFrame_eq_addPartition {h : Holdings I V E M} {frame : RequestFrame}
    {p : Partition I V E} (htype : frame.type = .sendPartition)
    (hp : Partition.ofBytes frame.payload h.config = .ok p) :
    h.applyFrame frame = h.addPartition p := by
  rw [applyFrame, htype, Request.decode]
  dsimp only [apply]
  rw [hp]

/-- **A request that cannot be carried out changes nothing.** -/
theorem applyFrame_error {h : Holdings I V E M} {frame : RequestFrame} {e : Error}
    (herror : (h.applyFrame frame).1 = .error e) : (h.applyFrame frame).2 = h := by
  unfold applyFrame at herror ⊢
  split at herror
  · rfl
  · next request _ =>
    cases request with
    | messages parts => cases herror
    | partition bytes =>
      simp only [apply] at herror ⊢
      split at herror
      · rfl
      · next p _ =>
        rcases addPartition_cases h p with ⟨_, _, _, hadd⟩ | ⟨_, _, hadd, _⟩
        · rw [hadd]
        · rw [hadd] at herror
          cases herror

/-- Carrying a request out changes no configuration and no kind. -/
theorem steady_applyFrame (h : Holdings I V E M) (frame : RequestFrame) :
    Steady h (h.applyFrame frame).2 := by
  unfold applyFrame
  split
  · exact .refl h
  · next request _ =>
    cases request with
    | messages parts => exact ⟨rfl, fun hp => ⟨_, hp, rfl⟩⟩
    | partition bytes =>
      simp only [apply]
      split
      · exact .refl h
      · next p _ =>
        rcases addPartition_cases h p with ⟨_, _, _, hadd⟩ | ⟨_, _, hadd, hsteady⟩
        · rw [hadd]; exact .refl h
        · rw [hadd]; exact hsteady

/-- **What is refused stays refused.** -/
theorem Steady.refuses {h h' : Holdings I V E M} (hsteady : Steady h h') {frame : RequestFrame}
    (hrefuses : h.Refuses frame) : h'.Refuses frame := by
  obtain ⟨e, herror⟩ := hrefuses
  unfold Refuses
  unfold applyFrame at herror ⊢
  split at herror
  · exact ⟨_, rfl⟩
  · next request _ =>
    cases request with
    | messages parts => cases herror
    | partition bytes =>
      simp only [apply, hsteady.config] at herror ⊢
      split at herror
      · exact ⟨_, rfl⟩
      · next p _ =>
        rcases addPartition_cases h p with ⟨held, hget, hkind, _⟩ | ⟨_, _, hadd, _⟩
        · -- the partition that stood against it is still there, and of its kind
          obtain ⟨held', hget', hkind'⟩ := hsteady.partitions hget
          rcases addPartition_cases h' p with ⟨_, _, _, hadd⟩ | ⟨hsame, _⟩
          · exact ⟨_, by rw [hadd]⟩
          · exact absurd (hkind'.symm.trans (hsame held' hget')) hkind
        · rw [hadd] at herror
          cases herror

end Holdings

/-! ## Servers

`accept` is where duplicates are told from new requests, and `process` and `handle` add the answer
and the counters to it. -/

namespace Server

variable [Value M]

/-- **A request is a duplicate, or is carried out, or is refused.** -/
theorem accept_cases (s : Server I V E M) (frame : RequestFrame) :
    (s.ledger.contains frame.sender frame.id = true ∧ s.accept frame = (.ok .duplicate, s))
      ∨ (s.ledger.contains frame.sender frame.id = false
        ∧ (s.holdings.applyFrame frame).1 = .ok ()
        ∧ s.accept frame = (.ok .applied, { s with
            ledger := s.ledger.record frame.sender frame.id
            holdings := (s.holdings.applyFrame frame).2 }))
      ∨ ∃ e, s.ledger.contains frame.sender frame.id = false
        ∧ (s.holdings.applyFrame frame).1 = .error e ∧ s.accept frame = (.error e, s) := by
  unfold accept Ledger.accept
  cases hseen : s.ledger.contains frame.sender frame.id with
  | true => exact Or.inl ⟨rfl, rfl⟩
  | false =>
    cases happly : s.holdings.applyFrame frame with
    | mk result next =>
      cases result with
      | ok _ => exact Or.inr (Or.inl ⟨rfl, rfl, rfl⟩)
      | error e =>
        have hsame : next = s.holdings := by
          have := Holdings.applyFrame_error (congrArg Prod.fst happly)
          rwa [happly] at this
        subst hsame
        exact Or.inr (Or.inr ⟨e, rfl, rfl, rfl⟩)

/-- The answer to a request says what was done with it, and counting changes nothing else. -/
theorem process_spec (s : Server I V E M) (frame : RequestFrame) :
    (s.process frame).1 = answer s.worker frame.id (s.accept frame).1
      ∧ (s.process frame).2.worker = s.worker
      ∧ (s.process frame).2.ledger = (s.accept frame).2.ledger
      ∧ (s.process frame).2.holdings = (s.accept frame).2.holdings := by
  unfold process countOutcome
  dsimp only
  refine ⟨rfl, ?_⟩
  split <;> simp [accept]

/-- **A request is answered and counted** as what became of it. -/
theorem process_cases (s : Server I V E M) (frame : RequestFrame) :
    (s.ledger.contains frame.sender frame.id = true
        ∧ s.process frame = (.ack s.worker frame.id,
          s.count fun m => { m with duplicates := m.duplicates + 1 }))
      ∨ (s.ledger.contains frame.sender frame.id = false
        ∧ (s.holdings.applyFrame frame).1 = .ok ()
        ∧ s.process frame = (.ack s.worker frame.id,
          Server.count { s with
            ledger := s.ledger.record frame.sender frame.id
            holdings := (s.holdings.applyFrame frame).2 }
          fun m => { m with applied := m.applied + 1 }))
      ∨ ∃ e, s.ledger.contains frame.sender frame.id = false
        ∧ (s.holdings.applyFrame frame).1 = .error e
        ∧ s.process frame = (.failed s.worker frame.id e.message,
          s.count fun m => { m with rejected := m.rejected + 1 }) := by
  unfold process
  rcases s.accept_cases frame with ⟨hseen, h⟩ | ⟨hnew, hok, h⟩ | ⟨e, hnew, herror, h⟩
  · rw [h]
    exact Or.inl ⟨hseen, rfl⟩
  · rw [h]
    exact Or.inr (Or.inl ⟨hnew, hok, rfl⟩)
  · rw [h]
    exact Or.inr (Or.inr ⟨e, hnew, herror, rfl⟩)

/-- **Only requests have an effect and an answer.** -/
theorem handle_cases (s : Server I V E M) (bytes : Bytes) :
    ((∀ frame, Frame.decode bytes ≠ .ok (.request frame)) ∧ s.handle bytes = (none, s))
      ∨ ∃ frame, Frame.decode bytes = .ok (.request frame)
        ∧ s.handle bytes = (some (s.process frame).1.encode, (s.process frame).2) := by
  unfold handle
  cases Frame.decode bytes with
  | error e => exact Or.inl ⟨by simp, rfl⟩
  | ok frame =>
    cases frame with
    | request frame => exact Or.inr ⟨frame, rfl, rfl⟩
    | response response => exact Or.inl ⟨by simp, rfl⟩

/-- A server keeps its id. -/
theorem worker_handle (s : Server I V E M) (bytes : Bytes) :
    (s.handle bytes).2.worker = s.worker := by
  rcases s.handle_cases bytes with ⟨_, h⟩ | ⟨frame, _, h⟩
  · rw [h]
  · rw [h]; exact (s.process_spec frame).2.1

end Server

end Superstep
