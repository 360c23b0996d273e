import Mathlib.Algebra.BigOperators.Group.Multiset.Basic
import Mathlib.Algebra.Order.Group.Multiset
import Superstep.Proofs.Records
import Superstep.Proofs.Server

/-!
# Superstep — what a server shows

A `View` is what can be told of a server when orders do not count: for every vertex the messages
that wait for it, for every partition its records as a map, and for every sender the ids on record.
A request frame asks for something (`Asked`) that the view grants or refuses, and that adds to it
when it is granted.

* **`MessageStore.inbox_addBatch`** — a batch adds its messages to the inboxes;
* **`Holdings.view_applyFrame`** — a request that is carried out adds what it asks for, and it is
  carried out exactly when it is granted;
* **`Server.view_process`** — so a server does with a frame what its view says.
-/

namespace Superstep

variable {I V E M : Type}

/-! ## Inboxes

Messages are put behind those that are there, so that their order tells which came first. As
multisets the inboxes forget it, and then it does not matter which of two requests was carried out
first. -/

def Batch.to [VertexId I] [Value M] (b : Batch I M) (vertex : I) : Multiset M :=
  ((b.toList.filter fun e => e.1 = vertex).map Prod.snd : List M)

namespace MessageStore

variable [VertexId I]

/-- The messages that wait for a vertex of one partition. -/
def inbox (s : MessageStore I M) (partition : PartitionId) (vertex : I) : Multiset M :=
  (((s.inboxes partition).get? vertex).getD [] : List M)

/-- A message is put behind the others of its vertex. -/
theorem getD_deliver (inboxes : Table I (List M)) (vertex vertex' : I) (message : M) :
    ((deliver inboxes vertex message).get? vertex').getD []
      = (inboxes.get? vertex').getD [] ++ if vertex = vertex' then [message] else [] := by
  rw [deliver, Table.get?_insert]
  by_cases h : vertex = vertex'
  · subst h
    rw [if_pos rfl, if_pos rfl, Option.getD_some]
  · rw [if_neg (Ne.symm h), if_neg h, List.append_nil]

/-- So are those of a batch, in their order. -/
theorem getD_deliverAll (inboxes : Table I (List M)) (pairs : List (I × M)) (vertex : I) :
    ((pairs.foldl (fun inboxes e => deliver inboxes e.1 e.2) inboxes).get? vertex).getD []
      = (inboxes.get? vertex).getD []
        ++ (pairs.filter fun e => e.1 = vertex).map Prod.snd := by
  induction pairs generalizing inboxes with
  | nil => exact (List.append_nil _).symm
  | cons e pairs ih =>
    rw [List.foldl_cons, ih, getD_deliver]
    by_cases h : e.1 = vertex
    · rw [if_pos h, List.filter_cons_of_pos (by simpa using h), List.map_cons, List.append_assoc]
      rfl
    · rw [if_neg h, List.filter_cons_of_neg (by simpa using h), List.append_nil]

variable [Value M]

/-- **A batch adds its messages** to the inboxes of its partition. -/
theorem inbox_addBatch (s : MessageStore I M) (partition partition' : PartitionId) (b : Batch I M)
    (vertex : I) : (s.addBatch partition b).inbox partition' vertex
      = s.inbox partition' vertex + if partition = partition' then b.to vertex else 0 := by
  by_cases h : partition = partition'
  · subst h
    have hinboxes : (s.addBatch partition b).inboxes partition
        = b.toList.foldl (fun inboxes e => deliver inboxes e.1 e.2) (s.inboxes partition) := by
      rw [addBatch, inboxes, Table.get?_insert_self, Option.getD_some]
    rw [inbox, hinboxes, getD_deliverAll, if_pos rfl, ← Multiset.coe_add]
    rfl
  · have hinboxes : (s.addBatch partition b).inboxes partition' = s.inboxes partition' := by
      rw [addBatch, inboxes, Table.get?_insert_of_ne _ _ (Ne.symm h)]
      rfl
    rw [inbox, hinboxes, if_neg h, add_zero]
    rfl

/-- What the parts of a request bring for a vertex. -/
def brought (parts : List (PartitionId × Batch I M)) (partition : PartitionId) (vertex : I) :
    Multiset M :=
  (parts.map fun part => if part.1 = partition then part.2.to vertex else 0).sum

/-- **What a request brings** is added to the inboxes. -/
theorem inbox_addParts (s : MessageStore I M) (parts : List (PartitionId × Batch I M))
    (partition : PartitionId) (vertex : I) :
    (parts.foldl (fun store part => store.addBatch part.1 part.2) s).inbox partition vertex
      = s.inbox partition vertex + brought parts partition vertex := by
  induction parts generalizing s with
  | nil => exact (add_zero _).symm
  | cons part parts ih =>
    rw [List.foldl_cons, ih, inbox_addBatch, add_assoc]
    rfl

end MessageStore

/-! ## Partitions

Of a partition that is received, records count by their ids, and so do those it is merged with. The
order in which they are listed does tell which partition came first, and is left out. -/

/-- A partition but for the order of its records and its signals. -/
structure Shape (I V E : Type) where
  id : PartitionId
  scratch : Vertex I V E
  strategy : EdgeStrategy
  kind : PartitionKind
  record : I → Option (Record I V E)

namespace Shape

/-- The shape with the records of another, which win. -/
def merge (held other : Shape I V E) : Shape I V E :=
  { held with record := fun id => (other.record id).or (held.record id) }

/-- What is held once a partition of this shape has come: it is merged into the one before, if there
is one. -/
def joined (s : Shape I V E) : Option (Shape I V E) → Shape I V E
  | none => s
  | some held => held.merge s

end Shape

namespace Partition

variable [VertexId I]

def shape (p : Partition I V E) : Shape I V E :=
  ⟨p.id, p.scratch, p.strategy, p.kind, p.records.get?⟩

/-- **Partitions of one kind merge** as their records do. -/
theorem shape_merge {p other : Partition I V E} (h : p.kind = other.kind) :
    ∃ merged, p.merge other = (.ok (), merged) ∧ merged.shape = p.shape.merge other.shape := by
  obtain ⟨records, hmerge, hkind⟩ := Records.exists_merge (r := p.records) h.symm
  refine ⟨{ p with records }, by rw [merge, hmerge], ?_⟩
  have hrecord : records.get? = fun id => (other.records.get? id).or (p.records.get? id) := by
    funext id
    exact Records.get?_merge hmerge id
  show Shape.mk p.id p.scratch p.strategy records.kind records.get? = _
  rw [hrecord, hkind]
  rfl

end Partition

/-! ## Views

A view has what requests add to: inboxes, partitions under their ids, and the ledger. Whether a
request is granted can be told from the view, and what it adds as well. -/

/-- What a request frame asks for, under the settings for partitions that are received. -/
inductive Asked (I V E M : Type) where
  /-- The request cannot be read. -/
  | nothing
  | messages (parts : List (PartitionId × Batch I M))
  | partition (p : Partition I V E)

/-- What can be told of a server when orders do not count. -/
structure View (I V E M : Type) where
  config : PartitionConfig
  inbox : PartitionId → I → Multiset M
  partition : PartitionId → Option (Shape I V E)
  recorded : WorkerId → RequestId → Bool

namespace View

def hold (v : View I V E M) (id : PartitionId) (s : Shape I V E) : View I V E M :=
  { v with partition := Function.update v.partition id (some s) }

theorem partition_hold_self (v : View I V E M) (id : PartitionId) (s : Shape I V E) :
    (v.hold id s).partition id = some s := by
  show Function.update v.partition id (some s) id = some s
  rw [Function.update_self]

theorem partition_hold_of_ne (v : View I V E M) {id id' : PartitionId} (h : id' ≠ id)
    (s : Shape I V E) : (v.hold id s).partition id' = v.partition id' := by
  show Function.update v.partition id (some s) id' = v.partition id'
  rw [Function.update_of_ne h]

theorem hold_hold (v : View I V E M) (id : PartitionId) (s t : Shape I V E) :
    (v.hold id s).hold id t = v.hold id t := by
  have hidem := Function.update_idem (some s) (some t) v.partition (a := id)
  exact congrArg (fun partition => View.mk v.config v.inbox partition v.recorded) hidem

/-- The view with this request on record. -/
def record (v : View I V E M) (frame : RequestFrame) : View I V E M :=
  { v with
    recorded := fun sender id =>
      decide (sender = frame.sender ∧ id = frame.id) || v.recorded sender id }

/-- Whether what a frame asks for can be done. A partition has to be of the kind of the one that is
held under its id. -/
def grants (v : View I V E M) : Asked I V E M → Bool
  | .nothing => false
  | .messages _ => true
  | .partition p => (v.partition p.id).all fun held => held.kind = p.kind

/-- What is on record does not decide whether a request is granted. -/
theorem grants_record (v : View I V E M) (frame : RequestFrame) (a : Asked I V E M) :
    (v.record frame).grants a = v.grants a := by
  cases a <;> rfl

/-- Two requests go on record in either order. -/
theorem record_comm (v : View I V E M) (f g : RequestFrame) :
    (v.record f).record g = (v.record g).record f := by
  have hrecorded : ((v.record f).record g).recorded = ((v.record g).record f).recorded := by
    funext sender id
    exact Bool.or_left_comm _ _ _
  exact congrArg (View.mk v.config v.inbox v.partition) hrecorded

end View

variable [VertexId I]

namespace Holdings

/-- What can be told of holdings and of a ledger. -/
def view (h : Holdings I V E M) (l : Ledger) : View I V E M where
  config := h.config
  inbox := h.messages.inbox
  partition id := (h.partitions.get? id).map Partition.shape
  recorded := l.contains

/-- Holding another partition is seen under its id only. -/
theorem view_insert (h : Holdings I V E M) (l : Ledger) (id : PartitionId) (p : Partition I V E) :
    { h with partitions := h.partitions.insert id p }.view l = (h.view l).hold id p.shape := by
  have hpartition : (fun id' => ((h.partitions.insert id p).get? id').map Partition.shape)
      = Function.update (fun id' => (h.partitions.get? id').map Partition.shape) id
        (some p.shape) := by
    funext id'
    rw [Table.get?_insert, Function.update_apply]
    split <;> rfl
  exact congrArg (fun partition => View.mk h.config h.messages.inbox partition l.contains)
    hpartition

end Holdings

namespace Server

def view (s : Server I V E M) : View I V E M := s.holdings.view s.ledger

@[simp] theorem view_count (s : Server I V E M) (f : Metrics → Metrics) :
    (s.count f).view = s.view := by
  rw [view, count_holdings, count_ledger]
  rfl

end Server

/-! ## Carrying requests out

The ledger can tell an id that came before from one that did not as long as some id of the sender is
missing. `Roomy` keeps one missing for every sender, whichever of the frames come in. -/

/-- No sender has all of its ids on record, even with these frames. -/
structure Ledger.Roomy (l : Ledger) (frames : Set RequestFrame) : Prop where
  normal : l.Normal
  missing : ∀ sender, ∃ id, l.contains sender id = false
    ∧ ∀ frame ∈ frames, frame.sender = sender → frame.id ≠ id

namespace Ledger.Roomy

variable {l : Ledger} {frames : Set RequestFrame} {frame : RequestFrame}

/-- A request that is on record is found there, and no other because of it. -/
theorem contains_record (h : l.Roomy frames) (hframe : frame ∈ frames) (sender : WorkerId)
    (id : RequestId) : (l.record frame.sender frame.id).contains sender id
      = (decide (sender = frame.sender ∧ id = frame.id) || l.contains sender id) := by
  obtain ⟨m, hm, hmissing⟩ := h.missing frame.sender
  have hne : m ≠ frame.id := (hmissing frame hframe rfl).symm
  rw [Bool.eq_iff_iff, Ledger.contains_record h.normal hm hne, Bool.or_eq_true, decide_eq_true_iff]

theorem record (h : l.Roomy frames) (hframe : frame ∈ frames) :
    (l.record frame.sender frame.id).Roomy frames := by
  constructor
  · obtain ⟨m, hm, hmissing⟩ := h.missing frame.sender
    exact Ledger.normal_record h.normal hm (hmissing frame hframe rfl).symm
  · intro sender
    obtain ⟨m, hm, hmissing⟩ := h.missing sender
    refine ⟨m, ?_, hmissing⟩
    rw [h.contains_record hframe, hm, Bool.or_false, decide_eq_false_iff_not]
    rintro ⟨hsender, rfl⟩
    exact hmissing frame hframe hsender.symm rfl

/-- The ledger records what the view records. -/
theorem view_record (h : l.Roomy frames) (hframe : frame ∈ frames) (held : Holdings I V E M) :
    held.view (l.record frame.sender frame.id) = (held.view l).record frame := by
  have hrecorded := funext fun sender => funext fun id => h.contains_record hframe sender id
  exact congrArg (View.mk held.config held.messages.inbox (held.view l).partition) hrecorded

end Ledger.Roomy

/-- **A partition of the kind that is held is added**: it is merged into what is held under its id,
and everything else stays. -/
theorem Holdings.addPartition_eq {h : Holdings I V E M} {p : Partition I V E}
    (hkind : ∀ held, h.partitions.get? p.id = some held → held.kind = p.kind) : ∃ merged,
      h.addPartition p = (.ok (), { h with partitions := h.partitions.insert p.id merged })
        ∧ merged.shape = p.shape.joined ((h.partitions.get? p.id).map Partition.shape) := by
  unfold addPartition
  cases hget : h.partitions.get? p.id with
  | none => exact ⟨p, rfl, rfl⟩
  | some held =>
    obtain ⟨merged, hmerge, hshape⟩ := Partition.shape_merge (hkind held hget)
    exact ⟨merged, by dsimp only; rw [hmerge], hshape⟩

variable [Value M]

namespace View

def add (v : View I V E M) : Asked I V E M → View I V E M
  | .nothing => v
  | .messages parts =>
    { v with
      inbox := fun partition vertex =>
        v.inbox partition vertex + MessageStore.brought parts partition vertex }
  | .partition p => v.hold p.id (p.shape.joined (v.partition p.id))

theorem add_record (v : View I V E M) (frame : RequestFrame) (a : Asked I V E M) :
    (v.record frame).add a = (v.add a).record frame := by
  cases a <;> rfl

theorem config_add (v : View I V E M) (a : Asked I V E M) : (v.add a).config = v.config := by
  cases a <;> rfl

theorem recorded_add (v : View I V E M) (a : Asked I V E M) :
    (v.add a).recorded = v.recorded := by
  cases a <;> rfl

end View

/-- **A partition is taken over** when its kind is that of the one that is held. -/
theorem Holdings.view_addPartition (h : Holdings I V E M) (l : Ledger) (p : Partition I V E) :
    ((h.view l).grants (.partition p) = true ∧ ∃ h', h.addPartition p = (.ok (), h')
        ∧ h'.view l = (h.view l).add (.partition p))
      ∨ ((h.view l).grants (.partition p) = false ∧ ∃ e, (h.addPartition p).1 = .error e) := by
  have hview : (h.view l).partition p.id = (h.partitions.get? p.id).map Partition.shape := rfl
  have hgrants : (h.view l).grants (.partition p) = true
      ↔ ∀ held, h.partitions.get? p.id = some held → held.kind = p.kind := by
    rw [View.grants, hview]
    cases h.partitions.get? p.id with
    | none => simp
    | some held => simp [Partition.shape]
  rcases addPartition_cases h p with ⟨held, hget, hkind, hadd⟩ | ⟨hkind, _⟩
  · exact .inr ⟨Bool.eq_false_iff.2 fun htrue => hkind (hgrants.1 htrue held hget), _,
      congrArg Prod.fst hadd⟩
  · obtain ⟨merged, hadd, hshape⟩ := addPartition_eq hkind
    refine .inl ⟨hgrants.2 hkind, _, hadd, ?_⟩
    rw [h.view_insert l p.id merged, View.add, hview, hshape]

variable [Value V] [Value E]

/-- What the frame asks of someone with these settings. -/
def RequestFrame.asks (frame : RequestFrame) (config : PartitionConfig) : Asked I V E M :=
  match Request.decode (I := I) (M := M) frame.type frame.payload with
  | .error _ => .nothing
  | .ok (.messages parts) => .messages parts
  | .ok (.partition bytes) =>
    match Partition.ofBytes bytes config with
    | .error _ => .nothing
    | .ok p => .partition p

namespace View

/-- Whether the frame is new and what it asks for can be done. -/
def takes (v : View I V E M) (frame : RequestFrame) : Bool :=
  !v.recorded frame.sender frame.id && v.grants (frame.asks v.config)

def step (v : View I V E M) (frame : RequestFrame) : View I V E M :=
  if v.takes frame then (v.add (frame.asks v.config)).record frame else v

end View

/-- **A request is carried out** exactly when it is granted, and then adds what it asks for. -/
theorem Holdings.view_applyFrame (h : Holdings I V E M) (l : Ledger) (frame : RequestFrame) :
    ((h.view l).grants (frame.asks h.config) = true ∧ ∃ h', h.applyFrame frame = (.ok (), h')
        ∧ h'.view l = (h.view l).add (frame.asks h.config))
      ∨ ((h.view l).grants (frame.asks h.config) = false
        ∧ ∃ e, (h.applyFrame frame).1 = .error e) := by
  unfold RequestFrame.asks applyFrame
  cases Request.decode (I := I) (M := M) frame.type frame.payload with
  | error e => exact .inr ⟨rfl, _, rfl⟩
  | ok request =>
    cases request with
    | messages parts =>
      have hinbox : (parts.foldl (fun (store : MessageStore I M) part =>
          store.addBatch part.1 part.2) h.messages).inbox = fun partition vertex =>
            h.messages.inbox partition vertex + MessageStore.brought parts partition vertex := by
        funext partition vertex
        exact MessageStore.inbox_addParts h.messages parts partition vertex
      refine .inl ⟨rfl, _, rfl, ?_⟩
      exact congrArg (fun inbox => View.mk h.config inbox (h.view l).partition l.contains) hinbox
    | partition bytes =>
      dsimp only [apply]
      cases (Partition.ofBytes bytes h.config : Except Error (Partition I V E)) with
      | error e => exact .inr ⟨rfl, _, rfl⟩
      | ok p => exact h.view_addPartition l p

/-- **A server does with a frame what its view says**, and its ledger has room left. -/
theorem Server.view_process {s : Server I V E M} {frames : Set RequestFrame}
    (h : s.ledger.Roomy frames) {frame : RequestFrame} (hframe : frame ∈ frames) :
    (s.process frame).2.view = s.view.step frame ∧ (s.process frame).2.ledger.Roomy frames := by
  have happly := s.holdings.view_applyFrame s.ledger frame
  have htakes : s.view.takes frame = (!s.ledger.contains frame.sender frame.id
      && (s.holdings.view s.ledger).grants (frame.asks s.holdings.config)) := rfl
  rw [View.step, htakes]
  -- a frame is a duplicate, or it is new and carried out, or it is new and fails
  rcases s.process_cases frame with ⟨hseen, hprocess⟩ | ⟨hnew, hok, hprocess⟩ |
    ⟨e, hnew, herror, hprocess⟩
  · rw [hprocess, hseen]
    dsimp only
    rw [view_count, count_ledger]
    exact ⟨rfl, h⟩
  · rcases happly with ⟨hgrants, h', hresult, hview⟩ | ⟨_, e, herror⟩
    · rw [hprocess, hnew, hgrants, hresult]
      dsimp only
      rw [view_count, count_ledger]
      refine ⟨?_, h.record hframe⟩
      show h'.view (s.ledger.record frame.sender frame.id) = _
      rw [h.view_record hframe, hview]
      rfl
    · rw [hok] at herror
      cases herror
  · rcases happly with ⟨_, h', hresult, _⟩ | ⟨hgrants, _⟩
    · rw [hresult] at herror
      cases herror
    · rw [hprocess, hgrants, Bool.and_false]
      dsimp only
      rw [view_count, count_ledger]
      exact ⟨rfl, h⟩

end Superstep
