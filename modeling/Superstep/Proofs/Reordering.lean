import Mathlib.Data.List.Lattice
import Superstep.Proofs.Partitions
import Superstep.Proofs.ServerRuns
import Superstep.Proofs.Views

/-!
# Superstep — order and repetition of deliveries do not matter

Frames for different requests commute, as far as a view goes: messages are counted and not ordered,
partitions that have no vertex in common can be merged in any order, and whether a partition is
refused is settled by the kind of partitions that are received and of the one that was there before,
so that it does not matter which one arrives first (**`View.step_comm`**). A frame that comes again
adds nothing (**`View.step_step`**).

* **`View.run_eq_of_mem_iff`** — a view depends on the set of the frames that came in;
* **`Server.reordered`** — and so does all that counts of a server. The compact sets in its ledger
  are the same ones, because a set is kept in one way only.
-/

namespace Superstep

variable {I V E M : Type} [VertexId I]

/-! ## Merging

A lookup in a merged partition goes through the parts. Two parts without a common vertex can be
asked in either order. -/

namespace Shape

variable {p q : Partition I V E}

/-- Records without an id in common are merged in any order. -/
theorem or_record_comm (h : p.ids.Disjoint q.ids) (id : I) (held : Option (Record I V E)) :
    (q.shape.record id).or ((p.shape.record id).or held)
      = (p.shape.record id).or ((q.shape.record id).or held) := by
  by_cases hmem : id ∈ p.ids
  · have hnone : q.shape.record id = none :=
      Records.get?_eq_none_of_notMem_ids fun hmem' => h hmem hmem'
    rw [hnone, Option.none_or, Option.none_or]
  · have hnone : p.shape.record id = none := Records.get?_eq_none_of_notMem_ids hmem
    rw [hnone, Option.none_or, Option.none_or]

theorem merge_merge_comm (h : p.ids.Disjoint q.ids) (held : Shape I V E) :
    (held.merge p.shape).merge q.shape = (held.merge q.shape).merge p.shape := by
  have hrecord := funext fun id => or_record_comm h id (held.record id)
  exact congrArg (Shape.mk held.id held.scratch held.strategy held.kind) hrecord

end Shape

/-- The partitions differ in their records at the most, and have no vertex in common. -/
structure Partition.Apart (p q : Partition I V E) : Prop where
  scratch : p.scratch = q.scratch
  strategy : p.strategy = q.strategy
  kind : p.kind = q.kind
  disjoint : p.id = q.id → p.ids.Disjoint q.ids

/-- **Whichever comes first**, the same is held in the end. -/
theorem Partition.Apart.joined_comm {p q : Partition I V E} (h : p.Apart q) (hid : p.id = q.id)
    (held : Option (Shape I V E)) : q.shape.joined (some (p.shape.joined held))
      = p.shape.joined (some (q.shape.joined held)) := by
  cases held with
  | some held => exact Shape.merge_merge_comm (h.disjoint hid) held
  | none =>
    have hrecord : (p.shape.merge q.shape).record = (q.shape.merge p.shape).record := by
      funext id
      have hor := Shape.or_record_comm (h.disjoint hid) id none
      rw [Option.or_none, Option.or_none] at hor
      exact hor
    show Shape.mk p.id p.scratch p.strategy p.kind (p.shape.merge q.shape).record = _
    rw [hrecord, hid, h.scratch, h.strategy, h.kind]
    rfl

/-! ## Steps commute

A step asks whether the frame is taken, and then adds to the view. For frames that are apart, each
of the two is as it would be without the other one. -/

/-- What was asked for can be done in either order. -/
def Asked.Apart : Asked I V E M → Asked I V E M → Prop
  | .partition p, .partition q => p.Apart q
  | _, _ => True

namespace View

variable {v : View I V E M} [Value M]

/-- **What is granted stays granted, and what is refused stays refused.** -/
theorem grants_add {a b : Asked I V E M} (ha : v.grants a = true) (h : a.Apart b) :
    (v.add a).grants b = v.grants b := by
  cases a with
  | nothing => rfl
  | messages parts => cases b <;> rfl
  | partition p =>
    cases b with
    | nothing => rfl
    | messages parts => rfl
    | partition q =>
      show ((v.hold p.id _).partition q.id).all _ = (v.partition q.id).all _
      by_cases hid : q.id = p.id
      -- the kind of what is held now is that of both of them
      · rw [hid, partition_hold_self]
        have hkind : p.kind = q.kind := h.kind
        unfold grants at ha
        cases hheld : v.partition p.id with
        | none => exact decide_eq_true hkind
        | some held => rfl
      · rw [partition_hold_of_ne v hid]

/-- **Additions commute.** -/
theorem add_comm {a b : Asked I V E M} (h : a.Apart b) : (v.add a).add b = (v.add b).add a := by
  cases a with
  | nothing => rfl
  | messages parts =>
    cases b with
    | nothing => rfl
    | messages parts' =>
      have hinbox : ((v.add (.messages parts)).add (.messages parts')).inbox
          = ((v.add (.messages parts')).add (.messages parts)).inbox := by
        funext partition vertex
        exact add_right_comm _ _ _
      exact congrArg (fun inbox => View.mk v.config inbox v.partition v.recorded) hinbox
    | partition q => rfl
  | partition p =>
    cases b with
    | nothing => rfl
    | messages parts => rfl
    | partition q =>
      show (v.hold p.id _).hold q.id (q.shape.joined ((v.hold p.id _).partition q.id))
        = (v.hold q.id _).hold p.id (p.shape.joined ((v.hold q.id _).partition p.id))
      -- partitions with one id are put into one, and with two ids they are held side by side
      by_cases hid : p.id = q.id
      · have hjoined : q.shape.joined (some (p.shape.joined (v.partition q.id)))
            = p.shape.joined (some (q.shape.joined (v.partition q.id))) := h.joined_comm hid _
        rw [hid, partition_hold_self, partition_hold_self, hold_hold, hold_hold, hjoined]
      · rw [partition_hold_of_ne v hid, partition_hold_of_ne v (Ne.symm hid)]
        have hcomm := Function.update_comm hid (some (p.shape.joined (v.partition p.id)))
          (some (q.shape.joined (v.partition q.id))) v.partition
        exact congrArg (fun partition => View.mk v.config v.inbox partition v.recorded) hcomm

variable [Value V] [Value E]

theorem config_step (v : View I V E M) (f : RequestFrame) : (v.step f).config = v.config := by
  rw [step]
  split
  · exact config_add v _
  · rfl

/-- A frame that is taken is added and recorded. -/
theorem step_of_takes {f : RequestFrame} (h : v.takes f = true) :
    v.step f = (v.add (f.asks v.config)).record f := if_pos h

/-- Any other frame leaves the view. -/
theorem step_of_not_takes {f : RequestFrame} (h : v.takes f = false) : v.step f = v := by
  rw [step, h, if_neg Bool.false_ne_true]

theorem recorded_step_of_takes {f : RequestFrame} (h : v.takes f = true) (sender : WorkerId)
    (id : RequestId) : (v.step f).recorded sender id
      = (decide (sender = f.sender ∧ id = f.id) || v.recorded sender id) := by
  rw [step_of_takes h]
  show (_ || (v.add _).recorded sender id) = _
  rw [recorded_add]

/-- **A frame that comes again adds nothing**, granted or not. -/
theorem step_step (v : View I V E M) (f : RequestFrame) : (v.step f).step f = v.step f := by
  cases htakes : v.takes f with
  | false => rw [step_of_not_takes htakes, step_of_not_takes htakes]
  | true =>
    refine step_of_not_takes ?_
    rw [takes, recorded_step_of_takes htakes, decide_eq_true ⟨rfl, rfl⟩, Bool.true_or,
      Bool.not_true, Bool.false_and]

/-- Another frame does not change whether a frame is taken. -/
theorem takes_step {f g : RequestFrame} (hkey : f.key ≠ g.key)
    (h : Asked.Apart (f.asks v.config : Asked I V E M) (g.asks v.config)) :
    (v.step f).takes g = v.takes g := by
  cases htakes : v.takes f with
  | false => rw [step_of_not_takes htakes]
  | true =>
    have hgrants : v.grants (f.asks v.config) = true := (Bool.and_eq_true_iff.1 htakes).2
    have hother : ¬ (g.sender = f.sender ∧ g.id = f.id) :=
      fun heq => hkey (Prod.ext heq.1.symm heq.2.symm)
    rw [takes, recorded_step_of_takes htakes, decide_eq_false hother, Bool.false_or, config_step,
      step_of_takes htakes, grants_record, grants_add hgrants h, takes]

end View

/-! ## Servers that are alike

Views say less than servers: a ledger is seen as the ids it has. Since a set of ids is kept in one
way, the ledgers are the same ones all the same. -/

namespace Server

/-- Servers that hold the same, but for the order of messages and of vertices, and have the same on
record. -/
structure Alike (s t : Server I V E M) : Prop where
  inbox : ∀ partition vertex,
    s.holdings.messages.inbox partition vertex = t.holdings.messages.inbox partition vertex
  partition : ∀ id, (s.holdings.partitions.get? id).map Partition.shape
    = (t.holdings.partitions.get? id).map Partition.shape
  seen : ∀ sender, s.ledger.seen sender = t.ledger.seen sender

theorem alike_of_view {s t : Server I V E M} (hs : s.ledger.Normal) (ht : t.ledger.Normal)
    (h : s.view = t.view) : s.Alike t := by
  refine ⟨fun partition vertex => ?_, fun id => ?_, fun sender => ?_⟩
  · exact congrArg (fun v => v.inbox partition vertex) h
  · exact congrArg (fun v => v.partition id) h
  · refine (hs sender).ext (ht sender) fun id => ?_
    exact congrArg (fun v => v.recorded sender id) h

end Server

/-! ## Sets of frames

What is asked of frames is asked of any two of them, so it is a property of their set. Every list of
frames can then be sorted and rid of repetitions by the lemmas about two. -/

/-- **Frames of which none is in the way of another**, for someone with these settings: they are
different requests, and the partitions for one id have no vertex in common. -/
structure Independent (I V E : Type) [VertexId I] [Value V] [Value E] (config : PartitionConfig)
    (frames : Set RequestFrame) : Prop where
  keys : frames.InjOn RequestFrame.key
  disjoint : ∀ f ∈ frames, ∀ g ∈ frames, f ≠ g → f.type = .sendPartition →
    g.type = .sendPartition → ∀ p q : Partition I V E, Partition.ofBytes f.payload config = .ok p →
      Partition.ofBytes g.payload config = .ok q → p.id = q.id → p.ids.Disjoint q.ids

variable [Value V] [Value E] [Value M]

theorem Request.of_decode_partition {type : RequestType} {payload bytes : Bytes}
    (h : Request.decode (I := I) (M := M) type payload = .ok (.partition bytes)) :
    type = .sendPartition ∧ bytes = payload := by
  cases type with
  | sendPartition =>
    cases h
    exact ⟨rfl, rfl⟩
  | sendWorkerMessages =>
    obtain ⟨request, _, hread, hend⟩ := Decoder.run_bind_eq_ok.1 (Prod.ext h rfl)
    obtain ⟨_, _, _, hrequest⟩ := Decoder.run_bind_eq_ok.1 hend
    cases hrequest
    obtain ⟨count, _, _, hparts⟩ := Decoder.run_bind_eq_ok.1 hread
    obtain ⟨parts, _, _, hmessages⟩ := Decoder.run_bind_eq_ok.1 hparts
    cases hmessages

theorem RequestFrame.of_asks_partition {frame : RequestFrame} {config : PartitionConfig}
    {p : Partition I V E} (h : (frame.asks config : Asked I V E M) = .partition p) :
    frame.type = .sendPartition ∧ Partition.ofBytes frame.payload config = .ok p := by
  unfold asks at h
  cases hdecode : Request.decode (I := I) (M := M) frame.type frame.payload with
  | error e =>
    rw [hdecode] at h
    cases h
  | ok request =>
    rw [hdecode] at h
    cases request with
    | messages parts => cases h
    | partition bytes =>
      obtain ⟨htype, rfl⟩ := Request.of_decode_partition hdecode
      dsimp only at h
      cases hread : (Partition.ofBytes frame.payload config : Except Error (Partition I V E)) with
      | error e =>
        rw [hread] at h
        cases h
      | ok q =>
        rw [hread] at h
        cases h
        exact ⟨htype, rfl⟩

/-- Different frames of an independent set are apart. -/
theorem Independent.apart {config : PartitionConfig} {frames : Set RequestFrame}
    (h : Independent I V E config frames) {f g : RequestFrame} (hf : f ∈ frames) (hg : g ∈ frames)
    (hne : f ≠ g) : Asked.Apart (f.asks config : Asked I V E M) (g.asks config) := by
  cases hp : (f.asks config : Asked I V E M) with
  | nothing => trivial
  | messages parts => trivial
  | partition p =>
    cases hq : (g.asks config : Asked I V E M) with
    | nothing => trivial
    | messages parts => trivial
    | partition q =>
      obtain ⟨hftype, hfread⟩ := RequestFrame.of_asks_partition hp
      obtain ⟨hgtype, hgread⟩ := RequestFrame.of_asks_partition hq
      obtain ⟨hscratch, hstrategy, hkind⟩ := Partition.of_ofBytes hfread
      obtain ⟨hscratch', hstrategy', hkind'⟩ := Partition.of_ofBytes hgread
      exact ⟨hscratch.trans hscratch'.symm, hstrategy.trans hstrategy'.symm,
        hkind.trans hkind'.symm, h.disjoint f hf g hg hne hftype hgtype p q hfread hgread⟩

namespace View

variable {v : View I V E M} {frames : Set RequestFrame} {f g : RequestFrame}
  {xs ys : List RequestFrame}

/-- **Steps commute.** -/
theorem step_comm (h : Independent I V E v.config frames) (hf : f ∈ frames) (hg : g ∈ frames) :
    (v.step f).step g = (v.step g).step f := by
  by_cases heq : f = g
  · rw [heq]
  have hkey : f.key ≠ g.key := fun hkey => heq (h.keys hf hg hkey)
  have hfg : Asked.Apart (f.asks v.config : Asked I V E M) (g.asks v.config) := h.apart hf hg heq
  have hgf : Asked.Apart (g.asks v.config : Asked I V E M) (f.asks v.config) :=
    h.apart hg hf (Ne.symm heq)
  have hftakes : (v.step g).takes f = v.takes f := takes_step (Ne.symm hkey) hgf
  have hgtakes : (v.step f).takes g = v.takes g := takes_step hkey hfg
  cases htakef : v.takes f with
  | false => rw [step_of_not_takes htakef, step_of_not_takes (hftakes.trans htakef)]
  | true =>
    cases htakeg : v.takes g with
    | false => rw [step_of_not_takes htakeg, step_of_not_takes (hgtakes.trans htakeg)]
    | true =>
      rw [step_of_takes (hgtakes.trans htakeg), step_of_takes (hftakes.trans htakef), config_step,
        config_step, step_of_takes htakef, step_of_takes htakeg, add_record, add_record,
        record_comm, add_comm hfg]

def run (v : View I V E M) (xs : List RequestFrame) : View I V E M := xs.foldl step v

/-- A frame can come before the others as well as after them. -/
theorem step_run (h : Independent I V E v.config frames) (hf : f ∈ frames)
    (hxs : ∀ g ∈ xs, g ∈ frames) : (v.run xs).step f = (v.step f).run xs := by
  induction xs generalizing v with
  | nil => rfl
  | cons g xs ih =>
    rw [List.forall_mem_cons] at hxs
    have hcomm := step_comm h hf hxs.1
    rw [← config_step v g] at h
    show ((v.step g).run xs).step f = ((v.step f).step g).run xs
    rw [ih h hxs.2, hcomm]

/-- **A frame that comes anyway** might as well have come before. -/
theorem run_step_of_mem (h : Independent I V E v.config frames) (hxs : ∀ g ∈ xs, g ∈ frames)
    (hf : f ∈ xs) : (v.step f).run xs = v.run xs := by
  induction xs generalizing v with
  | nil => cases hf
  | cons g xs ih =>
    have hcomm := step_comm h (hxs f hf) (hxs g List.mem_cons_self)
    rw [List.forall_mem_cons] at hxs
    rw [← config_step v g] at h
    show ((v.step f).step g).run xs = (v.step g).run xs
    rcases List.mem_cons.1 hf with rfl | hf
    · rw [step_step]
    · rw [hcomm, ih h hxs.2 hf]

/-- Frames that all come later might as well not come now. -/
theorem run_run_of_subset (h : Independent I V E v.config frames) (hys : ∀ g ∈ ys, g ∈ frames)
    (hxs : xs ⊆ ys) : (v.run xs).run ys = v.run ys := by
  induction xs generalizing v with
  | nil => rfl
  | cons f xs ih =>
    rw [List.cons_subset] at hxs
    have hf := run_step_of_mem h hys hxs.1
    rw [← config_step v f] at h
    show ((v.step f).run xs).run ys = v.run ys
    rw [ih h hxs.2, hf]

/-- Frames that all came before add nothing. -/
theorem run_run_of_superset (h : Independent I V E v.config frames) (hxs : ∀ g ∈ xs, g ∈ frames)
    (hys : ys ⊆ xs) : (v.run xs).run ys = v.run xs := by
  induction ys with
  | nil => rfl
  | cons f ys ih =>
    rw [List.cons_subset] at hys
    have hf : (v.run xs).step f = v.run xs := by
      rw [step_run h (hxs f hys.1) hxs, run_step_of_mem h hxs hys.1]
    show ((v.run xs).step f).run ys = v.run xs
    rw [hf, ih hys.2]

/-- **A run is settled by the set of its frames.** -/
theorem run_eq_of_mem_iff (h : Independent I V E v.config frames)
    (hxs : ∀ frame, frame ∈ xs ↔ frame ∈ frames) (hys : ∀ frame, frame ∈ ys ↔ frame ∈ frames) :
    v.run xs = v.run ys := by
  have hsub : xs ⊆ ys := fun frame hframe => (hys frame).2 ((hxs frame).1 hframe)
  have hsup : ys ⊆ xs := fun frame hframe => (hxs frame).2 ((hys frame).1 hframe)
  calc v.run xs = (v.run xs).run ys :=
        (run_run_of_superset h (fun frame => (hxs frame).1) hsup).symm
    _ = v.run ys := run_run_of_subset h (fun frame => (hys frame).1) hsub

end View

/-! ## Runs of a server

The view of a server follows its frames step by step, as long as there is room in the ledger. The
rest is about views. -/

namespace Server

variable {s : Server I V E M} {frames : Set RequestFrame} {xs ys : List RequestFrame}

/-- **A server's run is that of its view.** -/
theorem view_after (h : s.ledger.Roomy frames) (hxs : ∀ frame ∈ xs, frame ∈ frames) :
    (s.after xs).view = s.view.run xs ∧ (s.after xs).ledger.Roomy frames := by
  induction xs generalizing s with
  | nil => exact ⟨rfl, h⟩
  | cons frame xs ih =>
    rw [List.forall_mem_cons] at hxs
    obtain ⟨hview, hroomy⟩ := view_process h hxs.1
    show (((s.process frame).2).after xs).view = (s.view.step frame).run xs ∧ _
    rw [← hview]
    exact ih hroomy hxs.2

/-- **A server that was given requests has room** for others, if they do not make up all the ids of
any sender together. -/
theorem roomy_after (worker : WorkerId) (h : Holdings I V E M) (metered : Bool)
    {before more : List RequestFrame} (hroom : Unexhausted (before ++ more)) :
    ((serving worker h metered).after before).ledger.Roomy {frame | frame ∈ more} := by
  have hs := mirrors_after worker h metered hroom.of_append
  refine ⟨hs.normal, fun sender => ?_⟩
  obtain ⟨id, hid⟩ := hroom sender
  refine ⟨id, ?_, fun frame hframe => hid frame (List.mem_append_right before hframe)⟩
  rw [← Bool.not_eq_true, hs.contains]
  intro hmem
  obtain ⟨frame, hframe, hkey⟩ := List.mem_map.1 hmem
  obtain ⟨hsender, hsame⟩ := Prod.mk.inj hkey
  have hbefore := (h.once_sublist before).subset hframe
  exact hid frame (List.mem_append_left more hbefore) hsender hsame

/-- **Order and repetition do not matter.** Whatever a server holds and has on record, any two rows
of deliveries in which the same frames occur, each once or more often, leave it alike, if the frames
are independent and no sender runs out of ids. -/
theorem reordered (s : Server I V E M) (frames : Finset RequestFrame)
    (hroomy : s.ledger.Roomy frames) (h : Independent I V E s.holdings.config frames)
    (xs ys : List RequestFrame) (hxs : xs.toFinset = frames) (hys : ys.toFinset = frames) :
    (s.after xs).Alike (s.after ys) := by
  have hmem : ∀ {zs : List RequestFrame}, zs.toFinset = frames →
      ∀ frame, frame ∈ zs ↔ frame ∈ (frames : Set RequestFrame) := by
    rintro zs rfl frame
    rw [Finset.mem_coe, List.mem_toFinset]
  obtain ⟨hxview, hxroomy⟩ := view_after hroomy fun frame => (hmem hxs frame).1
  obtain ⟨hyview, hyroomy⟩ := view_after hroomy fun frame => (hmem hys frame).1
  have hview : (s.after xs).view = (s.after ys).view := by
    rw [hxview, hyview]
    exact View.run_eq_of_mem_iff h (hmem hxs) (hmem hys)
  exact alike_of_view hxroomy.normal hyroomy.normal hview

def lone (vertex : UInt8) : Bytes :=
  [0, 0, 0, 5, 0, 0, 0, 1] ++ [0, 0, 0, 0, 0, 0, 0, vertex] ++ [0, 0, 0, 25] ++ [0, 0, 0, 25]
    ++ [0, 0, 0, 0, 0, 0, 0, vertex] ++ [0, 0, 0, 0, 0, 0, 0, 10] ++ [0, 0, 0, 0] ++ [1]

/-- The vertices of a partition in two parts, a message for one of them, and what is no request. -/
def scattered : List RequestFrame :=
  [⟨⟨9⟩, ⟨0⟩, .sendPartition, lone 1⟩, ⟨⟨9⟩, ⟨1⟩, .sendPartition, lone 2⟩,
    ⟨⟨8⟩, ⟨0⟩, .sendWorkerMessages, [0, 0, 0, 1, 0, 0, 0, 5, 0, 0, 0, 1, 0, 0, 0, 16]
      ++ [0, 0, 0, 0, 0, 0, 0, 1] ++ [0, 0, 0, 0, 0, 0, 0, 42]⟩,
    ⟨⟨8⟩, ⟨1⟩, .sendPartition, [7]⟩]

theorem reordered_scattered :
    let s : Server UInt64 UInt64 UInt64 UInt64 :=
      (serving ⟨1⟩ (.empty Config.testing.partition) true).after
        [⟨⟨9⟩, ⟨2⟩, .sendPartition, lone 3⟩]
    s.ledger.Roomy scattered.toFinset
      ∧ Independent UInt64 UInt64 UInt64 s.holdings.config scattered.toFinset
      ∧ (s.after scattered).Alike (s.after (scattered.reverse ++ scattered))
      ∧ (s.after scattered).holdings.messages.inbox ⟨5⟩ 1 = {42}
      ∧ ((s.after scattered).ledger.seen ⟨9⟩, (s.after scattered).ledger.seen ⟨8⟩)
        = (⟨3, []⟩, ⟨1, []⟩) := by
  intro s
  have hroomy : s.ledger.Roomy scattered.toFinset := by
    have hids : ∀ frame ∈ [⟨⟨9⟩, ⟨2⟩, .sendPartition, lone 3⟩] ++ scattered, frame.id ≠ ⟨3⟩ := by
      decide
    rw [List.coe_toFinset]
    exact roomy_after _ _ _ fun sender => ⟨⟨3⟩, fun frame hframe _ => hids frame hframe⟩
  have hindependent : Independent UInt64 UInt64 UInt64 s.holdings.config scattered.toFinset := by
    have hkeys : ∀ f ∈ scattered.toFinset, ∀ g ∈ scattered.toFinset, f.key = g.key → f = g := by
      decide
    let ids (frame : RequestFrame) : List UInt64 :=
      ((Partition.ofBytes frame.payload s.holdings.config
        : Except Error (Partition UInt64 UInt64 UInt64)).toOption.map Partition.ids).getD []
    have hapart : ∀ f ∈ scattered.toFinset, ∀ g ∈ scattered.toFinset, f ≠ g →
        ids f ∩ ids g = [] := by decide +kernel
    refine ⟨fun f hf g hg => hkeys f hf g hg, ?_⟩
    intro f hf g hg hne _ _ p q hp hq _
    have hidsp : ids f = p.ids := by
      dsimp only [ids]
      rw [hp]
      rfl
    have hidsq : ids g = q.ids := by
      dsimp only [ids]
      rw [hq]
      rfl
    rw [← hidsp, ← hidsq, ← List.inter_eq_nil_iff_disjoint]
    exact hapart f hf g hg hne
  refine ⟨hroomy, hindependent, ?_, ?_, ?_⟩
  · exact reordered s scattered.toFinset hroomy hindependent _ _ rfl (by decide)
  · decide +kernel
  · decide +kernel

end Server

end Superstep
