import Superstep.Proofs.Moves

/-!
# Superstep — what tasks carry, and where they write it

Two facts about every sender, whatever its transport does:

* **`carries_run`** — a pending request is kept as the encoding of a frame that was issued for
  its destination, and so is every frame in every task. A frame that is sent again is the frame
  that was sent first.
* **`uses_step`** — a frame is written only to a connection that a connect to its destination
  was answered with.

The second is stated for any property that the answers of the transport have (`Uses`), because
a sender cannot know more of its connections than that.
-/

namespace Superstep

open Coordinator

/-! ## Tasks

A frame is in a task if it is in one of its shipments. Which connection the task uses is known only
while it writes, or deals with a write that failed. -/

namespace Task

/-- The shipments that a task has not finished. -/
def shipments : Task → List Shipment
  | idle => []
  | seeking s later => s :: later
  | connecting s later => s :: later
  | stranded s later => s :: later
  | writing _ s later => s :: later
  | failing _ s later => s :: later

/-- The task has yet to deal with this frame for the destination. -/
def Bears (t : Task) (peer : WorkerId) (f : RequestId × Bytes) : Prop :=
  ∃ s ∈ t.shipments, s.peer = peer ∧ f ∈ s.frames

/-- The connection that a task writes to, and the destination of what it writes. -/
def target? : Task → Option (WorkerId × ConnectionId)
  | writing connection s _ => some (s.peer, connection)
  | failing connection s _ => some (s.peer, connection)
  | _ => none

theorem shipments_ofShipments (shipments : List Shipment) :
    (ofShipments shipments).shipments = shipments := by
  cases shipments <;> rfl

theorem target?_ofShipments (shipments : List Shipment) :
    (ofShipments shipments).target? = none := by
  cases shipments <;> rfl

/-- What is left for later was there before. -/
theorem Bears.ofShipments {later : List Shipment} {s : Shipment} {t : Task} {peer : WorkerId}
    {f : RequestId × Bytes}
    (h : (Task.ofShipments later).Bears peer f) (ht : t.shipments = s :: later) :
    t.Bears peer f := by
  obtain ⟨s', hs', hpeer, hf⟩ := h
  rw [shipments_ofShipments] at hs'
  exact ⟨s', by rw [ht]; exact List.mem_cons_of_mem _ hs', hpeer, hf⟩

end Task

namespace Coordinator

/-! ## What a step leaves in its task

No step of a task gives it a frame. The task of a check is new, and its frames are those of pending
requests. -/

theorem bears_advance {c : Coordinator} {connection : ConnectionId} {s : Shipment}
    {later : List Shipment} {t : Task} {peer : WorkerId} {f : RequestId × Bytes}
    (h : (c.advance connection s later).2.Bears peer f) (ht : t.shipments = s :: later) :
    t.Bears peer f := by
  unfold advance at h
  split at h
  · exact h.ofShipments ht
  · next first rest hrest =>
    obtain ⟨s', hs', hpeer, hf⟩ := h
    rcases List.mem_cons.1 hs' with rfl | hs'
    · refine ⟨s, by rw [ht]; exact List.mem_cons_self, hpeer, ?_⟩
      rw [Shipment.frames, hrest]
      exact List.mem_cons_of_mem _ hf
    · exact ⟨s', by rw [ht]; exact List.mem_cons_of_mem _ hs', hpeer, hf⟩

theorem bears_look {c : Coordinator} {t : Task} {peer : WorkerId} {f : RequestId × Bytes}
    (h : (c.look t).2.Bears peer f) : t.Bears peer f := by
  unfold look at h
  split at h
  · split at h
    · exact h
    · split at h <;> exact h
  · exact h.ofShipments rfl
  · exact bears_advance h rfl
  · exact h

theorem bears_afterConnect {c : Coordinator} {s : Shipment} {later : List Shipment}
    {answer : Option ConnectionId} {peer : WorkerId} {f : RequestId × Bytes}
    (h : (c.afterConnect s later answer).task.Bears peer f) :
    (Task.connecting s later).Bears peer f := by
  unfold afterConnect at h
  split at h
  · exact h
  · split at h <;> exact h

theorem bears_afterWrite {c : Coordinator} {connection : ConnectionId} {s : Shipment}
    {later : List Shipment} {accepted : Bool} {peer : WorkerId} {f : RequestId × Bytes}
    (h : (c.afterWrite connection s later accepted).task.Bears peer f) :
    (Task.writing connection s later).Bears peer f := by
  unfold afterWrite at h
  split at h
  · exact bears_advance h rfl
  · exact h

/-- A frame that is loaded joins the shipments, and nothing else does. -/
theorem mem_load {peer : WorkerId} {frame : RequestId × Bytes} {loaded : List Shipment}
    {s : Shipment} {f : RequestId × Bytes} (hs : s ∈ load peer frame loaded) (hf : f ∈ s.frames) :
    (s.peer = peer ∧ f = frame) ∨ ∃ s' ∈ loaded, s'.peer = s.peer ∧ f ∈ s'.frames := by
  -- over the shipments, down to the one of the destination
  induction loaded with
  | nil =>
    rw [load, List.mem_singleton] at hs
    subst hs
    exact Or.inl ⟨rfl, List.mem_singleton.1 hf⟩
  | cons t later ih =>
    rw [load] at hs
    split at hs
    · next hpeer =>
      rcases List.mem_cons.1 hs with rfl | hs
      · rw [Shipment.frames, ← List.cons_append, List.mem_append, List.mem_singleton] at hf
        rcases hf with hf | hf
        · exact Or.inr ⟨t, List.mem_cons_self, rfl, hf⟩
        · exact Or.inl ⟨hpeer, hf⟩
      · exact Or.inr ⟨s, List.mem_cons_of_mem _ hs, rfl, hf⟩
    · rcases List.mem_cons.1 hs with rfl | hs
      · exact Or.inr ⟨s, List.mem_cons_self, rfl, hf⟩
      · rcases ih hs with h | ⟨s', hs', h⟩
        · exact Or.inl h
        · exact Or.inr ⟨s', List.mem_cons_of_mem _ hs', h⟩

theorem mem_foldl_load {entries : List (RequestKey × PendingRequest)} {loaded : List Shipment}
    {s : Shipment} {f : RequestId × Bytes}
    (hs : s ∈ entries.foldl (fun loaded e => load e.1.1 (e.1.2, e.2.frame) loaded) loaded)
    (hf : f ∈ s.frames) :
    (∃ e ∈ entries, s.peer = e.1.1 ∧ f = (e.1.2, e.2.frame))
      ∨ ∃ s' ∈ loaded, s'.peer = s.peer ∧ f ∈ s'.frames := by
  -- on the requests, for any shipments that were loaded before
  induction entries generalizing loaded with
  | nil => exact Or.inr ⟨s, hs, rfl, hf⟩
  | cons e entries ih =>
    rcases ih hs with ⟨e', he', h⟩ | ⟨s', hs', hpeer, hf'⟩
    · exact Or.inl ⟨e', List.mem_cons_of_mem _ he', h⟩
    · rcases mem_load hs' hf' with ⟨hpeer', rfl⟩ | ⟨s'', hs'', hpeer', hf''⟩
      · exact Or.inl ⟨e, List.mem_cons_self, hpeer.symm.trans hpeer', rfl⟩
      · exact Or.inr ⟨s'', hs'', hpeer'.trans hpeer, hf''⟩

/-- A check carries frames of pending requests only. -/
theorem bears_resend {c : Coordinator} {now : Nat} {peer : WorkerId} {f : RequestId × Bytes}
    (h : (c.resend now).2.Bears peer f) :
    ∃ r, c.pending.get? (peer, f.1) = some r ∧ r.frame = f.2 := by
  unfold resend at h
  split at h
  · obtain ⟨s, hs, _⟩ := h
    cases hs
  · obtain ⟨s, hs, rfl, hf⟩ := h
    rw [Task.shipments_ofShipments, checkOverdue] at hs
    rcases mem_foldl_load hs hf with ⟨⟨key, r⟩, he, hpeer, rfl⟩ | ⟨s', hs', _⟩
    · have hget := Table.mem_toList_iff.1 he
      rw [Table.get?_filter, Option.filter_eq_some_iff] at hget
      refine ⟨r, ?_, rfl⟩
      rw [hpeer]
      exact hget.1
    · cases hs'

/-! ## Which connections a step takes into use

One lemma for each method. Most leave the connections in use alone, a few take some out of use, and
only the answer to a connect brings one into use. -/

theorem live_setPeer (c : Coordinator) (w peer : WorkerId) (f : Peer → Peer) :
    (c.setPeer w f).live peer = if peer = w then (f (c.peer w)).connection else c.live peer := by
  rw [live, peer_setPeer]
  split <;> rfl

/-- Changing what is known of a destination, but not its connection. -/
theorem live_setPeer_of_eq (c : Coordinator) (w peer : WorkerId) {f : Peer → Peer}
    (hf : ∀ p, (f p).connection = p.connection := by intro; rfl) :
    (c.setPeer w f).live peer = c.live peer := by
  rw [live_setPeer]
  split
  · next h => rw [h, hf, live]
  · rfl

theorem live_count (c : Coordinator) (f : Metrics → Metrics) (peer : WorkerId) :
    (c.count f).live peer = c.live peer := rfl

theorem live_giveUp (c : Coordinator)
    (reason : RequestKey → PendingRequest → Option FailureReason) (peer : WorkerId) :
    (c.giveUp reason).live peer = c.live peer := rfl

theorem live_connected (c : Coordinator) (w peer : WorkerId) (connection : ConnectionId) :
    (c.connected w connection).live peer = if peer = w then some connection else c.live peer := by
  rw [connected, live_count, live_setPeer]

theorem live_markUnsent (c : Coordinator) (s : Shipment) (peer : WorkerId) :
    (c.markUnsent s).live peer = c.live peer := by
  unfold markUnsent
  induction s.frames generalizing c with
  | nil => rfl
  | cons f frames ih => exact ih (c.setRoute _ _)

theorem live_write (c : Coordinator) (connection : ConnectionId) (s : Shipment)
    (later : List Shipment) (peer : WorkerId) :
    (c.write connection s later).1.live peer = c.live peer := by
  unfold write
  dsimp only
  split <;> rfl

theorem live_advance (c : Coordinator) (connection : ConnectionId) (s : Shipment)
    (later : List Shipment) (peer : WorkerId) :
    (c.advance connection s later).1.live peer = c.live peer := by
  unfold advance
  split
  · rfl
  · exact live_write c _ _ _ peer

theorem live_look (c : Coordinator) (t : Task) (peer : WorkerId) :
    (c.look t).1.live peer = c.live peer := by
  unfold look
  split
  · split
    · rfl
    · split
      · exact live_write c _ _ _ peer
      · rfl
  · exact live_markUnsent c _ peer
  · exact live_advance _ _ _ _ peer
  · rfl

theorem live_resend (c : Coordinator) (now : Nat) (peer : WorkerId) :
    (c.resend now).1.live peer = c.live peer := by
  unfold resend
  split <;> rfl

theorem live_refused (c : Coordinator) (w peer : WorkerId) :
    (c.refused w).live peer = c.live peer := by
  unfold refused
  dsimp only
  split
  · rw [live_setPeer_of_eq]
  · rw [live_giveUp, live_setPeer_of_eq]

theorem live_forget {c : Coordinator} {connection : ConnectionId} {peer : WorkerId}
    {used : ConnectionId} (h : (c.forget connection).live peer = some used) :
    c.live peer = some used := by
  unfold forget at h
  split at h
  · exact h
  · rw [live_count, live_setPeer] at h
    split at h
    · cases h
    · exact h

theorem live_shutdown {c : Coordinator} {peer : WorkerId} {used : ConnectionId}
    (h : c.shutdown.2.live peer = some used) : c.live peer = some used := by
  unfold shutdown at h
  split at h
  · exact h
  · simp only [live, Coordinator.peer, Table.get?_mapValues] at h
    cases hpeer : c.peers.get? peer <;> simp [hpeer] at h

theorem live_send {c c' : Coordinator} {now : Nat} {w peer : WorkerId} {type : RequestType}
    {payload : Bytes} {id : RequestId} {task : Task}
    (h : c.send now w type payload = .ok (id, c', task)) : c'.live peer = c.live peer := by
  obtain ⟨_, _, _, _, rfl⟩ := send_inv h
  have hsame : (c.setPeer w fun p => { p with nextId := id.next }).live peer = c.live peer :=
    live_setPeer_of_eq c w peer
  exact hsame

theorem live_onResponse (c : Coordinator) (bytes : Bytes) (peer : WorkerId) :
    (c.onResponse bytes).live peer = c.live peer := by
  rcases onResponse_spec c bytes with ⟨h, _⟩ | ⟨_, _, _, h, _⟩ | ⟨_, _, _, _, h, _⟩
  · rw [h]
  · rw [h]; rfl
  · rw [h]; rfl

theorem live_await (c : Coordinator) (peer : WorkerId) : c.await.2.live peer = c.live peer := by
  rcases await_spec c with h | ⟨_, h⟩ | ⟨_, _, h, _⟩
  · rw [h]
  · rw [h]
  · rw [h]; rfl

/-- A connect that succeeds brings its connection into use for its destination alone. -/
theorem live_afterConnect {c : Coordinator} {s : Shipment} {later : List Shipment}
    {answer : Option ConnectionId} {peer : WorkerId} {used : ConnectionId}
    (h : (c.afterConnect s later answer).coordinator.live peer = some used) :
    c.live peer = some used ∨ (peer = s.peer ∧ answer = some used) := by
  cases answer with
  | none => exact Or.inl ((live_refused c s.peer peer).symm.trans h)
  | some connection =>
    cases hlive : c.live s.peer with
    | some existing =>
      simp only [afterConnect, hlive] at h
      rw [live_write] at h
      exact Or.inl h
    | none =>
      simp only [afterConnect, hlive] at h
      rw [live_write, live_connected] at h
      split at h
      · next hpeer => exact Or.inr ⟨hpeer, h⟩
      · exact Or.inl h

theorem live_afterWrite {c : Coordinator} {connection : ConnectionId} {s : Shipment}
    {later : List Shipment} {accepted : Bool} {peer : WorkerId} {used : ConnectionId}
    (h : (c.afterWrite connection s later accepted).coordinator.live peer = some used) :
    c.live peer = some used := by
  cases accepted with
  | false => exact live_forget h
  | true =>
    simp only [afterWrite, if_true] at h
    rw [live_advance] at h
    split at h <;> exact h

/-! ## Which connections a step writes to

A task that begins to write takes the connection in use. One that goes on writing keeps the one it
has, though it may have been replaced. -/

theorem target_advance {c : Coordinator} {connection used : ConnectionId} {s : Shipment}
    {later : List Shipment} {peer : WorkerId}
    (h : (c.advance connection s later).2.target? = some (peer, used)) :
    s.peer = peer ∧ connection = used := by
  unfold advance at h
  split at h
  · rw [Task.target?_ofShipments] at h
    cases h
  · exact Prod.mk.inj (Option.some.inj h)

theorem target_resend (c : Coordinator) (now : Nat) : (c.resend now).2.target? = none := by
  unfold resend
  split
  · rfl
  · exact Task.target?_ofShipments _

/-- A thread looks for the connection in use when it has none. -/
theorem target_look {c : Coordinator} {t : Task} {peer : WorkerId} {used : ConnectionId}
    (h : (c.look t).2.target? = some (peer, used)) :
    c.live peer = some used ∨ t.target? = some (peer, used) := by
  unfold look at h
  split at h
  · split at h
    · cases h
    · split at h
      · next connection hlive =>
        obtain ⟨rfl, rfl⟩ := Prod.mk.inj (Option.some.inj h)
        exact Or.inl hlive
      · cases h
  · rw [Task.target?_ofShipments] at h
    cases h
  · obtain ⟨rfl, rfl⟩ := target_advance h
    exact Or.inr rfl
  · exact Or.inr h

theorem target_afterConnect {c : Coordinator} {s : Shipment} {later : List Shipment}
    {answer : Option ConnectionId} {peer : WorkerId} {used : ConnectionId}
    (h : (c.afterConnect s later answer).task.target? = some (peer, used)) :
    c.live peer = some used ∨ (peer = s.peer ∧ answer = some used) := by
  cases answer with
  | none => cases h
  | some connection =>
    cases hlive : c.live s.peer with
    | some existing =>
      simp only [afterConnect, hlive] at h
      obtain ⟨rfl, rfl⟩ := Prod.mk.inj (Option.some.inj h)
      exact Or.inl hlive
    | none =>
      simp only [afterConnect, hlive] at h
      obtain ⟨rfl, rfl⟩ := Prod.mk.inj (Option.some.inj h)
      exact Or.inr ⟨rfl, rfl⟩

theorem target_afterWrite {c : Coordinator} {connection used : ConnectionId} {s : Shipment}
    {later : List Shipment} {accepted : Bool} {peer : WorkerId}
    (h : (c.afterWrite connection s later accepted).task.target? = some (peer, used)) :
    s.peer = peer ∧ connection = used := by
  cases accepted with
  | false => exact Prod.mk.inj (Option.some.inj h)
  | true =>
    simp only [afterWrite, if_true] at h
    exact target_advance h

end Coordinator

namespace Sender

/-! ## Frames are those that were issued

Frames go round: from a send to its request and its task, and from a request to the task of a check.
The invariant holds of requests and tasks together, because each takes frames from the other. -/

/-- A frame with this id and encoding was issued for the destination. -/
def HasIssued (s : Sender) (peer : WorkerId) (id : RequestId) (bytes : Bytes) : Prop :=
  ∃ frame, (peer, frame) ∈ s.issued ∧ frame.id = id ∧ frame.encode = .ok bytes

theorem HasIssued.mono {s s' : Sender} {peer : WorkerId} {id : RequestId} {bytes : Bytes}
    (hgrow : s.journal <+: s'.journal) (h : s.HasIssued peer id bytes) :
    s'.HasIssued peer id bytes := by
  obtain ⟨frame, hmem, hrest⟩ := h
  exact ⟨frame, (issued_mono hgrow).subset hmem, hrest⟩

/-- Pending requests and tasks hold nothing but encodings of issued frames. -/
structure Carries (s : Sender) : Prop where
  sender : ∀ {peer frame}, (peer, frame) ∈ s.issued → frame.sender = s.coordinator.worker
  pending : ∀ {key r}, s.coordinator.pending.get? key = some r → s.HasIssued key.1 key.2 r.frame
  tasks : ∀ {t}, t ∈ s.tasks → ∀ {peer f}, t.Bears peer f → s.HasIssued peer f.1 f.2

/-- A coordinator keeps its own id. -/
theorem worker_step (s : Sender) (e : Event) :
    (s.step e).coordinator.worker = s.coordinator.worker := by
  cases step_moved s e with
  | issued _ _ _ _ _ hstep _ _ _ => exact hstep.worker
  | acknowledged _ _ _ _ _ hstep _ _ _ => rw [hstep]
  | gaveUp _ hstep _ _ _ _ => exact hstep.worker
  | told _ hstep _ _ _ => rw [hstep]

theorem worker_run (s : Sender) (events : List Event) :
    (s.run events).coordinator.worker = s.coordinator.worker := by
  induction events generalizing s with
  | nil => rfl
  | cons e events ih => exact (ih (s.step e)).trans (worker_step s e)

/-- A frame in a task after a step was in a task before it, or was pending, or was issued by
this very step. -/
theorem bears_step {s : Sender} {e : Event} {t : Task} {peer : WorkerId} {f : RequestId × Bytes}
    (ht : t ∈ (s.step e).tasks) (hf : t.Bears peer f) :
    (∃ t' ∈ s.tasks, t'.Bears peer f)
      ∨ (∃ r, s.coordinator.pending.get? (peer, f.1) = some r ∧ r.frame = f.2)
      ∨ (s.step e).HasIssued peer f.1 f.2 := by
  cases e with
  | send now peer' type payload =>
    cases hsend : s.coordinator.send now peer' type payload with
    | error e => exact Or.inl ⟨t, by simpa only [step, hsend] using ht, hf⟩
    | ok sent =>
      obtain ⟨id, c, task⟩ := sent
      obtain ⟨bytes, htakes, rfl⟩ := send_spec hsend
      simp only [step, hsend, List.mem_append, List.mem_singleton] at ht
      rcases ht with ht | rfl
      · exact Or.inl ⟨t, ht, hf⟩
      · obtain ⟨_, hs, rfl, hmem⟩ := hf
        rw [List.mem_singleton.1 hs] at hmem ⊢
        rw [List.mem_singleton.1 hmem]
        refine Or.inr (Or.inr ⟨_, ?_, htakes.id.trans htakes.id.symm, htakes.encoded⟩)
        simp [issued, step, hsend, Note.issued?]
  -- a pass over overdue requests takes its frames from the pending requests
  | resend now =>
    rcases List.mem_append.1 ht with ht | ht
    · exact Or.inl ⟨t, ht, hf⟩
    · rw [List.mem_singleton.1 ht] at hf
      exact Or.inr (Or.inl (bears_resend hf))
  | look thread =>
    cases htask : s.tasks[thread]? with
    | none => exact Or.inl ⟨t, by simpa only [step, htask] using ht, hf⟩
    | some task =>
      simp only [step, htask] at ht
      rcases List.mem_or_eq_of_mem_set ht with ht | rfl
      · exact Or.inl ⟨t, ht, hf⟩
      · exact Or.inl ⟨task, List.mem_of_getElem? htask, bears_look hf⟩
  | connected thread answer =>
    simp only [step] at ht
    split at ht
    · next shipment later htask =>
      rcases List.mem_or_eq_of_mem_set ht with ht | rfl
      · exact Or.inl ⟨t, ht, hf⟩
      · exact Or.inl ⟨_, List.mem_of_getElem? htask, bears_afterConnect hf⟩
    · exact Or.inl ⟨t, ht, hf⟩
  | written thread accepted =>
    simp only [step] at ht
    split at ht
    · next connection shipment later htask =>
      rcases List.mem_or_eq_of_mem_set ht with ht | rfl
      · exact Or.inl ⟨t, ht, hf⟩
      · exact Or.inl ⟨_, List.mem_of_getElem? htask, bears_afterWrite hf⟩
    · exact Or.inl ⟨t, ht, hf⟩
  | await | alarm =>
    refine Or.inl ⟨t, ?_, hf⟩
    simp only [step] at ht
    split at ht <;> exact ht
  | wake | response | closed | shutdown => exact Or.inl ⟨t, ht, hf⟩

theorem carries_new (worker : WorkerId) (config : DeliveryConfig) :
    Carries (new worker config) where
  sender h := by cases h
  pending h := by cases h
  tasks h := by cases h

theorem carries_step {s : Sender} (h : Carries s) (e : Event) : Carries (s.step e) := by
  have hgrow := journal_step s e
  refine ⟨?_, ?_, ?_⟩
  -- the sender that a frame names
  · intro peer frame hmem
    rw [worker_step]
    cases step_moved s e with
    | issued _ _ _ _ _ hstep hissued _ _ =>
      rw [hissued, List.mem_append, List.mem_singleton] at hmem
      rcases hmem with hmem | heq
      · exact h.sender hmem
      · obtain ⟨_, rfl⟩ := Prod.mk.inj heq
        exact hstep.sender
    | acknowledged _ _ _ _ _ _ hissued _ _ => exact h.sender (hissued ▸ hmem)
    | gaveUp _ _ _ hissued _ _ => exact h.sender (hissued ▸ hmem)
    | told _ _ hissued _ _ => exact h.sender (hissued ▸ hmem)
  -- the frames of pending requests
  · intro key r hr
    cases step_moved s e with
    | issued _ peer frame bytes _ hstep hissued _ _ =>
      have hpending := hstep.pending
      rw [hpending, Table.get?_insert] at hr
      split at hr
      · next hkey =>
        cases hr
        rw [hkey]
        exact ⟨frame, by rw [hissued]; simp, rfl, hstep.encoded⟩
      · exact (h.pending hr).mono hgrow
    | acknowledged _ _ _ _ _ hstep _ _ _ =>
      rw [hstep] at hr
      exact (h.pending (Table.get?_of_get?_erase hr)).mono hgrow
    | gaveUp _ hstep _ _ _ _ =>
      obtain ⟨r', hr', hframe⟩ := hstep.frames hr
      rw [← hframe]
      exact (h.pending hr').mono hgrow
    | told _ hstep _ _ _ =>
      rw [hstep] at hr
      exact (h.pending hr).mono hgrow
  -- the frames in the hands of tasks
  · intro t ht peer f hf
    rcases bears_step ht hf with ⟨t', ht', hf'⟩ | ⟨r, hr, hframe⟩ | hissued
    · exact (h.tasks ht' hf').mono hgrow
    · rw [← hframe]
      exact (h.pending hr).mono hgrow
    · exact hissued

/-- **A frame is never changed.** -/
theorem carries_run {s : Sender} (h : Carries s) (events : List Event) :
    Carries (s.run events) := by
  induction events generalizing s with
  | nil => exact h
  | cons e events ih => exact ih (carries_step h e)

/-! ## Connections are those that were opened for the destination

The same shape: connections come into use from answers and tasks take them from there. What the
transport promises is a hypothesis on the answers alone. -/

/-- Whatever a sender uses as a connection to a destination has the property `P`. -/
structure Uses (s : Sender) (P : WorkerId → ConnectionId → Prop) : Prop where
  live : ∀ {peer connection}, s.coordinator.live peer = some connection → P peer connection
  tasks : ∀ {t}, t ∈ s.tasks → ∀ {peer connection}, t.target? = some (peer, connection) →
    P peer connection

theorem Uses.mono {s : Sender} {P Q : WorkerId → ConnectionId → Prop}
    (hPQ : ∀ {peer connection}, P peer connection → Q peer connection) (h : s.Uses P) :
    s.Uses Q :=
  ⟨fun hlive => hPQ (h.live hlive), fun ht _ _ htarget => hPQ (h.tasks ht htarget)⟩

theorem uses_new (worker : WorkerId) (config : DeliveryConfig)
    (P : WorkerId → ConnectionId → Prop) : (new worker config).Uses P where
  live h := by cases h
  tasks h := by cases h

/-- A thread goes on, and both the coordinator and its task keep to the property. -/
theorem Uses.set {s : Sender} {P : WorkerId → ConnectionId → Prop} (h : s.Uses P) {thread : Nat}
    {c : Coordinator} {task : Task} {journal : List Note} {alarms : List ConnectionId}
    (hlive : ∀ {peer connection}, c.live peer = some connection → P peer connection)
    (htask : ∀ {peer connection}, task.target? = some (peer, connection) → P peer connection) :
    (⟨c, s.tasks.set thread task, journal, alarms⟩ : Sender).Uses P where
  live := hlive
  tasks ht := by
    intro peer connection htarget
    rcases List.mem_or_eq_of_mem_set ht with ht | rfl
    · exact h.tasks ht htarget
    · exact htask htarget

/-- **A frame is written only to a connection to its destination**, if the transport answers a
connect with nothing else. -/
theorem uses_step {s : Sender} {P : WorkerId → ConnectionId → Prop} (h : s.Uses P) (e : Event)
    (hanswer : ∀ {thread connection shipment later}, e = .connected thread (some connection) →
      s.tasks[thread]? = some (.connecting shipment later) → P shipment.peer connection) :
    (s.step e).Uses P := by
  cases e with
  | send now peer' type payload =>
    cases hsend : s.coordinator.send now peer' type payload with
    | error e => simpa only [step, hsend] using h
    | ok sent =>
      obtain ⟨id, c, task⟩ := sent
      obtain ⟨_, _, rfl⟩ := send_spec hsend
      simp only [step, hsend]
      refine ⟨fun hlive => h.live ((live_send hsend).symm.trans hlive), ?_⟩
      intro t ht peer connection htarget
      rcases List.mem_append.1 ht with ht | ht
      · exact h.tasks ht htarget
      · rw [List.mem_singleton.1 ht] at htarget
        cases htarget
  | resend now =>
    refine ⟨fun hlive => h.live ((live_resend _ _ _).symm.trans hlive), ?_⟩
    intro t ht peer connection htarget
    rcases List.mem_append.1 ht with ht | ht
    · exact h.tasks ht htarget
    · rw [List.mem_singleton.1 ht] at htarget
      cases (target_resend s.coordinator now).symm.trans htarget
  | look thread =>
    cases htask : s.tasks[thread]? with
    | none => simpa only [step, htask] using h
    | some task =>
      simp only [step, htask]
      refine h.set (fun hlive => h.live ((live_look _ _ _).symm.trans hlive)) ?_
      intro peer connection htarget
      rcases target_look htarget with hlive | htarget
      · exact h.live hlive
      · exact h.tasks (List.mem_of_getElem? htask) htarget
  | connected thread answer =>
    simp only [step]
    split
    · next shipment later htask =>
      have hnew : ∀ {peer connection}, peer = shipment.peer ∧ answer = some connection →
          P peer connection := by
        rintro peer connection ⟨rfl, rfl⟩
        exact hanswer rfl htask
      -- the connection is live, and the task goes on with it
      refine h.set ?_ ?_
      · intro peer connection hlive
        rcases live_afterConnect hlive with hlive | hboth
        · exact h.live hlive
        · exact hnew hboth
      · intro peer connection htarget
        rcases target_afterConnect htarget with hlive | hboth
        · exact h.live hlive
        · exact hnew hboth
    · exact h
  | written thread accepted =>
    simp only [step]
    split
    · next connection shipment later htask =>
      refine h.set (fun hlive => h.live (live_afterWrite hlive)) ?_
      intro peer used htarget
      obtain ⟨rfl, rfl⟩ := target_afterWrite htarget
      exact h.tasks (List.mem_of_getElem? htask) rfl
    · exact h
  | response bytes =>
    exact ⟨fun hlive => h.live ((live_onResponse _ _ _).symm.trans hlive), h.tasks⟩
  | closed connection => exact ⟨fun hlive => h.live (live_forget hlive), h.tasks⟩
  | await =>
    have hlive := live_await s.coordinator
    simp only [step]
    split
    · exact h
    · next hawait =>
      rw [hawait] at hlive
      exact ⟨fun h' => h.live ((hlive _).symm.trans h'), h.tasks⟩
  | alarm connection =>
    simp only [step]
    split
    · exact ⟨h.live, h.tasks⟩
    · exact h
  | shutdown => exact ⟨fun hlive => h.live (live_shutdown hlive), h.tasks⟩
  | wake => exact ⟨h.live, h.tasks⟩

end Sender

end Superstep
