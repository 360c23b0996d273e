import Mathlib.Logic.Relation
import Superstep.Delivery.Sender
import Superstep.Proofs.Table

/-!
# Superstep — what a coordinator's operations do to its requests

Almost every operation of a coordinator touches its requests in one way only: it gives some of
them up, possibly none (`Yields c c' given`). Between two places where a thread waits, an
operation is a row of `Edit`s, of which there are five:

* **`edits_look`, `edits_afterConnect`, `edits_afterWrite`, `edits_forget`** — what a thread
  and its transport do is made of edits, whatever the transport answers;
* **`yields_edits`** — so it gives requests up and does nothing else to them. A fact that holds
  of each edit and is transitive holds of these operations in the same way.

Sending again counts attempts besides (`yields_resend`), and three operations do something else:
`send_spec` takes a request on, `onResponse_spec` settles one, and `await_spec` tells the
failures.
-/

namespace Superstep

open Coordinator

/-- Whether the destination itself refused the request. -/
def FailureReason.IsRejection : FailureReason → Prop
  | rejected _ => True
  | _ => False

instance : DecidablePred FailureReason.IsRejection
  | .rejected _ => isTrue trivial
  | .retriesExhausted _ => isFalse id
  | .unreachable _ => isFalse id

/-- `c'` is `c` after it gave up the requests of `given`. Ids, frames and the counters of
requests are untouched otherwise. -/
structure Yields (c c' : Coordinator) (given : List DeliveryFailure) : Prop where
  worker : c'.worker = c.worker
  nextId : ∀ peer, c'.nextId peer = c.nextId peer
  keys : c.pending.keys.Perm (c'.pending.keys ++ given.map DeliveryFailure.key)
  frames : ∀ {key r'}, c'.pending.get? key = some r' →
    ∃ r, c.pending.get? key = some r ∧ r.frame = r'.frame
  failures : c'.failures = c.failures ++ given
  sent : c'.metrics.sent = c.metrics.sent
  acks : c'.metrics.acks = c.metrics.acks
  failed : c'.metrics.failed = c.metrics.failed + given.length

namespace Yields

variable {c c' c'' : Coordinator} {given given' : List DeliveryFailure}

theorem refl (c : Coordinator) : Yields c c [] where
  worker := rfl
  nextId _ := rfl
  keys := by simp
  frames h := ⟨_, h, rfl⟩
  failures := by simp
  sent := rfl
  acks := rfl
  failed := rfl

theorem trans (h : Yields c c' given) (h' : Yields c' c'' given') :
    Yields c c'' (given ++ given') where
  worker := h'.worker.trans h.worker
  nextId peer := (h'.nextId peer).trans (h.nextId peer)
  keys := by
    refine h.keys.trans ((h'.keys.append_right _).trans ?_)
    rw [List.map_append, List.append_assoc]
    exact List.perm_append_comm.append_left _
  frames hr := by
    obtain ⟨r', hr', hframe'⟩ := h'.frames hr
    obtain ⟨r, hr, hframe⟩ := h.frames hr'
    exact ⟨r, hr, hframe.trans hframe'⟩
  failures := by rw [h'.failures, h.failures, List.append_assoc]
  sent := h'.sent.trans h.sent
  acks := h'.acks.trans h.acks
  failed := by rw [h'.failed, h.failed, List.length_append, Nat.add_assoc]

theorem andThen (h : Yields c c' given) (h' : Yields c' c'' []) : Yields c c'' given := by
  have := h.trans h'
  rwa [List.append_nil] at this

theorem contains (h : Yields c c' given) {key : RequestKey}
    (hkey : c'.pending.contains key = true) : c.pending.contains key = true := by
  obtain ⟨r', hr'⟩ := Table.contains_eq_true_iff.1 hkey
  obtain ⟨r, hr, _⟩ := h.frames hr'
  exact Table.contains_eq_true_iff.2 ⟨r, hr⟩

end Yields

/-- `c'` is `c` after it took on the request in `frame`, whose encoding is `bytes`. -/
structure TakesOn (c c' : Coordinator) (now : Nat) (peer : WorkerId) (frame : RequestFrame)
    (bytes : Bytes) : Prop where
  config : c'.config = c.config
  stopped : c'.stopped = c.stopped
  sender : frame.sender = c.worker
  id : frame.id = c.nextId peer
  encoded : frame.encode = .ok bytes
  worker : c'.worker = c.worker
  nextId : ∀ peer', c'.nextId peer' = if peer' = peer then frame.id.next else c.nextId peer'
  pending : c'.pending = c.pending.insert (peer, frame.id) ⟨bytes, now, 1, .dispatching⟩
  failures : c'.failures = c.failures
  sent : c'.metrics.sent = c.metrics.sent + 1
  acks : c'.metrics.acks = c.metrics.acks
  failed : c'.metrics.failed = c.metrics.failed

namespace Coordinator

/-! ## Edits

An edit is a change that a thread makes while it holds the coordinator: a destination, a route, a
counter, the flag for an early check, or requests given up. Methods are rows of them. -/

/-- One thing that an operation does to a coordinator. -/
inductive Edit : Coordinator → Coordinator → Prop
  | peer (c : Coordinator) (worker : WorkerId) {f : Peer → Peer}
      (hf : ∀ p, (f p).nextId = p.nextId) : Edit c (c.setPeer worker f)
  | count (c : Coordinator) {f : Metrics → Metrics}
      (hf : ∀ m, (f m).sent = m.sent ∧ (f m).acks = m.acks ∧ (f m).failed = m.failed) :
      Edit c (c.count f)
  | route (c : Coordinator) (key : RequestKey) (route : Route) : Edit c (c.setRoute key route)
  | flag (c : Coordinator) (soon : Bool) : Edit c { c with resendRequested := soon }
  /-- Requests are given up on the sender's side. -/
  | giveUp (c : Coordinator) {reason : RequestKey → PendingRequest → Option FailureReason}
      (hreason : ∀ key r why, reason key r = some why → ¬ why.IsRejection) :
      Edit c (c.giveUp reason)

abbrev Edits : Coordinator → Coordinator → Prop := Relation.ReflTransGen Edit

/-! ## What an edit gives up

Only the last kind of edit gives anything up. The requests that it takes out of the table are the
ones it adds to the failures, each with its reason. -/

/-- A change of one destination leaves the others. -/
theorem peer_setPeer (c : Coordinator) (w w' : WorkerId) (f : Peer → Peer) :
    (c.setPeer w f).peer w' = if w' = w then f (c.peer w) else c.peer w' := by
  unfold setPeer peer
  rw [Table.get?_insert]
  split <;> rfl

/-- What is pending after requests were given up was pending before. -/
theorem get?_of_get?_giveUp {c : Coordinator}
    {reason : RequestKey → PendingRequest → Option FailureReason} {key : RequestKey}
    {r : PendingRequest} (h : (c.giveUp reason).pending.get? key = some r) :
    c.pending.get? key = some r := by
  rw [giveUp, Table.get?_filter, Option.filter_eq_some_iff] at h
  exact h.1

/-- **Pending requests become failures.** Each request that is dropped from the pending ones is
listed as a failure once, with the reason that was found for it. -/
theorem yields_giveUp (c : Coordinator)
    (reason : RequestKey → PendingRequest → Option FailureReason) :
    ∃ given, Yields c (c.giveUp reason) given
      ∧ ∀ f ∈ given, ∃ r, c.pending.get? f.key = some r ∧ reason f.key r = some f.reason := by
  refine ⟨_, { Yields.refl c with
    keys := ?_, frames := ?_, failures := rfl, failed := rfl }, ?_⟩
  -- what the filter keeps and what the map finds are all of the pending requests
  · simp only [giveUp, Table.keys, Table.filter]
    induction c.pending.toList with
    | nil => simp
    | cons e entries ih =>
      obtain ⟨key, r⟩ := e
      cases hreason : reason key r with
      | none => simpa [hreason] using ih
      | some why =>
        simp only [List.map_cons, List.filter_cons, hreason, Option.isNone_some,
          Bool.false_eq_true, if_false, List.filterMap_cons, Option.map_some]
        exact (ih.cons key).trans List.perm_middle.symm
  · exact fun hr' => ⟨_, get?_of_get?_giveUp hr', rfl⟩
  · intro f hf
    obtain ⟨⟨key, r⟩, hmem, hmap⟩ := List.mem_filterMap.1 hf
    obtain ⟨why, hwhy, rfl⟩ := Option.map_eq_some_iff.1 hmap
    exact ⟨r, Table.mem_toList_iff.1 hmem, hwhy⟩

/-- **An edit** gives requests up or leaves them, and never for a response. -/
theorem yields_edit {c c' : Coordinator} (h : Edit c c') :
    ∃ given, Yields c c' given ∧ ∀ f ∈ given, ¬ f.reason.IsRejection := by
  cases h with
  | peer worker hf =>
    refine ⟨[], { Yields.refl c with nextId := ?_ }, by simp⟩
    intro w
    rw [nextId, peer_setPeer, nextId]
    split
    · next h => rw [hf, h]
    · rfl
  | count hf =>
    exact ⟨[], { Yields.refl c with
      sent := (hf _).1, acks := (hf _).2.1, failed := (hf _).2.2 }, by simp⟩
  | route key route =>
    refine ⟨[], { Yields.refl c with keys := by simp [setRoute], frames := ?_ }, by simp⟩
    intro key' r' hr'
    simp only [setRoute, Table.get?_modify] at hr'
    split at hr'
    · obtain ⟨r, hr, rfl⟩ := Option.map_eq_some_iff.1 hr'
      exact ⟨r, hr, rfl⟩
    · exact ⟨r', hr', rfl⟩
  | flag soon => exact ⟨[], { Yields.refl c with }, by simp⟩
  | giveUp hreason =>
    -- the only edit that gives anything up
    obtain ⟨given, hyields, hwhy⟩ := yields_giveUp c _
    refine ⟨given, hyields, ?_⟩
    intro f hf
    obtain ⟨r, _, hsome⟩ := hwhy f hf
    exact hreason f.key r f.reason hsome

/-- **Edits give requests up**, and leave them alone otherwise. -/
theorem yields_edits {c c' : Coordinator} (h : Edits c c') :
    ∃ given, Yields c c' given ∧ ∀ f ∈ given, ¬ f.reason.IsRejection := by
  induction h with
  | refl => exact ⟨[], .refl c, by simp⟩
  | tail _ hedit ih =>
    obtain ⟨given, hyields, hreason⟩ := ih
    obtain ⟨given', hyields', hreason'⟩ := yields_edit hedit
    refine ⟨given ++ given', hyields.trans hyields', ?_⟩
    intro f hf
    exact (List.mem_append.1 hf).elim (hreason f) (hreason' f)

/-! ## What is made of edits

One lemma for each method that waits for nothing: the branches of the method, with the edits that
each of them makes. -/

theorem edits_markUnsent (c : Coordinator) (s : Shipment) : Edits c (c.markUnsent s) := by
  unfold markUnsent
  -- the frames of the shipment one after another, an edit for each
  induction s.frames generalizing c with
  | nil => exact .refl
  | cons f frames ih => exact .head (.route c _ _) (ih _)

theorem edits_connected (c : Coordinator) (w : WorkerId) (connection : ConnectionId) :
    Edits c (c.connected w connection) :=
  (Relation.ReflTransGen.single (.peer c w fun _ => rfl)).tail
    (.count _ fun _ => ⟨rfl, rfl, rfl⟩)

theorem edits_forget (c : Coordinator) (connection : ConnectionId) :
    Edits c (c.forget connection) := by
  unfold forget
  split
  · exact .refl
  · exact (Relation.ReflTransGen.single (.peer c _ fun _ => rfl)).tail
      (.count _ fun _ => ⟨rfl, rfl, rfl⟩)

/-- A connect that failed is counted, and may be one too many. -/
theorem edits_refused (c : Coordinator) (w : WorkerId) : Edits c (c.refused w) := by
  have hcount : Edits c
      (c.setPeer w fun p => { p with refusals := c.refusalsNext w }) :=
    .single (.peer c w fun _ => rfl)
  unfold refused
  dsimp only
  split
  · exact hcount
  · refine hcount.tail (.giveUp _ ?_)
    intro key r why hwhy
    split at hwhy
    · rw [← Option.some.inj hwhy]; exact id
    · cases hwhy

theorem edits_write (c : Coordinator) (connection : ConnectionId) (s : Shipment)
    (later : List Shipment) : Edits c (c.write connection s later).1 := by
  unfold write
  dsimp only
  split
  · exact .single (.count c fun _ => ⟨rfl, rfl, rfl⟩)
  · exact .refl

theorem edits_advance (c : Coordinator) (connection : ConnectionId) (s : Shipment)
    (later : List Shipment) : Edits c (c.advance connection s later).1 := by
  unfold advance
  split
  · exact .refl
  · exact edits_write c _ _ _

/-- A look at the coordinator marks routes, counts dispatches, and asks for a check. -/
theorem edits_look (c : Coordinator) (task : Task) : Edits c (c.look task).1 := by
  unfold look
  split
  · split
    · exact .refl
    · split
      · exact edits_write c _ _ _
      · exact .refl
  · exact edits_markUnsent c _
  · exact .head (.route c _ _) (.head (.flag _ true) (edits_advance _ _ _ _))
  · exact .refl

theorem edits_afterConnect (c : Coordinator) (s : Shipment) (later : List Shipment)
    (answer : Option ConnectionId) : Edits c (c.afterConnect s later answer).coordinator := by
  cases answer with
  | none => exact edits_refused c s.peer
  | some connection =>
    cases hlive : c.live s.peer with
    | some existing =>
      simp only [afterConnect, hlive]
      exact edits_write c _ _ _
    | none =>
      simp only [afterConnect, hlive]
      exact (edits_connected c _ _).trans (edits_write _ _ _ _)

theorem edits_afterWrite (c : Coordinator) (connection : ConnectionId) (s : Shipment)
    (later : List Shipment) (accepted : Bool) :
    Edits c (c.afterWrite connection s later accepted).coordinator := by
  cases accepted with
  | false => exact edits_forget c connection
  | true =>
    have hroute := Edit.route c (s.peer, s.first.1) (.sent connection)
    simp only [afterWrite, if_true]
    split
    · exact .head hroute (edits_advance _ _ _ _)
    · exact .head hroute (.head (.flag _ true) (edits_advance _ _ _ _))

/-! ## Sending again

A check counts attempts, which no edit does. Requests that it tries again stay pending under their
keys, so it is one more way to give up the others. -/

theorem yields_checkOverdue (c : Coordinator) (now : Nat) :
    ∃ given, Yields c (c.checkOverdue now).1 given ∧ ∀ f ∈ given, ¬ f.reason.IsRejection := by
  obtain ⟨given, hyields, hreason⟩ := yields_giveUp c fun key r =>
    if c.isOverdue now key r && c.isExhausted r then some (.retriesExhausted r.attempts) else none
  refine ⟨given, hyields.andThen ?_, ?_⟩
  · refine { Yields.refl _ with keys := by simp [checkOverdue], frames := ?_ }
    intro key r' hr'
    simp only [checkOverdue, Table.get?_mapValues] at hr'
    obtain ⟨r, hr, rfl⟩ := Option.map_eq_some_iff.1 hr'
    refine ⟨r, hr, ?_⟩
    split <;> rfl
  · intro f hf
    obtain ⟨r, _, hsome⟩ := hreason f hf
    split at hsome
    · rw [← Option.some.inj hsome]; exact id
    · cases hsome

theorem yields_resend (c : Coordinator) (now : Nat) :
    ∃ given, Yields c (c.resend now).1 given ∧ ∀ f ∈ given, ¬ f.reason.IsRejection := by
  unfold resend
  split
  · exact ⟨[], .refl c, by simp⟩
  · exact yields_checkOverdue c now

/-! ## Shutdown

The shutdown gives nothing up. Requests that are pending stay so, and waiting for them fails from
then on. -/

theorem yields_shutdown (c : Coordinator) : Yields c c.shutdown.2 [] := by
  unfold shutdown
  split
  · exact .refl c
  · refine { Yields.refl c with nextId := ?_ }
    intro w
    simp only [nextId, peer, Table.get?_mapValues]
    cases c.peers.get? w <;> rfl

/-! ## Taking on, settling, telling

The three operations that are no edits. A send puts one request into the table, a response takes at
most one out, and waiting empties the list of failures once nothing is pending. -/

/-- What a send that succeeds makes of the coordinator. -/
theorem send_inv {c c' : Coordinator} {now : Nat} {peer : WorkerId} {type : RequestType}
    {payload : Bytes} {id : RequestId} {task : Task}
    (h : c.send now peer type payload = .ok (id, c', task)) :
    ∃ bytes, RequestFrame.encode { sender := c.worker, id, type, payload } = .ok bytes
      ∧ id = c.nextId peer ∧ task = .seeking ⟨peer, (id, bytes), [], false⟩ []
      ∧ c' = Coordinator.count
        { c.setPeer peer fun p => { p with nextId := id.next } with
          pending := c.pending.insert (peer, id) ⟨bytes, now, 1, .dispatching⟩ }
        fun m => { m with sent := m.sent + 1 } := by
  unfold send takeOn at h
  cases hstopped : c.stopped with
  | true => simp [hstopped] at h; cases h
  | false =>
    cases hframe : RequestFrame.encode
        { sender := c.worker, id := c.nextId peer, type, payload } with
    | error e => simp [hstopped, hframe] at h
    | ok bytes =>
      simp only [hstopped, hframe] at h
      cases h
      exact ⟨bytes, hframe, rfl, rfl, rfl⟩

/-- A send that succeeds takes the request on under the next id, and leaves a task for its
frame alone. -/
theorem send_spec {c c' : Coordinator} {now : Nat} {peer : WorkerId} {type : RequestType}
    {payload : Bytes} {id : RequestId} {task : Task}
    (h : c.send now peer type payload = .ok (id, c', task)) :
    ∃ bytes, TakesOn c c' now peer { sender := c.worker, id, type, payload } bytes
      ∧ task = .seeking ⟨peer, (id, bytes), [], false⟩ [] := by
  obtain ⟨bytes, hframe, hid, htask, rfl⟩ := send_inv h
  have hnext : ∀ peer', (c.setPeer peer fun p => { p with nextId := id.next }).nextId peer'
      = if peer' = peer then id.next else c.nextId peer' := by
    intro peer'
    rw [nextId, peer_setPeer]
    split <;> rfl
  refine ⟨bytes, ?_, htask⟩
  exact
    { config := rfl, stopped := rfl, sender := rfl, id := hid, encoded := hframe, worker := rfl
      nextId := hnext, pending := rfl, failures := rfl, sent := rfl, acks := rfl, failed := rfl }

/-- **A frame that arrives** settles nothing, or acknowledges a pending request, or gives the
reason for which the destination refused one. -/
theorem onResponse_spec (c : Coordinator) (bytes : Bytes) :
    (c.onResponse bytes = c ∧ Sender.noteResponse c bytes = [])
    ∨ (∃ key : RequestKey, Frame.decode bytes = .ok (.response (.ack key.1 key.2))
      ∧ c.pending.contains key = true
      ∧ c.onResponse bytes = { c with
          pending := c.pending.erase key
          metrics := { c.metrics with acks := c.metrics.acks + 1 } }
      ∧ Sender.noteResponse c bytes = [.acknowledged key])
    ∨ ∃ (key : RequestKey) (reason : String),
      Frame.decode bytes = .ok (.response (.failed key.1 key.2 reason))
      ∧ c.pending.contains key = true
      ∧ c.onResponse bytes = { c with
          pending := c.pending.erase key
          failures := c.failures ++ [⟨key.1, key.2, .rejected reason⟩]
          metrics := { c.metrics with failed := c.metrics.failed + 1 } }
      ∧ Sender.noteResponse c bytes = [] := by
  unfold onResponse Sender.noteResponse
  -- bytes that are no response to a pending request change nothing
  cases hdecode : Frame.decode bytes with
  | error e => exact Or.inl ⟨rfl, rfl⟩
  | ok frame =>
    cases frame with
    | request frame => exact Or.inl ⟨rfl, rfl⟩
    | response response =>
      cases response with
      | ack responder id =>
        cases hpending : c.pending.contains (responder, id) with
        | false =>
          exact Or.inl (by simp [settle, ResponseFrame.responder, ResponseFrame.id, hpending])
        | true =>
          refine Or.inr (Or.inl ⟨(responder, id), rfl, hpending, ?_, if_pos hpending⟩)
          simp [settle, ResponseFrame.responder, ResponseFrame.id, hpending, count]
      | failed responder id reason =>
        cases hpending : c.pending.contains (responder, id) with
        | false =>
          exact Or.inl (by simp [settle, ResponseFrame.responder, ResponseFrame.id, hpending])
        | true =>
          refine Or.inr (Or.inr ⟨(responder, id), reason, rfl, hpending, ?_, rfl⟩)
          simp [settle, ResponseFrame.responder, ResponseFrame.id, hpending]

/-- A request is pending besides the others, until it is taken out. -/
theorem perm_keys_erase {c : Coordinator} {key : RequestKey}
    (h : c.pending.contains key = true) :
    c.pending.keys.Perm ((c.pending.erase key).keys ++ [key]) :=
  (Table.keys_perm_erase ((c.pending.contains_iff_mem_keys key).1 h)).trans
    (List.perm_append_singleton _ _).symm

/-- **Waiting** goes on, or ends because of the shutdown, or ends with nothing pending and tells
the failures. -/
theorem await_spec (c : Coordinator) :
    c.await = (none, c)
    ∨ (c.stopped = true ∧ c.await = (some (.error stoppedError), c))
    ∨ ∃ result, c.pending.size = 0
      ∧ c.await = (some result, { c with failures := [] })
      ∧ (Note.awaited result).failures = c.failures
      ∧ (result = .ok () → c.failures = []) := by
  unfold await
  split
  · split
    · next hstopped => exact Or.inr (Or.inl ⟨hstopped, rfl⟩)
    · exact Or.inl rfl
  · next hsize =>
    have hsize : c.pending.size = 0 := Decidable.not_not.1 hsize
    refine Or.inr (Or.inr ?_)
    split
    · next hnone =>
      refine ⟨.ok (), hsize, ?_, hnone.symm, fun _ => hnone⟩
      rw [← hnone]
    · exact ⟨_, hsize, rfl, rfl, fun h => by cases h⟩

end Coordinator

end Superstep
