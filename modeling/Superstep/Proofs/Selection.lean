import Mathlib.Data.List.Flatten
import Superstep.Proofs.Passes

/-!
# Superstep — which requests are sent again

A check for overdue requests selects some of the pending ones, connects where it has to, and hands
their frames over. Meanwhile the transport answers as it likes and nothing else is heard.

* **`mem_keys_checkOverdue`** — a check loads the requests that are due (`Due`) and have an attempt
  left, in one shipment for each destination (`Loaded`);
* **`connection?_pass`, `givesUp_pass`** — on which connection a shipment went, and whether its
  destination was given up, can be told from the connects that were made;
* **`pending_check`, `failures_check`, `handed_check`, `connects_check`** — what becomes of a
  request, what is given up, what is handed over, what is connected to;
* **`resend_exactly`** — all of this, for every coordinator that is not shut down.

A request is due by its route and its age alone. That its destination is given up in the course of
the check can befall any request, due or not.
-/

namespace Superstep

open Coordinator

variable {t : Answering}

/-! ## What a check selects

The check itself goes over the pending requests once, and drops those that have no attempt left. The
others that are due it loads into shipments, one for a destination, so that a pass has a single turn
with each. -/

/-- A request has to be sent again: it has waited longer than the timeout, or it is unsent, or it
was sent on a connection that its destination no longer uses. -/
def Coordinator.Due (c : Coordinator) (now : Nat) (key : RequestKey) (r : PendingRequest) : Prop :=
  c.config.requestTimeout < now - r.dispatchedAt ∨ r.route = .unsent
    ∨ ∃ connection, r.route = .sent connection ∧ c.live key.1 ≠ some connection

namespace Coordinator

theorem isOverdue_iff {c : Coordinator} {now : Nat} {key : RequestKey} {r : PendingRequest} :
    c.isOverdue now key r = true ↔ c.Due now key r := by
  rw [isOverdue, Bool.or_eq_true, or_comm, decide_eq_true_eq]
  refine or_congr Iff.rfl ?_
  cases r.route with
  | dispatching => simp
  | sent connection => simp
  | unsent => simp

instance (c : Coordinator) (now : Nat) (key : RequestKey) (r : PendingRequest) :
    Decidable (c.Due now key r) := decidable_of_iff _ isOverdue_iff

theorem isExhausted_iff {c : Coordinator} {r : PendingRequest} :
    c.isExhausted r = true ↔ c.config.maxRequestAttempts ≤ r.attempts := decide_eq_true_iff

theorem not_isExhausted_iff {c : Coordinator} {r : PendingRequest} :
    (!c.isExhausted r) = true ↔ r.attempts < c.config.maxRequestAttempts := by
  simp [isExhausted]

/-- A check loads one shipment for a destination, of requests that were dispatched before. -/
structure Loaded (shipments : List Shipment) : Prop where
  distinct : (shipments.map Shipment.peer).Nodup
  again : ∀ s ∈ shipments, s.again = true

/-- A frame joins the shipment of its destination or opens one at the end. -/
theorem peers_load (peer : WorkerId) (frame : RequestId × Bytes) (shipments : List Shipment) :
    (load peer frame shipments).map Shipment.peer
      = if peer ∈ shipments.map Shipment.peer then shipments.map Shipment.peer
        else shipments.map Shipment.peer ++ [peer] := by
  induction shipments with
  | nil => rfl
  | cons s later ih =>
    rw [load]
    by_cases hpeer : s.peer = peer
    · rw [if_pos hpeer, if_pos (by rw [List.map_cons, hpeer]; exact List.mem_cons_self)]
      rfl
    · have hmem : peer ∈ (s :: later).map Shipment.peer ↔ peer ∈ later.map Shipment.peer := by
        rw [List.map_cons, List.mem_cons, or_iff_right (Ne.symm hpeer)]
      rw [if_neg hpeer, List.map_cons, ih]
      simp only [hmem]
      split <;> rfl

theorem again_load {shipments : List Shipment} (h : ∀ s ∈ shipments, s.again = true)
    (peer : WorkerId) (frame : RequestId × Bytes) :
    ∀ s ∈ load peer frame shipments, s.again = true := by
  induction shipments with
  | nil => simp [load]
  | cons s later ih =>
    obtain ⟨hfirst, hlater⟩ := List.forall_mem_cons.1 h
    rw [load]
    split
    · exact List.forall_mem_cons.2 ⟨hfirst, hlater⟩
    · exact List.forall_mem_cons.2 ⟨hfirst, ih hlater⟩

theorem loaded_load {shipments : List Shipment} (h : Loaded shipments) (peer : WorkerId)
    (frame : RequestId × Bytes) : Loaded (load peer frame shipments) where
  distinct := by
    rw [peers_load]
    split
    · exact h.distinct
    · next hnew =>
      exact List.nodup_append.2 ⟨h.distinct, List.nodup_singleton peer, by simpa using hnew⟩
  again := again_load h.again peer frame

/-- **What a check loads** has a destination once. -/
theorem loaded_checkOverdue (c : Coordinator) (now : Nat) : Loaded (c.checkOverdue now).2 := by
  suffices h : ∀ (entries : List (RequestKey × PendingRequest)) {shipments : List Shipment},
      Loaded shipments →
      Loaded (entries.foldl (fun loaded e => load e.1.1 (e.1.2, e.2.frame) loaded) shipments) from
    h _ ⟨List.nodup_nil, by simp⟩
  intro entries
  -- over the requests that are due, in the order of the table
  induction entries with
  | nil => exact id
  | cons e entries ih => exact fun h => ih (loaded_load h _ _)

/-- The requests whose frames a check loads. -/
theorem mem_entries_checkOverdue {c : Coordinator} {now : Nat} {peer : WorkerId}
    {f : RequestId × Bytes} :
    (peer, f) ∈ (c.checkOverdue now).2.flatMap Shipment.entries
      ↔ ∃ r, c.pending.get? (peer, f.1) = some r ∧ c.Due now (peer, f.1) r
        ∧ r.attempts < c.config.maxRequestAttempts ∧ r.frame = f.2 := by
  rw [(entries_checkOverdue c now).mem_iff, List.mem_map]
  constructor
  · rintro ⟨⟨key, r⟩, hmem, heq⟩
    cases heq
    rw [Table.mem_toList_iff, get?_retried, Option.filter_eq_some_iff, Bool.and_eq_true,
      isOverdue_iff, not_isExhausted_iff] at hmem
    exact ⟨r, hmem.1, hmem.2.1, hmem.2.2, rfl⟩
  · rintro ⟨r, hr, hdue, hleft, hframe⟩
    refine ⟨((peer, f.1), r), ?_, by rw [hframe]⟩
    rw [Table.mem_toList_iff, get?_retried, Option.filter_eq_some_iff, Bool.and_eq_true,
      isOverdue_iff, not_isExhausted_iff]
    exact ⟨hr, hdue, hleft⟩

theorem nodup_keys_checkOverdue (c : Coordinator) (now : Nat) :
    ((c.checkOverdue now).2.flatMap Shipment.keys).Nodup := by
  rw [Shipment.flatMap_keys, ((entries_checkOverdue c now).map _).nodup_iff, List.map_map]
  exact (c.retried now).nodup_keys

/-- **The requests that a check loads** are due and have an attempt left. -/
theorem mem_keys_checkOverdue {c : Coordinator} {now : Nat} {key : RequestKey} :
    key ∈ (c.checkOverdue now).2.flatMap Shipment.keys
      ↔ ∃ r, c.pending.get? key = some r ∧ c.Due now key r
        ∧ r.attempts < c.config.maxRequestAttempts := by
  rw [Shipment.flatMap_keys, List.mem_map]
  constructor
  · rintro ⟨e, he, rfl⟩
    obtain ⟨r, hr, hdue, hleft, -⟩ := mem_entries_checkOverdue.1 he
    exact ⟨r, hr, hdue, hleft⟩
  · rintro ⟨r, hr, hdue, hleft⟩
    exact ⟨(key.1, key.2, r.frame), mem_entries_checkOverdue.2 ⟨r, hr, hdue, hleft, rfl⟩, rfl⟩

end Coordinator

/-! ## What was seen of a pass

The connects that were made, with their answers, are a record of the pass. A destination has one
turn, so that what the turn did can be read off this record: whether it had a connection, and which,
and whether it was given up. -/

namespace Alone

/-- The connection that a destination got, or that it has since before. -/
def connection? (w : Alone) (before : Coordinator) (peer : WorkerId) : Option ConnectionId :=
  (w.connects.lookup peer).getD (before.live peer)

/-- A connect to the destination failed, and it was one too many. -/
def GivesUp (w : Alone) (before : Coordinator) (peer : WorkerId) : Prop :=
  (peer, none) ∈ w.connects ∧ before.patience ≤ (before.refusalsNext peer).toNat

/-- Why a pending request is given up: no attempt was left, or its destination was given up. -/
def Fails (w : Alone) (before : Coordinator) (now : Nat) (key : RequestKey) (r : PendingRequest)
    (reason : FailureReason) : Prop :=
  if before.Due now key r ∧ before.config.maxRequestAttempts ≤ r.attempts then
    reason = .retriesExhausted r.attempts
  else w.GivesUp before key.1 ∧ reason = .unreachable (before.refusalsNext key.1).toNat

/-- A request is given up for one reason. -/
theorem Fails.unique {w : Alone} {before : Coordinator} {now : Nat} {key : RequestKey}
    {r : PendingRequest} {reason reason' : FailureReason} (h : w.Fails before now key r reason)
    (h' : w.Fails before now key r reason') : reason = reason' := by
  unfold Fails at h h'
  split at h
  · next hspent =>
    rw [if_pos hspent] at h'
    rw [h, h']
  · next hspent =>
    rw [if_neg hspent] at h'
    rw [h.2, h'.2]

end Alone

namespace Answering

theorem connects_pass (w : Alone) (shipments : List Shipment) :
    (t.pass w shipments).connects = w.connects
      ++ (t.stages w shipments).flatMap fun e => (t.turn e.1 e.2).connects e.2.peer :=
  t.read_pass Alone.connects (fun w s => (t.ships w s).connects) w shipments

theorem peers_stages (w : Alone) (shipments : List Shipment) :
    (t.stages w shipments).map (fun e => e.2.peer) = shipments.map Shipment.peer := by
  conv_rhs => rw [← t.map_stages w shipments, List.map_map]
  rfl

/-- A destination has one turn. -/
theorem stage_unique {w : Alone} {shipments : List Shipment}
    (hdistinct : (shipments.map Shipment.peer).Nodup) {e e' : Alone × Shipment}
    (he : e ∈ t.stages w shipments) (he' : e' ∈ t.stages w shipments)
    (hpeer : e.2.peer = e'.2.peer) : e = e' := by
  rw [← peers_stages (t := t) w shipments] at hdistinct
  exact List.inj_on_of_nodup_map hdistinct he he' hpeer

/-- The requests whose frames a pass hands over. -/
def handed (t : Answering) (w : Alone) (shipments : List Shipment) : List RequestKey :=
  (t.stages w shipments).flatMap fun e =>
    if (t.turn e.1 e.2).connection?.isSome then e.2.keys else []

theorem nodup_handed {w : Alone} {shipments : List Shipment}
    (hkeys : (shipments.flatMap Shipment.keys).Nodup) : (t.handed w shipments).Nodup := by
  refine hkeys.sublist ?_
  have hall : shipments.flatMap Shipment.keys
      = (t.stages w shipments).flatMap fun e => e.2.keys := by
    conv_lhs => rw [← t.map_stages w shipments, List.flatMap_map]
  rw [hall]
  refine List.Sublist.flatMap_right _ fun e _ => ?_
  split
  · exact List.Sublist.refl _
  · exact List.nil_sublist _

section

variable {w : Alone} {shipments : List Shipment} (hnew : w.connects = [])
  (hdistinct : (shipments.map Shipment.peer).Nodup)

include hnew

/-- A connect is made in the turn of a destination that has no connection then. -/
theorem mem_connects_pass {peer : WorkerId} {answer : Option ConnectionId} :
    (peer, answer) ∈ (t.pass w shipments).connects
      ↔ ∃ e ∈ t.stages w shipments, e.2.peer = peer ∧ (t.turn e.1 e.2).connection? = answer
        ∧ e.1.coordinator.live e.2.peer = none := by
  rw [connects_pass, hnew, List.nil_append, List.mem_flatMap]
  simp only [Turn.mem_connects, t.live_turn]

include hdistinct

/-- No destination is connected to twice in a pass. -/
theorem nodup_connects_pass : ((t.pass w shipments).connects.map Prod.fst).Nodup := by
  refine hdistinct.sublist ?_
  rw [connects_pass, hnew, List.nil_append, List.map_flatMap, ← peers_stages (t := t) w shipments,
    List.map_eq_flatMap]
  refine List.Sublist.flatMap_right _ fun e _ => ?_
  cases t.turn e.1 e.2 with
  | found connection => exact List.nil_sublist _
  | opened connection => exact List.Sublist.refl _
  | refused => exact List.Sublist.refl _

/-- **The connection of a destination** is the one on which its requests are handed over. -/
theorem connection?_pass {v : Alone} {s : Shipment} (h : (v, s) ∈ t.stages w shipments) :
    (t.pass w shipments).connection? w.coordinator s.peer = (t.turn v s).connection? := by
  have hlive := t.live_turn v s
  rw [Alone.connection?]
  by_cases hmade : (t.turn v s).found? = none
  -- a connect was made, and no other one to the same destination
  · have hmem : (s.peer, (t.turn v s).connection?) ∈ (t.pass w shipments).connects :=
      (mem_connects_pass hnew).2 ⟨(v, s), h, rfl, rfl, hlive.trans hmade⟩
    have hnodup := nodup_connects_pass (t := t) hnew hdistinct
    obtain ⟨earlier, later, hsplit⟩ := List.append_of_mem hmem
    have hlookup : (t.pass w shipments).connects.lookup s.peer = some (t.turn v s).connection? := by
      rw [List.lookup_eq_some_iff]
      refine ⟨earlier, later, hsplit, fun e he => ?_⟩
      rw [hsplit, List.map_append, List.nodup_append] at hnodup
      have hne := hnodup.2.2 e.1 (List.mem_map_of_mem he) s.peer List.mem_cons_self
      simpa using hne.symm
    rw [hlookup]
    rfl
  -- a connection was there, and was so from the beginning
  · have hlookup : (t.pass w shipments).connects.lookup s.peer = none := by
      rw [List.lookup_eq_none_iff]
      rintro ⟨peer, answer⟩ he
      obtain ⟨e', he', rfl, -, hnone⟩ := (mem_connects_pass hnew).1 he
      rw [bne_iff_ne]
      rintro hpeer
      obtain rfl : e' = (v, s) := stage_unique hdistinct he' h hpeer.symm
      exact hmade (hlive.symm.trans hnone)
    rw [hlookup, Turn.connection?_of_found? hmade, ← hlive]
    rcases (t.stage hdistinct h).live with hsame | ⟨hnone, -⟩
    · exact hsame.symm
    · exact absurd (hlive.symm.trans hnone) hmade

/-- A destination is given up in a pass when it is given up in its turn. -/
theorem givesUp_pass {v : Alone} {s : Shipment} (h : (v, s) ∈ t.stages w shipments) :
    (t.pass w shipments).GivesUp w.coordinator s.peer ↔ v.Forsakes s (t.turn v s) := by
  have hstage := t.stage hdistinct h
  have hpatience : v.coordinator.patience = w.coordinator.patience := by
    rw [patience, patience, (Waits.of_edits hstage.edits).config]
  rw [Alone.GivesUp, Alone.Forsakes, hpatience, refusalsNext, refusalsNext, hstage.refusals]
  refine and_congr_left fun _ => ?_
  rw [mem_connects_pass hnew]
  constructor
  · rintro ⟨e', he', hpeer, hnone, -⟩
    obtain rfl := stage_unique hdistinct he' h hpeer
    exact Turn.eq_refused_iff.2 hnone
  · intro hrefused
    refine ⟨(v, s), h, rfl, Turn.eq_refused_iff.1 hrefused, ?_⟩
    rw [t.live_turn, hrefused]
    rfl

/-- **What a pass does to a request**: it is given up with its destination, or its route changes if
it is in a shipment. -/
theorem pending_pass (key : RequestKey) :
    ((t.pass w shipments).GivesUp w.coordinator key.1 →
        (t.pass w shipments).coordinator.pending.get? key = none)
      ∧ (¬ (t.pass w shipments).GivesUp w.coordinator key.1 →
        (key ∉ shipments.flatMap Shipment.keys →
          (t.pass w shipments).coordinator.pending.get? key = w.coordinator.pending.get? key)
        ∧ ∃ f : Route → Route, (t.pass w shipments).coordinator.pending.get? key
          = (w.coordinator.pending.get? key).map fun r => { r with route := f r.route }) := by
  by_cases hkey : key.1 ∈ shipments.map Shipment.peer
  · obtain ⟨s, hs, hpeer⟩ := List.mem_map.1 hkey
    obtain ⟨v, h⟩ := t.exists_stage hs w
    have hstage := t.stage hdistinct h
    -- nothing becomes of the request before the turn of its shipment, or behind it
    have hship := t.ships v s
    rw [← hpeer, givesUp_pass hnew hdistinct h, hstage.after key hpeer.symm]
    refine ⟨fun hforsaken => ?_, fun hkept => ⟨fun hother => ?_, ?_⟩⟩
    · rw [hship.forsaken hforsaken, if_pos hpeer.symm]
    · have hnot : key ∉ s.keys := fun hmem => hother (List.mem_flatMap.2 ⟨s, hs, hmem⟩)
      exact ((hship.kept hkept).others key hnot).trans (hstage.before key hpeer.symm)
    · rw [← hstage.before key hpeer.symm]
      exact (hship.kept hkept).routed key
  · have hsame := t.pending_pass_of_not_mem hkey w
    refine ⟨fun hgiven => ?_, fun _ => ⟨fun _ => hsame, id, ?_⟩⟩
    · obtain ⟨e, he, hpeer, -⟩ := (mem_connects_pass hnew).1 hgiven.1
      exact absurd (hpeer ▸ List.mem_map_of_mem (t.mem_of_mem_stages he)) hkey
    · rw [hsame]
      exact Option.map_id'.symm

theorem mem_handed {key : RequestKey} :
    key ∈ t.handed w shipments ↔ key ∈ shipments.flatMap Shipment.keys
      ∧ ((t.pass w shipments).connection? w.coordinator key.1).isSome = true := by
  rw [handed, List.mem_flatMap, List.mem_flatMap]
  constructor
  · rintro ⟨⟨v, s⟩, h, hkey⟩
    split at hkey
    · next hsome =>
      rw [Shipment.peer_of_mem_keys hkey, connection?_pass hnew hdistinct h]
      exact ⟨⟨s, t.mem_of_mem_stages h, hkey⟩, hsome⟩
    · cases hkey
  · rintro ⟨⟨s, hs, hkey⟩, hsome⟩
    obtain ⟨v, h⟩ := t.exists_stage hs w
    rw [Shipment.peer_of_mem_keys hkey, connection?_pass hnew hdistinct h] at hsome
    exact ⟨(v, s), h, by rwa [if_pos hsome]⟩

/-- **The frames that are handed over** are those of the requests, each on the connection of its
destination. -/
theorem carried_eq {frame : RequestKey → Option Bytes}
    (hframe : ∀ s ∈ shipments, ∀ f ∈ s.frames, frame (s.peer, f.1) = some f.2) :
    (t.carried w shipments).map (fun e => (some e.1, some e.2))
      = (t.handed w shipments).map fun key =>
          ((t.pass w shipments).connection? w.coordinator key.1, frame key) := by
  rw [carried, handed, List.map_flatMap, List.map_flatMap]
  refine List.flatMap_congr fun e he => ?_
  have hs : e.2 ∈ shipments := t.mem_of_mem_stages he
  have hconnection := connection?_pass hnew hdistinct he
  rw [Turn.carries]
  cases hturn : (t.turn e.1 e.2).connection? with
  | none => rfl
  | some connection =>
    rw [hturn] at hconnection
    simp only [Option.isSome_some, if_true, Shipment.keys, List.map_map]
    refine List.map_congr_left fun f hf => ?_
    simp only [Function.comp_apply, hconnection, hframe e.2 hs f hf]

/-- **A pass gives up** the requests of destinations that are unreachable. -/
theorem failures_pass : ∃ given, (t.pass w shipments).coordinator.failures
      = w.coordinator.failures ++ given
    ∧ ∀ f ∈ given, (t.pass w shipments).GivesUp w.coordinator f.key.1
      ∧ f.reason = .unreachable (w.coordinator.refusalsNext f.key.1).toNat := by
  have hread := t.read_pass (fun w => w.coordinator.failures) (fun w s => (t.ships w s).failures)
    w shipments
  refine ⟨_, hread, fun f hf => ?_⟩
  obtain ⟨⟨v, s⟩, h, hf⟩ := List.mem_flatMap.1 hf
  split at hf
  · next hforsaken =>
    obtain ⟨key, hkey, rfl⟩ := List.mem_map.1 hf
    have hpeer : key.1 = s.peer := of_decide_eq_true (List.mem_filter.1 hkey).2
    dsimp only [DeliveryFailure.key]
    rw [hpeer, refusalsNext, (t.stage hdistinct h).refusals]
    exact ⟨(givesUp_pass hnew hdistinct h).2 hforsaken, rfl⟩
  · cases hf

end

/-! ## Sending overdue requests again

The check and the pass together. The check decides by age and attempts, and afterwards the pass may
take away any request whose destination is given up. Both parts yield failures, and no request is in
both because the first takes it off the table. -/

/-- A check for overdue requests, with all that follows from it. -/
def check (t : Answering) (c : Coordinator) (now : Nat) : Alone :=
  t.pass ⟨(c.checkOverdue now).1, now, []⟩ (c.checkOverdue now).2

theorem resend_eq_check {c : Coordinator} (hopen : c.stopped = false) (now : Nat) :
    t.medium.resend ⟨c, now, []⟩ = ((t.check c now).written.length, t.check c now) := by
  have hresend : c.resend now = ((c.checkOverdue now).1, .ofShipments (c.checkOverdue now).2) := by
    rw [resend, hopen]
    rfl
  have hweight : (Task.ofShipments (c.checkOverdue now).2).weight
      = Shipment.weights (c.checkOverdue now).2 := by
    cases (c.checkOverdue now).2 <;> rfl
  have hrun := t.runFor_ofShipments (loaded_checkOverdue c now).again (Nat.le_of_eq hweight.symm)
    (w := ⟨(c.checkOverdue now).1, now, []⟩) hopen
  have hmedium : t.medium.resend ⟨c, now, []⟩
      = t.medium.run (c.resend now).2 ⟨(c.resend now).1, now, []⟩ := rfl
  rw [hmedium, hresend, check, written_pass]
  exact hrun

section

variable (t : Answering) (c : Coordinator) (now : Nat)

/-- **What becomes of a pending request.** -/
theorem pending_check {key : RequestKey} {r : PendingRequest} (hr : c.pending.get? key = some r) :
    (c.Due now key r → c.config.maxRequestAttempts ≤ r.attempts →
        (t.check c now).coordinator.pending.get? key = none)
      ∧ ((t.check c now).GivesUp c key.1 →
        (t.check c now).coordinator.pending.get? key = none)
      ∧ (c.Due now key r → r.attempts < c.config.maxRequestAttempts →
        ¬ (t.check c now).GivesUp c key.1 → ∃ route,
          (t.check c now).coordinator.pending.get? key
            = some { r with attempts := r.attempts + 1, dispatchedAt := now, route })
      ∧ (¬ c.Due now key r → ¬ (t.check c now).GivesUp c key.1 →
        (t.check c now).coordinator.pending.get? key = some r) := by
  have hchecked := get?_checkOverdue c now key
  rw [hr, Option.bind_some] at hchecked
  obtain ⟨hgiven, hkept⟩ := pending_pass (t := t) (w := ⟨(c.checkOverdue now).1, now, []⟩) rfl
    (loaded_checkOverdue c now).distinct key
  -- the check decides by age and attempts, and the pass adds its part to that
  refine ⟨fun hdue hspent => ?_, hgiven, fun hdue hleft hsafe => ?_, fun hearly hsafe => ?_⟩
  · rw [if_pos (isOverdue_iff.2 hdue), if_pos (isExhausted_iff.2 hspent)] at hchecked
    by_cases hlost : (t.check c now).GivesUp c key.1
    · exact hgiven hlost
    · obtain ⟨f, hf⟩ := (hkept hlost).2
      rw [hchecked] at hf
      exact hf
  · rw [if_pos (isOverdue_iff.2 hdue), if_neg (by simpa [isExhausted] using hleft)] at hchecked
    obtain ⟨f, hf⟩ := (hkept hsafe).2
    rw [hchecked] at hf
    exact ⟨_, hf⟩
  · rw [if_neg fun hoverdue => hearly (isOverdue_iff.1 hoverdue)] at hchecked
    refine ((hkept hsafe).1 fun hkey => ?_).trans hchecked
    obtain ⟨r', hr', hdue, -⟩ := mem_keys_checkOverdue.1 hkey
    rw [hr] at hr'
    exact hearly (Option.some.inj hr' ▸ hdue)

/-- **A request is touched** if it is due, or if its destination is given up. -/
theorem touched_check {key : RequestKey} {r : PendingRequest} (hr : c.pending.get? key = some r) :
    (t.check c now).coordinator.pending.get? key ≠ some r
      ↔ c.Due now key r ∨ (t.check c now).GivesUp c key.1 := by
  obtain ⟨hspent, hlost, hagain, hkept⟩ := t.pending_check c now hr
  constructor
  · intro htouched
    by_contra huntouched
    rw [not_or] at huntouched
    exact htouched (hkept huntouched.1 huntouched.2)
  · intro hwhy hsame
    by_cases hgives : (t.check c now).GivesUp c key.1
    · cases (hlost hgives).symm.trans hsame
    · have hdue := hwhy.resolve_right hgives
      rcases Nat.lt_or_ge r.attempts c.config.maxRequestAttempts with hleft | hnone
      · obtain ⟨route, hnext⟩ := hagain hdue hleft hgives
        have hr' := Option.some.inj (hnext.symm.trans hsame)
        exact absurd (congrArg PendingRequest.attempts hr') (Nat.succ_ne_self _)
      · cases (hspent hdue hnone).symm.trans hsame

theorem gone_of_fails {key : RequestKey} {r : PendingRequest} {reason : FailureReason}
    (hr : c.pending.get? key = some r) (h : (t.check c now).Fails c now key r reason) :
    (t.check c now).coordinator.pending.get? key = none := by
  obtain ⟨hspent, hlost, -⟩ := t.pending_check c now hr
  unfold Alone.Fails at h
  split at h
  · next hwhy => exact hspent hwhy.1 hwhy.2
  · exact hlost h.1

/-- Requests are given up by the check itself, for want of attempts, and then with their
destination. -/
theorem yields_check : ∃ given, Yields c (t.check c now).coordinator given ∧ ∀ f ∈ given,
    ∃ r, c.pending.get? f.key = some r ∧ (t.check c now).Fails c now f.key r f.reason := by
  obtain ⟨spent, hspent, -⟩ := yields_checkOverdue c now
  obtain ⟨lost, hlost, -⟩ := yields_edits
    (t.edits_pass ⟨(c.checkOverdue now).1, now, []⟩ (c.checkOverdue now).2)
  refine ⟨spent ++ lost, hspent.trans hlost, fun f hf => ?_⟩
  rcases List.mem_append.1 hf with hf | hf
  · obtain ⟨spent', hfailures, hreason⟩ := failures_checkOverdue c now
    obtain rfl := List.append_cancel_left (hspent.failures.symm.trans hfailures)
    obtain ⟨r, hr, hoverdue, hexhausted, hwhy⟩ := hreason f hf
    refine ⟨r, hr, ?_⟩
    rwa [Alone.Fails, if_pos ⟨isOverdue_iff.1 hoverdue, isExhausted_iff.1 hexhausted⟩]
  · obtain ⟨lost', hfailures, hreason⟩ := failures_pass (t := t)
      (w := ⟨(c.checkOverdue now).1, now, []⟩) rfl (loaded_checkOverdue c now).distinct
    obtain rfl := List.append_cancel_left (hlost.failures.symm.trans hfailures)
    -- it was still pending behind the check itself
    have hkey : f.key ∈ (c.checkOverdue now).1.pending.keys :=
      hlost.keys.mem_iff.2 (List.mem_append_right _ (List.mem_map_of_mem hf))
    obtain ⟨r', hr'⟩ := Table.mem_keys_iff.1 hkey
    rw [get?_checkOverdue] at hr'
    obtain ⟨r, hr, hnext⟩ := Option.bind_eq_some_iff.1 hr'
    refine ⟨r, hr, ?_⟩
    rw [Alone.Fails, if_neg]
    · exact hreason f hf
    · rintro ⟨hdue, hspent⟩
      rw [if_pos (isOverdue_iff.2 hdue), if_pos (isExhausted_iff.2 hspent)] at hnext
      cases hnext

/-- **What is given up**: each request once, and with its reason. -/
theorem failures_check : ∃ given, Yields c (t.check c now).coordinator given
    ∧ ∀ f, f ∈ given ↔ ∃ r, c.pending.get? f.key = some r
      ∧ (t.check c now).Fails c now f.key r f.reason := by
  obtain ⟨given, hyields, hreason⟩ := yields_check t c now
  refine ⟨given, hyields, fun f => ⟨hreason f, ?_⟩⟩
  rintro ⟨r, hr, hfails⟩
  -- a request that is gone is among the failures, and has one reason
  have hgone := gone_of_fails t c now hr hfails
  have hkey : f.key ∈ given.map DeliveryFailure.key := by
    have hmem := hyields.keys.mem_iff.1 (Table.mem_keys_iff.2 ⟨r, hr⟩)
    refine (List.mem_append.1 hmem).resolve_left fun hstill => ?_
    obtain ⟨r', hr'⟩ := Table.mem_keys_iff.1 hstill
    cases hgone.symm.trans hr'
  obtain ⟨g, hg, hsame⟩ := List.mem_map.1 hkey
  obtain ⟨r', hr', hfails'⟩ := hreason g hg
  rw [hsame] at hr' hfails'
  obtain rfl := Option.some.inj (hr.symm.trans hr')
  have hwhy : g.reason = f.reason := hfails'.unique hfails
  obtain ⟨hpeer, hid⟩ := Prod.mk.inj hsame
  obtain rfl : g = f := by
    cases g
    cases f
    congr
  exact hg

/-- **What is handed over**: the frames of the requests that are due and have an attempt left, each
once. -/
theorem handed_check : ∃ handed : List RequestKey, handed.Nodup
    ∧ (∀ key, key ∈ handed ↔ ((t.check c now).connection? c key.1).isSome = true
      ∧ ∃ r, c.pending.get? key = some r ∧ c.Due now key r
        ∧ r.attempts < c.config.maxRequestAttempts)
    ∧ (t.check c now).written.map (fun e => (some e.1, some e.2)) = handed.map fun key =>
        ((t.check c now).connection? c key.1, (c.pending.get? key).map PendingRequest.frame) := by
  have hdistinct := (loaded_checkOverdue c now).distinct
  refine ⟨t.handed ⟨(c.checkOverdue now).1, now, []⟩ (c.checkOverdue now).2,
    nodup_handed (nodup_keys_checkOverdue c now), fun key => ?_, ?_⟩
  · rw [mem_handed rfl hdistinct, mem_keys_checkOverdue, and_comm]
    exact Iff.rfl
  · rw [check, written_pass]
    refine carried_eq rfl hdistinct fun s hs f hf => ?_
    have hmem : (s.peer, f) ∈ (c.checkOverdue now).2.flatMap Shipment.entries :=
      List.mem_flatMap.2 ⟨s, hs, List.mem_map_of_mem hf⟩
    obtain ⟨r, hr, -, -, hframe⟩ := mem_entries_checkOverdue.1 hmem
    rw [hr, ← hframe]
    rfl

/-- **What is connected to**: destinations of such requests, where no connection is left. -/
theorem connects_check {peer : WorkerId} {answer : Option ConnectionId}
    (h : (peer, answer) ∈ (t.check c now).connects) :
    (c.live peer = none ∨ ∃ other ≠ peer, (t.check c now).connection? c other = c.live peer)
      ∧ ∃ key r, key.1 = peer ∧ c.pending.get? key = some r ∧ c.Due now key r
        ∧ r.attempts < c.config.maxRequestAttempts := by
  have hdistinct := (loaded_checkOverdue c now).distinct
  obtain ⟨⟨v, s⟩, he, rfl, -, hnone⟩ := (mem_connects_pass rfl).1 h
  refine ⟨?_, ?_⟩
  · rcases (t.stage hdistinct he).live with hsame | ⟨-, e', he', hne, hshared⟩
    · exact .inl (hsame.symm.trans hnone)
    · exact .inr ⟨e'.2.peer, hne, (connection?_pass rfl hdistinct he').trans hshared⟩
  · obtain ⟨r, hr⟩ := mem_keys_checkOverdue.1 (List.mem_flatMap.2
      ⟨s, t.mem_of_mem_stages he, List.mem_map_of_mem List.mem_cons_self⟩)
    exact ⟨(s.peer, s.first.1), r, rfl, hr⟩

/-- Only where a connect fails a request stays behind. -/
theorem refused_check {key : RequestKey} {r : PendingRequest} (hr : c.pending.get? key = some r)
    (hdue : c.Due now key r) (hleft : r.attempts < c.config.maxRequestAttempts)
    (hnone : (t.check c now).connection? c key.1 = none) :
    (key.1, none) ∈ (t.check c now).connects := by
  obtain ⟨s, hs, hkey⟩ := List.mem_flatMap.1 (mem_keys_checkOverdue.2 ⟨r, hr, hdue, hleft⟩)
  obtain ⟨v, he⟩ := t.exists_stage hs ⟨(c.checkOverdue now).1, now, []⟩
  rw [Shipment.peer_of_mem_keys hkey] at hnone ⊢
  have hturn : (t.turn v s).connection? = none :=
    (connection?_pass rfl (loaded_checkOverdue c now).distinct he).symm.trans hnone
  refine (mem_connects_pass rfl).2 ⟨(v, s), he, rfl, hturn, ?_⟩
  rw [t.live_turn, Turn.eq_refused_iff.2 hturn]
  rfl

end

/-- **Exactly the overdue requests are sent again.** Take any coordinator that is not shut down, any
clock, and a transport that answers as it likes and is not heard otherwise. A pending request is
touched if it is due, or if a connect to its destination fails and was one too many. One that is due
is given up if it has no attempt left; otherwise it has one attempt more and is dispatched now,
unless its destination is given up. What was not pending is not pending afterwards. The failures are
those of the requests that are given up, each with its reason and listed once.

The requests that are due and have an attempt left are handed over once if their destination has or
gets a connection, on this connection and with the frame that was kept; nothing else is handed over.
The number returned is that of the frames handed over, and so many are counted as resent. At most
one connect is made for a destination, only where a request is due and no connection is left to it
(a connection that two destinations share is lost to both), and only where it fails a request that
is due stays behind. -/
theorem resend_exactly (t : Answering) (c : Coordinator) (hopen : c.stopped = false) (now : Nat) :
    let sent := (t.medium.resend ⟨c, now, []⟩).1
    let w := (t.medium.resend ⟨c, now, []⟩).2
    let c' := w.coordinator
    (∀ key r, c.pending.get? key = some r →
        (c'.pending.get? key ≠ some r ↔ c.Due now key r ∨ w.GivesUp c key.1)
        ∧ (c.Due now key r → c.config.maxRequestAttempts ≤ r.attempts →
          c'.pending.get? key = none)
        ∧ (w.GivesUp c key.1 → c'.pending.get? key = none)
        ∧ (c.Due now key r → r.attempts < c.config.maxRequestAttempts → ¬ w.GivesUp c key.1 →
          ∃ route, c'.pending.get? key
            = some { r with attempts := r.attempts + 1, dispatchedAt := now, route }))
      ∧ (∀ key, c.pending.get? key = none → c'.pending.get? key = none)
      ∧ (∃ given, c'.failures = c.failures ++ given
        ∧ c'.metrics.failed = c.metrics.failed + given.length
        ∧ (given.map DeliveryFailure.key).Nodup
        ∧ ∀ f, f ∈ given ↔ ∃ r, c.pending.get? f.key = some r ∧ w.Fails c now f.key r f.reason)
      ∧ (∃ handed : List RequestKey, handed.Nodup
        ∧ (∀ key, key ∈ handed ↔ (w.connection? c key.1).isSome = true
          ∧ ∃ r, c.pending.get? key = some r ∧ c.Due now key r
            ∧ r.attempts < c.config.maxRequestAttempts)
        ∧ w.written.map (fun e => (some e.1, some e.2)) = handed.map fun key =>
            (w.connection? c key.1, (c.pending.get? key).map PendingRequest.frame))
      ∧ sent = w.written.length ∧ c'.metrics.resent = c.metrics.resent + sent
      ∧ (w.connects.map Prod.fst).Nodup
      ∧ (∀ peer answer, (peer, answer) ∈ w.connects →
        (c.live peer = none ∨ ∃ other ≠ peer, w.connection? c other = c.live peer)
        ∧ ∃ key r, key.1 = peer ∧ c.pending.get? key = some r ∧ c.Due now key r
          ∧ r.attempts < c.config.maxRequestAttempts)
      ∧ ∀ key r, c.pending.get? key = some r → c.Due now key r →
        r.attempts < c.config.maxRequestAttempts → w.connection? c key.1 = none →
          (key.1, none) ∈ w.connects := by
  rw [resend_eq_check hopen now]
  obtain ⟨given, hyields, hgiven⟩ := failures_check t c now
  have hgone : ∀ key, c.pending.get? key = none →
      (t.check c now).coordinator.pending.get? key = none := by
    intro key hnone
    refine Option.eq_none_iff_forall_ne_some.2 fun r' hr' => ?_
    obtain ⟨r, hr, -⟩ := hyields.frames hr'
    cases hnone.symm.trans hr
  have hresent : (t.check c now).coordinator.metrics.resent
      = c.metrics.resent + (t.check c now).written.length := by
    rw [check, resent_pass, written_pass]
    rfl
  refine ⟨fun key r hr => ?_, hgone, ⟨given, hyields.failures, hyields.failed, ?_, hgiven⟩,
    handed_check t c now, rfl, hresent,
    nodup_connects_pass rfl (loaded_checkOverdue c now).distinct,
    fun peer answer => connects_check t c now, fun key r => refused_check t c now⟩
  · obtain ⟨hspent, hlost, hagain, -⟩ := pending_check t c now hr
    exact ⟨touched_check t c now hr, hspent, hlost, hagain⟩
  · have hnodup := hyields.keys.nodup_iff.1 c.pending.nodup_keys
    exact hnodup.of_append_right

/-- A connection that is lost under way, a destination that gets one, and one that is given up. -/
theorem resend_exactly_mixed :
    let t : Answering :=
      ⟨fun _ peer => if peer = ⟨3⟩ then some ⟨7⟩ else none, fun _ connection _ => connection = ⟨7⟩⟩
    let c : Coordinator :=
      { Coordinator.new ⟨9⟩ Config.testing.delivery with
        peers := .ofList [(⟨1⟩, ⟨some ⟨4⟩, ⟨3⟩, 0⟩), (⟨2⟩, ⟨none, ⟨2⟩, 2⟩)]
        pending := .ofList [((⟨1⟩, ⟨0⟩), ⟨[10], 0, 1, .sent ⟨4⟩⟩),
          ((⟨1⟩, ⟨1⟩), ⟨[11], 1, 1, .dispatching⟩), ((⟨1⟩, ⟨2⟩), ⟨[12], 200, 5, .unsent⟩),
          ((⟨2⟩, ⟨0⟩), ⟨[20], 200, 1, .dispatching⟩), ((⟨2⟩, ⟨1⟩), ⟨[21], 200, 1, .unsent⟩),
          ((⟨3⟩, ⟨0⟩), ⟨[30], 200, 2, .sent ⟨5⟩⟩)] }
    let w := (t.medium.resend ⟨c, 201, []⟩).2
    c.stopped = false
      ∧ w.connects = [(⟨2⟩, none), (⟨3⟩, some ⟨7⟩)]
      ∧ w.written = [(⟨4⟩, [10]), (⟨7⟩, [30])]
      ∧ (t.medium.resend ⟨c, 201, []⟩).1 = 2
      ∧ w.coordinator.metrics.resent = 2
      ∧ w.coordinator.failures = [⟨⟨1⟩, ⟨2⟩, .retriesExhausted 5⟩, ⟨⟨2⟩, ⟨0⟩, .unreachable 3⟩,
        ⟨⟨2⟩, ⟨1⟩, .unreachable 3⟩]
      ∧ w.coordinator.pending.get? (⟨1⟩, ⟨1⟩) = some ⟨[11], 1, 1, .dispatching⟩
      ∧ ∃ route, w.coordinator.pending.get? (⟨1⟩, ⟨0⟩) = some ⟨[10], 201, 2, route⟩ := by
  intro t c
  obtain ⟨hpending, -, -, -, hsent, hresent, -⟩ := resend_exactly t c rfl 201
  have hconnects : (t.medium.resend ⟨c, 201, []⟩).2.connects = [(⟨2⟩, none), (⟨3⟩, some ⟨7⟩)] := by
    decide +kernel
  have hwritten : (t.medium.resend ⟨c, 201, []⟩).2.written = [(⟨4⟩, [10]), (⟨7⟩, [30])] := by
    decide +kernel
  have hfailures : (t.medium.resend ⟨c, 201, []⟩).2.coordinator.failures
      = [⟨⟨1⟩, ⟨2⟩, .retriesExhausted 5⟩, ⟨⟨2⟩, ⟨0⟩, .unreachable 3⟩,
        ⟨⟨2⟩, ⟨1⟩, .unreachable 3⟩] := by
    decide +kernel
  -- from here on only what is known of the pass counts
  generalize t.medium.resend ⟨c, 201, []⟩ = r at *
  have hsafe : ¬ r.2.GivesUp c ⟨1⟩ := by
    rintro ⟨hmem, -⟩
    rw [hconnects] at hmem
    exact absurd hmem (by decide)
  have hnumber : r.1 = 2 := hsent.trans (congrArg List.length hwritten)
  obtain ⟨htouched, -⟩ := hpending (⟨1⟩, ⟨1⟩) ⟨[11], 1, 1, .dispatching⟩ (by decide +kernel)
  obtain ⟨-, -, -, hagain⟩ := hpending (⟨1⟩, ⟨0⟩) ⟨[10], 0, 1, .sent ⟨4⟩⟩ (by decide +kernel)
  refine ⟨rfl, hconnects, hwritten, hnumber, ?_, hfailures, ?_, ?_⟩
  · exact hresent.trans (congrArg (0 + ·) hnumber)
  · by_contra hchanged
    exact (htouched.1 hchanged).elim (by decide +kernel) hsafe
  · exact hagain (by decide +kernel) (by decide) hsafe

end Answering

end Superstep
