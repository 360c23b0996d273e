import Superstep.Delivery.Answering
import Superstep.Proofs.Verdicts

/-!
# Superstep — a pass over shipments

A check for overdue requests leaves a task behind: shipments are to be dispatched, one for each
destination. With a transport that only answers, nothing comes between two steps of the task, and
its steps fall into rounds of one shipment each.

* **`runFor_ofShipments`** — carrying the task out is a fold over the shipments (`Answering.pass`),
  and the number that is returned is that of the frames handed over;
* **`ships`** — everything that one shipment does, by the way in which it found its connection
  (`Turn`): only a connect that fails gives requests up, and only a write that fails loses a
  connection;
* **`stage`** — when the turn of a shipment comes, its destination is known as it was before the
  pass. Connections are the exception: a connection that two destinations share is lost to both.

What each shipment adds to a list, be it calls or failures, a pass adds shipment by shipment
(`read_pass`).
-/

namespace Superstep

open Coordinator

variable (t : Answering)

/-- The connect that a call made: the destination, and the answer. -/
def TransportCall.connected? : TransportCall → Option (WorkerId × Option ConnectionId)
  | connect peer answer => some (peer, answer)
  | _ => none

/-- The frame that a call handed over, with its connection. -/
def TransportCall.written? : TransportCall → Option (ConnectionId × Bytes)
  | write connection frame _ => some (connection, frame)
  | _ => none

/-- How a shipment of a pass finds its connection. -/
inductive Turn where
  /-- Its destination has one. -/
  | found (connection : ConnectionId)
  /-- It gets one. -/
  | opened (connection : ConnectionId)
  | refused
deriving DecidableEq

namespace Turn

def connection? : Turn → Option ConnectionId
  | found connection => some connection
  | opened connection => some connection
  | refused => none

def found? : Turn → Option ConnectionId
  | found connection => some connection
  | _ => none

def connects (peer : WorkerId) : Turn → List (WorkerId × Option ConnectionId)
  | found _ => []
  | opened connection => [(peer, some connection)]
  | refused => [(peer, none)]

def carries (s : Shipment) (turn : Turn) : List (ConnectionId × Bytes) :=
  match turn.connection? with
  | some connection => s.frames.map fun f => (connection, f.2)
  | none => []

theorem carries_of_connection? {turn : Turn} {connection : ConnectionId} (s : Shipment)
    (h : turn.connection? = some connection) :
    turn.carries s = s.frames.map fun f => (connection, f.2) := by
  rw [carries, h]

/-- A connect is made where no connection was there, and its answer is all there is. -/
theorem mem_connects {turn : Turn} {p peer : WorkerId} {answer : Option ConnectionId} :
    (peer, answer) ∈ turn.connects p
      ↔ p = peer ∧ turn.connection? = answer ∧ turn.found? = none := by
  cases turn with
  | found connection => simp [connects, found?]
  | opened connection =>
    simp only [connects, connection?, found?, List.mem_singleton, Prod.mk.injEq, and_true, eq_comm]
  | refused =>
    simp only [connects, connection?, found?, List.mem_singleton, Prod.mk.injEq, and_true, eq_comm]

theorem connection?_of_found? {turn : Turn} (h : turn.found? ≠ none) :
    turn.connection? = turn.found? := by
  cases turn with
  | found connection => rfl
  | opened | refused => exact absurd rfl h

theorem eq_refused_iff {turn : Turn} : turn = refused ↔ turn.connection? = none := by
  cases turn <;> simp [connection?]

end Turn

namespace Alone

/-- The connects so far, with their answers. -/
def connects (w : Alone) : List (WorkerId × Option ConnectionId) :=
  w.calls.filterMap TransportCall.connected?

/-- The frames that were handed to the transport so far, with their connections. -/
def written (w : Alone) : List (ConnectionId × Bytes) :=
  w.calls.filterMap TransportCall.written?

def recount (w : Alone) : Alone :=
  { w with coordinator := w.coordinator.count fun m => { m with resent := m.resent + 1 } }

def opened (w : Alone) (peer : WorkerId) (connection : ConnectionId) : Alone :=
  { w with
    coordinator := w.coordinator.connected peer connection
    calls := w.calls ++ [.connect peer (some connection)] }

def refused (w : Alone) (s : Shipment) : Alone :=
  { w with
    coordinator := (w.coordinator.refused s.peer).markUnsent s
    calls := w.calls ++ [.connect s.peer none] }

end Alone

namespace Answering

def handOver (connection : ConnectionId) (peer : WorkerId) (w : Alone) (f : RequestId × Bytes) :
    Alone :=
  let c := w.recount.coordinator
  if t.write w.calls connection f.2 then
    let c := c.setRoute (peer, f.1) (.sent connection)
    { w with
      coordinator := if c.live peer = some connection then c else { c with resendRequested := true }
      calls := w.calls ++ [.write connection f.2 true] }
  else
    { w with
      coordinator :=
        { (c.forget connection).setRoute (peer, f.1) .unsent with resendRequested := true }
      calls := w.calls ++ [.write connection f.2 false, .close connection] }

/-- How a shipment finds its connection. -/
def turn (w : Alone) (s : Shipment) : Turn :=
  match w.coordinator.live s.peer with
  | some connection => .found connection
  | none =>
    match t.connect w.calls s.peer with
    | some connection => .opened connection
    | none => .refused

theorem live_turn (w : Alone) (s : Shipment) :
    w.coordinator.live s.peer = (t.turn w s).found? := by
  rw [turn]
  cases w.coordinator.live s.peer with
  | some connection => rfl
  | none => cases t.connect w.calls s.peer <;> rfl

def ship (w : Alone) (s : Shipment) : Alone :=
  match t.turn w s with
  | .found connection => s.frames.foldl (t.handOver connection s.peer) w
  | .opened connection =>
    s.frames.foldl (t.handOver connection s.peer) (w.opened s.peer connection)
  | .refused => w.refused s

end Answering

/-! ## Handing frames over

A frame is written and its route set, or the connection is lost and the route marked. Requests are
neither counted nor given up meanwhile. -/

theorem Shipment.peer_of_mem_keys {s : Shipment} {key : RequestKey} (h : key ∈ s.keys) :
    key.1 = s.peer := by
  obtain ⟨f, -, rfl⟩ := List.mem_map.1 h
  rfl

theorem Coordinator.metrics_markUnsent (c : Coordinator) (s : Shipment) :
    (c.markUnsent s).metrics = c.metrics := by
  unfold markUnsent
  induction s.frames generalizing c with
  | nil => rfl
  | cons f frames ih => exact ih (c.setRoute _ _)

theorem Coordinator.forget_spares (c : Coordinator) (connection : ConnectionId) :
    (c.forget connection).pending = c.pending
      ∧ (c.forget connection).metrics.resent = c.metrics.resent := by
  unfold forget
  split <;> exact ⟨rfl, rfl⟩

/-- `c'` is `c` after the routes of some requests changed. -/
structure Coordinator.Reroutes (keys : List RequestKey) (c c' : Coordinator) : Prop where
  others : ∀ key ∉ keys, c'.pending.get? key = c.pending.get? key
  routed : ∀ key, ∃ f : Route → Route,
    c'.pending.get? key = (c.pending.get? key).map fun r => { r with route := f r.route }

namespace Coordinator.Reroutes

variable {keys keys' : List RequestKey} {c c' c'' : Coordinator}

theorem of_eq (h : c'.pending = c.pending) : Reroutes keys c c' where
  others key _ := by rw [h]
  routed key := ⟨id, by rw [h]; exact Option.map_id'.symm⟩

theorem congr {d d' : Coordinator} (h : Reroutes keys c c') (hpending : d.pending = c.pending)
    (hpending' : d'.pending = c'.pending) : Reroutes keys d d' where
  others key hkey := by rw [hpending', hpending, h.others key hkey]
  routed key := by
    rw [hpending', hpending]
    exact h.routed key

/-- One after the other, for the keys of both. -/
theorem trans (h : Reroutes keys c c') (h' : Reroutes keys' c' c'') :
    Reroutes (keys ++ keys') c c'' where
  others key hkey := by
    rw [List.mem_append, not_or] at hkey
    exact (h'.others key hkey.2).trans (h.others key hkey.1)
  routed key := by
    obtain ⟨f, hf⟩ := h.routed key
    obtain ⟨f', hf'⟩ := h'.routed key
    exact ⟨f' ∘ f, by rw [hf', hf, Option.map_map]; rfl⟩

theorem setRoute (c : Coordinator) (key : RequestKey) (route : Route) :
    Reroutes [key] c (c.setRoute key route) where
  others key' hkey := by
    rw [Coordinator.setRoute, Table.get?_modify, if_neg (by simpa using hkey)]
  routed key' := by
    rw [Coordinator.setRoute, Table.get?_modify]
    by_cases hkey : key' = key
    · exact ⟨fun _ => route, by rw [if_pos hkey]⟩
    · exact ⟨id, by rw [if_neg hkey]; exact Option.map_id'.symm⟩

theorem markUnsent (c : Coordinator) (s : Shipment) : Reroutes s.keys c (c.markUnsent s) := by
  unfold Coordinator.markUnsent Shipment.keys
  induction s.frames generalizing c with
  | nil => exact of_eq rfl
  | cons f frames ih => exact (setRoute c _ _).trans (ih _)

end Coordinator.Reroutes

/-- `w'` is `w` after frames were handed over to a connection. -/
structure Alone.HandsOver (connection : ConnectionId) (peer : WorkerId)
    (frames : List (RequestId × Bytes)) (w w' : Alone) : Prop where
  edits : Edits w.coordinator w'.coordinator
  heedless : Heedless w.coordinator w'.coordinator
  live : ∀ p, w'.coordinator.live p = w.coordinator.live p
    ∨ w.coordinator.live p = some connection ∧ w'.coordinator.live p = none
  pending : Reroutes (frames.map fun f => (peer, f.1)) w.coordinator w'.coordinator
  connects : w'.connects = w.connects
  written : w'.written = w.written ++ frames.map fun f => (connection, f.2)
  resent : w'.coordinator.metrics.resent = w.coordinator.metrics.resent + frames.length

namespace Answering

/-- A frame that is accepted is on its way. -/
theorem handsOver_accepted {connection : ConnectionId} (peer : WorkerId) {w : Alone}
    {f : RequestId × Bytes} (haccepted : t.write w.calls connection f.2 = true) :
    w.HandsOver connection peer [f] (t.handOver connection peer w f) := by
  have hcount : Edit w.coordinator w.recount.coordinator :=
    .count w.coordinator (f := fun m => { m with resent := m.resent + 1 }) fun _ => ⟨rfl, rfl, rfl⟩
  have hroute := Edit.route w.recount.coordinator (peer, f.1) (.sent connection)
  have hpending := Reroutes.setRoute w.recount.coordinator (peer, f.1) (.sent connection)
  rw [handOver, if_pos haccepted]
  dsimp only
  refine
    { edits := ?_, heedless := ?_, live := fun p => .inl ?_, pending := ?_
      connects := by simp [Alone.connects, TransportCall.connected?]
      written := by simp [Alone.written, TransportCall.written?], resent := ?_ }
  · split
    · exact .head hcount (.single hroute)
    · exact .head hcount (.head hroute (.single (.flag _ true)))
  · split <;> exact .of_eq rfl rfl
  · split <;> rfl
  · split <;> exact hpending.congr rfl rfl
  · split <;> rfl

/-- A connection that takes no frame is lost to whoever has it. -/
theorem handsOver_rejected {connection : ConnectionId} (peer : WorkerId) {w : Alone}
    {f : RequestId × Bytes} (hrejected : t.write w.calls connection f.2 = false) :
    w.HandsOver connection peer [f] (t.handOver connection peer w f) := by
  have hcount : Edit w.coordinator w.recount.coordinator :=
    .count w.coordinator (f := fun m => { m with resent := m.resent + 1 }) fun _ => ⟨rfl, rfl, rfl⟩
  have hrecount : Heedless w.coordinator w.recount.coordinator := .of_eq rfl rfl
  have hpending := Reroutes.setRoute (w.recount.coordinator.forget connection) (peer, f.1) .unsent
  obtain ⟨hsame, hresent⟩ := forget_spares w.recount.coordinator connection
  rw [handOver, if_neg (by rw [hrejected]; exact Bool.false_ne_true)]
  refine
    { edits := .head hcount ((edits_forget _ connection).trans
        (.head (.route _ _ _) (.single (.flag _ true))))
      heedless := (hrecount.trans (.forget _ connection)).trans (.of_eq rfl rfl)
      live := fun p => ?_, pending := hpending.congr hsame.symm rfl
      connects := by simp [Alone.connects, TransportCall.connected?]
      written := by simp [Alone.written, TransportCall.written?], resent := hresent }
  -- nobody has the connection any more, or the one destination that has it loses it
  rcases forget_cases w.recount.coordinator connection with ⟨hnone, -⟩ | ⟨holder, hused, hlinks⟩
  · have hlive : (w.recount.coordinator.forget connection).live p = w.coordinator.live p := by
      rw [hnone]
      rfl
    exact .inl hlive
  · by_cases hp : p = holder
    · subst hp
      exact .inr ⟨hused, (hlinks.live p).trans (Function.update_self ..)⟩
    · exact .inl ((hlinks.live p).trans (Function.update_of_ne hp ..))

/-- **Frames are handed over** one after the other, also when the connection is lost under way. -/
theorem handsOver (connection : ConnectionId) (peer : WorkerId) (frames : List (RequestId × Bytes))
    (w : Alone) :
    w.HandsOver connection peer frames (frames.foldl (t.handOver connection peer) w) := by
  induction frames generalizing w with
  | nil => exact ⟨.refl, .refl _, fun _ => .inl rfl, .of_eq rfl, rfl, (List.append_nil _).symm, rfl⟩
  | cons f frames ih =>
    have hone : w.HandsOver connection peer [f] (t.handOver connection peer w f) := by
      cases hanswer : t.write w.calls connection f.2 with
      | true => exact t.handsOver_accepted peer hanswer
      | false => exact t.handsOver_rejected peer hanswer
    have hmore := ih (t.handOver connection peer w f)
    refine ⟨hone.edits.trans hmore.edits, hone.heedless.trans hmore.heedless, fun p => ?_,
      hone.pending.trans hmore.pending, hmore.connects.trans hone.connects, ?_, ?_⟩
    -- a connection that is lost under way stays lost
    · rcases hmore.live p, hone.live p with ⟨hsame | ⟨hused, hnone⟩, hsame' | ⟨hused', hnone'⟩⟩
      · exact .inl (hsame.trans hsame')
      · exact .inr ⟨hused', hsame.trans hnone'⟩
      · exact .inr ⟨hsame'.symm.trans hused, hnone⟩
      · exact .inr ⟨hused', hnone⟩
    · exact hmore.written.trans (by rw [hone.written, List.append_assoc]; rfl)
    · have hlength := hmore.resent
      rw [hone.resent] at hlength
      simpa [Nat.add_assoc, Nat.add_comm 1] using hlength

end Answering

/-! ## Dispatching a shipment

How the shipment finds its connection is known before anything is done: one is in use, the transport
gives one, or it refuses. What is done then is said once for the three of them. -/

namespace Alone

/-- A shipment's destination is given up: one connect more failed than may fail. -/
def Forsakes (w : Alone) (s : Shipment) (turn : Turn) : Prop :=
  turn = .refused ∧ w.coordinator.patience ≤ (w.coordinator.refusalsNext s.peer).toNat

instance (w : Alone) (s : Shipment) (turn : Turn) : Decidable (w.Forsakes s turn) :=
  inferInstanceAs (Decidable (_ ∧ _))

/-- `w'` is `w` after a shipment was dispatched. -/
structure Ships (s : Shipment) (turn : Turn) (w w' : Alone) : Prop where
  edits : Edits w.coordinator w'.coordinator
  connects : w'.connects = w.connects ++ turn.connects s.peer
  written : w'.written = w.written ++ turn.carries s
  resent : w'.coordinator.metrics.resent
    = w.coordinator.metrics.resent + (turn.carries s).length
  refusals : ∀ p ≠ s.peer,
    (w'.coordinator.peer p).refusals = (w.coordinator.peer p).refusals
  live : ∀ p ≠ s.peer, w'.coordinator.live p = w.coordinator.live p
    ∨ w.coordinator.live p = turn.connection? ∧ w'.coordinator.live p = none
  kept : ¬ w.Forsakes s turn → Reroutes s.keys w.coordinator w'.coordinator
  forsaken : w.Forsakes s turn → ∀ key, w'.coordinator.pending.get? key
    = if key.1 = s.peer then none else w.coordinator.pending.get? key
  failures : w'.coordinator.failures = w.coordinator.failures
    ++ if w.Forsakes s turn
      then w.coordinator.unreachable s.peer (w.coordinator.refusalsNext s.peer).toNat else []

end Alone

namespace Answering

/-- Frames that are handed over are all that a shipment does besides taking its connection into
use. -/
theorem ships_of_handsOver {s : Shipment} {turn : Turn} {connection : ConnectionId} {w v w' : Alone}
    (h : v.HandsOver connection s.peer s.frames w') (hturn : turn.connection? = some connection)
    (hedits : Edits w.coordinator v.coordinator)
    (hconnects : v.connects = w.connects ++ turn.connects s.peer) (hwritten : v.written = w.written)
    (hresent : v.coordinator.metrics.resent = w.coordinator.metrics.resent)
    (hrefusals : ∀ p ≠ s.peer, (v.coordinator.peer p).refusals = (w.coordinator.peer p).refusals)
    (hlive : ∀ p ≠ s.peer, v.coordinator.live p = w.coordinator.live p)
    (hpending : v.coordinator.pending = w.coordinator.pending)
    (hfailures : v.coordinator.failures = w.coordinator.failures) : w.Ships s turn w' := by
  have hkept : ¬ w.Forsakes s turn := by
    rintro ⟨rfl, -⟩
    cases hturn
  have hcarries := Turn.carries_of_connection? s hturn
  refine
    { edits := hedits.trans h.edits, connects := h.connects.trans hconnects, written := ?_
      resent := ?_, refusals := fun p hp => (h.heedless.refusals p).trans (hrefusals p hp)
      live := fun p hp => ?_, kept := fun _ => h.pending.congr hpending.symm rfl
      forsaken := fun hforsaken => absurd hforsaken hkept, failures := ?_ }
  · rw [h.written, hwritten, hcarries]
  · rw [h.resent, hresent, hcarries, List.length_map]
  · rw [← hlive p hp, hturn]
    exact h.live p
  · rw [if_neg hkept, List.append_nil, h.heedless.failures, hfailures]

/-- A shipment that gets no connection hands nothing over, and may be the one that makes its
requests fail. -/
theorem ships_refused {w : Alone} {s : Shipment} : w.Ships s .refused (w.refused s) := by
  have hedits := (edits_refused w.coordinator s.peer).trans (edits_markUnsent _ s)
  have hunsent := Heedless.markUnsent (w.coordinator.refused s.peer) s
  have hroutes := Reroutes.markUnsent (w.coordinator.refused s.peer) s
  obtain ⟨hfew, hmany⟩ := refused_spec w.coordinator s.peer
  have hkeeps := (keeps_refused w.coordinator s.peer).andKeeps (keeps_markUnsent _ s)
  refine
    { edits := hedits, connects := ?_, written := ?_, resent := ?_, refusals := fun p hp => ?_
      live := fun p _ => .inl (hkeeps.live p), kept := fun hkept => ?_
      forsaken := fun hforsaken key => ?_, failures := ?_ }
  · simp [Alone.connects, Alone.refused, TransportCall.connected?, Turn.connects]
  · simp [Alone.written, Alone.refused, TransportCall.written?, Turn.carries, Turn.connection?]
  · have hresent : (w.coordinator.refused s.peer).metrics.resent
        = w.coordinator.metrics.resent := by
      unfold Coordinator.refused
      dsimp only
      split <;> rfl
    exact (congrArg Metrics.resent (metrics_markUnsent _ s)).trans hresent
  · exact (hunsent.refusals p).trans ((refusals_refused _ _ _).trans (if_neg hp))
  -- one failure that is not too many leaves every request to its route
  · obtain ⟨hpending, -⟩ := hfew (not_le.1 fun hle => hkept ⟨rfl, hle⟩)
    exact hroutes.congr hpending.symm rfl
  · obtain ⟨hpending, -⟩ := hmany hforsaken.2
    by_cases hpeer : key.1 = s.peer
    · obtain ⟨f, hf⟩ := hroutes.routed key
      rw [hpending, if_pos hpeer] at hf
      rw [if_pos hpeer]
      exact hf
    · have hother : key ∉ s.keys := fun hkey => hpeer (Shipment.peer_of_mem_keys hkey)
      exact (hroutes.others key hother).trans (hpending key)
  · refine hunsent.failures.trans ?_
    by_cases hforsaken : w.Forsakes s .refused
    · rw [if_pos hforsaken]
      exact (hmany hforsaken.2).2
    · rw [if_neg hforsaken, List.append_nil]
      exact (hfew (not_le.1 fun hle => hforsaken ⟨rfl, hle⟩)).2

/-- **A shipment is dispatched** as its turn says. -/
theorem ships (w : Alone) (s : Shipment) : w.Ships s (t.turn w s) (t.ship w s) := by
  rw [ship]
  cases hturn : t.turn w s with
  | found connection =>
    exact ships_of_handsOver (t.handsOver connection s.peer s.frames w) rfl .refl
      (List.append_nil _).symm rfl rfl (fun _ _ => rfl) (fun _ _ => rfl) rfl rfl
  | opened connection =>
    have hframes := t.handsOver connection s.peer s.frames (w.opened s.peer connection)
    refine ships_of_handsOver hframes rfl (edits_connected w.coordinator s.peer connection) ?_ ?_
      rfl (fun p hp => ?_) (fun p hp => ?_) rfl rfl
    · simp [Alone.connects, Alone.opened, TransportCall.connected?, Turn.connects]
    · simp [Alone.written, Alone.opened, TransportCall.written?]
    · exact (refusals_connected _ _ _ _).trans (if_neg hp)
    · exact (live_connected _ _ _ _).trans (if_neg hp)
  | refused => exact ships_refused

/-! ## Carrying the task out

The steps of a task are counted down, so that it is known to end. Each lemma says how many steps are
left when its part is done, at the least. -/

theorem runFor_writing (steps : Nat) (connection : ConnectionId) (s : Shipment)
    (later : List Shipment) (w : Alone) :
    t.medium.runFor (steps + 1) (.writing connection s later) w =
      let accepted := t.write w.calls connection s.first.2
      let p := w.coordinator.afterWrite connection s later accepted
      let calls := w.calls ++ [.write connection s.first.2 accepted]
      let r := t.medium.runFor steps p.task (t.medium.apply p { w with calls })
      (r.1 + 1, r.2) := rfl

theorem runFor_failing (steps : Nat) (connection : ConnectionId) (s : Shipment)
    (later : List Shipment) (w : Alone) :
    t.medium.runFor (steps + 1) (.failing connection s later) w =
      let next := w.coordinator.look (.failing connection s later)
      t.medium.runFor steps next.2 { w with coordinator := next.1 } := rfl

/-- **A frame takes two steps at the most**, the second only if it was not taken. -/
theorem runFor_handOver (connection : ConnectionId) (s : Shipment) (later : List Shipment)
    (steps : Nat) (w : Alone) :
    ∃ left, steps ≤ left ∧
      let w' := t.handOver connection s.peer w s.first
      let next := w'.coordinator.advance connection s later
      let r := t.medium.runFor left next.2 { w' with coordinator := next.1 }
      t.medium.runFor (steps + 2) (.writing connection s later) w.recount = (r.1 + 1, r.2) := by
  rw [runFor_writing]
  have hcalls : w.recount.calls = w.calls := rfl
  cases haccepted : t.write w.calls connection s.first.2 with
  | true =>
    refine ⟨steps + 1, Nat.le_succ _, ?_⟩
    rw [handOver, if_pos haccepted]
    dsimp only
    rw [hcalls, haccepted]
    rfl
  | false =>
    refine ⟨steps, Nat.le_refl _, ?_⟩
    rw [handOver, if_neg (by rw [haccepted]; exact Bool.false_ne_true)]
    dsimp only
    rw [hcalls, haccepted]
    have hafter : w.recount.coordinator.afterWrite connection s later false
        = ⟨w.recount.coordinator.forget connection, some connection, .failing connection s later⟩ :=
      rfl
    rw [hafter]
    dsimp only
    -- the look behind a write that failed marks the request
    rw [runFor_failing]
    simp only [Medium.apply, medium, look, List.append_assoc, List.cons_append, List.nil_append]
    rfl

/-- The frames of a shipment are handed over one after the other. -/
theorem runFor_frames (connection : ConnectionId) (s : Shipment) (hagain : s.again = true)
    (later : List Shipment) {steps spare : Nat} (hsteps : 2 * s.frames.length + spare ≤ steps)
    (w : Alone) :
    ∃ left, spare ≤ left ∧
      let r := t.medium.runFor left (.ofShipments later)
        (s.frames.foldl (t.handOver connection s.peer) w)
      t.medium.runFor steps (.writing connection s later) w.recount
        = (r.1 + s.frames.length, r.2) := by
  obtain ⟨peer, first, rest, again⟩ := s
  obtain rfl : again = true := hagain
  -- on the frames behind the first, which is handed over in two steps at the most
  induction rest generalizing first steps w with
  | nil =>
    obtain ⟨n, rfl⟩ : ∃ n, steps = n + 2 := ⟨steps - 2, by simp [Shipment.frames] at hsteps; omega⟩
    obtain ⟨left, hleft, hrun⟩ := t.runFor_handOver connection ⟨peer, first, [], true⟩ later n w
    refine ⟨left, ?_, hrun⟩
    simp [Shipment.frames] at hsteps
    omega
  | cons next rest ih =>
    obtain ⟨n, rfl⟩ : ∃ n, steps = n + 2 := ⟨steps - 2, by simp [Shipment.frames] at hsteps; omega⟩
    obtain ⟨left, hleft, hrun⟩ :=
      t.runFor_handOver connection ⟨peer, first, next :: rest, true⟩ later n w
    have hrest : 2 * (Shipment.mk peer next rest true).frames.length + spare ≤ left := by
      simp [Shipment.frames] at hsteps ⊢
      omega
    obtain ⟨left', hleft', hrun'⟩ := ih (t.handOver connection peer w first) next hrest
    refine ⟨left', hleft', hrun.trans ?_⟩
    have hnext := congrArg (fun r : Nat × Alone => (r.1 + 1, r.2)) hrun'
    exact hnext

/-- The first step of a shipment: it writes, or asks for a connection. -/
theorem runFor_seeking (steps : Nat) (s : Shipment) (later : List Shipment) {w : Alone}
    (hopen : w.coordinator.stopped = false) :
    t.medium.runFor (steps + 1) (.seeking s later) w =
      match w.coordinator.live s.peer with
      | some connection =>
        let next := w.coordinator.write connection s later
        t.medium.runFor steps next.2 { w with coordinator := next.1 }
      | none => t.medium.runFor steps (.connecting s later) w := by
  have hlook : w.coordinator.look (.seeking s later) = match w.coordinator.live s.peer with
      | some connection => w.coordinator.write connection s later
      | none => (w.coordinator, .connecting s later) := by
    rw [look, hopen]
    rfl
  have hrun : t.medium.runFor (steps + 1) (.seeking s later) w =
      let next := w.coordinator.look (.seeking s later)
      t.medium.runFor steps next.2 { w with coordinator := next.1 } := rfl
  rw [hrun, hlook]
  cases w.coordinator.live s.peer <;> rfl

theorem runFor_connecting (steps : Nat) (s : Shipment) (later : List Shipment) (w : Alone) :
    t.medium.runFor (steps + 1) (.connecting s later) w =
      let answer := t.connect w.calls s.peer
      let p := w.coordinator.afterConnect s later answer
      let calls := w.calls ++ [.connect s.peer answer]
      t.medium.runFor steps p.task (t.medium.apply p { w with calls }) := rfl

/-- **A shipment is dispatched** as its turn says. -/
theorem runFor_ship {s : Shipment} (hagain : s.again = true) (later : List Shipment)
    {steps spare : Nat} (hsteps : s.weight + spare ≤ steps) {w : Alone}
    (hopen : w.coordinator.stopped = false) :
    ∃ left, spare ≤ left ∧
      let r := t.medium.runFor left (.ofShipments later) (t.ship w s)
      t.medium.runFor steps (.seeking s later) w
        = (r.1 + ((t.turn w s).carries s).length, r.2) := by
  obtain ⟨n, rfl⟩ : ∃ n, steps = n + 3 :=
    ⟨steps - 3, by simp [Shipment.weight, Shipment.frames] at hsteps; omega⟩
  rw [Shipment.weight] at hsteps
  -- one step to look for a connection, one to make it, and then those of the frames
  have hwrite : ∀ c connection, Coordinator.write c connection s later
      = (c.count fun m => { m with resent := m.resent + 1 }, .writing connection s later) := by
    intro c connection
    rw [Coordinator.write, if_pos hagain]
  rw [t.runFor_seeking _ _ _ hopen]
  cases hlive : w.coordinator.live s.peer with
  | some connection =>
    have hturn : t.turn w s = .found connection := by rw [turn, hlive]
    rw [ship, hturn]
    dsimp only
    rw [hwrite]
    rw [Turn.carries_of_connection? s rfl, List.length_map]
    exact t.runFor_frames connection s hagain later (by omega) w
  | none =>
    rw [runFor_connecting]
    cases hconnect : t.connect w.calls s.peer with
    | some connection =>
      have hturn : t.turn w s = .opened connection := by rw [turn, hlive]; simp only [hconnect]
      rw [ship, hturn, Turn.carries_of_connection? s rfl, List.length_map]
      have hafter : w.coordinator.afterConnect s later (some connection)
          = ⟨(w.opened s.peer connection).recount.coordinator, none,
            .writing connection s later⟩ := by
        rw [afterConnect, hlive]
        dsimp only
        rw [hwrite]
        rfl
      dsimp only
      rw [hafter]
      exact t.runFor_frames connection s hagain later (by omega) (w.opened s.peer connection)
    | none =>
      have hturn : t.turn w s = .refused := by rw [turn, hlive]; simp only [hconnect]
      rw [ship, hturn]
      refine ⟨n, ?_, rfl⟩
      simp [Shipment.frames] at hsteps
      omega

/-! ## A pass

A pass goes through the shipments in order, and a stage is a shipment with the state in which its
turn comes. What is read off the result of a pass is put together stage by stage. -/

def pass (w : Alone) (shipments : List Shipment) : Alone := shipments.foldl t.ship w

/-- The shipments of a pass, each with the state in which its turn comes. -/
def stages (t : Answering) (w : Alone) : List Shipment → List (Alone × Shipment)
  | [] => []
  | s :: later => (w, s) :: t.stages (t.ship w s) later

theorem map_stages (w : Alone) (shipments : List Shipment) :
    (t.stages w shipments).map Prod.snd = shipments := by
  induction shipments generalizing w with
  | nil => rfl
  | cons s later ih => rw [stages, List.map_cons, ih]

theorem exists_stage {shipments : List Shipment} {s : Shipment} (hs : s ∈ shipments) (w : Alone) :
    ∃ v, (v, s) ∈ t.stages w shipments := by
  rw [← t.map_stages w shipments] at hs
  obtain ⟨⟨v, _⟩, hv, rfl⟩ := List.mem_map.1 hs
  exact ⟨v, hv⟩

theorem mem_of_mem_stages {w v : Alone} {shipments : List Shipment} {s : Shipment}
    (h : (v, s) ∈ t.stages w shipments) : s ∈ shipments := by
  rw [← t.map_stages w shipments]
  exact List.mem_map_of_mem h

/-- **What is written down in the course of a pass** is written down shipment by shipment. -/
theorem read_pass {α : Type} (read : Alone → List α) {adds : Alone → Shipment → List α}
    (h : ∀ w s, read (t.ship w s) = read w ++ adds w s) (w : Alone) (shipments : List Shipment) :
    read (t.pass w shipments)
      = read w ++ (t.stages w shipments).flatMap fun e => adds e.1 e.2 := by
  induction shipments generalizing w with
  | nil => exact (List.append_nil _).symm
  | cons s later ih =>
    rw [stages, List.flatMap_cons, ← List.append_assoc, ← h]
    exact ih (t.ship w s)

theorem edits_pass (w : Alone) (shipments : List Shipment) :
    Edits w.coordinator (t.pass w shipments).coordinator := by
  induction shipments generalizing w with
  | nil => exact .refl
  | cons s later ih => exact (t.ships w s).edits.trans (ih _)

/-- The frames that a pass hands over. -/
def carried (w : Alone) (shipments : List Shipment) : List (ConnectionId × Bytes) :=
  (t.stages w shipments).flatMap fun e => (t.turn e.1 e.2).carries e.2

theorem carried_cons (w : Alone) (s : Shipment) (later : List Shipment) :
    t.carried w (s :: later) = (t.turn w s).carries s ++ t.carried (t.ship w s) later :=
  List.flatMap_cons

/-- What a pass writes is what its shipments carry. -/
theorem written_pass (w : Alone) (shipments : List Shipment) :
    (t.pass w shipments).written = w.written ++ t.carried w shipments :=
  t.read_pass Alone.written (fun w s => (t.ships w s).written) w shipments

theorem resent_pass (w : Alone) (shipments : List Shipment) :
    (t.pass w shipments).coordinator.metrics.resent
      = w.coordinator.metrics.resent + (t.carried w shipments).length := by
  induction shipments generalizing w with
  | nil => rfl
  | cons s later ih =>
    rw [carried_cons, List.length_append, ← Nat.add_assoc, ← (t.ships w s).resent]
    exact ih (t.ship w s)

/-- **Carrying the task out** is a pass over its shipments; the frames that are handed over are
counted. -/
theorem runFor_ofShipments {shipments : List Shipment} (hagain : ∀ s ∈ shipments, s.again = true)
    {steps : Nat} (hsteps : Shipment.weights shipments ≤ steps) {w : Alone}
    (hopen : w.coordinator.stopped = false) :
    t.medium.runFor steps (.ofShipments shipments) w
      = ((t.carried w shipments).length, t.pass w shipments) := by
  induction shipments generalizing steps w with
  | nil => cases steps <;> rfl
  | cons s later ih =>
    obtain ⟨left, hleft, hrun⟩ :=
      t.runFor_ship (hagain s List.mem_cons_self) later hsteps hopen
    have hstill : (t.ship w s).coordinator.stopped = false :=
      (Waits.of_edits (t.ships w s).edits).stopped.trans hopen
    have hlater := ih (fun s hs => hagain s (List.mem_cons_of_mem _ hs)) hleft hstill
    refine hrun.trans ?_
    rw [hlater, carried_cons, List.length_append, Nat.add_comm]
    rfl

end Answering

/-! ## One destination in a pass

Each destination has one shipment in a pass, and shipments to others leave its requests alone. So
the requests of a destination change at its own stage only. -/

/-- A shipment leaves the requests of other destinations alone. -/
theorem Alone.Ships.pending_of_ne {s : Shipment} {turn : Turn} {w w' : Alone}
    (h : w.Ships s turn w') {key : RequestKey} (hkey : key.1 ≠ s.peer) :
    w'.coordinator.pending.get? key = w.coordinator.pending.get? key := by
  by_cases hforsaken : w.Forsakes s turn
  · rw [h.forsaken hforsaken, if_neg hkey]
  · exact (h.kept hforsaken).others key fun hmem => hkey (Shipment.peer_of_mem_keys hmem)

namespace Answering

/-- A pass without a shipment for a destination leaves its requests alone. -/
theorem pending_pass_of_not_mem {shipments : List Shipment} {key : RequestKey}
    (hkey : key.1 ∉ shipments.map Shipment.peer) (w : Alone) :
    (t.pass w shipments).coordinator.pending.get? key = w.coordinator.pending.get? key := by
  induction shipments generalizing w with
  | nil => rfl
  | cons s later ih =>
    rw [List.map_cons, List.mem_cons, not_or] at hkey
    exact (ih hkey.2 (t.ship w s)).trans ((t.ships w s).pending_of_ne hkey.1)

/-- The turn of a shipment comes when its destination is known as it was at the beginning, but for
a connection that it shared with another one and that is lost. What becomes of its requests then
is what becomes of them. -/
structure Stage (w : Alone) (shipments : List Shipment) (v : Alone) (s : Shipment) : Prop where
  edits : Edits w.coordinator v.coordinator
  refusals : (v.coordinator.peer s.peer).refusals = (w.coordinator.peer s.peer).refusals
  live : v.coordinator.live s.peer = w.coordinator.live s.peer
    ∨ v.coordinator.live s.peer = none ∧ ∃ e ∈ t.stages w shipments, e.2.peer ≠ s.peer
      ∧ (t.turn e.1 e.2).connection? = w.coordinator.live s.peer
  before : ∀ key : RequestKey, key.1 = s.peer →
    v.coordinator.pending.get? key = w.coordinator.pending.get? key
  after : ∀ key : RequestKey, key.1 = s.peer →
    (t.pass w shipments).coordinator.pending.get? key = (t.ship v s).coordinator.pending.get? key

theorem stage {shipments : List Shipment} (hdistinct : (shipments.map Shipment.peer).Nodup)
    {w v : Alone} {s : Shipment} (h : (v, s) ∈ t.stages w shipments) :
    t.Stage w shipments v s := by
  -- on the shipments, from the state that the first one leaves
  induction shipments generalizing w with
  | nil => cases h
  | cons first later ih =>
    obtain ⟨hfirst, hlater⟩ := List.nodup_cons.1 hdistinct
    rcases List.mem_cons.1 h with heq | hmem
    · cases heq
      exact
        { edits := .refl, refusals := rfl, live := .inl rfl, before := fun _ _ => rfl
          after := fun key hkey => t.pending_pass_of_not_mem (hkey ▸ hfirst) (t.ship v s) }
    -- the first shipment is for another destination, and may cost this one its connection only
    · have hs := ih hlater hmem
      have hship := t.ships w first
      have hne : s.peer ≠ first.peer := by
        rintro heq
        exact hfirst (heq ▸ List.mem_map_of_mem (t.mem_of_mem_stages hmem))
      refine
        { edits := hship.edits.trans hs.edits
          refusals := hs.refusals.trans (hship.refusals _ hne), live := ?_
          before := fun key hkey =>
            (hs.before key hkey).trans (hship.pending_of_ne (hkey.trans_ne hne))
          after := hs.after }
      rcases hship.live s.peer hne with hsame | ⟨hshared, hlost⟩
      · rw [← hsame]
        refine hs.live.imp_right fun ⟨hnone, e, he, hshared⟩ => ?_
        exact ⟨hnone, e, List.mem_cons_of_mem _ he, hshared⟩
      · refine .inr ⟨?_, (w, first), List.mem_cons_self, hne.symm, hshared.symm⟩
        exact hs.live.elim (fun hsame => hsame.trans hlost) And.left

end Answering

end Superstep
