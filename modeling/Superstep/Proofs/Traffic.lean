import Superstep.Network.Traffic
import Superstep.Proofs.Links
import Superstep.Proofs.Network

/-!
# Superstep — what a connection delivers

Every connection of a network does what its link does, whatever else goes on: other connections,
servers that come, go and change, and closes by the opener.

* **`Sound.step`** — no event disturbs what is under way on a connection;
* **`Sound.drain`** — a connection that is served often enough has nothing left;
* **`Sound.run_of_closed`** — nothing comes after a cut;
* **`in_order`** — what is accepted, handed to the server and heard, in every run.
-/

namespace Superstep

/-! ## What leaves the connections alone

Servers come and go and change, openers close connections, and none of this touches a link. What a
later step needs is only that the server at its end still exists. -/

namespace Network

variable {I V E M : Type}

/-- What an operation that hands nothing to a connection leaves as it is: the ends of connections
and their links. -/
structure Keeps (n n' : Network I V E M) : Prop where
  registered : ∀ {worker number}, n'.registered.get? worker = some number →
    n.registered.get? worker = some number ∨ ∃ server, n'.servers.get? number = some server
  servers : ∀ {number server}, n.servers.get? number = some server →
    ∃ server', n'.servers.get? number = some server'
  links : ∀ id, (n'.connections.get? id).map (fun c => (c.server, c.link))
    = (n.connections.get? id).map fun c => (c.server, c.link)

theorem Keeps.refl (n : Network I V E M) : n.Keeps n :=
  ⟨Or.inl, fun h => ⟨_, h⟩, fun _ => rfl⟩

/-- A worker that registers moves no connection: those there are end where they did. -/
theorem keeps_register (n : Network I V E M) (server : Server I V E M) :
    n.Keeps (n.register server) where
  registered := by
    intro worker number hnumber
    simp only [register, Table.get?_insert] at hnumber ⊢
    split at hnumber
    · cases hnumber
      exact Or.inr ⟨server, if_pos rfl⟩
    · exact Or.inl hnumber
  servers := by
    intro number old hold
    simp only [register, Table.get?_insert]
    split
    · exact ⟨_, rfl⟩
    · exact ⟨old, hold⟩
  links _ := rfl

theorem keeps_deregister (n : Network I V E M) (worker : WorkerId) :
    n.Keeps (n.deregister worker) :=
  ⟨fun h => Or.inl (Table.get?_of_get?_erase h), fun h => ⟨_, h⟩, fun _ => rfl⟩

theorem keeps_modify (n : Network I V E M) (number : Nat)
    (f : Server I V E M → Server I V E M) :
    n.Keeps { n with servers := n.servers.modify number f } where
  registered := Or.inl
  servers := by
    intro number' server hserver
    simp only [Table.get?_modify, hserver]
    split <;> simp
  links _ := rfl

/-- Connections may stop being held. -/
theorem keeps_mapValues (n : Network I V E M) (p : ConnectionId → Connection → Bool) :
    n.Keeps { n with connections := n.connections.mapValues fun id c =>
      if (p id c) = true then { c with held := false } else c } where
  registered := Or.inl
  servers h := ⟨_, h⟩
  links := by
    intro id
    rw [Table.get?_mapValues, Option.map_map]
    congr 1
    funext c
    simp only [Function.comp_apply]
    split <;> rfl

theorem keeps_close (n : Network I V E M) (owner : Endpoint) (id : ConnectionId) :
    n.Keeps (n.close owner id) :=
  n.keeps_mapValues fun key c => key = id && c.owner = owner

theorem keeps_closeAll (n : Network I V E M) (owner : Endpoint) : n.Keeps (n.closeAll owner) := by
  have h := n.keeps_mapValues fun _ c => decide (c.owner = owner)
  simpa [closeAll] using h

/-- The link takes a frame, or nothing is handed to a connection. -/
theorem accepts_or_keeps (n : Network I V E M) (owner : Endpoint) (id : ConnectionId)
    (frame : Bytes) :
    (∃ c link, n.connections.get? id = some c ∧ c.held = true ∧ c.owner = owner
        ∧ c.link.accept? frame = some link
        ∧ n.send owner id frame
          = (.ok (), { n with connections := n.connections.insert id { c with link } }))
      ∨ ∃ n', n.send owner id frame = (.error .connectionClosed, n') ∧ n.Keeps n' := by
  rcases n.send_cases owner id frame with haccept | ⟨c, hc, hsend⟩ | hsend
  · exact Or.inl haccept
  · refine Or.inr ⟨_, hsend, Or.inl, fun h => ⟨_, h⟩, fun id' => ?_⟩
    rw [Table.get?_insert]
    split
    · next hid =>
      rw [hid, hc]
      rfl
    · rfl
  · exact Or.inr ⟨n, hsend, .refl n⟩

/-- An opener that closed a connection cannot send on it any more. -/
theorem send_close (n : Network I V E M) (owner : Endpoint) (id : ConnectionId) (frame : Bytes) :
    ((n.close owner id).send owner id frame).1 = .error .connectionClosed := by
  obtain ⟨c, link, hc, hheld, howner, -⟩ | ⟨n', hsend, -⟩ :=
    (n.close owner id).accepts_or_keeps owner id frame
  · rw [close, Table.get?_mapValues] at hc
    obtain ⟨old, -, rfl⟩ := Option.map_eq_some_iff.1 hc
    -- a connection of this opener is not held any more
    by_cases hold : old.owner = owner
    · simp [hold] at hheld
    · simp [hold] at howner
  · rw [hsend]

end Network

/-! ## A network with a journal

What was seen of a connection is what was noted of it since it was opened. A number that is given
out again starts anew, which is why opening is a note too. -/

namespace Traffic

variable {I V E M : Type}

/-- What is noted of another connection is not. -/
theorem seen_note_of_ne (t : Traffic I V E M) {id id' : ConnectionId} (h : id' ≠ id)
    (sightings : List Sighting) : (t.note id' sightings).seen id = t.seen id := by
  unfold seen note
  rw [List.foldl_append, List.foldl_map]
  simp [h]

/-- What is noted of a connection is added to what was seen of it. -/
theorem seen_note_self (t : Traffic I V E M) (id : ConnectionId) (sightings : List Sighting)
    (h : ∀ sighting ∈ sightings, sighting ≠ .opened) :
    (t.note id sightings).seen id = t.seen id ++ sightings := by
  unfold seen note
  rw [List.foldl_append, List.foldl_map]
  generalize t.journal.foldl _ [] = seen
  -- on what is noted: none of it opens the connection, which would drop what was seen
  induction sightings generalizing seen with
  | nil => simp
  | cons sighting sightings ih =>
    have hhead : sighting ≠ .opened := h sighting List.mem_cons_self
    have htail := ih (fun x hx => h x (List.mem_cons_of_mem _ hx)) (seen ++ [sighting])
    cases sighting with
    | opened => exact absurd rfl hhead
    | _ => simpa using htail

theorem seen_note_opened (t : Traffic I V E M) (id : ConnectionId) :
    (t.note id [.opened]).seen id = [] := by
  simp [seen, note]

/-! ## Runs

The invariant is that of `Links`, for every connection by itself. An event changes one link at most,
by accepting a frame or by serving one, and `Sound.insert` says what is to be shown then. -/

/-- The link of a connection; an empty one when there is no connection. -/
def link (t : Traffic I V E M) (id : ConnectionId) : Link :=
  ((t.network.connections.get? id).map Connection.link).getD .empty

theorem link_eq {t : Traffic I V E M} {id : ConnectionId} {c : Connection}
    (hc : t.network.connections.get? id = some c) : t.link id = c.link := by
  rw [link, hc]
  rfl

/-- What was seen of a connection is what a link is to do with the frames that were accepted. -/
def Follows (fates : ConnectionId → Nat → FaultAction) (t : Traffic I V E M) (id : ConnectionId)
    (l : Link) : Prop :=
  l.Follows (fates id) (t.accepted id) (t.taken id) (t.handed id) (t.heard id)

structure Sound (fates : ConnectionId → Nat → FaultAction) (t : Traffic I V E M) : Prop where
  hosts : ∀ {worker number}, t.network.registered.get? worker = some number →
    ∃ server, t.network.servers.get? number = some server
  ends : ∀ {id c}, t.network.connections.get? id = some c →
    ∃ server, t.network.servers.get? c.server = some server
  follows : ∀ id, t.Follows fates id (t.link id)

variable {fates : ConnectionId → Nat → FaultAction} {t : Traffic I V E M}

theorem Follows.of_seen {u : Traffic I V E M} {id : ConnectionId} {l : Link}
    (h : t.Follows fates id l) (hseen : u.seen id = t.seen id) : u.Follows fates id l := by
  unfold Follows accepted taken handed heard at h ⊢
  rw [hseen]
  exact h

/-- What is newly seen continues what was accepted, taken, handed and heard. -/
theorem follows_note {id : ConnectionId} {l : Link} {sightings : List Sighting}
    (network : Network I V E M) (hopened : ∀ sighting ∈ sightings, sighting ≠ .opened)
    (h : l.Follows (fates id) (t.accepted id ++ sightings.filterMap Sighting.accepted?)
      (t.taken id ++ sightings.filterMap Sighting.taken?)
      (t.handed id ++ sightings.filterMap Sighting.handed?)
      (t.heard id ++ sightings.filterMap Sighting.heard?)) :
    ({ t with network }.note id sightings).Follows fates id l := by
  have hseen : ({ t with network }.note id sightings).seen id = t.seen id ++ sightings :=
    seen_note_self { t with network } id sightings hopened
  unfold Follows accepted taken handed heard
  simp only [hseen, List.filterMap_append]
  exact h

theorem sound_start (fates : ConnectionId → Nat → FaultAction) :
    (start : Traffic I V E M).Sound fates where
  hosts h := nomatch h
  ends h := nomatch h
  follows _ := Link.follows_empty _

/-- What leaves the links alone leaves what was seen, and so the invariant. -/
theorem Sound.of_keeps (h : t.Sound fates) {n : Network I V E M} (hkeeps : t.network.Keeps n) :
    Sound fates { t with network := n } where
  hosts := by
    intro worker number hnumber
    rcases hkeeps.registered hnumber with hold | hnew
    · obtain ⟨server, hserver⟩ := h.hosts hold
      exact hkeeps.servers hserver
    · exact hnew
  ends := by
    intro id c' hc'
    have hlinks := hkeeps.links id
    simp only [hc', Option.map_some] at hlinks
    obtain ⟨c, hc, heq⟩ := Option.map_eq_some_iff.1 hlinks.symm
    obtain ⟨server, hget⟩ := h.ends hc
    rw [(Prod.mk.inj heq).1] at hget
    exact hkeeps.servers hget
  follows := by
    intro id
    have hlink : link { t with network := n } id = t.link id := by
      have := congrArg (Option.map Prod.snd) (hkeeps.links id)
      simp only [Option.map_map] at this
      exact congrArg (Option.getD · .empty) this
    rw [hlink]
    exact (h.follows id).of_seen rfl

/-- One connection gets another link, or is opened, and something is seen of it. -/
theorem Sound.insert (h : t.Sound fates) (id : ConnectionId) (c : Connection)
    (network : Network I V E M) (hregistered : network.registered = t.network.registered)
    (hservers : ∀ {number server}, t.network.servers.get? number = some server →
      ∃ server', network.servers.get? number = some server')
    (hconnections : network.connections = t.network.connections.insert id c)
    (hserver : ∃ server, t.network.servers.get? c.server = some server)
    {sightings : List Sighting}
    (hfollows : ({ t with network }.note id sightings).Follows fates id c.link) :
    ({ t with network }.note id sightings).Sound fates where
  hosts := by
    intro worker number hnumber
    obtain ⟨server, hget⟩ := h.hosts (hregistered ▸ hnumber)
    exact hservers hget
  ends := by
    intro id' c' hc'
    simp only [note, hconnections, Table.get?_insert] at hc'
    split at hc'
    · cases hc'
      obtain ⟨server, hget⟩ := hserver
      exact hservers hget
    · obtain ⟨server, hget⟩ := h.ends hc'
      exact hservers hget
  follows := by
    intro id'
    -- the other connections keep their links, and nothing was seen of them
    by_cases hid : id' = id
    · subst hid
      rw [link_eq (c := c) (by simp [note, hconnections])]
      exact hfollows
    · have hlink : ({ t with network }.note id sightings).link id' = t.link id' := by
        simp [link, note, hconnections, Table.get?_insert_of_ne _ _ hid]
      rw [hlink]
      exact (h.follows id').of_seen (seen_note_of_ne _ (Ne.symm hid) _)

theorem Sound.connect (h : t.Sound fates) (owner : Endpoint) (worker : WorkerId) :
    (t.connect owner worker).Sound fates := by
  unfold Traffic.connect
  obtain ⟨number, hnumber, hconnect⟩ | ⟨e, hconnect⟩ := t.network.connect_cases owner worker
  · rw [hconnect]
    let id : ConnectionId := ⟨UInt64.ofNat t.network.nextConnection⟩
    refine h.insert id ⟨owner, number, true, .empty⟩ { t.network with
      connections := t.network.connections.insert id ⟨owner, number, true, .empty⟩
      nextConnection := t.network.nextConnection + 1 } rfl
      (fun hget => ⟨_, hget⟩) rfl (h.hosts hnumber) ?_
    unfold Follows accepted taken handed heard
    -- nothing was seen of it yet, and its link is empty
    rw [seen_note_opened]
    exact Link.follows_empty _
  · rw [hconnect]
    exact h

theorem Sound.send (h : t.Sound fates) (owner : Endpoint) (id : ConnectionId) (frame : Bytes) :
    (t.send owner id frame).Sound fates := by
  unfold Traffic.send
  obtain ⟨c, link, hc, -, -, haccept, hsend⟩ | ⟨n, hsend, hkeeps⟩ :=
    t.network.accepts_or_keeps owner id frame
  · rw [hsend]
    refine h.insert id { c with link } { t.network with
      connections := t.network.connections.insert id { c with link } } rfl
      (fun hget => ⟨_, hget⟩) rfl (h.ends (c := c) hc) (follows_note _ (by simp) ?_)
    have haccepted := Link.Follows.accept (link_eq hc ▸ h.follows id) haccept
    rw [← List.append_nil (t.taken id), ← List.append_nil (t.handed id),
      ← List.append_nil (t.heard id)] at haccepted
    exact haccepted
  · rw [hsend]
    exact h.of_keeps hkeeps

/-! ## Serving

Serving takes a frame off one link and hands it to the server at the end, which may change. What is
noted comes from the link and from the answers of the server, in the order in which the opener hears
them. -/

/-- Nothing of the connection is left to be served. -/
def Idle (t : Traffic I V E M) (id : ConnectionId) : Prop := (t.link id).pop? = none

variable [VertexId I] [Value V] [Value E] [Value M]

/-- A connection without anything to be served stays as it is. -/
theorem Idle.serve {id : ConnectionId} (h : t.Idle id) (action : FaultAction) :
    t.serve id action = t := by
  unfold Traffic.serve
  cases hc : t.network.connections.get? id with
  | none => simp only [hc]
  | some c =>
    rw [Idle, link_eq hc] at h
    simp only [hc, h]

/-- What one kind of note picks out of a serving. -/
theorem filterMap_sightings {A : Type} (f : Sighting → Option A) (server : Server I V E M)
    (frame : Bytes) (again : Bool) (heard : List Heard) (handled : List Bytes) :
    (sightings server frame again heard handled).filterMap f
      = (if again then [] else (f (.taken frame)).toList)
        ++ handled.filterMap (fun bytes => f (.handed bytes (server.handle bytes).1))
        ++ heard.filterMap fun what => f (.heard what) := by
  rw [sightings, List.filterMap_append, List.filterMap_append, List.filterMap_map,
    List.filterMap_map]
  cases again with
  | true => rfl
  | false => cases hf : f (.taken frame) <;> simp [hf]

theorem accepted_sightings (server : Server I V E M) (frame : Bytes) (again : Bool)
    (heard : List Heard) (handled : List Bytes) :
    (sightings server frame again heard handled).filterMap Sighting.accepted? = [] := by
  rw [filterMap_sightings]
  cases again <;> simp [Sighting.accepted?]

theorem ne_opened_of_mem_sightings {server : Server I V E M} {frame : Bytes} {again : Bool}
    {heard : List Heard} {handled : List Bytes} :
    ∀ sighting ∈ sightings server frame again heard handled, sighting ≠ .opened := by
  rintro sighting hmem rfl
  cases again <;> simp [sightings] at hmem

/-- **What serving a connection does.** Nothing when nothing is left to be served, or it takes the
next frame and does with it what the link does. -/
theorem Sound.serve_cases (h : t.Sound fates) (id : ConnectionId) (action : FaultAction) :
    t.Idle id ∨ ∃ c server frame again link served n, t.network.connections.get? id = some c
      ∧ c.link.pop? = some (frame, again, link)
      ∧ t.network.servers.get? c.server = some server
      ∧ link.carry (fun bytes server => server.handle bytes) frame server
        (if again then .deliver else action.on frame) = served
      ∧ n.registered = t.network.registered
      ∧ n.connections = t.network.connections.insert id { c with link := served.link }
      ∧ n.servers = t.network.servers.insert c.server served.server
      ∧ t.serve id action = { t with network := n }.note id
        (sightings server frame again served.heard served.handled) := by
  cases hc : t.network.connections.get? id with
  | none => exact Or.inl (by rw [Idle, link, hc]; rfl)
  | some c =>
    obtain ⟨server, hserver⟩ := h.ends hc
    cases hpop : c.link.pop? with
    | none => exact Or.inl (by rw [Idle, link_eq hc, hpop])
    | some next =>
      obtain ⟨frame, again, link⟩ := next
      -- a second copy is always delivered; otherwise the next action in store is taken
      have hchoice : (if again then (FaultAction.deliver, FaultPlan.always action)
          else (FaultPlan.always action).actionFor frame)
          = (if again then FaultAction.deliver else action.on frame, .always action) := by
        rw [FaultPlan.actionFor_always]
        cases again <;> rfl
      obtain ⟨served, hserved⟩ : ∃ served, link.carry (fun bytes server => server.handle bytes)
        frame server (if again then .deliver else action.on frame) = served := ⟨_, rfl⟩
      refine Or.inr ⟨c, server, frame, again, link, served, { t.network with
        connections := t.network.connections.insert id { c with link := served.link }
        servers := t.network.servers.insert c.server served.server
        plan := .always action }, rfl, hpop, hserver, hserved, rfl, rfl, rfl, ?_⟩
      subst hserved
      unfold Traffic.serve Network.serve
      simp only [hc, hpop, hserver, Option.bind_eq_bind, Option.bind_some, hchoice]
      rfl

/-- Serving a connection takes up the actions in store for its frames. -/
theorem Sound.serve (h : t.Sound fates) (id : ConnectionId) :
    (t.serve id (fates id (t.taken id).length)).Sound fates := by
  rcases h.serve_cases id (fates id (t.taken id).length) with
    hidle | ⟨c, server, frame, again, link, served, n, hc, hpop, hserver, hserved,
      hregistered, hconnections, hservers, heq⟩
  · rw [hidle.serve]
    exact h
  · have hserve := Link.Follows.serve (link_eq hc ▸ h.follows id) hpop _ server hserved
    rw [heq]
    refine h.insert id { c with link := served.link } n hregistered ?_ hconnections
      ⟨server, hserver⟩ (follows_note _ ne_opened_of_mem_sightings ?_)
    · intro number old hold
      rw [hservers, Table.get?_insert]
      split
      · exact ⟨_, rfl⟩
      · exact ⟨old, hold⟩
    · rw [accepted_sightings, List.append_nil]
      simp only [filterMap_sightings]
      cases again <;>
        simpa [Sighting.taken?, Sighting.handed?, Sighting.heard?] using hserve

/-- **No event disturbs what is under way on a connection.** -/
theorem Sound.step (h : t.Sound fates) (e : Event I V E M) : (t.step fates e).Sound fates := by
  cases e with
  | register server => exact h.of_keeps (t.network.keeps_register server)
  | deregister worker => exact h.of_keeps (t.network.keeps_deregister worker)
  | reach worker reachable => exact h.of_keeps ⟨Or.inl, fun hget => ⟨_, hget⟩, fun _ => rfl⟩
  | change number f => exact h.of_keeps (t.network.keeps_modify number f)
  | connect owner worker => exact h.connect owner worker
  | send owner connection frame => exact h.send owner connection frame
  | close owner connection => exact h.of_keeps (t.network.keeps_close owner connection)
  | closeAll owner => exact h.of_keeps (t.network.keeps_closeAll owner)
  | serve connection => exact h.serve connection

/-- The invariant holds in every run. -/
theorem Sound.run (h : t.Sound fates) (events : List (Event I V E M)) :
    (t.run fates events).Sound fates := by
  induction events generalizing t with
  | nil => exact h
  | cons e events ih => exact ih (h.step e)

/-! ## Serving until nothing is left

The number of frames that wait goes down with each serving, those that are to be taken twice counted
twice. So twice the accepted frames are always enough. -/

theorem Idle.run {id : ConnectionId} (h : t.Idle id) (n : Nat) :
    t.run fates (List.replicate n (.serve id)) = t := by
  induction n with
  | zero => rfl
  | succ n ih =>
    have hstep : t.step fates (.serve id) = t := h.serve _
    rw [List.replicate_succ, Traffic.run, List.foldl_cons, hstep]
    exact ih

/-- Each time, one less is waiting. -/
theorem Sound.waiting_serve (h : t.Sound fates) (id : ConnectionId) (action : FaultAction) :
    t.Idle id ∨ (((t.serve id action).link id).waiting < (t.link id).waiting
      ∧ (t.serve id action).accepted id = t.accepted id) := by
  rcases h.serve_cases id action with
    hidle | ⟨c, server, frame, again, link, served, n, hc, hpop, -, hserved, -, hconnections, -,
      heq⟩
  · exact Or.inl hidle
  · have hnext : (t.serve id action).network.connections.get? id
        = some { c with link := served.link } := by
      rw [heq, note, hconnections]
      exact Table.get?_insert_self _ _ _
    have hseen : (t.serve id action).seen id
        = t.seen id ++ sightings server frame again served.heard served.handled := by
      rw [heq]
      exact seen_note_self { t with network := n } id _ ne_opened_of_mem_sightings
    refine Or.inr ⟨?_, ?_⟩
    · rw [link_eq hc, link_eq hnext, ← hserved]
      exact Link.waiting_carry hpop _ server _
    · rw [accepted, hseen, List.filterMap_append, accepted_sightings, List.append_nil, accepted]

/-- **A connection that is served often enough has nothing left.** -/
theorem Sound.drain (h : t.Sound fates) {id : ConnectionId} {n : Nat}
    (hn : (t.link id).waiting ≤ n) :
    (t.run fates (List.replicate n (.serve id))).accepted id = t.accepted id
      ∧ (t.run fates (List.replicate n (.serve id))).Idle id := by
  -- on the number of servings, which bounds what waits
  induction n generalizing t with
  | zero => exact ⟨rfl, Link.pop?_of_waiting (Nat.le_zero.1 hn)⟩
  | succ n ih =>
    rcases h.waiting_serve id (fates id (t.taken id).length) with hidle | ⟨hless, haccepted⟩
    · rw [hidle.run]
      exact ⟨rfl, hidle⟩
    · have hdrain := ih (h.step (.serve id)) (Nat.le_of_lt_succ (Nat.lt_of_lt_of_le hless hn))
      exact ⟨hdrain.1.trans haccepted, hdrain.2⟩

/-- Once the connection was served often enough, all that is due was delivered. -/
def Delivers (fates : ConnectionId → Nat → FaultAction) (t : Traffic I V E M)
    (id : ConnectionId) : Prop :=
  let u := t.run fates (List.replicate (2 * (t.accepted id).length) (.serve id))
  let frames := Link.fated (fates id) (t.accepted id)
  u.accepted id = t.accepted id
    ∧ (u.handed id).map Prod.fst = (Link.due frames).map Prod.fst
    ∧ u.heard id = Link.replies (u.handed id) (Link.due frames) ++ Link.closing (Link.Cuts frames)

theorem Sound.delivers (h : t.Sound fates) (id : ConnectionId) : t.Delivers fates id := by
  obtain ⟨haccepted, hidle⟩ := h.drain (Link.Follows.waiting_le (h.follows id))
  have hfollows := (h.run (List.replicate (2 * (t.accepted id).length) (.serve id))).follows id
  obtain ⟨hhanded, hcut⟩ := Link.Follows.of_idle hfollows hidle
  have hheard := Link.Follows.heard_eq hfollows
  rw [haccepted] at hhanded hcut hheard
  refine ⟨haccepted, hhanded, hheard.trans ?_⟩
  rw [decide_eq_decide.2 hcut]

/-! ## After a cut

A link that was cut accepts nothing and has nothing to serve. Whoever opens a connection under its
number gets a new link. -/

/-- A cut link serves nothing and takes nothing. -/
theorem Sound.of_closed (h : t.Sound fates) {id : ConnectionId} (hclosed : .closed ∈ t.heard id) :
    t.network.serve id = none
      ∧ ∀ owner frame, (t.network.send owner id frame).1 = .error .connectionClosed := by
  have hcut := Link.Follows.cut_of_closed (h.follows id) hclosed
  refine ⟨?_, ?_⟩
  · unfold Network.serve
    cases hc : t.network.connections.get? id with
    | none => rfl
    | some c =>
      rw [link_eq hc] at hcut
      simp [Link.pop?_of_cut hcut]
  · intro owner frame
    obtain ⟨c, link, hc, -, -, haccept, -⟩ | ⟨n, hsend, -⟩ :=
      t.network.accepts_or_keeps owner id frame
    · rw [link_eq hc] at hcut
      simp [Link.accept?, hcut] at haccept
    · rw [hsend]

/-- After a cut nothing is seen any more, unless the number is given to a new connection. -/
theorem Sound.step_of_closed (h : t.Sound fates) {id : ConnectionId}
    (hclosed : .closed ∈ t.heard id) (e : Event I V E M) :
    (t.step fates e).seen id = t.seen id ∨ (t.step fates e).seen id = [] := by
  have hcut := Link.Follows.cut_of_closed (h.follows id) hclosed
  -- only three events write anything down, and two of them need a link that is not cut
  cases e with
  | connect owner worker =>
    simp only [Traffic.step, Traffic.connect]
    obtain ⟨number, -, hconnect⟩ | ⟨e, hconnect⟩ := t.network.connect_cases owner worker
    · rw [hconnect]
      by_cases hid : (⟨UInt64.ofNat t.network.nextConnection⟩ : ConnectionId) = id
      · subst hid
        exact Or.inr (seen_note_opened _ _)
      · exact Or.inl (seen_note_of_ne _ hid _)
    · rw [hconnect]
      exact Or.inl rfl
  | send owner id' frame =>
    simp only [Traffic.step, Traffic.send]
    obtain ⟨c, link, hc, -, -, haccept, hsend⟩ | ⟨n, hsend, -⟩ :=
      t.network.accepts_or_keeps owner id' frame
    · rw [hsend]
      refine Or.inl (seen_note_of_ne _ ?_ _)
      rintro rfl
      rw [link_eq hc] at hcut
      simp [Link.accept?, hcut] at haccept
    · rw [hsend]
      exact Or.inl rfl
  | serve id' =>
    simp only [Traffic.step]
    rcases h.serve_cases id' (fates id' (t.taken id').length) with
      hidle | ⟨c, server, frame, again, link, served, n, hc, hpop, -, -, -, -, -, heq⟩
    · rw [hidle.serve]
      exact Or.inl rfl
    · rw [heq]
      refine Or.inl (seen_note_of_ne _ ?_ _)
      rintro rfl
      rw [link_eq hc] at hcut
      simp [Link.pop?_of_cut hcut] at hpop
  | _ => exact Or.inl rfl

/-- **Nothing comes after a cut**, as long as the number is not given to a new connection. -/
theorem Sound.run_of_closed (h : t.Sound fates) {id : ConnectionId}
    (hclosed : .closed ∈ t.heard id) {more : List (Event I V E M)}
    (hopened : ∀ before, before <+: more → (t.run fates before).seen id ≠ []) :
    (t.run fates more).seen id = t.seen id := by
  -- what was seen stays the same with the first event, so that the cut is still heard
  induction more generalizing t with
  | nil => rfl
  | cons e more ih =>
    have hfirst : (t.step fates e).seen id ≠ [] :=
      hopened [e] ((List.prefix_cons_inj e).2 List.nil_prefix)
    have hseen := (h.step_of_closed hclosed e).resolve_right hfirst
    have hclosed' : .closed ∈ (t.step fates e).heard id := by
      rw [heard, hseen]
      exact hclosed
    refine (ih (h.step e) hclosed' fun before hbefore => ?_).trans hseen
    exact hopened (e :: before) ((List.prefix_cons_inj e).2 hbefore)

/-- **A connection delivers in order up to a cut**, in every run of a network in which these actions
are in store for the frames of each connection.

The server is given what is due of the accepted frames, in order, and the opener hears its answers
but for the lost ones, and once that the link was cut if it was. After that nothing more is served
or accepted, until the number is given to a new connection, of which nothing was seen yet. Whatever
is accepted is taken off the link and delivered if the connection is only served, and the same holds
after its opener closed it: the close by itself is not heard, and keeps nothing but further frames
from the link. -/
theorem in_order (fates : ConnectionId → Nat → FaultAction) (events : List (Event I V E M))
    (id : ConnectionId) :
    let t := start.run fates events
    let due := Link.due (Link.fated (fates id) (t.accepted id))
    t.taken id <+: t.accepted id
      ∧ (t.handed id).map Prod.fst <+: due.map Prod.fst
      ∧ t.heard id = Link.replies (t.handed id) due
        ++ Link.closing (Link.Cuts (Link.fated (fates id) (t.taken id)))
      ∧ (t.heard id).count .closed
        = (if Link.Cuts (Link.fated (fates id) (t.taken id)) then 1 else 0)
      ∧ t.Delivers fates id
      ∧ (.closed ∈ t.heard id → (t.handed id).map Prod.fst = due.map Prod.fst
        ∧ ∀ more, (∀ before, before <+: more → (t.run fates before).seen id ≠ []) →
          (t.run fates more).seen id = t.seen id ∧ (t.run fates more).network.serve id = none
            ∧ ∀ owner frame, ((t.run fates more).network.send owner id frame).1
              = .error .connectionClosed)
      ∧ ∀ owner, let closed := t.step fates (.close owner id)
        closed.seen id = t.seen id ∧ closed.Delivers fates id
          ∧ ∀ frame, (closed.network.send owner id frame).1 = .error .connectionClosed := by
  intro t due
  have hsound : t.Sound fates := (sound_start fates).run events
  have hfollows := hsound.follows id
  refine ⟨?_, Link.Follows.handed_isPrefix hfollows, Link.Follows.heard_eq hfollows,
    Link.Follows.count_closed hfollows, hsound.delivers id, ?_, ?_⟩
  · exact ⟨(t.link id).queue, hfollows.backlog.symm⟩
  · intro hclosed
    -- once the cut was heard the link is cut, and all that is due was delivered
    have hcut := Link.Follows.cut_of_closed hfollows hclosed
    refine ⟨(Link.Follows.of_idle hfollows (Link.pop?_of_cut hcut)).1, ?_⟩
    intro more hopened
    have hseen := hsound.run_of_closed hclosed hopened
    have hclosed' : .closed ∈ (t.run fates more).heard id := by
      rw [heard, hseen]
      exact hclosed
    exact ⟨hseen, (hsound.run more).of_closed hclosed'⟩
  · intro owner closed
    refine ⟨rfl, (hsound.step (.close owner id)).delivers id, ?_⟩
    intro frame
    exact t.network.send_close owner id frame

def errand (id : UInt8) : Bytes :=
  [1, 0, 0, 0, 9, 0, 0, 0, 0, 0, 0, 0, id, 1, 0, 0, 0, 4, 0, 0, 0, 0]

/-- The first answer is lost, the next two frames are doubled if they are requests, and then the
link is cut. -/
def mishaps (_ : ConnectionId) (k : Nat) : FaultAction :=
  [.dropResponse, .duplicate, .duplicate, .closeConnection].getD k .deliver

/-- Requests and a frame that is none, and a close before any of them is served. -/
def hasty : List (Event UInt64 UInt64 UInt64 UInt64) :=
  [.register (.new ⟨1⟩ Config.testing.partition false), .connect .raw ⟨1⟩,
    .send .raw ⟨1⟩ (errand 0), .send .raw ⟨1⟩ [0], .send .raw ⟨1⟩ (errand 1),
    .send .raw ⟨1⟩ (errand 2), .send .raw ⟨1⟩ (errand 3), .close .raw ⟨1⟩,
    .send .raw ⟨1⟩ (errand 4)]

theorem in_order_hasty :
    let t := start.run mishaps hasty
    let u := t.run mishaps (List.replicate 10 (.serve ⟨1⟩))
    t.heard ⟨1⟩ = [] ∧ (u.handed ⟨1⟩).map Prod.fst = [errand 0, [0], errand 1, errand 1]
      ∧ .closed ∈ u.heard ⟨1⟩ ∧ u.network.serve ⟨1⟩ = none := by
  intro t u
  have haccepted : t.accepted ⟨1⟩ = [errand 0, [0], errand 1, errand 2, errand 3] := by
    decide +kernel
  have hquiet : t.heard ⟨1⟩ = [] := by decide +kernel
  have hdelivers : t.Delivers mishaps ⟨1⟩ := (in_order mishaps hasty ⟨1⟩).2.2.2.2.1
  have hclosed := (in_order mishaps (hasty ++ List.replicate 10 (.serve ⟨1⟩)) ⟨1⟩).2.2.2.2.2.1
  rw [show start.run mishaps (hasty ++ List.replicate 10 (.serve ⟨1⟩)) = u from List.foldl_append]
    at hclosed
  have hu : u = t.run mishaps (List.replicate 10 (.serve ⟨1⟩)) := rfl
  clear_value u t
  rw [Delivers, show 2 * (t.accepted ⟨1⟩).length = 10 by rw [haccepted]; rfl, ← hu, haccepted]
    at hdelivers
  obtain ⟨-, hhanded, hheard⟩ := hdelivers
  have hcut : Heard.closed ∈ u.heard ⟨1⟩ := by
    rw [hheard]
    exact List.mem_append_right _ (by decide +kernel)
  have hopened : u.seen ⟨1⟩ ≠ [] := by
    intro hnil
    rw [heard, hnil] at hcut
    cases hcut
  refine ⟨hquiet, hhanded.trans (by decide +kernel), hcut, ?_⟩
  refine ((hclosed hcut).2 [] fun before hbefore => ?_).2.1
  rw [List.prefix_nil.1 hbefore]
  exact hopened

end Traffic

end Superstep
