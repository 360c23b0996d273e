import Mathlib.Data.List.Perm.Lattice
import Mathlib.Logic.Function.Basic
import Superstep.Proofs.Redispatch

/-!
# Superstep — the books on connections

A coordinator opens connections when it has something to send, forgets them when it cannot write or
hears that they were closed, and closes what it does not need. What it hears may be about a
connection that was replaced long ago.

* **`step_switched`** — everything that an event can do to the connections in use: nothing, or one
  is opened where there was none, or one is lost and this is written down, or all are given up;
* **`Accounted`** — the invariant: a connection that was opened is in use, was given to the
  transport to be closed, or was reported closed;
* **`Winding`** — what the shutdown leaves to do: a thread that waits for a connection has waited
  for one before, and so has one that hands over frames without asking again;
* **`live_shutdown_iff`**, **`writing_shutdown_iff`** — when a connection comes into use after the
  shutdown, and when a frame is handed over;
* **`connections_accounted`** — what follows for runs in which the transport hands out a connection
  id once;
* **`connected_after_shutdown`** — a connection that comes into use after the shutdown and that
  nobody closes.
-/

namespace Superstep

open Coordinator

/-- The connection that a connect was answered with, with its destination. -/
def Note.opening? : Note → Option (WorkerId × ConnectionId)
  | connected peer answer => answer.map fun connection => (peer, connection)
  | _ => none

namespace Coordinator

/-! ## Who has which connection

A connection is recorded with its destination only. To find out whose it is a coordinator goes
through its destinations, and takes the first one that has it. -/

/-- Who is found to have a connection does have it. -/
theorem live_of_holder? {c : Coordinator} {connection : ConnectionId} {w : WorkerId}
    (h : c.holder? connection = some w) : c.live w = some connection := by
  obtain ⟨⟨w', p⟩, hfind, rfl⟩ := Option.map_eq_some_iff.1 h
  have hget := Table.mem_toList_iff.1 (List.mem_of_find?_eq_some hfind)
  have hconnection := List.find?_some hfind
  rw [decide_eq_true_eq] at hconnection
  rw [live, peer, hget]
  exact hconnection

/-- When nobody is found to have a connection, nobody has it. -/
theorem live_ne_of_holder? {c : Coordinator} {connection : ConnectionId}
    (h : c.holder? connection = none) (w : WorkerId) : c.live w ≠ some connection := by
  intro hlive
  rw [live, peer] at hlive
  cases hget : c.peers.get? w with
  | none =>
    rw [hget] at hlive
    cases hlive
  | some p =>
    rw [hget] at hlive
    have hnone := List.find?_eq_none.1 (Option.map_eq_none_iff.1 h) _ (Table.mem_toList_iff.2 hget)
    exact hnone (decide_eq_true hlive)

def connectedPeers (c : Coordinator) : List WorkerId :=
  c.peers.keys.filter fun w => (c.live w).isSome

theorem mem_connectedPeers {c : Coordinator} {w : WorkerId} :
    w ∈ c.connectedPeers ↔ (c.live w).isSome = true := by
  rw [connectedPeers, List.mem_filter, and_iff_right_iff_imp]
  intro hlive
  rw [Table.mem_keys_iff]
  cases hget : c.peers.get? w with
  | none =>
    rw [live, peer, hget] at hlive
    cases hlive
  | some p => exact ⟨p, rfl⟩

theorem nodup_connectedPeers (c : Coordinator) : c.connectedPeers.Nodup :=
  c.peers.nodup_keys.filter _

/-! ## What can happen to connections

Every method of a coordinator that does not open or lose a connection `Keeps` them. This is one
lemma for each method, and with them the events are gone through only once, in `step_switched`. -/

/-- `c'` uses the connections that `live` says, and has counted so many opened and lost ones more
than `c`. -/
structure Links (c c' : Coordinator) (live : WorkerId → Option ConnectionId) (opened lost : Nat) :
    Prop where
  live : ∀ w, c'.live w = live w
  opened : c'.metrics.opened = c.metrics.opened + opened
  lost : c'.metrics.lost = c.metrics.lost + lost

/-- `c'` uses the connections that `c` uses. -/
abbrev Keeps (c c' : Coordinator) : Prop := Links c c' c.live 0 0

theorem Keeps.refl (c : Coordinator) : Keeps c c := ⟨fun _ => rfl, rfl, rfl⟩

/-- A connection is opened or lost by the first of several steps. -/
theorem Links.andKeeps {c c' c'' : Coordinator} {live : WorkerId → Option ConnectionId}
    {opened lost : Nat} (h : Links c c' live opened lost) (h' : Keeps c' c'') :
    Links c c'' live opened lost :=
  ⟨fun w => (h'.live w).trans (h.live w), h'.opened.trans h.opened, h'.lost.trans h.lost⟩

theorem keeps_setRoute (c : Coordinator) (key : RequestKey) (route : Route) :
    Keeps c (c.setRoute key route) := ⟨fun _ => rfl, rfl, rfl⟩

theorem keeps_markUnsent (c : Coordinator) (s : Shipment) : Keeps c (c.markUnsent s) := by
  unfold markUnsent
  -- the frames are marked one after another, each with a change of its route only
  induction s.frames generalizing c with
  | nil => exact .refl c
  | cons f frames ih => exact (keeps_setRoute c _ _).andKeeps (ih _)

theorem keeps_write (c : Coordinator) (connection : ConnectionId) (s : Shipment)
    (later : List Shipment) : Keeps c (c.write connection s later).1 := by
  unfold write
  dsimp only
  split
  · exact ⟨fun _ => rfl, rfl, rfl⟩
  · exact .refl c

theorem keeps_advance (c : Coordinator) (connection : ConnectionId) (s : Shipment)
    (later : List Shipment) : Keeps c (c.advance connection s later).1 := by
  unfold advance
  split
  · exact .refl c
  · exact keeps_write c _ _ _

theorem keeps_look (c : Coordinator) (t : Task) : Keeps c (c.look t).1 := by
  unfold look
  split
  · split
    · exact .refl c
    · split
      · exact keeps_write c _ _ _
      · exact .refl c
  · exact keeps_markUnsent c _
  · next connection s later =>
    have hroute : Keeps c { c.setRoute (s.peer, s.first.1) .unsent with resendRequested := true } :=
      ⟨fun _ => rfl, rfl, rfl⟩
    exact hroute.andKeeps (keeps_advance _ _ _ _)
  · exact .refl c

theorem keeps_afterWrite (c : Coordinator) (connection : ConnectionId) (s : Shipment)
    (later : List Shipment) : Keeps c (c.afterWrite connection s later true).coordinator := by
  have hflag : ∀ c : Coordinator, Keeps c { c with resendRequested := true } :=
    fun _ => ⟨fun _ => rfl, rfl, rfl⟩
  simp only [afterWrite, if_true]
  split
  · exact (keeps_setRoute c _ _).andKeeps (keeps_advance _ _ _ _)
  · exact ((keeps_setRoute c _ _).andKeeps (hflag _)).andKeeps (keeps_advance _ _ _ _)

theorem keeps_refused (c : Coordinator) (w : WorkerId) : Keeps c (c.refused w) := by
  refine ⟨live_refused c w, ?_, ?_⟩ <;>
  · unfold refused
    dsimp only
    split <;> rfl

theorem keeps_resend (c : Coordinator) (now : Nat) : Keeps c (c.resend now).1 := by
  refine ⟨live_resend c now, ?_, ?_⟩ <;>
  · unfold resend
    split <;> rfl

theorem keeps_onResponse (c : Coordinator) (bytes : Bytes) : Keeps c (c.onResponse bytes) := by
  refine ⟨live_onResponse c bytes, ?_, ?_⟩ <;>
  · rcases onResponse_spec c bytes with ⟨h, _⟩ | ⟨_, _, _, h, _⟩ | ⟨_, _, _, _, h, _⟩ <;>
    · rw [h]
      rfl

theorem keeps_await (c : Coordinator) : Keeps c c.await.2 := by
  rcases await_spec c with h | ⟨_, h⟩ | ⟨_, _, h, _⟩ <;>
  · rw [h]
    exact ⟨fun _ => rfl, rfl, rfl⟩

theorem keeps_send {c c' : Coordinator} {now : Nat} {peer : WorkerId} {type : RequestType}
    {payload : Bytes} {id : RequestId} {task : Task}
    (h : c.send now peer type payload = .ok (id, c', task)) : Keeps c c' := by
  have hlive : ∀ w, c'.live w = c.live w := fun _ => live_send h
  obtain ⟨_, _, _, _, rfl⟩ := send_inv h
  exact ⟨hlive, rfl, rfl⟩

/-- A connection is taken into use. -/
theorem links_connected (c : Coordinator) (w : WorkerId) (connection : ConnectionId) :
    Links c (c.connected w connection) (Function.update c.live w (some connection)) 1 0 where
  live w' := by
    rw [live_connected, Function.update_apply]
  opened := rfl
  lost := rfl

/-- A connection is forgotten, if any destination has it. -/
theorem forget_cases (c : Coordinator) (connection : ConnectionId) :
    (c.forget connection = c ∧ ∀ w, c.live w ≠ some connection)
      ∨ ∃ w, c.live w = some connection
        ∧ Links c (c.forget connection) (Function.update c.live w none) 0 1 := by
  unfold forget
  split
  · next hnone => exact .inl ⟨rfl, live_ne_of_holder? hnone⟩
  · next w hsome =>
    refine .inr ⟨w, live_of_holder? hsome, ⟨fun w' => ?_, rfl, rfl⟩⟩
    rw [live_count, live_setPeer, Function.update_apply]

/-- **After the shutdown** no connection is in use, and all that were are to be closed. -/
theorem shutdown_links {c : Coordinator} (hopen : c.stopped = false) :
    (∀ w, c.shutdown.2.live w = none)
      ∧ ∀ w connection, c.live w = some connection → connection ∈ c.shutdown.1 := by
  rw [shutdown, hopen]
  refine ⟨fun w => ?_, fun w connection hlive => ?_⟩
  · simp only [Bool.false_eq_true, if_false, live, peer, Table.get?_mapValues]
    cases c.peers.get? w <;> rfl
  · rw [live, peer] at hlive
    cases hget : c.peers.get? w with
    | none =>
      rw [hget] at hlive
      cases hlive
    | some p =>
      rw [hget] at hlive
      exact List.mem_filterMap.2
        ⟨p, List.mem_map.2 ⟨(w, p), Table.mem_toList_iff.2 hget, rfl⟩, hlive⟩

/-! ## How many destinations have one

When a connection is opened or lost, the destinations with a connection are those from before and
one more or one less. They are listed in the order of the table, so this is up to order. -/

theorem perm_connectedPeers_of_open {c c' : Coordinator} {w : WorkerId} {connection : ConnectionId}
    (hnone : c.live w = none)
    (hlive : ∀ w', c'.live w' = Function.update c.live w (some connection) w') :
    c'.connectedPeers.Perm (w :: c.connectedPeers) := by
  have hnew : w ∉ c.connectedPeers := by
    rw [mem_connectedPeers, hnone]
    exact Bool.false_ne_true
  rw [List.perm_ext_iff_of_nodup c'.nodup_connectedPeers
    (List.nodup_cons.2 ⟨hnew, c.nodup_connectedPeers⟩)]
  intro w'
  rw [List.mem_cons, mem_connectedPeers, mem_connectedPeers, hlive, Function.update_apply]
  by_cases heq : w' = w <;> simp [heq]

theorem perm_connectedPeers_of_lose {c c' : Coordinator} {w : WorkerId} {connection : ConnectionId}
    (hsome : c.live w = some connection)
    (hlive : ∀ w', c'.live w' = Function.update c.live w none w') :
    c.connectedPeers.Perm (w :: c'.connectedPeers) := by
  have hnone : c'.live w = none := by rw [hlive, Function.update_self]
  -- read backwards, losing a connection is opening it
  have hback : ∀ w', c.live w' = Function.update c'.live w (some connection) w' := by
    intro w'
    rw [Function.update_apply, hlive, Function.update_apply]
    by_cases heq : w' = w <;> simp [heq, hsome]
  exact perm_connectedPeers_of_open hnone hback

theorem perm_connectedPeers_of_keep {c c' : Coordinator} (hlive : ∀ w, c'.live w = c.live w) :
    c'.connectedPeers.Perm c.connectedPeers := by
  rw [List.perm_ext_iff_of_nodup c'.nodup_connectedPeers c.nodup_connectedPeers]
  intro w
  rw [mem_connectedPeers, mem_connectedPeers, hlive]

end Coordinator

namespace Sender

/-! ## What an event does to connections

The events that can open a connection or lose one are few: the answer to a connect, a refused write,
a report that a connection was closed, and the shutdown. A report may name a connection that was
replaced, and then nothing happens. -/

def Connecting (s : Sender) (peer : WorkerId) : Prop :=
  ∃ (thread : Nat) (shipment : Shipment) (later : List Shipment),
    s.tasks[thread]? = some (.connecting shipment later) ∧ shipment.peer = peer

/-- Everything that an event can do to the connections in use. -/
inductive Switched (s s' : Sender) : Prop
  | kept (hstep : Keeps s.coordinator s'.coordinator)
  | opened (peer : WorkerId) (connection : ConnectionId) (hnone : s.coordinator.live peer = none)
      (hwaits : s.Connecting peer)
      (hstep : Links s.coordinator s'.coordinator
        (Function.update s.coordinator.live peer (some connection)) 1 0)
  | lost (peer : WorkerId) (connection : ConnectionId)
      (hsome : s.coordinator.live peer = some connection)
      (hstep : Links s.coordinator s'.coordinator
        (Function.update s.coordinator.live peer none) 0 1)
      (hsaid : connection ∈ s'.asked ∨ .closed connection ∈ s'.journal)
  | stopped (hstopped : s'.coordinator.stopped = true)
      (hnone : ∀ peer, s'.coordinator.live peer = none)
      (hasked : ∀ peer connection, s.coordinator.live peer = some connection →
        connection ∈ s'.asked)

theorem mem_asked {s : Sender} {connection : ConnectionId} :
    connection ∈ s.asked ↔ .closing connection ∈ s.journal := by
  rw [asked, List.mem_filterMap]
  constructor
  · rintro ⟨note, hnote, hclosing⟩
    cases note with
    | closing used =>
      cases hclosing
      exact hnote
    | issued | acknowledged | awaited | connected | wrote | closed => cases hclosing
  · intro hnote
    exact ⟨_, hnote, rfl⟩

/-- A connection is forgotten, and what happened to it is written down. -/
theorem switched_forget {s s' : Sender} {connection : ConnectionId}
    (hstep : Keeps (s.coordinator.forget connection) s'.coordinator)
    (hsaid : connection ∈ s'.asked ∨ .closed connection ∈ s'.journal) : Switched s s' := by
  rcases forget_cases s.coordinator connection with ⟨hsame, _⟩ | ⟨w, hsome, hlinks⟩
  · rw [hsame] at hstep
    exact .kept hstep
  · exact .lost w connection hsome (hlinks.andKeeps hstep) hsaid

/-- **Everything an event can do to connections.** The invariants below are proved from this alone.
-/
theorem step_switched (s : Sender) (e : Event) : Switched s (s.step e) := by
  cases e with
  | send now peer type payload =>
    cases hsend : s.coordinator.send now peer type payload with
    | error e =>
      simp only [step, hsend]
      exact .kept (.refl _)
    | ok sent =>
      simp only [step, hsend]
      exact .kept (keeps_send hsend)
  | resend now => exact .kept (keeps_resend _ now)
  | wake => exact .kept ⟨fun _ => rfl, rfl, rfl⟩
  | look thread =>
    simp only [step]
    split
    · exact .kept (.refl _)
    · exact .kept (keeps_look _ _)
  | connected thread answer =>
    simp only [step]
    split
    · next shipment later htask =>
      cases answer with
      | none => exact .kept (keeps_refused _ _)
      | some connection =>
        -- the answer is spare if another thread was faster, and the connection in use stays in use
        cases hlive : s.coordinator.live shipment.peer with
        | some existing =>
          refine .kept ?_
          simp only [goOn, afterConnect, hlive]
          exact keeps_write _ _ _ _
        | none =>
          refine .opened shipment.peer connection hlive ⟨thread, shipment, later, htask, rfl⟩ ?_
          simp only [goOn, afterConnect, hlive]
          exact (links_connected _ _ connection).andKeeps (keeps_write _ _ _ _)
    · exact .kept (.refl _)
  | written thread accepted =>
    simp only [step]
    split
    · next connection shipment later htask =>
      cases accepted with
      | true =>
        exact .kept (keeps_afterWrite _ _ _ _)
      | false =>
        have hstep : Keeps (s.coordinator.forget connection)
            (s.coordinator.afterWrite connection shipment later false).coordinator := .refl _
        -- the connection is forgotten, and the transport is asked to close it
        refine switched_forget hstep (.inl (mem_asked.2 ?_))
        simp [goOn, afterWrite]
    · exact .kept (.refl _)
  | response bytes => exact .kept (keeps_onResponse _ bytes)
  | closed connection =>
    refine switched_forget (.refl _) (.inr ?_)
    simp [step]
  | alarm connection =>
    simp only [step]
    split
    · exact .kept ⟨fun _ => rfl, rfl, rfl⟩
    · exact .kept (.refl _)
  | await =>
    have hawait := keeps_await s.coordinator
    simp only [step]
    split
    · exact .kept (.refl _)
    · next hresult =>
      rw [hresult] at hawait
      exact .kept hawait
  | shutdown =>
    cases hopen : s.coordinator.stopped with
    | true =>
      refine .kept ?_
      simp only [step, shutdown, hopen, if_true]
      exact .refl _
    | false =>
      -- the first shutdown is the only one that closes anything
      obtain ⟨hnone, hall⟩ := shutdown_links hopen
      refine .stopped (shutdown_spec s.coordinator).2 hnone fun peer connection hlive => ?_
      rw [mem_asked]
      exact List.mem_append_right _ (List.mem_map_of_mem (hall peer connection hlive))

/-! ## The counters

The shutdown takes connections out of use and does not count them as lost. So the counters are only
right until then. -/

/-- The counters of opened and lost connections differ by the number of destinations that have
one. -/
def Balanced (c : Coordinator) : Prop :=
  c.metrics.opened = c.metrics.lost + c.connectedPeers.length

theorem balanced_step {s : Sender} {e : Event} (h : Balanced s.coordinator)
    (hopen : (s.step e).coordinator.stopped = false) : Balanced (s.step e).coordinator := by
  unfold Balanced at h ⊢
  cases step_switched s e with
  | kept hstep =>
    rw [hstep.opened, hstep.lost, (perm_connectedPeers_of_keep hstep.live).length_eq]
    omega
  | opened peer connection hnone _ hstep =>
    have hlength := (perm_connectedPeers_of_open hnone hstep.live).length_eq
    rw [hstep.opened, hstep.lost, hlength, List.length_cons]
    omega
  | lost peer connection hsome hstep _ =>
    have hlength := (perm_connectedPeers_of_lose hsome hstep.live).length_eq
    rw [List.length_cons] at hlength
    rw [hstep.opened, hstep.lost]
    omega
  | stopped hstopped _ _ =>
    rw [hstopped] at hopen
    cases hopen

/-- The counters are right in every state up to the shutdown. -/
theorem balanced_run {s : Sender} {events : List Event} (h : Balanced s.coordinator)
    (hopen : (s.run events).coordinator.stopped = false) :
    Balanced (s.run events).coordinator := by
  -- a coordinator that is open at the end was open after every event
  induction events generalizing s with
  | nil => exact h
  | cons e events ih => exact ih (balanced_step h (open_of_run hopen)) hopen

/-! ## What became of a connection

Connections that were opened are read off the journal, which only grows. So the invariant speaks of
those from before an event and of the one that comes with it, and the latter is in use or closed. -/

/-- Every connection that was opened is in use, or was given to the transport to be closed, or was
reported closed. -/
def Accounted (s : Sender) : Prop :=
  ∀ peer connection, .connected peer (some connection) ∈ s.journal →
    s.coordinator.live peer = some connection ∨ connection ∈ s.asked
      ∨ .closed connection ∈ s.journal

theorem accounted_new (worker : WorkerId) (config : DeliveryConfig) :
    Accounted (new worker config) := by
  intro peer connection hconnected
  cases hconnected

/-- A connection comes into use when its destination has none. -/
theorem live_connected_step {s : Sender} {thread : Nat} {shipment : Shipment}
    {rest : List Shipment} (htask : s.tasks[thread]? = some (.connecting shipment rest))
    (hnone : s.coordinator.live shipment.peer = none) (connection : ConnectionId) :
    (s.step (.connected thread (some connection))).coordinator.live shipment.peer
      = some connection := by
  simp only [step, htask, goOn, afterConnect, hnone]
  rw [live_write, live_connected, if_pos rfl]

/-- A connection that a connect is answered with is taken into use, or closed at once. -/
theorem connected_step {s : Sender} {e : Event} {peer : WorkerId} {connection : ConnectionId}
    (h : .connected peer (some connection) ∈ (s.step e).journal) :
    .connected peer (some connection) ∈ s.journal
      ∨ (s.step e).coordinator.live peer = some connection ∨ connection ∈ (s.step e).asked := by
  have hanswer : .connected peer (some connection) ∈ (s.step e).answers :=
    List.mem_filter.2 ⟨h, rfl⟩
  rw [answers_step, List.mem_append, Option.mem_toList] at hanswer
  refine hanswer.imp (fun hold => (List.mem_filter.1 hold).1) fun hnew => ?_
  -- only a thread that waits for a connection is answered with one
  cases e with
  | connected thread answer =>
    obtain ⟨task, htask, hconnected⟩ := Option.bind_eq_some_iff.1 hnew
    cases task with
    | connecting shipment later =>
      cases hconnected
      cases hlive : s.coordinator.live shipment.peer with
      | some existing =>
        refine .inr (mem_asked.2 ?_)
        simp [step, htask, goOn, afterConnect, hlive]
      | none => exact .inl (live_connected_step htask hlive connection)
    | idle | seeking | stranded | writing | failing => cases hconnected
  | written thread accepted =>
    obtain ⟨task, htask, hwrote⟩ := Option.bind_eq_some_iff.1 hnew
    cases task with
    | writing connection shipment later => cases hwrote
    | idle | seeking | connecting | stranded | failing => cases hwrote
  | send | resend | wake | look | response | closed | alarm | await | shutdown => cases hnew

theorem accounted_step {s : Sender} (h : Accounted s) (e : Event) : Accounted (s.step e) := by
  have hgrow := journal_step s e
  have hasked : ∀ {connection}, connection ∈ s.asked → connection ∈ (s.step e).asked :=
    fun hmem => (hgrow.filterMap _).subset hmem
  intro peer connection hconnected
  -- a connection of the journal was answered before, and is where it was unless this event moves
  -- it; or it was answered just now
  rcases connected_step hconnected with hold | hnew
  · rcases h peer connection hold with hlive | hmem | hclosed
    · cases step_switched s e with
      | kept hstep => exact .inl ((hstep.live peer).trans hlive)
      | opened peer' _ hnone _ hstep =>
        have hne : peer ≠ peer' := by
          rintro rfl
          rw [hnone] at hlive
          cases hlive
        exact .inl (by rw [hstep.live, Function.update_of_ne hne, hlive])
      | lost peer' lost hsome hstep hsaid =>
        by_cases heq : peer = peer'
        · obtain rfl : lost = connection := by
            rw [heq, hsome] at hlive
            exact Option.some.inj hlive
          exact .inr hsaid
        · exact .inl (by rw [hstep.live, Function.update_of_ne heq, hlive])
      | stopped _ _ hall => exact .inr (.inl (hall peer connection hlive))
    · exact .inr (.inl (hasked hmem))
    · exact .inr (.inr (hgrow.subset hclosed))
  · exact hnew.imp_right .inl

theorem accounted_run {s : Sender} (h : Accounted s) (events : List Event) :
    Accounted (s.run events) := by
  induction events generalizing s with
  | nil => exact h
  | cons e events ih => exact ih (accounted_step h e)

/-! ## Connections of one destination

A coordinator takes what the transport answers. If two connects are answered with one connection,
then two destinations may have it, so that they have not is a consequence of `Fresh`. -/

def openings (s : Sender) : List (WorkerId × ConnectionId) := s.answers.filterMap Note.opening?

theorem mem_openings {s : Sender} {peer : WorkerId} {connection : ConnectionId} :
    (peer, connection) ∈ s.openings ↔ .connected peer (some connection) ∈ s.journal := by
  rw [openings, answers, List.mem_filterMap]
  constructor
  · rintro ⟨note, hnote, hopening⟩
    cases note with
    | connected peer' answer =>
      obtain ⟨connection', rfl, hpair⟩ := Option.map_eq_some_iff.1 hopening
      obtain ⟨rfl, rfl⟩ := Prod.mk.inj hpair
      exact (List.mem_filter.1 hnote).1
    | issued | acknowledged | awaited | wrote | closing | closed => cases hopening
  · intro hnote
    exact ⟨_, List.mem_filter.2 ⟨hnote, rfl⟩, rfl⟩

/-- The transport answers no two connects with one connection. -/
def Fresh (s : Sender) : Prop := (s.openings.map Prod.snd).Nodup

/-- **A connection is of one destination.** -/
theorem Delivers.live_inj {s : Sender} (h : Delivers s) (hfresh : s.Fresh) {p q : WorkerId}
    {connection : ConnectionId} (hp : s.coordinator.live p = some connection)
    (hq : s.coordinator.live q = some connection) : p = q := by
  have hp := mem_openings.2 (h.uses.live hp)
  have hq := mem_openings.2 (h.uses.live hq)
  exact congrArg Prod.fst (List.inj_on_of_nodup_map hfresh hp hq rfl)

end Sender

namespace Coordinator

/-- `c'` is `c` after this connection was lost: its destination has none, other destinations are
untouched, and so are all requests. When no destination has it, nothing happens at all. -/
structure Drops (c c' : Coordinator) (connection : ConnectionId) : Prop where
  held : ∀ peer, c.live peer = some connection → c'.live peer = none
  others : ∀ peer, c.live peer ≠ some connection → c'.peer peer = c.peer peer
  nextId : ∀ peer, c'.nextId peer = c.nextId peer
  pending : c'.pending = c.pending
  failures : c'.failures = c.failures
  replaced : (∀ peer, c.live peer ≠ some connection) → c' = c

/-- **A connection is forgotten.** That no other destination has it is needed: only the first one
that is found loses it. -/
theorem drops_forget {c : Coordinator} {connection : ConnectionId}
    (hone : ∀ p q, c.live p = some connection → c.live q = some connection → p = q) :
    Drops c (c.forget connection) connection := by
  unfold forget
  split
  · next hnone =>
    exact ⟨fun peer hlive => absurd hlive (live_ne_of_holder? hnone peer), fun _ _ => rfl,
      fun _ => rfl, rfl, rfl, fun _ => rfl⟩
  · next w hsome =>
    -- the destination that is found has the connection, and by assumption no other one has it
    have hheld := live_of_holder? hsome
    have hpeer := fun peer => peer_setPeer c w peer fun p => { p with connection := none }
    refine ⟨fun peer hlive => ?_, fun peer hlive => ?_, fun peer => ?_, rfl, rfl,
      fun hnone => absurd hheld (hnone w)⟩
    · rw [live_count, live_setPeer, if_pos (hone peer w hlive hheld)]
    · have hne : peer ≠ w := by
        rintro rfl
        exact hlive hheld
      exact (hpeer peer).trans (if_neg hne)
    · refine (congrArg Peer.nextId (hpeer peer)).trans ?_
      split
      · next heq => rw [heq]; rfl
      · rfl

end Coordinator

/-! ## After the shutdown

A thread asks whether the coordinator was shut down when it looks for a connection, and at no other
place. So what it does next depends on where the shutdown finds it: one that waits for a connection
takes it into use when it comes, and one that has a connection hands over all frames of its
shipment. -/

/-- The thread may hand over another frame without asking whether the coordinator was shut down. -/
def Task.Unguarded : Task → Prop
  | connecting _ _ => True
  | writing _ s _ | failing _ s _ => s.rest ≠ []
  | _ => False

/-- The thread may hand over another frame, or it waits for this one to be written. -/
def Task.Busy (connection : ConnectionId) (s : Shipment) (later : List Shipment) (t : Task) :
    Prop :=
  t.Unguarded ∨ t = .writing connection s later

/-- A thread that has no frames left has come to an end. -/
theorem Task.eq_idle_of_weight {t : Task} (h : t.weight = 0) : t = .idle := by
  cases t with
  | idle => rfl
  | seeking | connecting | stranded | writing | failing =>
    simp only [weight, Shipment.weight, Shipment.frames, List.length_cons] at h
    omega

theorem Task.not_unguarded_ofShipments (shipments : List Shipment) :
    ¬ (ofShipments shipments).Unguarded := by
  cases shipments <;> exact id

namespace Coordinator

theorem send_stopped {c : Coordinator} (h : c.stopped = true) (now : Nat) (peer : WorkerId)
    (type : RequestType) (payload : Bytes) :
    c.send now peer type payload = .error stoppedError := by
  unfold send takeOn
  rw [if_pos h]
  rfl

theorem resend_stopped {c : Coordinator} (h : c.stopped = true) (now : Nat) :
    c.resend now = (c, .idle) := by
  rw [resend, if_pos h]

theorem advance_ne_connecting (c : Coordinator) (connection : ConnectionId) (s : Shipment)
    (later : List Shipment) (s' : Shipment) (later' : List Shipment) :
    (c.advance connection s later).2 ≠ .connecting s' later' := by
  unfold advance
  split
  · cases later <;> exact nofun
  · exact nofun

/-- A thread that looks at a coordinator that was shut down does not ask for a connection. -/
theorem look_eq_connecting {c : Coordinator} (hstopped : c.stopped = true) {t : Task}
    {s : Shipment} {later : List Shipment} (h : (c.look t).2 = .connecting s later) :
    t = .connecting s later := by
  cases t with
  | seeking s later =>
    simp only [look, hstopped, if_true] at h
    cases h
  | stranded s later => cases later <;> cases h
  | failing connection s' later' => exact absurd h (advance_ne_connecting _ _ _ _ _ _)
  | idle | connecting | writing => exact h

theorem afterConnect_ne_connecting (c : Coordinator) (s : Shipment) (later : List Shipment)
    (answer : Option ConnectionId) (s' : Shipment) (later' : List Shipment) :
    (c.afterConnect s later answer).task ≠ .connecting s' later' := by
  unfold afterConnect
  split
  · exact nofun
  · split <;> exact nofun

theorem afterWrite_ne_connecting (c : Coordinator) (connection : ConnectionId) (s : Shipment)
    (later : List Shipment) (accepted : Bool) (s' : Shipment) (later' : List Shipment) :
    (c.afterWrite connection s later accepted).task ≠ .connecting s' later' := by
  unfold afterWrite
  split
  · exact advance_ne_connecting _ _ _ _ _ _
  · exact nofun

/-- A thread goes on with the next frame of its shipment. -/
theorem advance_of_rest {s : Shipment} (h : s.rest ≠ []) (c : Coordinator)
    (connection : ConnectionId) (later : List Shipment) :
    ∃ s', (c.advance connection s later).2 = .writing connection s' later ∧ s' ≠ s := by
  obtain ⟨first, rest, hrest⟩ := List.exists_cons_of_ne_nil h
  refine ⟨{ s with first, rest }, ?_, fun heq => ?_⟩
  · rw [advance, hrest]
    rfl
  · have hlength := congrArg (fun s => s.rest.length) heq
    simp [hrest] at hlength

theorem advance_unguarded {c : Coordinator} {used : ConnectionId} {s : Shipment}
    {later : List Shipment} {connection : ConnectionId} {s' : Shipment} {later' : List Shipment}
    (h : (c.advance used s later).2.Busy connection s' later') : s.rest ≠ [] := by
  intro hrest
  rw [advance, hrest] at h
  rcases h with h | h
  · exact Task.not_unguarded_ofShipments later h
  · cases later <;> cases h

/-- No thread becomes busy by looking at a coordinator that was shut down. -/
theorem busy_look {c : Coordinator} (hstopped : c.stopped = true) {t : Task}
    {connection : ConnectionId} {s : Shipment} {later : List Shipment}
    (h : (c.look t).2.Busy connection s later) : t.Busy connection s later := by
  cases t with
  | seeking s later =>
    simp only [look, hstopped, if_true] at h
    rcases h with h | h <;> cases h
  | stranded s' later' =>
    rcases h with h | h
    · exact absurd h (Task.not_unguarded_ofShipments later')
    · cases later' <;> cases h
  | failing used s' later' => exact .inl (advance_unguarded h)
  | connecting | writing | idle => exact h

/-- A thread that has written a frame goes on with the next one, if there is one. -/
theorem busy_afterWrite {c : Coordinator} {used : ConnectionId} {s : Shipment}
    {later : List Shipment} {accepted : Bool} {connection : ConnectionId} {s' : Shipment}
    {later' : List Shipment}
    (h : (c.afterWrite used s later accepted).task.Busy connection s' later') :
    (Task.writing used s later).Busy connection s' later' := by
  cases accepted with
  | true =>
    simp only [afterWrite, if_true] at h
    exact .inl (advance_unguarded h)
  | false =>
    rcases h with h | h
    · exact .inl h
    · cases h

end Coordinator

namespace Sender

theorem stopped_step {s : Sender} (h : s.coordinator.stopped = true) (e : Event) :
    (s.step e).coordinator.stopped = true := by
  by_contra hopen
  rw [Bool.not_eq_true] at hopen
  rw [open_of_step hopen] at h
  cases h

/-- **After the shutdown** no new work begins. What is true of a thread was true of it before, as
long as no look at the coordinator and no answer makes it true. -/
theorem task_step {P : Task → Prop} {s : Sender} (hstopped : s.coordinator.stopped = true)
    (hidle : ¬ P .idle) (hlook : ∀ {t}, P (s.coordinator.look t).2 → P t)
    (hconnect : ∀ {shipment later answer},
      P (s.coordinator.afterConnect shipment later answer).task → P (.connecting shipment later))
    (hwrite : ∀ {connection shipment later accepted},
      P (s.coordinator.afterWrite connection shipment later accepted).task →
        P (.writing connection shipment later))
    {e : Event} {thread : Nat} {t : Task} (ht : (s.step e).tasks[thread]? = some t) (hP : P t) :
    ∃ t₀, s.tasks[thread]? = some t₀ ∧ P t₀ := by
  -- an event gives at most one thread something else to do, and no thread is new
  have hset : ∀ {i : Nat} {task task' : Task}, s.tasks[i]? = some task →
      (s.tasks.set i task')[thread]? = some t → (P task' → P task) →
      ∃ t₀, s.tasks[thread]? = some t₀ ∧ P t₀ := by
    intro i task task' htask hget hback
    by_cases hi : i = thread
    · subst hi
      have hlength := (List.getElem?_eq_some_iff.1 htask).1
      rw [List.getElem?_set_self hlength] at hget
      cases hget
      exact ⟨task, htask, hback hP⟩
    · rw [List.getElem?_set_ne hi] at hget
      exact ⟨t, hget, hP⟩
  cases e with
  | send now peer type payload =>
    rw [step, send_stopped hstopped] at ht
    exact ⟨t, ht, hP⟩
  | resend now =>
    rw [step, resend_stopped hstopped, List.getElem?_append] at ht
    split at ht
    · exact ⟨t, ht, hP⟩
    · rw [List.mem_singleton.1 (List.mem_of_getElem? ht)] at hP
      exact absurd hP hidle
  | look thread =>
    simp only [step] at ht
    split at ht
    · exact ⟨t, ht, hP⟩
    · next task htask => exact hset htask ht hlook
  | connected thread answer =>
    simp only [step] at ht
    split at ht
    · next htask => exact hset htask ht hconnect
    · exact ⟨t, ht, hP⟩
  | written thread accepted =>
    simp only [step] at ht
    split at ht
    · next htask => exact hset htask ht hwrite
    · exact ⟨t, ht, hP⟩
  | await | alarm =>
    simp only [step] at ht
    split at ht <;> exact ⟨t, ht, hP⟩
  | wake | response | closed | shutdown => exact ⟨t, ht, hP⟩

/-- A thread that is busy was so before. -/
theorem busy_step {s : Sender} {e : Event} (hstopped : s.coordinator.stopped = true)
    {thread : Nat} {t : Task} (ht : (s.step e).tasks[thread]? = some t)
    {connection : ConnectionId} {shipment : Shipment} {later : List Shipment}
    (hbusy : t.Busy connection shipment later) :
    ∃ t₀, s.tasks[thread]? = some t₀ ∧ t₀.Busy connection shipment later := by
  have hidle : ¬ Task.idle.Busy connection shipment later := by
    rintro (h | h) <;> cases h
  exact task_step (P := Task.Busy connection shipment later) hstopped hidle (busy_look hstopped)
    (fun _ => .inl trivial) busy_afterWrite ht hbusy

/-- A thread that waits for a connection has waited for it before. -/
theorem connecting_step {s : Sender} {e : Event} (hstopped : s.coordinator.stopped = true)
    {thread : Nat} {shipment : Shipment} {later : List Shipment}
    (ht : (s.step e).tasks[thread]? = some (.connecting shipment later)) :
    s.tasks[thread]? = some (.connecting shipment later) := by
  obtain ⟨_, ht₀, rfl⟩ := task_step (P := (· = .connecting shipment later)) hstopped nofun
    (look_eq_connecting hstopped) (fun h => absurd h (afterConnect_ne_connecting _ _ _ _ _ _))
    (fun h => absurd h (afterWrite_ne_connecting _ _ _ _ _ _ _)) ht rfl
  exact ht₀

/-- What a sender that was shut down in the state `s` still has to do in the state `later`. -/
structure Winding (s later : Sender) : Prop where
  stopped : later.coordinator.stopped = true
  connecting : ∀ {thread : Nat} {shipment : Shipment} {rest : List Shipment},
    later.tasks[thread]? = some (.connecting shipment rest) →
      s.tasks[thread]? = some (.connecting shipment rest)
  busy : ∀ {thread : Nat} {t : Task} {connection : ConnectionId} {shipment : Shipment}
    {rest : List Shipment}, later.tasks[thread]? = some t → t.Busy connection shipment rest →
      ∃ t₀, s.tasks[thread]? = some t₀ ∧ t₀.Busy connection shipment rest
  live : ∀ {peer connection}, later.coordinator.live peer = some connection → s.Connecting peer

namespace Winding

variable {s later : Sender}

theorem shutdown (hopen : s.coordinator.stopped = false) : Winding s (s.step .shutdown) where
  stopped := (shutdown_spec s.coordinator).2
  connecting := id
  busy ht hbusy := ⟨_, ht, hbusy⟩
  live {peer _} hlive := by
    have hnone : (s.step .shutdown).coordinator.live peer = none := (shutdown_links hopen).1 peer
    rw [hnone] at hlive
    cases hlive

/-- Whatever happens, nothing is added to what was left to do. -/
theorem step (h : Winding s later) (e : Event) : Winding s (later.step e) where
  stopped := stopped_step h.stopped e
  connecting ht := h.connecting (connecting_step h.stopped ht)
  busy ht hbusy := by
    obtain ⟨t₁, ht₁, hbusy₁⟩ := busy_step h.stopped ht hbusy
    exact h.busy ht₁ hbusy₁
  live {peer connection} hlive := by
    cases step_switched later e with
    | kept hstep => exact h.live ((hstep.live peer).symm.trans hlive)
    | opened peer' used _ hwaits hstep =>
      rw [hstep.live, Function.update_apply] at hlive
      split at hlive
      -- the connection was asked for before the shutdown
      · next heq =>
        obtain ⟨thread, shipment, rest, htask, hpeer⟩ := hwaits
        exact ⟨thread, shipment, rest, h.connecting htask, hpeer.trans heq.symm⟩
      · exact h.live hlive
    | lost peer' lost _ hstep _ =>
      rw [hstep.live, Function.update_apply] at hlive
      split at hlive
      · cases hlive
      · exact h.live hlive
    | stopped _ hnone _ =>
      rw [hnone] at hlive
      cases hlive

theorem run (h : Winding s later) (events : List Event) : Winding s (later.run events) := by
  induction events generalizing later with
  | nil => exact h
  | cons e events ih => exact ih (h.step e)

/-- A frame that a thread waits to be written is the one that it waited for at the shutdown, unless
the thread was not to ask again. -/
theorem writing (h : Winding s later) (hguarded : ∀ t ∈ s.tasks, ¬ t.Unguarded) {thread : Nat}
    {connection : ConnectionId} {shipment : Shipment} {rest : List Shipment}
    (ht : later.tasks[thread]? = some (.writing connection shipment rest)) :
    s.tasks[thread]? = some (.writing connection shipment rest) := by
  obtain ⟨t₀, ht₀, hunguarded | rfl⟩ := h.busy ht (.inr rfl)
  · exact absurd hunguarded (hguarded t₀ (List.mem_of_getElem? ht₀))
  · exact ht₀

end Winding

/-- **A connection comes into use after the shutdown** if and only if a thread waited for one. -/
theorem live_shutdown_iff {s : Sender} (hopen : s.coordinator.stopped = false) :
    (∀ more peer, ((s.step .shutdown).run more).coordinator.live peer = none)
      ↔ ∀ peer, ¬ s.Connecting peer := by
  constructor
  · rintro hnone peer ⟨thread, shipment, rest, htask, rfl⟩
    have hwaits : (s.step .shutdown).tasks[thread]? = some (.connecting shipment rest) := htask
    -- the thread is answered next, and any connection will do
    have hlive := live_connected_step hwaits ((shutdown_links hopen).1 shipment.peer) ⟨0⟩
    rw [show (s.step .shutdown).step _ = (s.step .shutdown).run [_] from rfl, hnone] at hlive
    cases hlive
  · intro hnobody more peer
    refine Option.eq_none_iff_forall_ne_some.2 fun connection hlive => ?_
    exact hnobody peer (((Winding.shutdown hopen).run more).live hlive)

/-- A thread that is not to ask again may hand over a frame next. -/
theorem exists_writing {s : Sender} {thread : Nat} {t : Task} (ht : s.tasks[thread]? = some t)
    (h : t.Unguarded) : ∃ e connection shipment rest,
      (s.step e).tasks[thread]? = some (.writing connection shipment rest)
        ∧ t ≠ .writing connection shipment rest := by
  have hlength := (List.getElem?_eq_some_iff.1 ht).1
  -- each of these threads goes on at its next event without a look at the coordinator
  cases t with
  | connecting shipment rest =>
    cases hlive : s.coordinator.live shipment.peer with
    | some existing =>
      refine ⟨.connected thread (some ⟨0⟩), existing, shipment, rest, ?_, fun heq => by cases heq⟩
      simp only [step, ht, goOn, afterConnect, hlive]
      exact List.getElem?_set_self hlength
    | none =>
      refine ⟨.connected thread (some ⟨0⟩), ⟨0⟩, shipment, rest, ?_, fun heq => by cases heq⟩
      simp only [step, ht, goOn, afterConnect, hlive]
      exact List.getElem?_set_self hlength
  | writing connection shipment rest =>
    obtain ⟨next, hnext, hne⟩ := advance_of_rest h
      (if (s.coordinator.setRoute (shipment.peer, shipment.first.1) (.sent connection)).live
          shipment.peer = some connection
        then s.coordinator.setRoute (shipment.peer, shipment.first.1) (.sent connection)
        else (s.coordinator.setRoute (shipment.peer, shipment.first.1)
          (.sent connection)).askForCheck) connection rest
    refine ⟨.written thread true, connection, next, rest, ?_, fun heq => hne ?_⟩
    · simp only [step, ht, goOn, afterWrite, if_true]
      rw [hnext, List.getElem?_set_self hlength]
    · cases heq
      rfl
  | failing connection shipment rest =>
    obtain ⟨next, hnext, -⟩ := advance_of_rest h
      (s.coordinator.setRoute (shipment.peer, shipment.first.1) .unsent).askForCheck connection rest
    refine ⟨.look thread, connection, next, rest, ?_, fun heq => by cases heq⟩
    simp only [step, ht, look]
    rw [hnext, List.getElem?_set_self hlength]
  | idle | seeking | stranded => cases h

/-- **A frame is handed over after the shutdown** if and only if a thread was not to ask again. -/
theorem writing_shutdown_iff {s : Sender} (hopen : s.coordinator.stopped = false) :
    (∀ more (thread : Nat) connection shipment rest,
        ((s.step .shutdown).run more).tasks[thread]?
            = some (Task.writing connection shipment rest) →
          s.tasks[thread]? = some (Task.writing connection shipment rest))
      ↔ ∀ t ∈ s.tasks, ¬ t.Unguarded := by
  constructor
  · intro hsame t ht hunguarded
    obtain ⟨thread, hthread⟩ := List.mem_iff_getElem?.1 ht
    have hwaits : (s.step .shutdown).tasks[thread]? = some t := hthread
    obtain ⟨e, connection, shipment, rest, hwriting, hne⟩ := exists_writing hwaits hunguarded
    exact hne (Option.some.inj (hthread.symm.trans
      (hsame [e] thread connection shipment rest hwriting)))
  · intro hguarded more thread connection shipment rest ht
    exact ((Winding.shutdown hopen).run more).writing hguarded ht

/-! ## A connection that nobody closes

A connection that comes into use after the shutdown is closed only if somebody asks for it. The
shutdown has closed all there were and does nothing when it is repeated, and threads close only what
they do not need. -/

/-- After the shutdown a sender whose threads have all come to an end asks for nothing, whatever is
heard. -/
theorem idle_step {s : Sender} (hstopped : s.coordinator.stopped = true)
    (hidle : ∀ t ∈ s.tasks, t = .idle) (e : Event) :
    (∀ t ∈ (s.step e).tasks, t = .idle) ∧ (s.step e).asked = s.asked := by
  -- no thread waits, so that no answer is taken up
  have htask : ∀ {thread : Nat} {t : Task}, s.tasks[thread]? = some t → t = .idle :=
    fun h => hidle _ (List.mem_of_getElem? h)
  cases e with
  | send now peer type payload =>
    rw [step, send_stopped hstopped]
    exact ⟨hidle, rfl⟩
  | resend now =>
    rw [step, resend_stopped hstopped]
    refine ⟨fun t ht => ?_, rfl⟩
    exact (List.mem_append.1 ht).elim (hidle t) List.mem_singleton.1
  | look thread =>
    simp only [step]
    split
    · exact ⟨hidle, rfl⟩
    · next task h =>
      rw [htask h]
      refine ⟨fun t ht => ?_, rfl⟩
      exact (List.mem_or_eq_of_mem_set ht).elim (hidle t) id
  | connected thread answer =>
    simp only [step]
    split
    · next h => cases htask h
    · exact ⟨hidle, rfl⟩
  | written thread accepted =>
    simp only [step]
    split
    · next h => cases htask h
    · exact ⟨hidle, rfl⟩
  | response bytes =>
    refine ⟨hidle, ?_⟩
    rcases onResponse_spec s.coordinator bytes with
      ⟨_, h⟩ | ⟨_, _, _, _, h⟩ | ⟨_, _, _, _, _, h⟩ <;> simp [step, asked, h, Note.closing?]
  | closed connection => exact ⟨hidle, by simp [step, asked, Note.closing?]⟩
  | alarm connection =>
    simp only [step]
    split <;> exact ⟨hidle, rfl⟩
  | await =>
    simp only [step]
    split
    · exact ⟨hidle, rfl⟩
    · exact ⟨hidle, by simp [asked, Note.closing?]⟩
  | shutdown =>
    simp only [step, shutdown, hstopped, if_true]
    exact ⟨hidle, by simp [asked]⟩
  | wake => exact ⟨hidle, rfl⟩

/-- And so no connection is closed after that. -/
theorem idle_run {s : Sender} (hstopped : s.coordinator.stopped = true)
    (hidle : ∀ t ∈ s.tasks, t = .idle) (events : List Event) :
    (s.run events).asked = s.asked := by
  induction events generalizing s with
  | nil => rfl
  | cons e events ih =>
    obtain ⟨hidle', hasked⟩ := idle_step hstopped hidle e
    exact (ih (stopped_step hstopped e) hidle').trans hasked

/-! ## What a coordinator owes its transport

One statement for the whole life of a connection: before the shutdown, at it and after it. Each part
is an invariant of runs from above, taken in the state where the run ends. -/

/-- **The books on connections.** Take any run in which the transport answers no two connects with
one connection. No connection is in use for two destinations. Before the shutdown the counters of
opened and lost connections differ by the number of destinations that have one. When a connection is
reported closed or cannot be written to, its destination has none from then on, no other destination
and no request is touched, and nothing happens at all if it was replaced before; and who asks for a
check about it touches no connection. Every connection that was opened is in use, was given to the
transport to be closed, or was reported closed.

The shutdown takes all connections out of use and closes them. After it sends are refused and change
nothing, and checks do nothing. The transport is asked for no more connections: a thread that waits
for one has waited since before the shutdown. But such a thread does not ask whether the coordinator
was shut down when its connect is answered. So no connection is ever in use again if and only if no
thread waited for one, and no frame is handed over any more if and only if no thread waited for a
connection or had more frames for the one it has. -/
theorem connections_accounted (worker : WorkerId) (config : DeliveryConfig) (events : List Event)
    (hfresh : ((new worker config).run events).Fresh) :
    let s := (new worker config).run events
    (∀ p q connection, s.coordinator.live p = some connection →
        s.coordinator.live q = some connection → p = q)
      ∧ (s.coordinator.stopped = false → s.coordinator.metrics.opened
          = s.coordinator.metrics.lost + s.coordinator.connectedPeers.length)
      ∧ (∀ connection,
          Drops s.coordinator (s.step (.closed connection)).coordinator connection
          ∧ (∀ thread shipment later,
            s.tasks[thread]? = some (.writing connection shipment later) →
              Drops s.coordinator (s.step (.written thread false)).coordinator connection)
          ∧ (s.step (.alarm connection)).coordinator.peers = s.coordinator.peers)
      ∧ (∀ peer connection, .connected peer (some connection) ∈ s.journal →
          s.coordinator.live peer = some connection ∨ connection ∈ s.asked
            ∨ .closed connection ∈ s.journal)
      ∧ (s.coordinator.stopped = false →
          (∀ peer, (s.step .shutdown).coordinator.live peer = none)
            ∧ (∀ peer connection, s.coordinator.live peer = some connection →
                connection ∈ (s.step .shutdown).asked)
            ∧ (∀ more,
              let later := (s.step .shutdown).run more
              (∀ now peer type payload,
                  later.coordinator.send now peer type payload = .error stoppedError
                    ∧ later.step (.send now peer type payload) = later)
                ∧ (∀ now, later.coordinator.resend now = (later.coordinator, .idle))
                ∧ ∀ (thread : Nat) shipment rest,
                  later.tasks[thread]? = some (Task.connecting shipment rest) →
                    s.tasks[thread]? = some (Task.connecting shipment rest))
            ∧ ((∀ more peer, ((s.step .shutdown).run more).coordinator.live peer = none)
              ↔ ∀ peer, ¬ s.Connecting peer)
            ∧ ((∀ more (thread : Nat) connection shipment rest,
                ((s.step .shutdown).run more).tasks[thread]?
                    = some (Task.writing connection shipment rest) →
                  s.tasks[thread]? = some (Task.writing connection shipment rest))
              ↔ ∀ t ∈ s.tasks, ¬ t.Unguarded)) := by
  intro s
  have hdelivers : Delivers s := delivers_run (delivers_new worker config) events
  have hone : ∀ p q connection, s.coordinator.live p = some connection →
      s.coordinator.live q = some connection → p = q :=
    fun p q connection => hdelivers.live_inj hfresh
  refine ⟨hone, balanced_run rfl, fun connection => ⟨?_, ?_, ?_⟩,
    accounted_run (accounted_new worker config) events, ?_⟩
  · exact drops_forget fun p q => hone p q connection
  · intro thread shipment later htask
    simp only [step, htask, goOn]
    exact drops_forget fun p q => hone p q connection
  · simp only [step]
    split <;> rfl
  · intro hopen
    obtain ⟨hnone, hall⟩ := shutdown_links hopen
    refine ⟨hnone, fun peer connection hlive => ?_, fun more => ?_, live_shutdown_iff hopen,
      writing_shutdown_iff hopen⟩
    · exact mem_asked.2 (List.mem_append_right _ (List.mem_map_of_mem (hall peer connection hlive)))
    intro later
    -- whatever comes behind the shutdown only winds up what was begun before it
    have hwinding : Winding s later := (Winding.shutdown hopen).run more
    refine ⟨fun now peer type payload => ?_, resend_stopped hwinding.stopped,
      fun thread shipment rest => hwinding.connecting⟩
    have hrefused := send_stopped hwinding.stopped now peer type payload
    exact ⟨hrefused, by rw [step, hrefused]⟩

/-- A connection is lost and replaced, another destination has one too, the loss is reported again,
and the sender is shut down. -/
theorem connections_accounted_replaced :
    let s := (new ⟨9⟩ Config.testing.delivery).run
      [.send 0 ⟨1⟩ .sendPartition [7], .look 0, .connected 0 (some ⟨1⟩), .written 0 true,
        .closed ⟨1⟩, .alarm ⟨1⟩, .send 10 ⟨1⟩ .sendPartition [8], .look 1,
        .connected 1 (some ⟨2⟩), .written 1 true, .send 20 ⟨2⟩ .sendPartition [9], .look 2,
        .connected 2 (some ⟨3⟩), .written 2 true]
    s.Fresh ∧ s.coordinator.metrics.opened = s.coordinator.metrics.lost + 2
      ∧ (s.step (.closed ⟨1⟩)).coordinator = s.coordinator
      ∧ (s.step .shutdown).asked = [⟨2⟩, ⟨3⟩]
      ∧ ∀ more peer, ((s.step .shutdown).run more).coordinator.live peer = none := by
  intro s
  have hfresh : s.Fresh := by
    have hused : s.openings.map Prod.snd = [⟨1⟩, ⟨2⟩, ⟨3⟩] := by decide +kernel
    rw [Fresh, hused]
    decide
  have hopen : s.coordinator.stopped = false := by decide +kernel
  obtain ⟨-, hbalanced, hdrops, -, hshutdown⟩ :=
    connections_accounted ⟨9⟩ Config.testing.delivery _ hfresh
  have hpeers : s.coordinator.connectedPeers.length = 2 := by decide +kernel
  have hreplaced : s.coordinator.holder? ⟨1⟩ = none := by decide +kernel
  have hweight : ∀ t ∈ s.tasks, t.weight = 0 := by decide +kernel
  obtain ⟨-, -, -, hlive, -⟩ := hshutdown hopen
  refine ⟨hfresh, hpeers ▸ hbalanced hopen, (hdrops ⟨1⟩).1.replaced (live_ne_of_holder? hreplaced),
    by decide +kernel, hlive.2 ?_⟩
  rintro peer ⟨thread, shipment, rest, htask, -⟩
  cases Task.eq_idle_of_weight (hweight _ (List.mem_of_getElem? htask))

/-- A send waits for a connection while the sender is shut down, and gets it afterwards. The
connection comes into use, the request is handed over to it, and nobody ever closes it. -/
theorem connected_after_shutdown :
    let s := (new ⟨9⟩ Config.testing.delivery).run [.send 0 ⟨1⟩ .sendPartition [7], .look 0]
    let later := (s.step .shutdown).run [.connected 0 (some ⟨1⟩), .written 0 true]
    s.coordinator.stopped = false ∧ later.Fresh ∧ later.coordinator.stopped = true
      ∧ later.coordinator.live ⟨1⟩ = some ⟨1⟩
      ∧ (s.step .shutdown).handed = [] ∧ later.handed.map Copy.key = [(⟨1⟩, ⟨0⟩)]
      ∧ ∀ more, (later.run more).asked = [] := by
  intro s later
  have hfresh : later.Fresh := by
    have hused : later.openings.map Prod.snd = [⟨1⟩] := by decide +kernel
    rw [Fresh, hused]
    exact List.nodup_singleton _
  have hstopped : later.coordinator.stopped = true := by decide +kernel
  have hweight : ∀ t ∈ later.tasks, t.weight = 0 := by decide +kernel
  have hidle : ∀ t ∈ later.tasks, t = .idle := fun t ht => Task.eq_idle_of_weight (hweight t ht)
  have hasked : later.asked = [] := by decide +kernel
  refine ⟨by decide +kernel, hfresh, hstopped, by decide +kernel, by decide +kernel,
    by decide +kernel, fun more => (idle_run hstopped hidle more).trans hasked⟩

end Sender

end Superstep
