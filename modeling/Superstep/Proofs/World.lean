import Superstep.Proofs.Dispatch
import Superstep.Proofs.Network
import Superstep.Proofs.Settlement

/-!
# Superstep — what is on its way in a world

The first of the invariants of a world says that everything is where it should be (`Wired`):
each sender has lived through events of its own, the connections it uses to a destination lead
to that destination, and the frames on a connection are encodings of requests that its opener
issued to the server at its other end. Whatever the network does to a frame, it arrives as a
request that was sent to this very host by the worker that it names.

* **`step_of_told`**, **`senders_of_untold`** — what an event does to senders: one of them lives
  through an event of its own, or none does;
* **`wired_step`** — every event keeps a world wired;
* **`grows_step`** — journals and log only grow, so that what was true of a request stays true.

Ids and connection numbers are words of 64 bits. A world is `Unwrapped` while none of these
counters has run over.
-/

namespace Superstep.World

variable {I V E M : Type}

/-- The coordinator of `worker` issued a request with this encoding to `peer`. -/
def Sent (w : World I V E M) (worker peer : WorkerId) (bytes : Bytes) : Prop :=
  ∃ frame, (peer, frame) ∈ (w.senders worker).issued ∧ frame.encode = .ok bytes

/-- No counter of 64 bits has run over: no destination was sent 2 ^ 64 requests by one worker,
and connections have numbers of their own. -/
def Unwrapped (w : World I V E M) : Prop :=
  (∀ worker, (w.senders worker).Unwrapped) ∧ w.network.nextConnection ≤ 2 ^ 64

/-- `w'` comes after `w`: nothing that was written down is lost. -/
structure Grows (w w' : World I V E M) : Prop where
  journal : ∀ worker, (w.senders worker).journal <+: (w'.senders worker).journal
  log : w.log <+: w'.log
  nextConnection : w.network.nextConnection ≤ w'.network.nextConnection

theorem Grows.refl (w : World I V E M) : Grows w w :=
  ⟨fun _ => List.prefix_rfl, List.prefix_rfl, Nat.le_refl _⟩

theorem Grows.trans {w w' w'' : World I V E M} (h : Grows w w') (h' : Grows w' w'') :
    Grows w w'' :=
  ⟨fun worker => (h.journal worker).trans (h'.journal worker), h.log.trans h'.log,
    Nat.le_trans h.nextConnection h'.nextConnection⟩

theorem Unwrapped.mono {w w' : World I V E M} (h : Grows w w') (hw' : w'.Unwrapped) :
    w.Unwrapped :=
  ⟨fun worker => (hw'.1 worker).mono (h.journal worker),
    Nat.le_trans h.nextConnection hw'.2⟩

theorem Sent.mono {w w' : World I V E M} (h : Grows w w') {worker peer : WorkerId}
    {bytes : Bytes} (hsent : w.Sent worker peer bytes) : w'.Sent worker peer bytes := by
  obtain ⟨frame, hmem, hbytes⟩ := hsent
  exact ⟨frame, (Sender.issued_mono (h.journal worker)).subset hmem, hbytes⟩

/-- Everything is where it should be. -/
structure Wired (w : World I V E M) : Prop where
  network : w.network.Lawful w.Sent
  senders : ∀ worker, ∃ config events, w.senders worker = (Sender.new worker config).run events
  uses : ∀ worker, (w.senders worker).Uses (w.network.Leads worker)
  answers : ∀ {worker thread connection},
    w.answers.get? (worker, thread) = some (.connected (some connection)) →
    ∃ shipment later, (w.senders worker).tasks[thread]? = some (.connecting shipment later)
      ∧ w.network.Leads worker shipment.peer connection

theorem Wired.carries {w : World I V E M} (h : Wired w) (worker : WorkerId) :
    (w.senders worker).Carries := by
  obtain ⟨config, events, heq⟩ := h.senders worker
  rw [heq]
  exact Sender.carries_run (Sender.carries_new worker config) events

/-- The senders of a world keep their books. -/
theorem Wired.books {w : World I V E M} (h : Wired w) (hfew : w.Unwrapped) (worker : WorkerId) :
    (w.senders worker).Books := by
  have hworker := hfew.1 worker
  obtain ⟨config, events, heq⟩ := h.senders worker
  rw [heq] at hworker ⊢
  exact Sender.books_run (Sender.books_new worker config) events hworker

theorem Wired.worker {w : World I V E M} (h : Wired w) (worker : WorkerId) :
    (w.senders worker).coordinator.worker = worker := by
  obtain ⟨config, events, heq⟩ := h.senders worker
  rw [heq, Sender.worker_run]
  rfl

theorem Wired.sender {w : World I V E M} (h : Wired w) {worker peer : WorkerId}
    {frame : RequestFrame} (hmem : (peer, frame) ∈ (w.senders worker).issued) :
    frame.sender = worker :=
  ((h.carries worker).sender hmem).trans (h.worker worker)

/-! ## Events of one sender

A sender does not see the world: it lives through an event, and the world has to see to it that a
connect is answered with a connection that leads where the sender wanted it. -/

theorem senders_tell_self (w : World I V E M) (worker : WorkerId) (e : Sender.Event) :
    (w.tell worker e).senders worker = (w.senders worker).step e := by
  simp [tell]

theorem senders_tell_of_ne (w : World I V E M) {worker other : WorkerId} (e : Sender.Event)
    (h : other ≠ worker) : (w.tell worker e).senders other = w.senders other := by
  simp [tell, h]

theorem grows_tell (w : World I V E M) (answers : Table (WorkerId × Nat) Answer)
    (mail : List (WorkerId × ConnectionId × Heard)) (worker : WorkerId) (e : Sender.Event) :
    Grows w ({ w with answers, mail }.tell worker e) where
  journal other := by
    by_cases h : other = worker
    · subst h
      rw [senders_tell_self]
      exact Sender.journal_step _ e
    · rw [senders_tell_of_ne _ e h]
  log := List.prefix_rfl
  nextConnection := Nat.le_refl _

/-- A thread that waits for a connect waits until it is answered. -/
theorem tasks_step_connecting {s : Sender} {e : Sender.Event} {thread : Nat}
    {shipment : Shipment} {later : List Shipment}
    (h : s.tasks[thread]? = some (.connecting shipment later))
    (he : ∀ answer, e ≠ .connected thread answer) :
    (s.step e).tasks[thread]? = some (.connecting shipment later) := by
  -- what other threads do leaves this one waiting
  have hset : ∀ {i : Nat} {task : Task}, i ≠ thread →
      (s.tasks.set i task)[thread]? = some (.connecting shipment later) := by
    intro i task hi
    rw [List.getElem?_set_ne hi]
    exact h
  have hlt : thread < s.tasks.length := (List.getElem?_eq_some_iff.1 h).1
  cases e with
  | send now peer type payload =>
    simp only [Sender.step]
    split
    · exact h
    · exact (List.getElem?_append_left hlt).trans h
  | resend now => exact (List.getElem?_append_left hlt).trans h
  | look i =>
    cases htask : s.tasks[i]? with
    | none => simpa only [Sender.step, htask] using h
    | some task =>
      simp only [Sender.step, htask]
      -- a thread that waits has nothing to look for
      by_cases hi : i = thread
      · subst hi
        rw [h] at htask
        cases htask
        rw [List.getElem?_set_self hlt]
        rfl
      · exact hset hi
  | connected i answer =>
    have hi : i ≠ thread := by rintro rfl; exact he answer rfl
    simp only [Sender.step]
    split
    · exact hset hi
    · exact h
  | written i accepted =>
    simp only [Sender.step]
    split
    · next connection shipment' later' htask =>
      refine hset ?_
      rintro rfl
      rw [h] at htask
      cases htask
    · exact h
  | await | alarm =>
    simp only [Sender.step]
    split <;> exact h
  | wake | response | closed | shutdown => exact h

/-- **A sender's event keeps a world wired**, if a connect is answered as the network said. -/
theorem wired_tell {w : World I V E M} (h : Wired w) {answers : Table (WorkerId × Nat) Answer}
    {mail : List (WorkerId × ConnectionId × Heard)} {worker : WorkerId} {e : Sender.Event}
    (hanswers : ∀ {place answer}, answers.get? place = some answer →
      w.answers.get? place = some answer)
    (hconnected : ∀ {thread answer}, e = .connected thread answer →
      w.answers.get? (worker, thread) = some (.connected answer)
        ∧ answers.get? (worker, thread) = none) :
    Wired ({ w with answers, mail }.tell worker e) := by
  have hgrows := grows_tell w answers mail worker e
  refine ⟨h.network.mono (Sent.mono hgrows), ?_, ?_, ?_⟩
  · intro other
    by_cases hother : other = worker
    · subst hother
      obtain ⟨config, events, heq⟩ := h.senders other
      refine ⟨config, events ++ [e], ?_⟩
      rw [senders_tell_self, Sender.run, List.foldl_append]
      exact congrArg (Sender.step · e) heq
    · rw [senders_tell_of_ne _ e hother]
      exact h.senders other
  · intro other
    by_cases hother : other = worker
    · subst hother
      rw [senders_tell_self]
      refine Sender.uses_step (h.uses other) e ?_
      intro thread connection shipment later he htask
      obtain ⟨hget, _⟩ := hconnected he
      obtain ⟨shipment', later', htask', hleads⟩ := h.answers hget
      have hsame := htask.symm.trans htask'
      cases hsame
      exact hleads
    · rw [senders_tell_of_ne _ e hother]
      exact h.uses other
  -- an answer that is left is for a thread that still waits: this one's is taken
  · intro other thread connection hget
    obtain ⟨shipment, later, htask, hleads⟩ := h.answers (hanswers hget)
    refine ⟨shipment, later, ?_, hleads⟩
    by_cases hother : other = worker
    · subst hother
      rw [senders_tell_self]
      refine tasks_step_connecting htask ?_
      intro answer he
      obtain ⟨_, hnone⟩ := hconnected he
      have hanswer : answers.get? (other, thread) = some (.connected (some connection)) := hget
      rw [hanswer] at hnone
      cases hnone
    · rw [senders_tell_of_ne _ e hother]
      exact htask

/-! ## Events of the network

The other direction: links, servers and connections change, and the senders stay as they are. What
their connections lead to must not change, and new answers must lead where they are waited for. -/

/-- An event that only the network takes part in. -/
theorem Wired.rewire {w : World I V E M} (h : Wired w) {network : Network I V E M}
    {answers : Table (WorkerId × Nat) Answer} (hlawful : network.Lawful w.Sent)
    (hevolves : w.network.Evolves network)
    (hanswers : ∀ {worker thread connection},
      answers.get? (worker, thread) = some (.connected (some connection)) →
      w.answers.get? (worker, thread) = some (.connected (some connection))
        ∨ ∃ shipment later, (w.senders worker).tasks[thread]? = some (.connecting shipment later)
          ∧ network.Leads worker shipment.peer connection)
    (mail : List (WorkerId × ConnectionId × Heard)) (log : List (Happening I V E M)) :
    Wired { w with network, answers, mail, log } := by
  refine ⟨hlawful, h.senders, fun worker => (h.uses worker).mono hevolves.leads, ?_⟩
  intro worker thread connection hget
  rcases hanswers hget with hold | hnew
  · obtain ⟨shipment, later, htask, hleads⟩ := h.answers hold
    exact ⟨shipment, later, htask, hevolves.leads hleads⟩
  · exact hnew

/-- What a call does to a world: nothing; or it connects, or it writes, as a task asks for. -/
theorem call_cases (w : World I V E M) (worker : WorkerId) (thread : Nat) :
    w.call worker thread = w
      ∨ (∃ shipment later, (w.senders worker).tasks[thread]? = some (.connecting shipment later)
        ∧ w.call worker thread = { w with
            network := (w.network.connect (.coordinator worker) shipment.peer).2
            answers := w.answers.insert (worker, thread) (.connected
              (w.network.connect (.coordinator worker) shipment.peer).1.toOption) })
      ∨ ∃ connection shipment later,
        (w.senders worker).tasks[thread]? = some (.writing connection shipment later)
        ∧ w.call worker thread = { w with
            network := (w.network.send (.coordinator worker) connection shipment.first.2).2
            answers := w.answers.insert (worker, thread) (.written
              (w.network.send (.coordinator worker) connection shipment.first.2).1.toBool) } := by
  unfold call
  split
  · next shipment later _ htask => exact Or.inr (Or.inl ⟨shipment, later, htask, rfl⟩)
  · next connection shipment later _ htask =>
    exact Or.inr (Or.inr ⟨connection, shipment, later, htask, rfl⟩)
  · exact Or.inl rfl

/-- **A call keeps a world wired**: a new connection leads where the task wants it, and a frame
goes where its request was sent. -/
theorem wired_call {w : World I V E M} (h : Wired w) {worker : WorkerId} {thread : Nat}
    (hfew : (w.call worker thread).network.nextConnection ≤ 2 ^ 64) :
    Wired (w.call worker thread) ∧ w.network.Evolves (w.call worker thread).network := by
  rcases call_cases w worker thread with heq | ⟨shipment, later, htask, heq⟩ |
    ⟨connection, shipment, later, htask, heq⟩
  · rw [heq]
    exact ⟨h, .refl _⟩
  -- it connects
  · rw [heq] at hfew ⊢
    obtain ⟨hlawful, hevolves, hleads⟩ := Network.connect_spec h.network hfew
    refine ⟨h.rewire hlawful hevolves ?_ _ _, hevolves⟩
    intro worker' thread' connection hget
    rw [Table.get?_insert] at hget
    split at hget
    · next hplace =>
      cases hplace
      refine Or.inr ⟨shipment, later, htask, hleads connection ?_⟩
      cases hresult : (w.network.connect (.coordinator worker) shipment.peer).1 with
      | error e => rw [hresult] at hget; cases hget
      | ok id => rw [hresult] at hget; cases hget; rfl
    · exact Or.inl hget
  -- it writes
  · rw [heq]
    have hleads : w.network.Leads worker shipment.peer connection :=
      (h.uses worker).tasks (List.mem_of_getElem? htask) rfl
    have hsent : w.Sent worker shipment.peer shipment.first.2 := by
      obtain ⟨frame, hmem, _, hbytes⟩ := (h.carries worker).tasks (List.mem_of_getElem? htask)
        ⟨shipment, List.mem_cons_self, rfl, List.mem_cons_self⟩
      exact ⟨frame, hmem, hbytes⟩
    obtain ⟨hlawful, hevolves⟩ := Network.send_spec h.network hleads hsent
    refine ⟨h.rewire hlawful hevolves ?_ _ _, hevolves⟩
    intro worker' thread' connection' hget
    rw [Table.get?_insert] at hget
    split at hget
    · cases hget
    · exact Or.inl hget

/-- A host that is used has its holdings changed, if it is there. -/
theorem use_cases (w : World I V E M) (worker : WorkerId)
    (change : Holdings I V E M → Holdings I V E M) :
    w.use worker change = w
      ∨ ∃ number server, w.network.registered.get? worker = some number
        ∧ w.network.servers.get? number = some server
        ∧ w.use worker change = { w with
            network := { w.network with
              servers := w.network.servers.insert number
                { server with holdings := change server.holdings } }
            log := w.log ++ [.used worker change] } := by
  unfold use
  split
  · exact Or.inl rfl
  · next number hnumber =>
    split
    · exact Or.inl rfl
    · next server hserver => exact Or.inr ⟨number, server, hnumber, hserver, rfl⟩

theorem wired_use {w : World I V E M} (h : Wired w) (worker : WorkerId)
    (change : Holdings I V E M → Holdings I V E M) :
    Wired (w.use worker change) ∧ w.network.Evolves (w.use worker change).network := by
  rcases use_cases w worker change with heq | ⟨number, server, _, hserver, heq⟩
  · rw [heq]
    exact ⟨h, .refl _⟩
  · rw [heq]
    have hevolves : w.network.Evolves { w.network with
        servers := w.network.servers.insert number
          { server with holdings := change server.holdings } } :=
      ⟨rfl, Nat.le_refl _, id⟩
    refine ⟨h.rewire ?_ hevolves (fun hget => Or.inl hget) _ _, hevolves⟩
    exact h.network.setServer hserver rfl

/-! ## The beginning

Hosts are registered one after another. Each gets a server of its own, so that nothing leads to two
of them. -/

/-- The network has one server for each of `hosts`, registered under its own id, and no
connection. -/
structure Hosting (n : Network I V E M) (metered : Bool)
    (hosts : List (WorkerId × Holdings I V E M)) : Prop where
  numbers : ∀ {number server}, n.servers.get? number = some server → number < n.servers.size
  registered : ∀ {host number}, n.registered.get? host = some number → ∃ holdings,
    (host, holdings) ∈ hosts ∧ n.servers.get? number = some (.serving host holdings metered)
  unique : ∀ {number server}, n.servers.get? number = some server →
    n.registered.get? server.worker = some number
  present : ∀ {host holdings}, (host, holdings) ∈ hosts → ∃ number,
    n.registered.get? host = some number
  connections : n.connections = .empty
  nextConnection : n.nextConnection = 1

theorem hosting_empty (metered : Bool) :
    Hosting (.empty : Network I V E M) metered [] where
  numbers h := by cases h
  registered h := by cases h
  unique h := by cases h
  present h := by cases h
  connections := rfl
  nextConnection := rfl

theorem hosting_register {n : Network I V E M} {metered : Bool}
    {hosts : List (WorkerId × Holdings I V E M)} (h : Hosting n metered hosts) {host : WorkerId}
    (holdings : Holdings I V E M) (hnew : host ∉ hosts.map Prod.fst) :
    Hosting (n.register (.serving host holdings metered)) metered
      (hosts ++ [(host, holdings)]) := by
  -- servers are numbered from 0 on, so that their number is a new one
  have hnumber : n.servers.contains n.servers.size = false := by
    rw [Table.contains_eq_false_iff]
    cases hget : n.servers.get? n.servers.size with
    | none => rfl
    | some server => exact absurd (h.numbers hget) (Nat.lt_irrefl _)
  have hsize : (n.servers.insert n.servers.size (.serving host holdings metered)).size
      = n.servers.size + 1 := by rw [Table.size_insert, hnumber]; rfl
  have hunknown : ∀ {number server}, n.servers.get? number = some server →
      server.worker ≠ host := by
    rintro number server hserver rfl
    obtain ⟨holdings', hmem, _⟩ := h.registered (h.unique hserver)
    exact hnew (List.mem_map_of_mem hmem)
  refine ⟨?_, ?_, ?_, ?_, h.connections, h.nextConnection⟩
  · intro number server hserver
    show number < (n.servers.insert n.servers.size _).size
    rw [hsize]
    replace hserver := (Table.get?_insert _ _ _ _).symm.trans hserver
    split at hserver
    · omega
    · exact Nat.lt_succ_of_lt (h.numbers hserver)
  · intro host' number hhost
    replace hhost := (Table.get?_insert _ _ _ _).symm.trans hhost
    split at hhost
    · next heq =>
      cases hhost
      subst heq
      exact ⟨holdings, by simp, Table.get?_insert_self _ _ _⟩
    · obtain ⟨holdings', hmem, hserver⟩ := h.registered hhost
      refine ⟨holdings', List.mem_append_left _ hmem, ?_⟩
      exact (Table.get?_insert_of_ne _ _ (Nat.ne_of_lt (h.numbers hserver))).trans hserver
  · intro number server hserver
    replace hserver := (Table.get?_insert _ _ _ _).symm.trans hserver
    split at hserver
    · next heq =>
      cases hserver
      rw [heq]
      exact Table.get?_insert_self _ _ _
    · exact (Table.get?_insert_of_ne _ _ (hunknown hserver)).trans (h.unique hserver)
  · intro host' holdings' hmem
    by_cases hhost : host' = host
    · subst hhost
      exact ⟨_, Table.get?_insert_self _ _ _⟩
    · rcases List.mem_append.1 hmem with hmem | hmem
      · obtain ⟨number, hnumber⟩ := h.present hmem
        exact ⟨number, (Table.get?_insert_of_ne _ _ hhost).trans hnumber⟩
      · exact absurd (Prod.mk.inj (List.mem_singleton.1 hmem)).1 hhost

theorem hosting_foldl {n : Network I V E M} {metered : Bool}
    {hosts : List (WorkerId × Holdings I V E M)} (h : Hosting n metered hosts)
    (more : List (WorkerId × Holdings I V E M)) (hnodup : ((hosts ++ more).map Prod.fst).Nodup) :
    Hosting (more.foldl (fun n host => n.register (.serving host.1 host.2 metered)) n) metered
      (hosts ++ more) := by
  -- on the hosts that are still to come; those that were registered have other ids
  induction more generalizing n hosts with
  | nil => rwa [List.append_nil]
  | cons host more ih =>
    have hsplit : hosts ++ host :: more = (hosts ++ [host]) ++ more := by simp
    rw [hsplit] at hnodup ⊢
    refine ih (hosting_register h host.2 ?_) hnodup
    rw [List.map_append, List.map_append, List.nodup_append, List.nodup_append] at hnodup
    intro hmem
    exact hnodup.1.2.2 _ hmem _ (by simp) rfl

/-- A world begins with one server for each host. -/
theorem hosting_start (hosts : Table WorkerId (Holdings I V E M)) (metered : Bool)
    (config : WorkerId → DeliveryConfig) :
    Hosting (start hosts metered config).network metered hosts.toList :=
  hosting_foldl (hosting_empty metered) hosts.toList hosts.nodup

/-- A world is wired at the start: it has no connections, and no sender has done anything. -/
theorem wired_start (hosts : Table WorkerId (Holdings I V E M)) (metered : Bool)
    (config : WorkerId → DeliveryConfig) : Wired (start hosts metered config) := by
  have h := hosting_start hosts metered config
  refine ⟨⟨?_, h.unique, ?_, ?_⟩, fun worker => ⟨config worker, [], rfl⟩,
    fun worker => Sender.uses_new worker (config worker) _, fun hget => by cases hget⟩
  · intro peer number hpeer
    obtain ⟨holdings, _, hserver⟩ := h.registered hpeer
    exact ⟨_, hserver, rfl⟩
  · intro id c hc
    rw [h.connections] at hc
    cases hc
  · intro id c hc
    rw [h.connections] at hc
    cases hc

/-! ## Events that hosts have no part in

Later proofs go through a run with an eye on the log of what hosts did. Only two kinds of events
write to it. -/

/-- The event is neither a frame that is served nor a change of what a host holds. -/
def Event.Aside : Event I V E M → Prop
  | .serve _ _ => False
  | .use _ _ => False
  | _ => True

theorem Event.aside_cases (e : Event I V E M) :
    (∃ connection action, e = .serve connection action)
      ∨ (∃ worker change, e = .use worker change) ∨ e.Aside := by
  cases e with
  | serve connection action => exact Or.inl ⟨connection, action, rfl⟩
  | use worker change => exact Or.inr (Or.inl ⟨worker, change, rfl⟩)
  | _ => exact Or.inr (Or.inr trivial)

/-! ## Serving

The frame that is served was on a link, and a link carries what its opener sent to the host at its
end. This is where what the network does to a frame meets what the sender wrote. -/

variable [VertexId I] [Value V] [Value E] [Value M]

/-- What serving does to a world: nothing; or the network cuts a link; or it hands a frame to
the server that the connection leads to, which is a request that the opener sent there. -/
theorem serve_cases {w : World I V E M} (h : Wired w) (id : ConnectionId)
    (action : FaultAction) :
    w.serve id action = w
      ∨ ∃ worker peer c server bytes link next plan heard handled,
        w.network.connections.get? id = some c ∧ c.owner = .coordinator worker
        ∧ w.network.registered.get? peer = some c.server
        ∧ w.network.servers.get? c.server = some server ∧ server.worker = peer
        ∧ w.Sent worker peer bytes ∧ (∀ b ∈ link.frames, b ∈ c.link.frames)
        ∧ w.serve id action = { w with
            network := { w.network with
              connections := w.network.connections.insert id { c with link }
              servers := w.network.servers.insert c.server next
              plan }
            mail := w.mail ++ heard.map fun what => (worker, id, what)
            log := w.log ++ handled.filterMap (handling server) }
        ∧ ((heard = [.closed] ∧ handled = [] ∧ next = server)
          ∨ (heard ⊆ ((server.handle bytes).1.map Heard.response).toList ∧ handled = [bytes]
            ∧ next = (server.handle bytes).2)) := by
  unfold serve
  dsimp only
  split
  · next worker number held link hc =>
    split
    · next server heard handled n' hserver hserve =>
      obtain ⟨c, server', bytes, link', next, hc', hserver', hbytes, hlink, ⟨plan, rfl⟩, hcase⟩ :=
        Network.serve_cases hserve
      rw [hc] at hc'
      cases hc'
      rw [hserver] at hserver'
      cases hserver'
      -- what is on the link was sent to the host at its end
      obtain ⟨worker', peer, howner, hpeer, hsent⟩ := h.network.links hc
      cases howner
      obtain ⟨server'', hserver'', hworker⟩ := h.network.hosts hpeer
      rw [hserver] at hserver''
      cases hserver''
      exact Or.inr ⟨worker, peer, _, server, bytes, link', next, plan, heard, handled, hc, rfl,
        hpeer, hserver, hworker, hsent bytes hbytes, hlink, rfl, hcase⟩
    · exact Or.inl rfl
  · exact Or.inl rfl

/-- **Serving keeps a world wired**: a link keeps frames or loses them, and a server keeps its
id. -/
theorem wired_serve {w : World I V E M} (h : Wired w) (id : ConnectionId)
    (action : FaultAction) :
    Wired (w.serve id action) ∧ w.network.Evolves (w.serve id action).network := by
  rcases serve_cases h id action with heq | ⟨worker, peer, c, server, bytes, link, next, plan,
    heard, handled, hc, howner, hpeer, hserver, hworker, hsent, hlink, heq, hcase⟩
  · rw [heq]
    exact ⟨h, .refl _⟩
  · rw [heq]
    -- whatever a server does with a frame, it stays the server of its worker
    have hnext : next.worker = server.worker := by
      rcases hcase with ⟨_, _, rfl⟩ | ⟨_, _, rfl⟩
      · rfl
      · exact server.worker_handle bytes
    have hr : w.network.Reloads w.Sent (w.network.connections.insert id { c with link }) :=
      .insert hc rfl rfl fun b hb => Or.inl (hlink b hb)
    have hlawful := (hr.lawful h.network).setServer hserver hnext
    have hevolves : w.network.Evolves { w.network with
        connections := w.network.connections.insert id { c with link }
        servers := w.network.servers.insert c.server next
        plan } := ⟨rfl, Nat.le_refl _, hr.evolves.leads⟩
    refine ⟨h.rewire ?_ hevolves (fun hget => Or.inl hget) _ _, hevolves⟩
    exact ⟨hlawful.hosts, hlawful.unique, hlawful.fresh, hlawful.links⟩

/-! ## Every event

Each event is one of those above. The counters grow by one at the most, so a run that is short
enough does not wrap them around. -/

theorem grows_serve (w : World I V E M) (id : ConnectionId) (action : FaultAction) :
    Grows w (w.serve id action) := by
  unfold serve
  dsimp only
  split
  · split
    · next hserve =>
      obtain ⟨_, _, _, _, _, _, _, _, _, ⟨_, rfl⟩, _⟩ := Network.serve_cases hserve
      exact ⟨fun _ => List.prefix_rfl, List.prefix_append _ _, Nat.le_refl _⟩
    · exact .refl w
  · exact .refl w

/-! ### What a sender is told

Most events of a world are events of one sender (`told?`). Such an event may take an answer or a
piece of mail away, and does nothing else beside telling the sender (`step_of_told`); all the others
leave every sender as it is (`senders_of_untold`). -/

/-- The sender that an event is for, and what the sender is told. -/
def told? (w : World I V E M) : Event I V E M → Option (WorkerId × Sender.Event)
  | .send worker peer type payload => some (worker, .send w.clock.now peer type payload)
  | .resend worker => some (worker, .resend w.clock.now)
  | .wake worker => some (worker, .wake)
  | .await worker => some (worker, .await)
  | .shutdown worker => some (worker, .shutdown)
  | .look worker thread => some (worker, .look thread)
  | .alarm worker connection => some (worker, .alarm connection)
  | .answer worker thread =>
    (w.answers.get? (worker, thread)).map fun answer => (worker, answer.event thread)
  | .hear place => w.mail[place]?.map fun said => (said.1, said.2.2.event said.2.1)
  | _ => none

/-- **An event that a sender is told of** does nothing else but take an answer or a piece of mail
away. -/
theorem step_of_told {w : World I V E M} {e : Event I V E M} {worker : WorkerId}
    {told : Sender.Event} (h : w.told? e = some (worker, told)) :
    ∃ answers mail, w.step e = { w with answers, mail }.tell worker told := by
  cases e with
  | answer other thread =>
    obtain ⟨answer, hanswer, heq⟩ := Option.map_eq_some_iff.1 h
    cases heq
    rw [step, hanswer]
    exact ⟨_, w.mail, rfl⟩
  | hear place =>
    obtain ⟨said, hsaid, heq⟩ := Option.map_eq_some_iff.1 h
    cases heq
    rw [step, hsaid]
    exact ⟨w.answers, _, rfl⟩
  | call | close | serve | advance | reach | use => cases h
  | send | resend | wake | await | shutdown | look | alarm =>
    cases h
    exact ⟨w.answers, w.mail, rfl⟩

/-- An event that no sender is told of leaves all of them as they are. -/
theorem senders_of_untold {w : World I V E M} {e : Event I V E M} (h : w.told? e = none) :
    (w.step e).senders = w.senders := by
  cases e with
  | answer worker thread =>
    rw [step, Option.map_eq_none_iff.1 h]
  | hear place =>
    rw [step, Option.map_eq_none_iff.1 h]
  | call worker thread =>
    rcases call_cases w worker thread with heq | ⟨_, _, _, heq⟩ | ⟨_, _, _, _, heq⟩
    all_goals rw [step, heq]
  | close worker connection =>
    rw [step]
    split <;> rfl
  | serve connection action =>
    rw [step, serve]
    dsimp only
    split
    · split <;> rfl
    · rfl
  | use worker change =>
    rcases use_cases w worker change with heq | ⟨_, _, _, _, heq⟩
    all_goals rw [step, heq]
  | advance | reach => rfl
  -- the worker's own calls are told to its sender
  | send | resend | wake | await | shutdown | look | alarm => cases h

omit [VertexId I] [Value V] [Value E] [Value M] in
/-- Nobody is told to send but by the worker that sends. -/
theorem eq_send_of_told {w : World I V E M} {e : Event I V E M} {worker peer : WorkerId}
    {now : Nat} {type : RequestType} {payload : Bytes}
    (h : w.told? e = some (worker, .send now peer type payload)) :
    e = .send worker peer type payload := by
  cases e with
  | send =>
    cases h
    rfl
  | answer other thread =>
    obtain ⟨answer, -, heq⟩ := Option.map_eq_some_iff.1 h
    cases answer <;> cases heq
  | hear place =>
    obtain ⟨⟨_, _, what⟩, -, heq⟩ := Option.map_eq_some_iff.1 h
    cases what <;> cases heq
  | _ => cases h

/-- **A sender lives through its own events**, and a request is sent to it only when a worker
sends one. -/
theorem senders_step (w : World I V E M) (e : Event I V E M) (worker : WorkerId) :
    (w.step e).senders worker = w.senders worker
      ∨ ∃ e', (w.step e).senders worker = (w.senders worker).step e'
        ∧ ∀ {now peer type payload}, e' = .send now peer type payload →
          e = .send worker peer type payload := by
  cases h : w.told? e with
  | none => exact .inl (congrFun (senders_of_untold h) worker)
  | some told =>
    obtain ⟨other, e'⟩ := told
    obtain ⟨answers, mail, hstep⟩ := step_of_told h
    rw [hstep]
    by_cases hother : worker = other
    · subst hother
      refine .inr ⟨e', senders_tell_self _ _ _, fun hsend => ?_⟩
      exact eq_send_of_told (h.trans (by rw [hsend]))
    · exact .inl (senders_tell_of_ne _ e' hother)

/-- **Nothing that was written down is lost.** -/
theorem grows_step (w : World I V E M) (e : Event I V E M) : Grows w (w.step e) := by
  -- what a sender is told goes into its journal; the other events are the network's
  cases h : w.told? e with
  | some told =>
    obtain ⟨answers, mail, hstep⟩ := step_of_told h
    rw [hstep]
    exact grows_tell w answers mail told.1 told.2
  | none =>
    cases e with
    | answer worker thread =>
      rw [step, Option.map_eq_none_iff.1 h]
      exact .refl w
    | hear place =>
      rw [step, Option.map_eq_none_iff.1 h]
      exact .refl w
    | call worker thread =>
      rcases call_cases w worker thread with heq | ⟨shipment, later, _, heq⟩ |
        ⟨connection, shipment, later, _, heq⟩
      · rw [step, heq]
        exact .refl w
      · rw [step, heq]
        exact ⟨fun _ => List.prefix_rfl, List.prefix_rfl, Network.nextConnection_connect _ _ _⟩
      · rw [step, heq]
        exact ⟨fun _ => List.prefix_rfl, List.prefix_rfl,
          Nat.le_of_eq (Network.nextConnection_send _ _ _ _).symm⟩
    | close worker connection =>
      rw [step]
      split
      · exact ⟨fun _ => List.prefix_rfl, List.prefix_rfl, Nat.le_refl _⟩
      · exact .refl w
    | serve connection action => exact grows_serve w connection action
    | use worker change =>
      rcases use_cases w worker change with heq | ⟨number, server, _, _, heq⟩
      · rw [step, heq]
        exact .refl w
      · rw [step, heq]
        exact ⟨fun _ => List.prefix_rfl, List.prefix_append _ _, Nat.le_refl _⟩
    | advance | reach => exact ⟨fun _ => List.prefix_rfl, List.prefix_rfl, Nat.le_refl _⟩
    | send | resend | wake | await | shutdown | look | alarm => cases h

/-- **Hosts have no part in the other events**, and nothing is written down about them. -/
theorem aside_step (w : World I V E M) {e : Event I V E M} (he : e.Aside) :
    (w.step e).log = w.log ∧ (w.step e).network.servers = w.network.servers
      ∧ (w.step e).network.registered = w.network.registered := by
  cases e with
  | serve connection action => exact he.elim
  | use worker change => exact he.elim
  | call worker thread =>
    rcases call_cases w worker thread with heq | ⟨_, _, _, heq⟩ | ⟨_, _, _, _, heq⟩
    · rw [step, heq]
      exact ⟨rfl, rfl, rfl⟩
    · rw [step, heq]
      exact ⟨rfl, Network.servers_connect _ _ _, Network.registered_connect _ _ _⟩
    · rw [step, heq]
      exact ⟨rfl, Network.servers_send _ _ _ _, Network.registered_send _ _ _ _⟩
  | answer worker thread =>
    rw [step]
    split <;> exact ⟨rfl, rfl, rfl⟩
  | close worker connection =>
    rw [step]
    split <;> exact ⟨rfl, rfl, rfl⟩
  | hear place =>
    rw [step]
    split <;> exact ⟨rfl, rfl, rfl⟩
  | advance | reach => exact ⟨rfl, rfl, rfl⟩
  | send | resend | wake | await | shutdown | look | alarm => exact ⟨rfl, rfl, rfl⟩

/-- Journals and log only grow in a run. -/
theorem grows_run (w : World I V E M) (events : List (Event I V E M)) :
    Grows w (w.run events) := by
  induction events generalizing w with
  | nil => exact .refl w
  | cons e events ih => exact (grows_step w e).trans (ih (w.step e))

theorem nextConnection_step_le (w : World I V E M) (e : Event I V E M) :
    (w.step e).network.nextConnection ≤ w.network.nextConnection + 1 := by
  cases e with
  | call worker thread =>
    rcases call_cases w worker thread with heq | ⟨shipment, later, _, heq⟩ |
      ⟨connection, shipment, later, _, heq⟩
    · rw [step, heq]
      exact Nat.le_succ _
    · rw [step, heq]
      -- a connect takes one number, and nothing else does
      exact Network.nextConnection_connect_le _ _ _
    · rw [step, heq]
      exact Nat.le_trans (Nat.le_of_eq (Network.nextConnection_send _ _ _ _)) (Nat.le_succ _)
  | serve connection action =>
    rw [step, serve]
    dsimp only
    split
    · split
      · next hserve =>
        obtain ⟨_, _, _, _, _, _, _, _, _, ⟨_, rfl⟩, _⟩ := Network.serve_cases hserve
        exact Nat.le_succ _
      · exact Nat.le_succ _
    · exact Nat.le_succ _
  | answer worker thread =>
    rw [step]
    split <;> exact Nat.le_succ _
  | close worker connection =>
    rw [step]
    split <;> exact Nat.le_succ _
  | hear place =>
    rw [step]
    split <;> exact Nat.le_succ _
  | use worker change =>
    rcases use_cases w worker change with heq | ⟨_, _, _, _, heq⟩
    all_goals
      rw [step, heq]
      exact Nat.le_succ _
  | advance | reach => exact Nat.le_succ _
  | send | resend | wake | await | shutdown | look | alarm => exact Nat.le_succ _

/-- **Every event keeps a world wired.** -/
theorem wired_step {w : World I V E M} (h : Wired w) (e : Event I V E M)
    (hfew : (w.step e).Unwrapped) : Wired (w.step e) := by
  have htell : ∀ worker e', (∀ {thread answer}, e' ≠ .connected thread answer) →
      Wired (w.tell worker e') :=
    fun worker e' he => wired_tell h id fun heq => absurd heq he
  cases e with
  | call worker thread => exact (wired_call h hfew.2).1
  | answer worker thread =>
    rw [step]
    split
    · exact h
    -- the answer is taken away, so that it is heard once
    · next answer hget =>
      refine wired_tell h ?_ ?_
      · exact Table.get?_of_get?_erase
      · intro thread' answer' heq
        cases answer with
        | connected connection =>
          cases heq
          exact ⟨hget, by rw [Table.get?_erase, if_pos rfl]⟩
        | written accepted => cases heq
  | close worker connection =>
    rw [step]
    split
    · obtain ⟨hlawful, hevolves⟩ := Network.close_spec h.network (.coordinator worker) connection
      exact h.rewire hlawful hevolves (fun hget => Or.inl hget) _ _
    · exact h
  | serve connection action => exact (wired_serve h connection action).1
  | hear place =>
    rw [step]
    split
    · exact h
    · next what _ =>
      refine wired_tell h id ?_
      intro thread answer heq
      cases what <;> cases heq
  | use worker change => exact (wired_use h worker change).1
  | reach worker reachable =>
    have hlawful : (w.network.setReachable worker reachable).Lawful w.Sent :=
      ⟨h.network.hosts, h.network.unique, h.network.fresh, h.network.links⟩
    exact h.rewire hlawful ⟨rfl, Nat.le_refl _, id⟩ (fun hget => Or.inl hget) _ _
  | advance ms => exact ⟨h.network, h.senders, h.uses, h.answers⟩
  | send worker | resend worker | wake worker | await worker | shutdown worker | look worker
  | alarm worker =>
    exact htell worker _ (by simp)

/-- As many events issue as many requests at the most, and open as many connections. -/
theorem counters_run_le (w : World I V E M) (events : List (Event I V E M)) :
    (∀ worker, ((w.run events).senders worker).issued.length
        ≤ (w.senders worker).issued.length + events.length)
      ∧ (w.run events).network.nextConnection ≤ w.network.nextConnection + events.length := by
  induction events generalizing w with
  | nil => exact ⟨fun _ => Nat.le_refl _, Nat.le_refl _⟩
  | cons e events ih =>
    obtain ⟨hissued, hnext⟩ := ih (w.step e)
    rw [List.length_cons]
    refine ⟨fun worker => ?_, ?_⟩
    · have hstep : ((w.step e).senders worker).issued.length
          ≤ (w.senders worker).issued.length + 1 := by
        rcases senders_step w e worker with heq | ⟨e', heq, _⟩
        · rw [heq]; exact Nat.le_succ _
        · rw [heq]; exact Sender.length_issued_step_le _ e'
      have := hissued worker
      show (((w.step e).run events).senders worker).issued.length ≤ _
      omega
    · have hstep := nextConnection_step_le w e
      show ((w.step e).run events).network.nextConnection ≤ _
      omega

/-- No counter runs over in fewer than 2 ^ 64 events. -/
theorem unwrapped_of_length {hosts : Table WorkerId (Holdings I V E M)} {metered : Bool}
    {config : WorkerId → DeliveryConfig} {events : List (Event I V E M)}
    (h : events.length < 2 ^ 64) : ((start hosts metered config).run events).Unwrapped := by
  obtain ⟨hissued, hnext⟩ := counters_run_le (start hosts metered config) events
  refine ⟨fun worker peer => ?_, ?_⟩
  · have hzero : ((start hosts metered config).senders worker).issued.length = 0 := rfl
    have hsent := Sender.length_sentTo_le
      (((start hosts metered config).run events).senders worker) peer
    have := hissued worker
    omega
  · have hone := (hosting_start hosts metered config).nextConnection
    omega

end Superstep.World
