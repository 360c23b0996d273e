import Mathlib.Algebra.Ring.Nat
import Superstep.Network.World
import Superstep.Proofs.Server

/-!
# Superstep — where connections lead and what is on them

`Lawful n Sent` is what a network with fixed hosts keeps: every worker has at most one server,
connections are numbered afresh, each was opened by a coordinator and leads to a host, and
nothing is on it but frames that this coordinator sent to this host (`Sent`). One lemma for each
operation of a network says that it keeps this, and that no connection changes its ends
(`Evolves`).

`send_cases`, `connect_cases` and `serve_cases` say all that an operation can do; for the delivery
of one frame: the network cuts the link, or hands the frame to the server and may lose the answer
or keep a second copy.
-/

namespace Superstep

def Link.frames (l : Link) : List Bytes := l.copy.toList ++ l.queue

/-- A link that accepts a frame has this one more. -/
theorem Link.frames_accept {l l' : Link} {frame : Bytes} (h : l.accept? frame = some l') :
    ∀ bytes ∈ l'.frames, bytes ∈ l.frames ∨ bytes = frame := by
  unfold accept? at h
  split at h
  · cases h
  · cases h
    intro bytes hbytes
    rw [frames, ← List.append_assoc, List.mem_append, List.mem_singleton] at hbytes
    exact hbytes

/-- What is taken off a link was on it, and what is left was too. -/
theorem Link.frames_pop {l l' : Link} {frame : Bytes} {again : Bool}
    (h : l.pop? = some (frame, again, l')) :
    frame ∈ l.frames ∧ ∀ bytes ∈ l'.frames, bytes ∈ l.frames := by
  unfold pop? at h
  split at h
  · next hcopy =>
    cases h
    refine ⟨by simp [frames, hcopy], ?_⟩
    intro bytes hbytes
    exact List.mem_append_right _ (by simpa [frames] using hbytes)
  · next hcopy hqueue =>
    cases h
    refine ⟨by simp [frames, hqueue], ?_⟩
    intro bytes hbytes
    simp only [frames, hcopy, hqueue, Option.toList_none, List.nil_append] at hbytes ⊢
    exact List.mem_cons_of_mem _ hbytes
  · cases h

namespace Network

variable {I V E M : Type} {Sent Sent' : WorkerId → WorkerId → Bytes → Prop}

/-- The connection was opened by the coordinator of `worker` and leads to the server of
`peer`. -/
def Leads (n : Network I V E M) (worker peer : WorkerId) (id : ConnectionId) : Prop :=
  ∃ c, n.connections.get? id = some c ∧ c.owner = .coordinator worker
    ∧ n.registered.get? peer = some c.server

/-- What a network with fixed hosts keeps. `Sent worker peer bytes` is to say that the
coordinator of `worker` may put `bytes` on a connection to `peer`. -/
structure Lawful (n : Network I V E M) (Sent : WorkerId → WorkerId → Bytes → Prop) : Prop where
  hosts : ∀ {peer number}, n.registered.get? peer = some number →
    ∃ server, n.servers.get? number = some server ∧ server.worker = peer
  unique : ∀ {number server}, n.servers.get? number = some server →
    n.registered.get? server.worker = some number
  fresh : ∀ {id c}, n.connections.get? id = some c → id.val.toNat < n.nextConnection
  links : ∀ {id c}, n.connections.get? id = some c → ∃ worker peer,
    c.owner = .coordinator worker ∧ n.registered.get? peer = some c.server
      ∧ ∀ bytes ∈ c.link.frames, Sent worker peer bytes

theorem Lawful.mono {n : Network I V E M} (h : n.Lawful Sent)
    (hsent : ∀ {worker peer bytes}, Sent worker peer bytes → Sent' worker peer bytes) :
    n.Lawful Sent' where
  hosts := h.hosts
  unique := h.unique
  fresh := h.fresh
  links hc := by
    obtain ⟨worker, peer, howner, hserver, hframes⟩ := h.links hc
    exact ⟨worker, peer, howner, hserver, fun bytes hb => hsent (hframes bytes hb)⟩

theorem Lawful.host_unique {n : Network I V E M} (h : n.Lawful Sent) {peer peer' : WorkerId}
    {number : Nat} (hpeer : n.registered.get? peer = some number)
    (hpeer' : n.registered.get? peer' = some number) : peer = peer' := by
  obtain ⟨server, hserver, rfl⟩ := h.hosts hpeer
  obtain ⟨server', hserver', rfl⟩ := h.hosts hpeer'
  rw [hserver] at hserver'
  rw [Option.some.inj hserver']

/-- `n'` is what may become of `n` while its hosts stay: connections keep their ends. -/
structure Evolves (n n' : Network I V E M) : Prop where
  registered : n'.registered = n.registered
  nextConnection : n.nextConnection ≤ n'.nextConnection
  leads : ∀ {worker peer id}, n.Leads worker peer id → n'.Leads worker peer id

theorem Evolves.refl (n : Network I V E M) : n.Evolves n := ⟨rfl, Nat.le_refl _, id⟩

/-! ## Changing what is on a connection

Most operations replace the table of connections by one with the same ends. What is on a link
afterwards was on it before, or is allowed there. -/

/-- Every connection keeps its ends, and gets nothing on it but what may be sent between
them. -/
structure Reloads (n : Network I V E M) (Sent : WorkerId → WorkerId → Bytes → Prop)
    (connections : Table ConnectionId Connection) : Prop where
  old : ∀ {id c'}, connections.get? id = some c' → ∃ c, n.connections.get? id = some c
    ∧ c'.owner = c.owner ∧ c'.server = c.server ∧ ∀ bytes ∈ c'.link.frames,
      bytes ∈ c.link.frames ∨ ∀ worker peer, c.owner = .coordinator worker →
        n.registered.get? peer = some c.server → Sent worker peer bytes
  kept : ∀ {id c}, n.connections.get? id = some c → ∃ c', connections.get? id = some c'
    ∧ c'.owner = c.owner ∧ c'.server = c.server

/-- Such a change keeps a network lawful. -/
theorem Reloads.lawful {n : Network I V E M} {connections : Table ConnectionId Connection}
    (hr : n.Reloads Sent connections) (h : n.Lawful Sent) :
    ({ n with connections } : Network I V E M).Lawful Sent where
  hosts := h.hosts
  unique := h.unique
  fresh hc' := by
    obtain ⟨c, hc, _⟩ := hr.old hc'
    exact h.fresh hc
  links hc' := by
    obtain ⟨c, hc, howner, hserver, hframes⟩ := hr.old hc'
    obtain ⟨worker, peer, hworker, hpeer, hsent⟩ := h.links hc
    refine ⟨worker, peer, howner.trans hworker, by rw [hserver]; exact hpeer, ?_⟩
    intro bytes hbytes
    rcases hframes bytes hbytes with hbytes | hnew
    · exact hsent bytes hbytes
    · exact hnew worker peer hworker hpeer

theorem Reloads.evolves {n : Network I V E M} {connections : Table ConnectionId Connection}
    (hr : n.Reloads Sent connections) : n.Evolves { n with connections } where
  registered := rfl
  nextConnection := Nat.le_refl _
  leads := by
    rintro worker peer id ⟨c, hc, howner, hserver⟩
    obtain ⟨c', hc', howner', hserver'⟩ := hr.kept hc
    exact ⟨c', hc', howner'.trans howner, by rw [hserver']; exact hserver⟩

theorem Reloads.insert {n : Network I V E M} {id : ConnectionId} {c c' : Connection}
    (hc : n.connections.get? id = some c) (howner : c'.owner = c.owner)
    (hserver : c'.server = c.server)
    (hframes : ∀ bytes ∈ c'.link.frames, bytes ∈ c.link.frames
      ∨ ∀ worker peer, c.owner = .coordinator worker → n.registered.get? peer = some c.server →
        Sent worker peer bytes) :
    n.Reloads Sent (n.connections.insert id c') where
  old := by
    intro id' d hd
    rw [Table.get?_insert] at hd
    split at hd
    · next hid =>
      cases hd
      exact ⟨c, by rw [hid]; exact hc, howner, hserver, hframes⟩
    · exact ⟨d, hd, rfl, rfl, fun _ hb => Or.inl hb⟩
  kept := by
    intro id' d hd
    rw [Table.get?_insert]
    by_cases hid : id' = id
    · subst hid
      rw [hc] at hd
      cases hd
      exact ⟨c', by simp, howner, hserver⟩
    · exact ⟨d, by simp [hid, hd], rfl, rfl⟩

theorem Reloads.mapValues {n : Network I V E M} {f : ConnectionId → Connection → Connection}
    (howner : ∀ id c, (f id c).owner = c.owner) (hserver : ∀ id c, (f id c).server = c.server)
    (hlink : ∀ id c, (f id c).link = c.link) :
    n.Reloads Sent (n.connections.mapValues f) where
  old := by
    intro id c' hc'
    rw [Table.get?_mapValues] at hc'
    obtain ⟨c, hc, rfl⟩ := Option.map_eq_some_iff.1 hc'
    exact ⟨c, hc, howner id c, hserver id c, fun bytes hb => Or.inl (by rwa [hlink] at hb)⟩
  kept := by
    intro id c hc
    exact ⟨f id c, by simp [hc], howner id c, hserver id c⟩

/-! ## The operations

First all that an operation can do, then that it keeps the network lawful. -/

/-- Closing a connection leaves its ends and its link. -/
theorem close_spec {n : Network I V E M} (h : n.Lawful Sent) (owner : Endpoint)
    (id : ConnectionId) : (n.close owner id).Lawful Sent ∧ n.Evolves (n.close owner id) := by
  have hr : n.Reloads Sent (n.connections.mapValues fun key c =>
      if key = id && c.owner = owner then { c with held := false } else c) := by
    refine .mapValues ?_ ?_ ?_
    all_goals
      intro id c
      split <;> rfl
  exact ⟨hr.lawful h, hr.evolves⟩

/-- **What a send can do.** The link takes the frame; or it was cut, and the connection is not held
any more; or nothing happens. -/
theorem send_cases (n : Network I V E M) (owner : Endpoint) (id : ConnectionId) (frame : Bytes) :
    (∃ c link, n.connections.get? id = some c ∧ c.held = true ∧ c.owner = owner
        ∧ c.link.accept? frame = some link
        ∧ n.send owner id frame
          = (.ok (), { n with connections := n.connections.insert id { c with link } }))
      ∨ (∃ c, n.connections.get? id = some c ∧ n.send owner id frame
        = (.error .connectionClosed,
          { n with connections := n.connections.insert id { c with held := false } }))
      ∨ n.send owner id frame = (.error .connectionClosed, n) := by
  unfold send
  cases hc : n.connections.get? id with
  | none => exact Or.inr (Or.inr rfl)
  | some c =>
    by_cases hheld : (c.held && decide (c.owner = owner)) = true
    · simp only [hheld]
      have howner : c.held = true ∧ c.owner = owner := by simpa using hheld
      cases haccept : c.link.accept? frame with
      | some link => exact Or.inl ⟨c, link, rfl, howner.1, howner.2, haccept, rfl⟩
      | none => exact Or.inr (Or.inl ⟨c, rfl, rfl⟩)
    · exact Or.inr (Or.inr (by simp only [hheld]; rfl))

/-- **What a connect can do.** It opens a connection to the server that is registered, or nothing
happens. -/
theorem connect_cases (n : Network I V E M) (owner : Endpoint) (worker : WorkerId) :
    (∃ number, n.registered.get? worker = some number
        ∧ n.connect owner worker = (.ok ⟨UInt64.ofNat n.nextConnection⟩, { n with
          connections := n.connections.insert ⟨UInt64.ofNat n.nextConnection⟩
            ⟨owner, number, true, .empty⟩
          nextConnection := n.nextConnection + 1 }))
      ∨ ∃ e, n.connect owner worker = (.error e, n) := by
  unfold connect
  split
  · next number hnumber =>
    split
    · exact Or.inr ⟨_, rfl⟩
    · exact Or.inl ⟨number, hnumber, rfl⟩
  · exact Or.inr ⟨_, rfl⟩

/-- **A frame gets on a connection only between the ends of the connection.** -/
theorem send_spec {n : Network I V E M} (h : n.Lawful Sent) {worker peer : WorkerId}
    {id : ConnectionId} {frame : Bytes} (hleads : n.Leads worker peer id)
    (hsent : Sent worker peer frame) :
    (n.send (.coordinator worker) id frame).2.Lawful Sent
      ∧ n.Evolves (n.send (.coordinator worker) id frame).2 := by
  obtain ⟨d, hd, howner, hpeer⟩ := hleads
  rcases n.send_cases (.coordinator worker) id frame with
    ⟨c, link, hc, -, -, haccept, heq⟩ | ⟨c, hc, heq⟩ | heq
  -- the frame is the only new one on the link, and its destination is the link's end
  · rw [heq]
    rw [hd] at hc
    cases hc
    have hr : n.Reloads Sent (n.connections.insert id { d with link }) := by
      refine .insert hd rfl rfl ?_
      intro bytes hbytes
      rcases Link.frames_accept haccept bytes hbytes with hold | rfl
      · exact Or.inl hold
      · refine Or.inr fun worker' peer' howner' hpeer' => ?_
        rw [howner] at howner'
        cases howner'
        rw [h.host_unique hpeer' hpeer]
        exact hsent
    exact ⟨hr.lawful h, hr.evolves⟩
  · rw [heq]
    have hr : n.Reloads Sent (n.connections.insert id { c with held := false }) :=
      .insert hc rfl rfl fun _ hb => Or.inl hb
    exact ⟨hr.lawful h, hr.evolves⟩
  · rw [heq]
    exact ⟨h, .refl n⟩

/-- **A connect opens a connection with a new number to the server of its destination**, or
changes nothing. -/
theorem connect_spec {n : Network I V E M} (h : n.Lawful Sent) {worker peer : WorkerId}
    (hfew : (n.connect (.coordinator worker) peer).2.nextConnection ≤ 2 ^ 64) :
    (n.connect (.coordinator worker) peer).2.Lawful Sent
      ∧ n.Evolves (n.connect (.coordinator worker) peer).2
      ∧ ∀ id, (n.connect (.coordinator worker) peer).1 = .ok id →
        (n.connect (.coordinator worker) peer).2.Leads worker peer id := by
  obtain ⟨number, hnumber, heq⟩ | ⟨e, heq⟩ := n.connect_cases (.coordinator worker) peer
  · rw [heq] at hfew ⊢
    have hlt : n.nextConnection < 2 ^ 64 := hfew
    have hval : (UInt64.ofNat n.nextConnection).toNat = n.nextConnection := by
      rw [UInt64.toNat_ofNat', Nat.mod_eq_of_lt hlt]
    -- numbers in use are smaller than the next one, which has not run over
    have hnew : n.connections.get? ⟨UInt64.ofNat n.nextConnection⟩ = none := by
      cases hget : n.connections.get? ⟨UInt64.ofNat n.nextConnection⟩ with
      | none => rfl
      | some c =>
        have := h.fresh hget
        rw [hval] at this
        omega
    refine ⟨⟨h.hosts, h.unique, ?_, ?_⟩, ⟨rfl, Nat.le_succ _, ?_⟩, ?_⟩
    · intro id c hc
      rw [Table.get?_insert] at hc
      split at hc
      · next hid =>
        rw [hid]
        show (UInt64.ofNat n.nextConnection).toNat < n.nextConnection + 1
        omega
      · exact Nat.lt_succ_of_lt (h.fresh hc)
    · intro id c hc
      rw [Table.get?_insert] at hc
      split at hc
      · cases hc
        exact ⟨worker, peer, rfl, hnumber, by simp [Link.empty, Link.frames]⟩
      · exact h.links hc
    · rintro worker' peer' id ⟨c, hc, howner, hserver⟩
      refine ⟨c, ?_, howner, hserver⟩
      rw [Table.get?_insert_of_ne _ _ (by rintro rfl; rw [hnew] at hc; cases hc)]
      exact hc
    · intro id hid
      cases hid
      exact ⟨_, Table.get?_insert_self _ _ _, rfl, hnumber⟩
  · rw [heq]
    exact ⟨h, .refl n, by simp⟩

theorem servers_connect (n : Network I V E M) (owner : Endpoint) (peer : WorkerId) :
    (n.connect owner peer).2.servers = n.servers := by
  obtain ⟨_, -, heq⟩ | ⟨_, heq⟩ := n.connect_cases owner peer <;> rw [heq]

theorem servers_send (n : Network I V E M) (owner : Endpoint) (id : ConnectionId)
    (frame : Bytes) : (n.send owner id frame).2.servers = n.servers := by
  obtain ⟨_, _, -, -, -, -, heq⟩ | ⟨_, -, heq⟩ | heq := n.send_cases owner id frame <;> rw [heq]

theorem registered_connect (n : Network I V E M) (owner : Endpoint) (peer : WorkerId) :
    (n.connect owner peer).2.registered = n.registered := by
  obtain ⟨_, -, heq⟩ | ⟨_, heq⟩ := n.connect_cases owner peer <;> rw [heq]

theorem registered_send (n : Network I V E M) (owner : Endpoint) (id : ConnectionId)
    (frame : Bytes) : (n.send owner id frame).2.registered = n.registered := by
  obtain ⟨_, _, -, -, -, -, heq⟩ | ⟨_, -, heq⟩ | heq := n.send_cases owner id frame <;> rw [heq]

theorem nextConnection_connect (n : Network I V E M) (owner : Endpoint) (peer : WorkerId) :
    n.nextConnection ≤ (n.connect owner peer).2.nextConnection := by
  obtain ⟨_, -, heq⟩ | ⟨_, heq⟩ := n.connect_cases owner peer <;> rw [heq]
  exact Nat.le_succ _

theorem nextConnection_connect_le (n : Network I V E M) (owner : Endpoint) (peer : WorkerId) :
    (n.connect owner peer).2.nextConnection ≤ n.nextConnection + 1 := by
  obtain ⟨_, -, heq⟩ | ⟨_, heq⟩ := n.connect_cases owner peer <;> rw [heq]
  exact Nat.le_succ _

theorem nextConnection_send (n : Network I V E M) (owner : Endpoint) (id : ConnectionId)
    (frame : Bytes) : (n.send owner id frame).2.nextConnection = n.nextConnection := by
  obtain ⟨_, _, -, -, -, -, heq⟩ | ⟨_, -, heq⟩ | heq := n.send_cases owner id frame <;> rw [heq]

/-- A server may change, but not its id. -/
theorem Lawful.setServer {n : Network I V E M} (h : n.Lawful Sent) {number : Nat}
    {server next : Server I V E M} (hget : n.servers.get? number = some server)
    (hworker : next.worker = server.worker) :
    ({ n with servers := n.servers.insert number next } : Network I V E M).Lawful Sent where
  hosts := by
    intro peer number' hnumber'
    obtain ⟨server', hserver', hpeer⟩ := h.hosts hnumber'
    show ∃ s, (n.servers.insert number next).get? number' = some s ∧ s.worker = peer
    rw [Table.get?_insert]
    split
    · next heq =>
      subst heq
      rw [hget] at hserver'
      cases hserver'
      exact ⟨next, rfl, hworker.trans hpeer⟩
    · exact ⟨server', hserver', hpeer⟩
  unique := by
    intro number' server' hserver'
    rw [Table.get?_insert] at hserver'
    split at hserver'
    · next heq =>
      subst heq
      cases hserver'
      rw [hworker]
      exact h.unique hget
    · exact h.unique hserver'
  -- connections name servers by number, and no number changes
  fresh := h.fresh
  links := h.links

/-! ## Serving

The frame is handed to the server that the connection leads to, with whatever is in store for it.
That the server keeps its id is left to those who know what servers do. -/

variable [VertexId I] [Value V] [Value E] [Value M]

/-- **What serving a frame can do.** The network cuts the link in front of the frame, or hands
the frame to the server at the other end; then the answer may be lost. Nothing gets on the link
that was not on it. -/
theorem serve_cases {n n' : Network I V E M} {id : ConnectionId} {heard : List Heard}
    {handled : List Bytes} (h : n.serve id = some (heard, handled, n')) :
    ∃ c server bytes link next, n.connections.get? id = some c
      ∧ n.servers.get? c.server = some server ∧ bytes ∈ c.link.frames
      ∧ (∀ b ∈ link.frames, b ∈ c.link.frames)
      ∧ (∃ plan, n' = { n with
          connections := n.connections.insert id { c with link }
          servers := n.servers.insert c.server next
          plan })
      ∧ ((heard = [.closed] ∧ handled = [] ∧ next = server)
        ∨ (heard ⊆ ((server.handle bytes).1.map Heard.response).toList ∧ handled = [bytes]
          ∧ next = (server.handle bytes).2)) := by
  unfold serve at h
  simp only [Option.bind_eq_bind, Option.bind_eq_some_iff] at h
  obtain ⟨c, hc, ⟨bytes, again, link⟩, hpop, server, hserver, h⟩ := h
  obtain ⟨hbytes, hlink⟩ := Link.frames_pop hpop
  cases h
  -- a copy is put back in front of what is left
  have hcopy : ∀ b ∈ ({ link with copy := some bytes } : Link).frames, b ∈ c.link.frames := by
    intro b hb
    rcases List.mem_cons.1 hb with rfl | hb
    · exact hbytes
    · exact hlink b (List.mem_append_right _ hb)
  -- a copy is delivered, whatever the plan says
  generalize (if again then (FaultAction.deliver, n.plan) else n.plan.actionFor bytes) = choice
  obtain ⟨action, plan⟩ := choice
  cases action with
  | deliver =>
    exact ⟨c, server, bytes, link, _, hc, hserver, hbytes, hlink, ⟨plan, rfl⟩,
      Or.inr ⟨fun _ hx => hx, rfl, rfl⟩⟩
  | dropResponse =>
    exact ⟨c, server, bytes, link, _, hc, hserver, hbytes, hlink, ⟨plan, rfl⟩,
      Or.inr ⟨by simp [Link.carry], rfl, rfl⟩⟩
  | closeConnection =>
    exact ⟨c, server, bytes, { link with cut := true }, server, hc, hserver, hbytes, hlink,
      ⟨plan, rfl⟩, Or.inl ⟨rfl, rfl, rfl⟩⟩
  | duplicate =>
    exact ⟨c, server, bytes, { link with copy := some bytes }, _, hc, hserver, hbytes, hcopy,
      ⟨plan, rfl⟩, Or.inr ⟨fun _ hx => hx, rfl, rfl⟩⟩

end Network

end Superstep
