import Superstep.Proofs.World

/-!
# Superstep — what hosts have on record

The hosts' side of the protocol (`Recorded`): a host was given nothing but requests that were
issued for it, its ledger holds those that the log says it applied, and none was applied twice.
**`recorded_step`** says that every event keeps this. Only a host that is given a request has
anything to show: `recorded_of_applied` if it applies it, `recorded_of_unapplied` if not.

The ledger can be relied on because an id is missing from it still: the one that the sender will
use next (`Recorded.missing`).

What a host holds is what the log makes of the holdings that it began with (`replayed_step`): a
request that the log calls applied was carried out there and then, and no other changed
anything.
-/

namespace Superstep.World

variable {I V E M : Type}

/-! ## The log

The log is the list of what hosts did, and is extended at the end. Applications and outcomes of one
request are picked out of it, so they are extended by what the new entries have of them. -/

theorem applied?_handled_of_ne {host' : WorkerId} {frame : RequestFrame}
    {outcome : Except Error Admission} (h : outcome ≠ .ok .applied) (host sender : WorkerId)
    (id : RequestId) :
    Happening.applied? host sender id (.handled host' frame outcome : Happening I V E M)
      = none := by
  unfold Happening.applied?
  split
  · next heq =>
    cases heq
    exact absurd rfl h
  · rfl

theorem applications_of_log {w w' : World I V E M} {entries : List (Happening I V E M)}
    (h : w'.log = w.log ++ entries) (host sender : WorkerId) (id : RequestId) :
    w'.applications host sender id = w.applications host sender id
      ++ entries.filterMap (Happening.applied? host sender id) := by
  rw [applications, h, List.filterMap_append]
  rfl

theorem outcomes_of_log {w w' : World I V E M} {entries : List (Happening I V E M)}
    (h : w'.log = w.log ++ entries) (host sender : WorkerId) (id : RequestId) :
    w'.outcomes host sender id = w.outcomes host sender id
      ++ entries.filterMap (Happening.outcome? host sender id) := by
  rw [outcomes, h, List.filterMap_append]
  rfl

/-- A change of what a host holds is no handling of a request. -/
theorem handled_of_used {w w' : World I V E M} {worker : WorkerId}
    {change : Holdings I V E M → Holdings I V E M} (h : w'.log = w.log ++ [.used worker change])
    {host : WorkerId} {frame : RequestFrame} {outcome : Except Error Admission}
    (hmem : .handled host frame outcome ∈ w'.log) : .handled host frame outcome ∈ w.log := by
  rw [h] at hmem
  rcases List.mem_append.1 hmem with hmem | hmem
  · exact hmem
  · cases List.mem_singleton.1 hmem

theorem applications_of_used {w w' : World I V E M} {worker : WorkerId}
    {change : Holdings I V E M → Holdings I V E M} (h : w'.log = w.log ++ [.used worker change])
    (host sender : WorkerId) (id : RequestId) :
    w'.applications host sender id = w.applications host sender id := by
  rw [applications_of_log h]
  exact List.append_nil _

/-- The applications of a request are the entries that say it was applied. -/
theorem mem_applications {w : World I V E M} {host sender : WorkerId} {id : RequestId}
    {frame : RequestFrame} :
    frame ∈ w.applications host sender id
      ↔ .handled host frame (.ok .applied) ∈ w.log ∧ frame.sender = sender ∧ frame.id = id := by
  rw [applications, List.mem_filterMap]
  constructor
  · rintro ⟨happening, hmem, happlied⟩
    unfold Happening.applied? at happlied
    split at happlied
    · split at happlied
      · next hboth =>
        cases happlied
        obtain ⟨rfl, hsender, hid⟩ := hboth
        exact ⟨hmem, hsender, hid⟩
      · cases happlied
    · cases happlied
  · rintro ⟨hmem, hsender, hid⟩
    exact ⟨_, hmem, by simp [Happening.applied?, hsender, hid]⟩

/-- The host has applied a copy of the request. -/
def Applied (w : World I V E M) (host sender : WorkerId) (id : RequestId) : Prop :=
  w.applications host sender id ≠ []

def Refused (w : World I V E M) (host sender : WorkerId) (id : RequestId) : Prop :=
  ∃ e, .error e ∈ w.outcomes host sender id

/-- A request that was applied stays so, as the log only grows. -/
theorem Applied.mono {w w' : World I V E M} (h : Grows w w') {host sender : WorkerId}
    {id : RequestId} (happlied : w.Applied host sender id) : w'.Applied host sender id := by
  obtain ⟨entries, hlog⟩ := h.log
  rw [Applied, applications_of_log hlog.symm]
  exact List.append_ne_nil_of_left_ne_nil happlied _

theorem Refused.mono {w w' : World I V E M} (h : Grows w w') {host sender : WorkerId}
    {id : RequestId} (hrefused : w.Refused host sender id) : w'.Refused host sender id := by
  obtain ⟨entries, hlog⟩ := h.log
  obtain ⟨e, he⟩ := hrefused
  exact ⟨e, by rw [outcomes_of_log hlog.symm]; exact List.mem_append_left _ he⟩

/-! ## What hosts have on record

What a ledger has is compared with the log and not with the senders. That it is no more than what
was issued is a fact about frames, which `Wired` has. -/

/-- The hosts' side of the protocol. -/
structure Recorded (w : World I V E M) : Prop where
  issued : ∀ {host frame outcome}, .handled host frame outcome ∈ w.log →
    (host, frame) ∈ (w.senders frame.sender).issued
  normal : ∀ {number server}, w.network.servers.get? number = some server → server.ledger.Normal
  ledger : ∀ {number server}, w.network.servers.get? number = some server → ∀ sender id,
    server.ledger.contains sender id = true ↔ w.Applied server.worker sender id
  once : ∀ host sender id, (w.applications host sender id).length ≤ 1

/-- An event in which no host applies a request. -/
theorem Recorded.of_same {w w' : World I V E M} (h : Recorded w)
    (hissued : ∀ {host frame outcome}, .handled host frame outcome ∈ w'.log →
      (host, frame) ∈ (w'.senders frame.sender).issued)
    (happlications : ∀ host sender id,
      w'.applications host sender id = w.applications host sender id)
    (hservers : ∀ {number server'}, w'.network.servers.get? number = some server' →
      ∃ server, w.network.servers.get? number = some server ∧ server'.worker = server.worker
        ∧ server'.ledger = server.ledger) : Recorded w' where
  issued hmem := hissued hmem
  normal hserver' := by
    obtain ⟨server, hserver, _, hledger⟩ := hservers hserver'
    rw [hledger]
    exact h.normal hserver
  ledger hserver' sender id := by
    obtain ⟨server, hserver, hworker, hledger⟩ := hservers hserver'
    rw [hledger, hworker, Applied, happlications]
    exact h.ledger hserver sender id
  once host sender id := by
    rw [happlications]
    exact h.once host sender id

/-- What was issued stays issued. -/
theorem Recorded.issued_grows {w w' : World I V E M} (h : Recorded w) (hgrows : Grows w w')
    {host : WorkerId} {frame : RequestFrame} {outcome : Except Error Admission}
    (hmem : .handled host frame outcome ∈ w.log) :
    (host, frame) ∈ (w'.senders frame.sender).issued :=
  (Sender.issued_mono (hgrows.journal _)).subset (h.issued hmem)

/-- An event that hosts have no part in. -/
theorem Recorded.of_eq {w w' : World I V E M} (h : Recorded w) (hgrows : Grows w w')
    (hlog : w'.log = w.log) (hservers : w'.network.servers = w.network.servers) :
    Recorded w' :=
  h.of_same (fun hmem => h.issued_grows hgrows (hlog ▸ hmem))
    (fun host sender id => by rw [applications, hlog]; rfl)
    (fun hserver => ⟨_, hservers ▸ hserver, rfl, rfl⟩)

/-- The id that a sender will use next is none of those that it has used. -/
theorem nextId_ne {w : World I V E M} (hw : Wired w) (hfew : w.Unwrapped) {host : WorkerId}
    {frame : RequestFrame} (hissued : (host, frame) ∈ (w.senders frame.sender).issued) :
    (w.senders frame.sender).coordinator.nextId host ≠ frame.id := by
  intro heq
  refine (hw.books hfew frame.sender).nextId_fresh (hfew.1 frame.sender) host ?_
  rw [heq]
  exact List.mem_map_of_mem hissued

/-- The next id of a sender is on record nowhere. -/
theorem Recorded.missing {w : World I V E M} (h : Recorded w) (hw : Wired w)
    (hfew : w.Unwrapped) {number : Nat} {server : Server I V E M}
    (hserver : w.network.servers.get? number = some server) (sender : WorkerId) :
    server.ledger.contains sender ((w.senders sender).coordinator.nextId server.worker)
      = false := by
  rw [Bool.eq_false_iff]
  intro hcontains
  obtain ⟨frame, hframe⟩ := List.exists_mem_of_ne_nil _ ((h.ledger hserver _ _).1 hcontains)
  obtain ⟨hmem, rfl, hid⟩ := mem_applications.1 hframe
  exact nextId_ne hw hfew (h.issued hmem) hid.symm

variable [VertexId I] [Value V] [Value E] [Value M]

theorem handling_eq {server : Server I V E M} {bytes : Bytes} {frame : RequestFrame}
    (h : Frame.decode bytes = .ok (.request frame)) :
    handling server bytes = some (.handled server.worker frame (server.accept frame).1) := by
  rw [handling, h]

/-- Between `w` and `w'` no server is given a request, and nothing is answered. -/
structure Skips (w w' : World I V E M) : Prop where
  senders : w'.senders = w.senders
  registered : w'.network.registered = w.network.registered
  servers : w'.network.servers = w.network.servers
  log : w'.log = w.log
  said : ∀ {worker connection answer}, (worker, connection, Heard.response answer) ∈ w'.mail →
    (worker, connection, Heard.response answer) ∈ w.mail

/-- Between `w` and `w'` a server is given a request that was issued to its host, and becomes
`next`; what is answered is the answer to this request. -/
structure Handles (w w' : World I V E M) (number : Nat) (server next : Server I V E M)
    (frame : RequestFrame) : Prop where
  hosted : w.network.registered.get? server.worker = some number
  running : w.network.servers.get? number = some server
  issued : (server.worker, frame) ∈ (w.senders frame.sender).issued
  worker : next.worker = server.worker
  ledger : next.ledger = (server.accept frame).2.ledger
  holdings : next.holdings = (server.accept frame).2.holdings
  senders : w'.senders = w.senders
  registered : w'.network.registered = w.network.registered
  servers : w'.network.servers = w.network.servers.insert number next
  log : w'.log = w.log ++ [.handled server.worker frame (server.accept frame).1]
  said : ∀ {worker connection answer}, (worker, connection, Heard.response answer) ∈ w'.mail →
    (worker, connection, Heard.response answer) ∈ w.mail ∨ (worker = frame.sender
      ∧ answer = (Server.answer server.worker frame.id (server.accept frame).1).encode)

/-- **What serving does to hosts**: nothing, or one of them is given a request. -/
theorem handles_serve {w : World I V E M} (hw : Wired w) (id : ConnectionId)
    (action : FaultAction) : w.Skips (w.serve id action)
      ∨ ∃ number server next frame, w.Handles (w.serve id action) number server next frame := by
  rcases serve_cases hw id action with heq | ⟨worker, peer, c, server, bytes, link, next, plan,
    heard, handled, hc, howner, hpeer, hserver, hworker, ⟨frame, hmem, hbytes⟩, _, heq, hcase⟩
  · rw [heq]
    exact Or.inl ⟨rfl, rfl, rfl, rfl, fun hin => hin⟩
  · subst hworker
    have hmail : ∀ {worker' connection answer},
        (worker', connection, Heard.response answer) ∈ (w.serve id action).mail →
        (worker', connection, Heard.response answer) ∈ w.mail
          ∨ (worker' = worker ∧ Heard.response answer ∈ heard) := by
      intro worker' connection answer hin
      rw [heq] at hin
      rcases List.mem_append.1 hin with hin | hin
      · exact Or.inl hin
      · obtain ⟨what, hwhat, hthis⟩ := List.mem_map.1 hin
        cases hthis
        exact Or.inr ⟨rfl, hwhat⟩
    rcases hcase with ⟨rfl, rfl, rfl⟩ | ⟨hheard, rfl, rfl⟩
    -- a fault kept the frame from the server, and nothing but the end of the link is heard
    · refine Or.inl ⟨by rw [heq], by rw [heq], ?_, ?_, ?_⟩
      · rw [heq]
        exact Table.insert_eq_self hserver
      · rw [heq]
        exact List.append_nil _
      · intro worker' connection answer hin
        rcases hmail hin with hin | ⟨_, hin⟩
        · exact hin
        · cases List.mem_singleton.1 hin
    · have hdecode := RequestFrame.decode_encode hbytes
      rcases server.handle_cases bytes with ⟨hnot, _⟩ | ⟨frame', hframe', hhandle⟩
      · exact absurd hdecode (hnot frame)
      · rw [hdecode] at hframe'
        cases hframe'
        obtain ⟨hanswer, hname, hledger, hholdings⟩ := server.process_spec frame
        have hsender := hw.sender hmem
        refine Or.inr ⟨c.server, server, (server.process frame).2, frame, hpeer, hserver, ?_, hname,
          hledger, hholdings, by rw [heq], by rw [heq], ?_, ?_, ?_⟩
        · rw [hsender]
          exact hmem
        · rw [heq, hhandle]
        · rw [heq]
          simp [handling_eq hdecode]
        · intro worker' connection answer hin
          rcases hmail hin with hin | ⟨rfl, hin⟩
          · exact Or.inl hin
          · have hsaid := hheard hin
            rw [hhandle, hanswer] at hsaid
            exact Or.inr ⟨hsender.symm, by simpa using hsaid⟩

/-! ## A host that is given a request

One entry is added to the log, and one server is replaced. So the applications of all requests are
as before, but for those of the request that was given if the server applied it
(`Handles.applications_cases`); and every other server is that of another host
(`Handles.server_cases`). -/

section Handles

variable {w w' : World I V E M} {number : Nat} {server next : Server I V E M} {frame : RequestFrame}

theorem Handles.handled_cases (hh : w.Handles w' number server next frame) {host : WorkerId}
    {frame' : RequestFrame} {outcome : Except Error Admission}
    (hmem : .handled host frame' outcome ∈ w'.log) : .handled host frame' outcome ∈ w.log
      ∨ (host = server.worker ∧ frame' = frame ∧ outcome = (server.accept frame).1) := by
  rw [hh.log, List.mem_append, List.mem_singleton] at hmem
  rcases hmem with hold | hnew
  · exact .inl hold
  · cases hnew
    exact .inr ⟨rfl, rfl, rfl⟩

/-- The server that was given the request is the next one now, and all others are other hosts'. -/
theorem Handles.server_cases (hh : w.Handles w' number server next frame) (hw : Wired w)
    {number' : Nat} {server' : Server I V E M}
    (hget : w'.network.servers.get? number' = some server') : (number' = number ∧ server' = next)
      ∨ (server'.worker ≠ server.worker ∧ w.network.servers.get? number' = some server') := by
  rw [hh.servers, Table.get?_insert] at hget
  split at hget
  · next heq => exact .inl ⟨heq, (Option.some.inj hget).symm⟩
  · next hne =>
    refine .inr ⟨fun hsame => hne ?_, hget⟩
    -- a host has one server
    have hunique := hw.network.unique hget
    rw [hsame, hw.network.unique hh.running] at hunique
    exact (Option.some.inj hunique).symm

theorem Handles.applications_cases (hh : w.Handles w' number server next frame)
    (host sender : WorkerId) (id : RequestId) :
    w'.applications host sender id = w.applications host sender id
      ∨ ((server.accept frame).1 = .ok .applied
        ∧ (server.worker = host ∧ frame.sender = sender ∧ frame.id = id)
        ∧ w'.applications host sender id = w.applications host sender id ++ [frame]) := by
  rw [applications_of_log hh.log, List.filterMap_cons]
  by_cases happlied : (server.accept frame).1 = .ok .applied
  · rw [happlied, Happening.applied?]
    by_cases hkey : server.worker = host ∧ frame.sender = sender ∧ frame.id = id
    · exact .inr ⟨rfl, hkey, by rw [if_pos hkey]; rfl⟩
    · exact .inl (by rw [if_neg hkey]; exact List.append_nil _)
  · rw [applied?_handled_of_ne happlied]
    exact .inl (List.append_nil _)

/-- A request that is not applied leaves all applications as they are. -/
theorem Handles.applications_of_ne (hh : w.Handles w' number server next frame)
    (hne : (server.accept frame).1 ≠ .ok .applied) (host sender : WorkerId) (id : RequestId) :
    w'.applications host sender id = w.applications host sender id :=
  (hh.applications_cases host sender id).resolve_right fun h => hne h.1

/-- When the host applies the request, it is applied from now on, and so are those from before. -/
theorem Handles.applied_iff (hh : w.Handles w' number server next frame)
    (happlied : (server.accept frame).1 = .ok .applied) (host sender : WorkerId) (id : RequestId) :
    w'.Applied host sender id ↔ (server.worker = host ∧ frame.sender = sender ∧ frame.id = id)
      ∨ w.Applied host sender id := by
  rw [Applied, Applied, applications_of_log hh.log, List.filterMap_cons, happlied,
    Happening.applied?]
  by_cases hkey : server.worker = host ∧ frame.sender = sender ∧ frame.id = id
  · rw [if_pos hkey]
    exact iff_of_true (List.append_ne_nil_of_right_ne_nil _ (List.cons_ne_nil _ _)) (.inl hkey)
  · rw [if_neg hkey, or_iff_right hkey]
    exact Iff.of_eq (congrArg (· ≠ []) (List.append_nil _))

/-- Whatever hosts were given was issued for them. -/
theorem Handles.issued_handled (hh : w.Handles w' number server next frame) (h : Recorded w)
    {host : WorkerId} {frame' : RequestFrame} {outcome : Except Error Admission}
    (hmem : .handled host frame' outcome ∈ w'.log) :
    (host, frame') ∈ (w'.senders frame'.sender).issued := by
  rw [hh.senders]
  rcases hh.handled_cases hmem with hold | ⟨rfl, rfl, -⟩
  · exact h.issued hold
  · exact hh.issued

/-- **A copy that is not applied** leaves the ledger and the applications as they are. -/
theorem recorded_of_unapplied (h : Recorded w) (hw : Wired w)
    (hh : w.Handles w' number server next frame) (hne : (server.accept frame).1 ≠ .ok .applied)
    (hsame : next.ledger = server.ledger) : Recorded w' := by
  refine h.of_same (hh.issued_handled h) (hh.applications_of_ne hne) ?_
  intro number' server' hget
  rcases hh.server_cases hw hget with ⟨rfl, rfl⟩ | ⟨-, hold⟩
  · exact ⟨server, hh.running, hh.worker, hsame⟩
  · exact ⟨server', hold, rfl, rfl⟩

/-- **A request that is applied** was not on record, and is from now on. Recording it is sound
because an id of its sender is missing that is not its own. -/
theorem recorded_of_applied (h : Recorded w) (hw : Wired w) (hfew : w.Unwrapped)
    (hh : w.Handles w' number server next frame)
    (happlied : (server.accept frame).1 = .ok .applied)
    (hnew : server.ledger.contains frame.sender frame.id = false)
    (hledger : next.ledger = server.ledger.record frame.sender frame.id) : Recorded w' := by
  have hmissing := h.missing hw hfew hh.running frame.sender
  have hne := nextId_ne hw hfew hh.issued
  refine ⟨hh.issued_handled h, ?_, ?_, ?_⟩
  · intro number' server' hget
    rcases hh.server_cases hw hget with ⟨-, rfl⟩ | ⟨-, hold⟩
    · rw [hledger]
      exact Ledger.normal_record (h.normal hh.running) hmissing hne
    · exact h.normal hold
  · intro number' server' hget sender id
    rw [hh.applied_iff happlied]
    rcases hh.server_cases hw hget with ⟨-, rfl⟩ | ⟨hother, hold⟩
    · rw [hledger, hh.worker, Ledger.contains_record (h.normal hh.running) hmissing hne,
        h.ledger hh.running sender id]
      exact or_congr_left ⟨fun hkey => ⟨rfl, hkey.1.symm, hkey.2.symm⟩,
        fun hkey => ⟨hkey.2.1.symm, hkey.2.2.symm⟩⟩
    · rw [h.ledger hold sender id, or_iff_right fun hkey => hother hkey.1.symm]
  · intro host sender id
    rcases hh.applications_cases host sender id with hold | ⟨-, ⟨rfl, rfl, rfl⟩, happended⟩
    · rw [hold]
      exact h.once host sender id
    -- the ledger did not have the id, so that this is the first time
    · have hnone : w.applications server.worker frame.sender frame.id = [] := by
        by_contra hearlier
        rw [(h.ledger hh.running _ _).2 hearlier] at hnew
        cases hnew
      rw [happended, hnone]
      exact Nat.le_refl _

/-- **A host that is given a request keeps its records.** Only an application changes the
ledger, and it adds the one request that the log is extended by. -/
theorem recorded_handled (h : Recorded w) (hw : Wired w) (hfew : w.Unwrapped)
    (hh : w.Handles w' number server next frame) : Recorded w' := by
  have hledger := hh.ledger
  rcases server.accept_cases frame with ⟨-, haccept⟩ | ⟨hnew, -, haccept⟩ | ⟨e, -, -, haccept⟩
  · rw [haccept] at hledger
    exact recorded_of_unapplied h hw hh (by rw [haccept]; simp) hledger
  · rw [haccept] at hledger
    exact recorded_of_applied h hw hfew hh (by rw [haccept]) hnew hledger
  · rw [haccept] at hledger
    exact recorded_of_unapplied h hw hh (by rw [haccept]; simp) hledger

end Handles

theorem recorded_serve {w : World I V E M} (h : Recorded w) (hw : Wired w) (hfew : w.Unwrapped)
    (id : ConnectionId) (action : FaultAction) : Recorded (w.serve id action) := by
  rcases handles_serve hw id action with hskips | ⟨number, server, next, frame, hh⟩
  · exact h.of_eq (grows_serve w id action) hskips.log hskips.servers
  · exact recorded_handled h hw hfew hh

/-- **Every event keeps the records of hosts.** -/
theorem recorded_step {w : World I V E M} (h : Recorded w) (hw : Wired w) (hfew : w.Unwrapped)
    (e : Event I V E M) : Recorded (w.step e) := by
  have hgrows := grows_step w e
  rcases e.aside_cases with ⟨connection, action, rfl⟩ | ⟨worker, change, rfl⟩ | haside
  · exact recorded_serve h hw hfew connection action
  · rcases use_cases w worker change with heq | ⟨number, server, _, hserver, heq⟩
    · rw [step, heq]
      exact h
    · rw [step, heq] at hgrows ⊢
      -- a worker that changes what it holds leaves its ledger alone
      refine h.of_same (fun hmem => h.issued_grows hgrows (handled_of_used rfl hmem))
        (applications_of_used rfl) ?_
      intro number' server' hserver'
      rw [Table.get?_insert] at hserver'
      split at hserver'
      · next heq' =>
        cases hserver'
        exact ⟨server, by rw [heq']; exact hserver, rfl, rfl⟩
      · exact ⟨server', hserver', rfl, rfl⟩
  · obtain ⟨hlog, hservers, _⟩ := aside_step w haside
    exact h.of_eq hgrows hlog hservers

/-! ## What hosts hold

Replaying the log from the first holdings gives those of now. An entry says which host it changes,
and has no effect on others. -/

/-- The host holds what the log makes of `holdings`. -/
def Replayed (w : World I V E M) (host : WorkerId) (holdings : Holdings I V E M) : Prop :=
  ∃ number server, w.network.registered.get? host = some number
    ∧ w.network.servers.get? number = some server
    ∧ server.holdings = w.log.foldl (effect host) holdings

theorem Replayed.server? {w : World I V E M} {host : WorkerId} {holdings : Holdings I V E M}
    (h : w.Replayed host holdings) :
    ∃ server, w.server? host = some server
      ∧ server.holdings = w.log.foldl (effect host) holdings := by
  obtain ⟨number, server, hnumber, hserver, hholdings⟩ := h
  refine ⟨server, ?_, hholdings⟩
  show (do w.network.servers.get? (← w.network.registered.get? host)) = some server
  rw [hnumber]
  exact hserver

theorem Replayed.of_eq {w w' : World I V E M} {host : WorkerId} {holdings : Holdings I V E M}
    (h : w.Replayed host holdings) (hlog : w'.log = w.log)
    (hregistered : w'.network.registered = w.network.registered)
    (hservers : w'.network.servers = w.network.servers) : w'.Replayed host holdings := by
  unfold Replayed
  rw [hlog, hregistered, hservers]
  exact h

/-- One server's holdings change as the log is extended. -/
theorem Replayed.set {w w' : World I V E M} {host : WorkerId} {holdings : Holdings I V E M}
    (h : w.Replayed host holdings) (hw : Wired w) {changed : WorkerId} {number : Nat}
    {server next : Server I V E M} {entry : Happening I V E M}
    (hnumber : w.network.registered.get? changed = some number)
    (hserver : w.network.servers.get? number = some server)
    (hregistered : w'.network.registered = w.network.registered)
    (hservers : w'.network.servers = w.network.servers.insert number next)
    (hlog : w'.log = w.log ++ [entry])
    (hself : effect changed server.holdings entry = next.holdings)
    (hothers : ∀ other, other ≠ changed → ∀ h, effect other h entry = h) :
    w'.Replayed host holdings := by
  obtain ⟨number', server', hnumber', hserver', hholdings⟩ := h
  by_cases hhost : host = changed
  · subst hhost
    rw [hnumber] at hnumber'
    cases hnumber'
    rw [hserver] at hserver'
    cases hserver'
    refine ⟨number, next, by rw [hregistered]; exact hnumber, by rw [hservers]; simp, ?_⟩
    rw [hlog, List.foldl_append, ← hholdings]
    exact hself.symm
  -- the other host keeps its server, since one number is not registered for two hosts
  · refine ⟨number', server', by rw [hregistered]; exact hnumber', ?_, ?_⟩
    · rw [hservers, Table.get?_insert_of_ne]
      · exact hserver'
      · rintro rfl
        exact hhost (hw.network.host_unique hnumber' hnumber)
    · rw [hlog, List.foldl_append, ← hholdings]
      exact (hothers host hhost _).symm

/-- **What a server does to its holdings is what the log says.** -/
theorem effect_handled (server : Server I V E M) (frame : RequestFrame) :
    effect server.worker server.holdings (.handled server.worker frame (server.accept frame).1)
      = (server.accept frame).2.holdings := by
  rcases server.accept_cases frame with ⟨_, haccept⟩ | ⟨_, _, haccept⟩ | ⟨e, _, _, haccept⟩
  · rw [haccept]; rfl
  · rw [haccept]; simp [effect]
  · rw [haccept]; rfl

theorem effect_handled_of_ne {host other : WorkerId} (h : other ≠ host) (frame : RequestFrame)
    (outcome : Except Error Admission) (holdings : Holdings I V E M) :
    effect other holdings (.handled host frame outcome) = holdings := by
  unfold effect
  split
  · next heq =>
    cases heq
    exact if_neg h.symm
  · rfl
  · next heq => cases heq

/-- **Every event does to holdings what its entry in the log says.** -/
theorem replayed_step {w : World I V E M} {host : WorkerId} {holdings : Holdings I V E M}
    (h : w.Replayed host holdings) (hw : Wired w) (e : Event I V E M) :
    (w.step e).Replayed host holdings := by
  -- a frame is served, a worker uses its server, or hosts have no part in the event
  rcases e.aside_cases with ⟨connection, action, rfl⟩ | ⟨worker, change, rfl⟩ | haside
  · rw [step]
    rcases handles_serve hw connection action with hskips | ⟨number, server, next, frame, hh⟩
    · exact h.of_eq hskips.log hskips.registered hskips.servers
    · refine h.set hw hh.hosted hh.running hh.registered hh.servers hh.log ?_ ?_
      · rw [effect_handled, hh.holdings]
      · exact fun other hother => effect_handled_of_ne hother frame _
  · rw [step]
    rcases use_cases w worker change with heq | ⟨number, server, hnumber, hserver, heq⟩
    · rw [heq]
      exact h
    · rw [heq]
      refine h.set hw hnumber hserver rfl rfl rfl ?_ ?_
      · simp [effect]
      · intro other hother holdings'
        simp [effect, Ne.symm hother]
  · obtain ⟨hlog, hservers, hregistered⟩ := aside_step w haside
    exact h.of_eq hlog hregistered hservers

theorem replayed_start {hosts : Table WorkerId (Holdings I V E M)} {host : WorkerId}
    {holdings : Holdings I V E M} (h : hosts.get? host = some holdings) (metered : Bool)
    (config : WorkerId → DeliveryConfig) :
    (start hosts metered config).Replayed host holdings := by
  have hnew := hosting_start hosts metered config
  obtain ⟨number, hnumber⟩ := hnew.present (Table.mem_toList_iff.2 h)
  obtain ⟨holdings', hmem, hserver⟩ := hnew.registered hnumber
  rw [Table.mem_toList_iff, h] at hmem
  cases hmem
  exact ⟨number, _, hnumber, hserver, rfl⟩

/-- And so does every run. -/
theorem replayed_run {w : World I V E M} {host : WorkerId} {holdings : Holdings I V E M}
    (h : w.Replayed host holdings) (hw : Wired w) (events : List (Event I V E M))
    (hfew : (w.run events).Unwrapped) : (w.run events).Replayed host holdings := by
  induction events generalizing w with
  | nil => exact h
  | cons e events ih =>
    have hstep : (w.step e).Unwrapped := hfew.mono (grows_run (w.step e) events)
    exact ih (replayed_step h hw e) (wired_step hw e hstep) hfew

end Superstep.World
