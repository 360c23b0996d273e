import Superstep.Proofs.ExactlyOnce

/-!
# Superstep — a rejection is final

A request that a host refuses is not put on record, so that every later copy is tried again, on
what the host holds by then. It fails again all the same, as long as only requests change what
the host holds (`Holdings.Steady.refuses`). `Firm` is the invariant: what was refused is not
applied, and the host would refuse it still; what was not refused is applied.

* **`Firm.unapplied`** — an application does not reach back: what was refused before it is refused
  after it, and is another request;
* **`firm_step`** — every event keeps it, except that the host itself changes what it holds;
* **`rejection_final`** — so all answers to one request are of one kind, and a sender that is
  told of a rejection knows that there was no effect, and never will be.
-/

namespace Superstep.World

variable {I V E M : Type}

/-- Nothing but requests changes what the host holds. -/
def Untouched (host : WorkerId) (events : List (Event I V E M)) : Prop :=
  ∀ change, Event.use host change ∉ events

/-- A worker issues one frame under one name. -/
theorem frame_unique {w : World I V E M} (hw : Wired w) (hfew : w.Unwrapped)
    {worker peer : WorkerId} {frame frame' : RequestFrame}
    (hmem : (peer, frame) ∈ (w.senders worker).issued)
    (hmem' : (peer, frame') ∈ (w.senders worker).issued) (hid : frame.id = frame'.id) :
    frame = frame' := by
  have hnodup := (hw.books hfew worker).nodup_issuedKeys (hfew.1 worker)
  have heq := List.inj_on_of_nodup_map hnodup hmem hmem' (congrArg (peer, ·) hid)
  exact (Prod.mk.inj heq).2

/-- An entry for another host is not about this one. -/
theorem applied?_handled_of_host_ne {host other : WorkerId} (h : other ≠ host)
    (frame : RequestFrame) (outcome : Except Error Admission) (sender : WorkerId)
    (id : RequestId) :
    Happening.applied? host sender id (.handled other frame outcome : Happening I V E M)
      = none := by
  unfold Happening.applied?
  split
  · next heq =>
    cases heq
    exact if_neg fun hall => h hall.1
  · rfl

theorem mem_outcomes {w : World I V E M} {host sender : WorkerId} {id : RequestId}
    {outcome : Except Error Admission} (h : outcome ∈ w.outcomes host sender id) :
    ∃ frame, .handled host frame outcome ∈ w.log ∧ frame.sender = sender ∧ frame.id = id := by
  obtain ⟨happening, hmem, houtcome⟩ := List.mem_filterMap.1 h
  cases happening with
  | handled host' frame outcome' =>
    rw [Happening.outcome?] at houtcome
    split at houtcome
    · next hboth =>
      cases houtcome
      obtain ⟨rfl, hsender, hid⟩ := hboth
      exact ⟨frame, hmem, hsender, hid⟩
    · cases houtcome
  | used _ _ => cases houtcome

/-! ## Answers

The answers to a request are made from the outcomes that the log has of it: an error makes a
rejection, and anything else an acknowledgement. -/

/-- A rejection was given because the request was refused. -/
theorem exists_of_failed_mem {w : World I V E M} {host sender : WorkerId} {id : RequestId}
    {reason : String} (h : .failed host id reason ∈ w.replies host sender id) :
    ∃ frame e, .handled host frame (.error e) ∈ w.log ∧ frame.sender = sender
      ∧ frame.id = id := by
  obtain ⟨outcome, houtcome, hanswer⟩ := List.mem_map.1 h
  obtain ⟨frame, hframe⟩ := mem_outcomes houtcome
  cases outcome with
  | ok _ => cases hanswer
  | error e => exact ⟨frame, e, hframe⟩

/-- An acknowledgement was given because the request was not refused. -/
theorem exists_of_ack_mem {w : World I V E M} {host sender : WorkerId} {id : RequestId}
    (h : .ack host id ∈ w.replies host sender id) :
    ∃ frame admission, .handled host frame (.ok admission) ∈ w.log ∧ frame.sender = sender
      ∧ frame.id = id := by
  obtain ⟨outcome, houtcome, hanswer⟩ := List.mem_map.1 h
  obtain ⟨frame, hframe⟩ := mem_outcomes houtcome
  cases outcome with
  | ok admission => exact ⟨frame, admission, hframe⟩
  | error e => cases hanswer

theorem Refused.failed_mem {w : World I V E M} {host sender : WorkerId} {id : RequestId}
    (h : w.Refused host sender id) :
    ∃ reason, .failed host id reason ∈ w.replies host sender id := by
  obtain ⟨e, he⟩ := h
  exact ⟨e.message, List.mem_map.2 ⟨.error e, he, rfl⟩⟩

theorem replies_mono {w w' : World I V E M} (h : Grows w w') {host sender : WorkerId}
    {id : RequestId} : w.replies host sender id ⊆ w'.replies host sender id := by
  obtain ⟨entries, hlog⟩ := h.log
  rw [replies, replies, outcomes_of_log hlog.symm, List.map_append]
  exact List.subset_append_left _ _

/-! ## Hosts that stand by their answers

The invariant speaks of the future in one place: a refused request would be refused still. This is
what a later copy meets when it is handled. -/

variable [VertexId I] [Value V] [Value E] [Value M]

/-- The host stands by its answers. -/
structure Firm (w : World I V E M) (host : WorkerId) : Prop where
  refused : ∀ {frame e}, .handled host frame (.error e) ∈ w.log →
    ¬ w.Applied host frame.sender frame.id
  refuses : ∀ {frame e number server}, .handled host frame (.error e) ∈ w.log →
    w.network.servers.get? number = some server → server.worker = host →
    server.holdings.Refuses frame
  accepted : ∀ {frame admission}, .handled host frame (.ok admission) ∈ w.log →
    w.Applied host frame.sender frame.id

theorem firm_start (hosts : Table WorkerId (Holdings I V E M)) (metered : Bool)
    (config : WorkerId → DeliveryConfig) (host : WorkerId) :
    Firm (start hosts metered config) host := by
  constructor
  · intro _ _ hmem
    cases hmem
  · intro _ _ _ _ hmem
    cases hmem
  · intro _ _ hmem
    cases hmem

/-- An event that the host has no part in. -/
theorem Firm.of_same {w w' : World I V E M} {host : WorkerId} (h : Firm w host)
    (hhandled : ∀ {frame outcome}, .handled host frame outcome ∈ w'.log →
      .handled host frame outcome ∈ w.log)
    (happlications : ∀ sender id, w'.applications host sender id = w.applications host sender id)
    (hservers : ∀ {number server'}, w'.network.servers.get? number = some server' →
      server'.worker = host → w.network.servers.get? number = some server') : Firm w' host where
  refused hmem := by
    rw [Applied, happlications]
    exact h.refused (hhandled hmem)
  refuses hmem hserver' hworker := h.refuses (hhandled hmem) (hservers hserver' hworker) hworker
  accepted hmem := by
    rw [Applied, happlications]
    exact h.accepted (hhandled hmem)

/-- An event that no host has part in. -/
theorem Firm.of_eq {w w' : World I V E M} {host : WorkerId} (h : Firm w host)
    (hlog : w'.log = w.log) (hservers : w'.network.servers = w.network.servers) : Firm w' host :=
  h.of_same (fun hmem => hlog ▸ hmem) (fun sender id => by rw [applications, hlog]; rfl)
    (fun hserver _ => hservers ▸ hserver)

/-! ### A host that is given a request

Only an application changes what the host holds, and what was refused before is refused after it.
So a request that was refused is not the one that is applied now: it would have the same id, and so
be the same request, which the host refuses. -/

section Handles

variable {w w' : World I V E M} {number : Nat} {server next : Server I V E M} {frame : RequestFrame}

/-- A host that is given a request goes on refusing what it refused. -/
theorem Handles.steady (hh : w.Handles w' number server next frame) :
    Holdings.Steady server.holdings next.holdings := by
  rw [hh.holdings]
  rcases server.accept_cases frame with ⟨-, haccept⟩ | ⟨-, -, haccept⟩ | ⟨e, -, -, haccept⟩
  · rw [haccept]
    exact .refl _
  · rw [haccept]
    exact Holdings.steady_applyFrame _ frame
  · rw [haccept]
    exact .refl _

/-- The host has one server, and that is what it became. -/
theorem Handles.eq_next (hh : w.Handles w' number server next frame) (hw : Wired w)
    {number' : Nat} {server' : Server I V E M}
    (hget : w'.network.servers.get? number' = some server')
    (hworker : server'.worker = server.worker) : server' = next := by
  rcases hh.server_cases hw hget with ⟨-, heq⟩ | ⟨hother, -⟩
  · exact heq
  · exact absurd hworker hother

theorem Handles.applied_mono (hh : w.Handles w' number server next frame)
    {host sender : WorkerId} {id : RequestId} (happlied : w.Applied host sender id) :
    w'.Applied host sender id := by
  rw [Applied, applications_of_log hh.log]
  exact List.append_ne_nil_of_left_ne_nil happlied _

/-- What was refused before is not applied now. -/
theorem Firm.unapplied (h : Firm w server.worker) (hr : Recorded w) (hw : Wired w)
    (hfew : w.Unwrapped) (hh : w.Handles w' number server next frame) {frame' : RequestFrame}
    {e : Error} (hrefused : .handled server.worker frame' (.error e) ∈ w.log) :
    ¬ w'.Applied server.worker frame'.sender frame'.id := by
  intro happlied
  rcases hh.applications_cases server.worker frame'.sender frame'.id with
    hold | ⟨hnow, ⟨-, hsender, hid⟩, -⟩
  · rw [Applied, hold] at happlied
    exact h.refused hrefused happlied
  -- the same id is the same request, which the server refuses
  · have hissued := hh.issued
    rw [hsender] at hissued
    obtain rfl := frame_unique hw hfew hissued (hr.issued hrefused) hid
    obtain ⟨e', herror⟩ := h.refuses hrefused hh.running rfl
    rcases server.accept_cases frame with ⟨-, haccept⟩ | ⟨-, hok, -⟩ | ⟨e'', -, -, haccept⟩
    · rw [haccept] at hnow
      cases hnow
    · rw [hok] at herror
      cases herror
    · rw [haccept] at hnow
      cases hnow

/-- What is refused now was not applied before, and is refused again. -/
theorem Handles.of_refusal (hh : w.Handles w' number server next frame) (hr : Recorded w)
    {e : Error} (he : (server.accept frame).1 = .error e) :
    ¬ w'.Applied server.worker frame.sender frame.id ∧ server.holdings.Refuses frame := by
  rcases server.accept_cases frame with ⟨-, haccept⟩ | ⟨-, -, haccept⟩ | ⟨e', hnew, herror, -⟩
  · rw [haccept] at he
    cases he
  · rw [haccept] at he
    cases he
  · refine ⟨fun happlied => ?_, e', herror⟩
    have hne : (server.accept frame).1 ≠ .ok .applied := by simp [he]
    rw [Applied, hh.applications_of_ne hne] at happlied
    rw [(hr.ledger hh.running _ _).2 happlied] at hnew
    cases hnew

/-- What is acknowledged now was applied before, or is now. -/
theorem Handles.of_acceptance (hh : w.Handles w' number server next frame) (hr : Recorded w)
    {admission : Admission} (hok : (server.accept frame).1 = .ok admission) :
    w'.Applied server.worker frame.sender frame.id := by
  rcases server.accept_cases frame with ⟨hseen, -⟩ | ⟨-, -, haccept⟩ | ⟨e, -, -, haccept⟩
  · exact hh.applied_mono ((hr.ledger hh.running _ _).1 hseen)
  · exact (hh.applied_iff (by rw [haccept]) _ _ _).2 (.inl ⟨rfl, rfl, rfl⟩)
  · rw [haccept] at hok
    cases hok

/-- **A host that is given a request stands by its answers.** -/
theorem firm_handled (h : Firm w server.worker) (hr : Recorded w) (hw : Wired w)
    (hfew : w.Unwrapped) (hh : w.Handles w' number server next frame) :
    Firm w' server.worker where
  refused hmem := by
    rcases hh.handled_cases hmem with hold | ⟨-, rfl, he⟩
    · exact h.unapplied hr hw hfew hh hold
    · exact (hh.of_refusal hr he.symm).1
  refuses hmem hget hworker := by
    rw [hh.eq_next hw hget hworker]
    refine hh.steady.refuses ?_
    rcases hh.handled_cases hmem with hold | ⟨-, rfl, he⟩
    · exact h.refuses hold hh.running rfl
    · exact (hh.of_refusal hr he.symm).2
  accepted hmem := by
    rcases hh.handled_cases hmem with hold | ⟨-, rfl, hok⟩
    · exact hh.applied_mono (h.accepted hold)
    · exact hh.of_acceptance hr hok.symm

end Handles

/-- **Serving keeps a host firm**, whichever host is served. -/
theorem firm_serve {w : World I V E M} {host : WorkerId} (h : Firm w host) (hr : Recorded w)
    (hw : Wired w) (hfew : w.Unwrapped) (id : ConnectionId) (action : FaultAction) :
    Firm (w.serve id action) host := by
  rcases handles_serve hw id action with hskips | ⟨number, server, next, frame, hh⟩
  · exact h.of_eq hskips.log hskips.servers
  · by_cases hhost : server.worker = host
    · subst hhost
      exact firm_handled h hr hw hfew hh
    -- what another host is given, this one does not see
    · refine h.of_same ?_ ?_ ?_
      · intro frame' outcome hin
        rw [hh.log] at hin
        rcases List.mem_append.1 hin with hin | hin
        · exact hin
        · cases List.mem_singleton.1 hin
          exact absurd rfl hhost
      · intro sender id'
        rw [applications_of_log hh.log, List.filterMap_cons, applied?_handled_of_host_ne hhost]
        exact List.append_nil _
      · intro number' server' hget hsame
        rw [hh.servers, Table.get?_insert] at hget
        split at hget
        · cases hget
          exact absurd (hh.worker.symm.trans hsame) hhost
        · exact hget

/-- **An event leaves a host standing by its answers**, unless the host changes what it holds. -/
theorem firm_step {w : World I V E M} {host : WorkerId} (h : Firm w host) (hr : Recorded w)
    (hw : Wired w) (hfew : w.Unwrapped) {e : Event I V E M}
    (huse : ∀ change, e ≠ .use host change) : Firm (w.step e) host := by
  rcases e.aside_cases with ⟨connection, action, rfl⟩ | ⟨worker, change, rfl⟩ | haside
  · exact firm_serve h hr hw hfew connection action
  · have hother : worker ≠ host := fun heq => huse change (heq ▸ rfl)
    rcases use_cases w worker change with heq | ⟨number, server, hnumber, hserver, heq⟩
    · rw [step, heq]
      exact h
    · rw [step, heq]
      refine h.of_same (handled_of_used rfl) (applications_of_used rfl host) ?_
      intro number' server' hget hsame
      rw [Table.get?_insert] at hget
      split at hget
      -- the server whose holdings change is that of another host
      · cases hget
        obtain ⟨server', hserver', hworker⟩ := hw.network.hosts hnumber
        rw [hserver] at hserver'
        cases hserver'
        exact absurd (hworker.symm.trans hsame) hother
      · exact hget
  · obtain ⟨hlog, hservers, _⟩ := aside_step w haside
    exact h.of_eq hlog hservers

/-- A host that does not change what it holds stays firm. -/
theorem firm_run {w : World I V E M} {host : WorkerId} (h : Firm w host) (hs : Sound w)
    (events : List (Event I V E M)) (hfew : (w.run events).Unwrapped)
    (huse : Untouched host events) : Firm (w.run events) host := by
  -- on the events; that the host is not changed holds of the rest of them too
  induction events generalizing w with
  | nil => exact h
  | cons e events ih =>
    have hstep : (w.step e).Unwrapped := hfew.mono (grows_run (w.step e) events)
    have hw : w.Unwrapped := hstep.mono (grows_step w e)
    refine ih (firm_step h hs.recorded hs.wired hw ?_) (sound_run hs [e] hstep) hfew ?_
    · intro change heq
      exact huse change (heq ▸ List.mem_cons_self)
    · exact fun change hmem => huse change (List.mem_cons_of_mem _ hmem)

/-! ## Rejections

A firm host has given answers of one kind to each request. What a sender takes up is one of them. -/

/-- A host does not apply what it answers with a failure. -/
theorem Firm.applications_eq_nil {w : World I V E M} {host : WorkerId} (h : Firm w host)
    {sender : WorkerId} {id : RequestId} {reason : String}
    (hfailed : .failed host id reason ∈ w.replies host sender id) :
    w.applications host sender id = [] := by
  obtain ⟨frame, e, hmem, rfl, rfl⟩ := exists_of_failed_mem hfailed
  exact not_ne_iff.1 (h.refused hmem)

/-- A host has applied what it acknowledges. -/
theorem Firm.applied_of_ack {w : World I V E M} {host : WorkerId} (h : Firm w host)
    {sender : WorkerId} {id : RequestId} (hack : .ack host id ∈ w.replies host sender id) :
    w.Applied host sender id := by
  obtain ⟨frame, admission, hmem, rfl, rfl⟩ := exists_of_ack_mem hack
  exact h.accepted hmem

/-- **A rejection is final, and both sides agree on it.** Let anything happen, except that the
host changes what it holds otherwise than as requests tell it to. If a copy of a request was
answered with a failure, no copy is ever applied or acknowledged; if one was applied, no copy is
ever answered with a failure; and what a sender reports to be rejected was answered so, and is
not among the requests that made what the host holds. -/
theorem rejection_final (hosts : Table WorkerId (Holdings I V E M)) (metered : Bool)
    (config : WorkerId → DeliveryConfig) (events more : List (Event I V E M))
    (hfew : ((start hosts metered config).run (events ++ more)).Unwrapped) (host : WorkerId)
    (huse : Untouched host (events ++ more)) :
    let w := (start hosts metered config).run events
    let later := w.run more
    (∀ sender id, (∃ reason, .failed host id reason ∈ w.replies host sender id) →
        later.applications host sender id = [] ∧ .ack host id ∉ later.replies host sender id)
      ∧ (∀ sender id, w.applications host sender id ≠ [] →
        ∀ reason, .failed host id reason ∉ later.replies host sender id)
      ∧ (∀ sender, ∀ f ∈ (w.senders sender).reported, f.destination = host →
        f.reason.IsRejection →
          (∃ reason, .failed host f.request reason ∈ w.replies host sender f.request)
          ∧ later.applications host sender f.request = [])
      ∧ ∀ holdings, hosts.get? host = some holdings → ∃ server, later.server? host = some server
          ∧ server.holdings = later.log.foldl (effect host) holdings := by
  intro w later
  -- a failure in the log of `w` is in the log of `later`, where the host stands by it
  have hlater : later = (start hosts metered config).run (events ++ more) := by
    rw [run, List.foldl_append]; rfl
  have hgrows : Grows w later := grows_run w more
  have hstart := sound_start hosts metered config
  have hfirm : Firm later host := by
    rw [hlater]
    exact firm_run (firm_start hosts metered config host) hstart _ hfew huse
  have hnone : ∀ {sender id reason}, .failed host id reason ∈ w.replies host sender id →
      later.applications host sender id = [] :=
    fun hfailed => hfirm.applications_eq_nil (replies_mono hgrows hfailed)
  refine ⟨?_, ?_, ?_, ?_⟩
  · rintro sender id ⟨reason, hfailed⟩
    exact ⟨hnone hfailed, fun hack => hfirm.applied_of_ack hack (hnone hfailed)⟩
  · intro sender id happlied reason hfailed
    exact Applied.mono hgrows happlied (hfirm.applications_eq_nil hfailed)
  · intro sender f hf hhost hreason
    subst hhost
    have hsound : Sound w := sound_run hstart events ((hlater ▸ hfew).mono hgrows)
    obtain ⟨reason, hfailed⟩ := (hsound.heeded.rejected (Or.inr hf) hreason).failed_mem
    exact ⟨⟨reason, hfailed⟩, hnone hfailed⟩
  · intro holdings hholdings
    rw [hlater]
    exact (replayed_run (replayed_start hholdings metered config) hstart.wired (events ++ more)
      hfew).server?

/-- A partition that cannot be read is refused, and refused again when its second copy is
served. -/
theorem rejection_final_repeated :
    let hosts : Table WorkerId (Holdings UInt64 UInt64 UInt64 UInt64) :=
      Table.empty.insert ⟨1⟩ (.empty Config.testing.partition)
    let w := (start hosts false fun _ => Config.testing.delivery).run
      [.send ⟨9⟩ ⟨1⟩ .sendPartition [7], .look ⟨9⟩ 0, .call ⟨9⟩ 0, .answer ⟨9⟩ 0,
        .call ⟨9⟩ 0, .serve ⟨1⟩ .duplicate, .hear 0, .await ⟨9⟩]
    let later := w.run [.serve ⟨1⟩ .deliver]
    (later.replies ⟨1⟩ ⟨9⟩ ⟨0⟩).length = 2
      ∧ ∃ f ∈ (w.senders ⟨9⟩).reported, later.applications ⟨1⟩ ⟨9⟩ f.request = [] := by
  intro hosts w later
  obtain ⟨f, hf, hhost, hreason⟩ : ∃ f ∈ (w.senders ⟨9⟩).reported,
      f.destination = ⟨1⟩ ∧ f.reason.IsRejection := by decide +kernel
  exact ⟨by decide +kernel, f, hf, ((rejection_final hosts false _ _ [.serve ⟨1⟩ .deliver]
    (unwrapped_of_length (by decide)) ⟨1⟩ (by simp [Untouched])).2.2.1 ⟨9⟩ f hf hhost hreason).2⟩

end Superstep.World
