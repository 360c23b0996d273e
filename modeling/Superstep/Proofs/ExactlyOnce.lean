import Superstep.Codec.Scalar
import Superstep.Proofs.Hosts

/-!
# Superstep — an acknowledged request was applied exactly once

The senders' side of the protocol (`Heeded`): an acknowledgement on its way, or taken up, is for
a request that was applied; a failure on its way, or reported as a rejection, is for one that
was refused. **`exactly_once`** puts it together with what hosts have on record, for any order of
any events.
-/

namespace Superstep.World

variable {I V E M : Type}

/-! ## What senders may rely on

An answer passes through three places: the host that gives it, the mail, and the sender that takes
it up. In each of them it stands for what is in the log. -/

/-- The senders' side of the protocol. -/
structure Heeded (w : World I V E M) : Prop where
  acknowledged : ∀ {worker connection bytes host id},
    (worker, connection, Heard.response bytes) ∈ w.mail →
    Frame.decode bytes = .ok (.response (.ack host id)) → w.Applied host worker id
  refused : ∀ {worker connection bytes host id reason},
    (worker, connection, Heard.response bytes) ∈ w.mail →
    Frame.decode bytes = .ok (.response (.failed host id reason)) → w.Refused host worker id
  acked : ∀ {worker key}, key ∈ (w.senders worker).acked → w.Applied key.1 worker key.2
  rejected : ∀ {worker f},
    f ∈ (w.senders worker).coordinator.failures ∨ f ∈ (w.senders worker).reported →
    f.reason.IsRejection → w.Refused f.destination worker f.request

/-- An event that no sender has part in, and in which nothing is answered. -/
theorem Heeded.of_said {w w' : World I V E M} (h : Heeded w) (hgrows : Grows w w')
    (hsenders : w'.senders = w.senders)
    (hsaid : ∀ {worker connection bytes}, (worker, connection, Heard.response bytes) ∈ w'.mail →
      (worker, connection, Heard.response bytes) ∈ w.mail) : Heeded w' where
  acknowledged hmem hdecode := (h.acknowledged (hsaid hmem) hdecode).mono hgrows
  refused hmem hdecode := (h.refused (hsaid hmem) hdecode).mono hgrows
  acked hkey := (h.acked (hsenders ▸ hkey)).mono hgrows
  rejected hf hreason := (h.rejected (hsenders ▸ hf) hreason).mono hgrows

theorem Heeded.of_eq {w w' : World I V E M} (h : Heeded w) (hgrows : Grows w w')
    (hsenders : w'.senders = w.senders) (hmail : w'.mail = w.mail) : Heeded w' :=
  h.of_said hgrows hsenders fun hmem => hmail ▸ hmem

/-- **A sender believes only what it hears**, and it hears only what was said. -/
theorem heeded_tell {w : World I V E M} (h : Heeded w)
    {answers : Table (WorkerId × Nat) Answer} {mail : List (WorkerId × ConnectionId × Heard)}
    {worker : WorkerId} {e : Sender.Event} (hmail : mail ⊆ w.mail)
    (hresponse : ∀ {bytes}, e = .response bytes →
      ∃ connection, (worker, connection, Heard.response bytes) ∈ w.mail) :
    Heeded ({ w with answers, mail }.tell worker e) := by
  refine ⟨fun hmem => h.acknowledged (hmail hmem), fun hmem => h.refused (hmail hmem), ?_, ?_⟩
  -- only an acknowledgement that was in the mail adds to what is taken up
  · intro other key hkey
    show w.Applied key.1 other key.2
    by_cases hother : other = worker
    · subst hother
      rw [senders_tell_self] at hkey
      cases Sender.step_moved (w.senders other) e with
      | issued _ _ _ _ _ _ _ hacked _ => exact h.acked (hacked ▸ hkey)
      | acknowledged bytes key' hevent hdecode _ _ _ hacked _ =>
        have hkey' : key ∈ (w.senders other).acked ++ [key'] := hacked ▸ hkey
        rcases List.mem_append.1 hkey' with hkey' | hkey'
        · exact h.acked hkey'
        · rw [List.mem_singleton.1 hkey']
          obtain ⟨connection, hmem⟩ := hresponse hevent
          exact h.acknowledged hmem hdecode
      | gaveUp _ _ _ _ hacked _ => exact h.acked (hacked ▸ hkey)
      | told _ _ _ hacked _ => exact h.acked (hacked ▸ hkey)
    · rw [senders_tell_of_ne _ e hother] at hkey
      exact h.acked hkey
  · intro other f hf hreason
    show w.Refused f.destination other f.request
    by_cases hother : other = worker
    · subst hother
      rw [senders_tell_self] at hf
      -- a rejection is new only when it was in the mail; reporting it moves it
      have hf' : (f ∈ (w.senders other).coordinator.failures ∨ f ∈ (w.senders other).reported)
          ∨ ∃ bytes reason, e = .response bytes ∧ Frame.decode bytes
            = .ok (.response (.failed f.destination f.request reason)) := by
        cases Sender.step_moved (w.senders other) e with
        | issued _ _ _ _ _ hstep _ _ hreported =>
          rw [hstep.failures, hreported] at hf
          exact Or.inl hf
        | acknowledged _ _ _ _ _ hstep _ _ hreported =>
          rw [hstep, hreported] at hf
          exact Or.inl hf
        | gaveUp given hstep hgiven _ _ hreported =>
          rw [hstep.failures, hreported, List.mem_append] at hf
          rcases hf with (hf | hf) | hf
          · exact Or.inl (Or.inl hf)
          · exact Or.inr (hgiven f hf hreason)
          · exact Or.inl (Or.inr hf)
        | told _ hstep _ _ hreported =>
          rw [hstep, hreported, List.mem_append] at hf
          rcases hf with hf | hf | hf
          · cases hf
          · exact Or.inl (Or.inr hf)
          · exact Or.inl (Or.inl hf)
      rcases hf' with hf' | ⟨bytes, reason, hevent, hdecode⟩
      · exact h.rejected hf' hreason
      · obtain ⟨connection, hmem⟩ := hresponse hevent
        exact h.refused hmem hdecode
    · rw [senders_tell_of_ne _ e hother] at hf
      exact h.rejected hf hreason

/-! ## Beginnings

Nothing is on its way at the start, and no sender has been told anything. -/

/-- Everything that a world keeps. -/
structure Sound (w : World I V E M) : Prop where
  wired : Wired w
  recorded : Recorded w
  heeded : Heeded w

theorem sound_start (hosts : Table WorkerId (Holdings I V E M)) (metered : Bool)
    (config : WorkerId → DeliveryConfig) : Sound (start hosts metered config) := by
  refine ⟨wired_start hosts metered config, ⟨?_, ?_, ?_, ?_⟩, ⟨?_, ?_, ?_, ?_⟩⟩
  · exact fun hmem => by cases hmem
  · intro number server hserver
    have hnew := hosting_start hosts metered config
    obtain ⟨holdings, _, heq⟩ := hnew.registered (hnew.unique hserver)
    rw [hserver] at heq
    rw [Option.some.inj heq]
    exact Ledger.normal_empty
  · intro number server hserver sender id
    have hnew := hosting_start hosts metered config
    obtain ⟨holdings, _, heq⟩ := hnew.registered (hnew.unique hserver)
    rw [hserver] at heq
    rw [Option.some.inj heq]
    -- a server begins with an empty ledger, and the log is empty
    simp [Server.serving, Applied, applications, start]
  · exact fun _ _ _ => Nat.zero_le _
  · exact fun hmem => by cases hmem
  · exact fun hmem => by cases hmem
  · exact fun hkey => by cases hkey
  · exact fun hf => by rcases hf with hf | hf <;> cases hf

/-! ## Steps

Only serving puts answers into the mail, and only hearing takes them out and hands them to a
sender. -/

variable [VertexId I] [Value V] [Value E] [Value M]

/-- **An answer says what was done.** A host acknowledges what is on record by now, and reports
a failure only for what it refused. -/
theorem heeded_serve {w : World I V E M} (h : Heeded w) (hr : Recorded w) (hw : Wired w)
    (id : ConnectionId) (action : FaultAction) : Heeded (w.serve id action) := by
  have hgrows := grows_serve w id action
  rcases handles_serve hw id action with hskips | ⟨number, server, next, frame, hh⟩
  · exact h.of_said hgrows hskips.senders hskips.said
  · have hlog := hh.log
    refine ⟨?_, ?_, ?_, ?_⟩
    · intro worker connection answer host id' hin hack
      rcases hh.said hin with hin | ⟨rfl, rfl⟩
      · exact (h.acknowledged hin hack).mono hgrows
      · rw [ResponseFrame.decode_encode] at hack
        rcases server.accept_cases frame with
          ⟨hseen, haccept⟩ | ⟨_, _, haccept⟩ | ⟨e, _, _, haccept⟩
        -- a duplicate is acknowledged because the ledger has it, so that it was applied before
        · rw [haccept] at hack
          cases hack
          exact Applied.mono hgrows ((hr.ledger hh.running frame.sender frame.id).1 hseen)
        · rw [haccept] at hack hlog
          cases hack
          rw [Applied, applications_of_log hlog]
          simp [Happening.applied?]
        · rw [haccept] at hack
          cases hack
    · intro worker connection answer host id' reason hin hfailed
      rcases hh.said hin with hin | ⟨rfl, rfl⟩
      · exact (h.refused hin hfailed).mono hgrows
      · rw [ResponseFrame.decode_encode] at hfailed
        rcases server.accept_cases frame with ⟨_, haccept⟩ | ⟨_, _, haccept⟩ | ⟨e, _, _, haccept⟩
        · rw [haccept] at hfailed
          cases hfailed
        · rw [haccept] at hfailed
          cases hfailed
        · rw [haccept] at hfailed hlog
          cases hfailed
          refine ⟨e, ?_⟩
          rw [outcomes_of_log hlog]
          simp [Happening.outcome?]
    · intro worker key hkey
      exact (h.acked (hh.senders ▸ hkey)).mono hgrows
    · intro worker f hf hreason
      exact (h.rejected (hh.senders ▸ hf) hreason).mono hgrows

/-- **Every event keeps to the answers**: it gives none that is not in the log, and makes none
up. -/
theorem heeded_step {w : World I V E M} (h : Heeded w) (hr : Recorded w) (hw : Wired w)
    (e : Event I V E M) : Heeded (w.step e) := by
  have hgrows := grows_step w e
  -- what a sender is told is an answer only when a response arrives
  have htell : ∀ worker e', (∀ {bytes}, e' ≠ .response bytes) → Heeded (w.tell worker e') :=
    fun worker e' he => heeded_tell h (List.Subset.refl _) fun heq => absurd heq he
  cases e with
  | call worker thread =>
    rcases call_cases w worker thread with heq | ⟨_, _, _, heq⟩ | ⟨_, _, _, _, heq⟩
    · rw [step, heq]
      exact h
    · exact h.of_eq hgrows (by rw [step, heq]) (by rw [step, heq])
    · exact h.of_eq hgrows (by rw [step, heq]) (by rw [step, heq])
  | answer worker thread =>
    rw [step]
    split
    · exact h
    · next answer _ =>
      refine heeded_tell h (List.Subset.refl _) ?_
      intro bytes heq
      cases answer <;> cases heq
  | close worker connection =>
    rw [step] at hgrows ⊢
    split
    · next hasked =>
      rw [if_pos hasked] at hgrows
      exact h.of_eq hgrows rfl rfl
    · exact h
  | serve connection action => exact heeded_serve h hr hw connection action
  | hear place =>
    rw [step]
    split
    · exact h
    · next worker connection what hmem =>
      -- a response that is heard was sent, because it was in the mail
      refine heeded_tell h (fun m hm => List.mem_of_mem_eraseIdx hm) ?_
      intro bytes heq
      cases what with
      | response bytes' =>
        cases heq
        exact ⟨connection, List.mem_of_getElem? hmem⟩
      | closed => cases heq
  | use worker change =>
    rcases use_cases w worker change with heq | ⟨_, _, _, _, heq⟩
    · rw [step, heq]
      exact h
    · exact h.of_eq hgrows (by rw [step, heq]) (by rw [step, heq])
  | advance | reach => exact h.of_eq hgrows rfl rfl
  | send worker | resend worker | wake worker | await worker | shutdown worker | look worker
  | alarm worker =>
    exact htell worker _ (by simp)

/-! ## Runs

Each of the invariants needs the ones before it for its step, so they are carried through a run
together. -/

/-- The invariants hold in every run. -/
theorem sound_run {w : World I V E M} (h : Sound w) (events : List (Event I V E M))
    (hfew : (w.run events).Unwrapped) : Sound (w.run events) := by
  induction events generalizing w with
  | nil => exact h
  | cons e events ih =>
    have hstep : (w.step e).Unwrapped := hfew.mono (grows_run (w.step e) events)
    have hw : w.Unwrapped := hstep.mono (grows_step w e)
    exact ih ⟨wired_step h.wired e hstep, recorded_step h.recorded h.wired hw e,
      heeded_step h.heeded h.recorded h.wired e⟩ hfew

/-- A request that was issued was given to send with this type and payload. -/
theorem issued_step {w : World I V E M} {e : Event I V E M} {worker peer : WorkerId}
    {frame : RequestFrame} (h : (peer, frame) ∈ ((w.step e).senders worker).issued) :
    (peer, frame) ∈ (w.senders worker).issued ∨ e = .send worker peer frame.type frame.payload := by
  rcases senders_step w e worker with hsame | ⟨e', hstep, hsend⟩
  · rw [hsame] at h
    exact Or.inl h
  · rw [hstep] at h
    cases Sender.step_moved (w.senders worker) e' with
    | issued now peer' frame' bytes hevent _ hissued _ _ =>
      rw [hissued, List.mem_append, List.mem_singleton] at h
      rcases h with h | heq
      · exact Or.inl h
      · cases heq
        exact Or.inr (hsend hevent)
    | acknowledged _ _ _ _ _ _ hissued _ _ => exact Or.inl (hissued ▸ h)
    | gaveUp _ _ _ hissued _ _ => exact Or.inl (hissued ▸ h)
    | told _ _ hissued _ _ => exact Or.inl (hissued ▸ h)

/-- What a sender has issued was given to it to send. -/
theorem issued_run {w : World I V E M} {events : List (Event I V E M)} {worker peer : WorkerId}
    {frame : RequestFrame} (h : (peer, frame) ∈ ((w.run events).senders worker).issued) :
    (peer, frame) ∈ (w.senders worker).issued
      ∨ .send worker peer frame.type frame.payload ∈ events := by
  induction events generalizing w with
  | nil => exact Or.inl h
  | cons e events ih =>
    rcases ih h with h | h
    · rcases issued_step h with h | rfl
      · exact Or.inl h
      · exact Or.inr List.mem_cons_self
    · exact Or.inr (List.mem_cons_of_mem _ h)

/-- Among elements with different values, one is found by its value. -/
theorem filter_eq_singleton {A B : Type} [DecidableEq B] {l : List A} {f : A → B} {a : A}
    (hnodup : (l.map f).Nodup) (ha : a ∈ l) : l.filter (fun x => f x = f a) = [a] := by
  induction l with
  | nil => cases ha
  | cons b l ih =>
    obtain ⟨hb, hl⟩ := List.nodup_cons.1 hnodup
    rcases List.mem_cons.1 ha with rfl | ha
    · rw [List.filter_cons_of_pos (by simp)]
      congr 1
      rw [List.filter_eq_nil_iff]
      intro x hx heq
      exact hb (List.mem_map.2 ⟨x, hx, by simpa using heq⟩)
    · rw [List.filter_cons_of_neg, ih hl ha]
      intro heq
      exact hb (List.mem_map.2 ⟨a, ha, (by simpa using heq : f b = f a).symm⟩)

theorem eq_singleton_of_mem {A : Type} {l : List A} {a : A} (hl : l.length ≤ 1) (ha : a ∈ l) :
    l = [a] := by
  have hone : l.length = 1 := by
    have := List.length_pos_of_mem ha
    omega
  obtain ⟨b, rfl⟩ := List.length_eq_one_iff.1 hone
  rw [List.mem_singleton.1 ha]

/-- **Exactly once.** Begin with any hosts, holding anything, and let anything happen in any
order: sends, passes over overdue requests, connects that succeed or fail, frames that arrive
twice or cut their link, answers that are lost, late or early, lost connections, shutdowns, and
changes of what hosts hold. Then no request was applied twice, and a request whose
acknowledgement was taken up was applied once, as it was given to send. To be applied means that
it was carried out on what the host held: that is what the log makes of what it held at first. -/
theorem exactly_once (hosts : Table WorkerId (Holdings I V E M)) (metered : Bool)
    (config : WorkerId → DeliveryConfig) (events : List (Event I V E M))
    (hfew : ((start hosts metered config).run events).Unwrapped) :
    let w := (start hosts metered config).run events
    (∀ host sender id, (w.applications host sender id).length ≤ 1)
      ∧ (∀ sender host id, (host, id) ∈ (w.senders sender).acked → ∃ type payload,
          .send sender host type payload ∈ events
          ∧ (w.senders sender).issued.filter (fun e => e.1 = host ∧ e.2.id = id)
              = [(host, { sender, id, type, payload })]
          ∧ w.applications host sender id = [{ sender, id, type, payload }])
      ∧ ∀ host holdings, hosts.get? host = some holdings → ∃ server, w.server? host = some server
          ∧ server.holdings = w.log.foldl (effect host) holdings := by
  intro w
  have hsound : Sound w := sound_run (sound_start hosts metered config) events hfew
  refine ⟨hsound.recorded.once, ?_, ?_⟩
  · intro sender host id hacked
    -- what was acknowledged was applied, what was applied was issued, what was issued was sent
    have happlied := hsound.heeded.acked hacked
    obtain ⟨frame, hframe⟩ := List.exists_mem_of_ne_nil _ happlied
    obtain ⟨hhandled, hsender, hid⟩ := mem_applications.1 hframe
    have hissued := hsound.recorded.issued hhandled
    rw [hsender] at hissued
    have hnodup := (hsound.wired.books hfew sender).nodup_issuedKeys (hfew.1 sender)
    obtain ⟨sender', id', type, payload⟩ := frame
    cases hsender
    cases hid
    refine ⟨type, payload, ?_, ?_, ?_⟩
    · rcases issued_run hissued with hnone | hsend
      · cases hnone
      · exact hsend
    · have honly := filter_eq_singleton hnodup hissued
      simpa only [Prod.mk.injEq] using honly
    · exact eq_singleton_of_mem (hsound.recorded.once host _ _) hframe
  · intro host holdings hhost
    exact (replayed_run (replayed_start hhost metered config) (wired_start hosts metered config)
      events hfew).server?

/-- One request of which two copies are served before the first answer is heard. -/
theorem exactly_once_duplicated :
    let hosts : Table WorkerId (Holdings UInt64 UInt64 UInt64 UInt64) :=
      Table.empty.insert ⟨1⟩ (.empty Config.testing.partition)
    let events : List (Event UInt64 UInt64 UInt64 UInt64) :=
      [.send ⟨9⟩ ⟨1⟩ .sendWorkerMessages [0, 0, 0, 0], .look ⟨9⟩ 0, .call ⟨9⟩ 0, .answer ⟨9⟩ 0,
        .call ⟨9⟩ 0, .serve ⟨1⟩ .duplicate, .serve ⟨1⟩ .deliver, .hear 0]
    let w := (start hosts false fun _ => Config.testing.delivery).run events
    (w.outcomes ⟨1⟩ ⟨9⟩ ⟨0⟩).length = 2 ∧ ∃ type payload,
      .send ⟨9⟩ ⟨1⟩ type payload ∈ events
        ∧ (w.senders ⟨9⟩).issued.filter (fun e => e.1 = ⟨1⟩ ∧ e.2.id = ⟨0⟩)
            = [(⟨1⟩, { sender := ⟨9⟩, id := ⟨0⟩, type, payload })]
        ∧ w.applications ⟨1⟩ ⟨9⟩ ⟨0⟩ = [{ sender := ⟨9⟩, id := ⟨0⟩, type, payload }] :=
  ⟨by decide +kernel, (exactly_once _ _ _ _ (unwrapped_of_length (by decide))).2.1 ⟨9⟩ ⟨1⟩ ⟨0⟩
    (by decide +kernel)⟩

end Superstep.World
