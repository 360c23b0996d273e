import Superstep.Proofs.Settlement

/-!
# Superstep — no request waits for ever

A request may be tried so many times, and each check for overdue requests that comes later than
the timeout after its last dispatch takes one of its attempts, wherever the latest copy of its
frame is. The transport has no part in this: whatever it answers moves frames from route to
route, and attempts and times of dispatch stay as they are.

* **`step_passed`** — everything that an event can do to the requests that stay pending;
* **`Counted`** — the invariant: no request was tried more often than it may be, and none was
  dispatched later than the clock says;
* **`attempts_round`** — a round in which the clock passes the timeout and a check begins takes
  an attempt from every request that is pending after it;
* **`settled_in_time`** — after as many rounds as there are attempts, what was pending at the
  start is settled.
-/

namespace Superstep

open Coordinator

/-! ## Requests that wait

Between two checks a request can only change its route, and this is an edit. So the edits of
`Coordinator` carry over at once. -/

/-- `c'` is `c` after nothing was tried: a request that is pending still has the attempts and the
time of dispatch that it had. -/
structure Waits (c c' : Coordinator) : Prop where
  config : c'.config = c.config
  stopped : c'.stopped = c.stopped
  pending : ∀ {key r'}, c'.pending.get? key = some r' →
    ∃ r, c.pending.get? key = some r ∧ r'.attempts = r.attempts ∧ r'.dispatchedAt = r.dispatchedAt

namespace Waits

variable {c c' c'' : Coordinator}

theorem refl (c : Coordinator) : Waits c c where
  config := rfl
  stopped := rfl
  pending h := ⟨_, h, rfl, rfl⟩

theorem trans (h : Waits c c') (h' : Waits c' c'') : Waits c c'' where
  config := h'.config.trans h.config
  stopped := h'.stopped.trans h.stopped
  pending hr := by
    obtain ⟨r', hr', hattempts', hdispatched'⟩ := h'.pending hr
    obtain ⟨r, hr, hattempts, hdispatched⟩ := h.pending hr'
    exact ⟨r, hr, hattempts'.trans hattempts, hdispatched'.trans hdispatched⟩

/-- Only the route of a request can be edited. -/
theorem of_edit (h : Edit c c') : Waits c c' := by
  cases h with
  | peer | count | flag => exact { Waits.refl c with }
  | route key route =>
    refine { Waits.refl c with pending := ?_ }
    intro key' r' hr'
    simp only [setRoute, Table.get?_modify] at hr'
    split at hr'
    · obtain ⟨r, hr, rfl⟩ := Option.map_eq_some_iff.1 hr'
      exact ⟨r, hr, rfl, rfl⟩
    · exact ⟨r', hr', rfl, rfl⟩
  | giveUp =>
    exact { Waits.refl c with pending := fun hr' => ⟨_, get?_of_get?_giveUp hr', rfl, rfl⟩ }

theorem of_edits (h : Edits c c') : Waits c c' := by
  induction h with
  | refl => exact refl c
  | tail _ hedit ih => exact ih.trans (of_edit hedit)

theorem onResponse (c : Coordinator) (bytes : Bytes) : Waits c (c.onResponse bytes) := by
  rcases onResponse_spec c bytes with ⟨hstep, _⟩ | ⟨key, _, _, hstep, _⟩ |
    ⟨key, _, _, _, hstep, _⟩
  · rw [hstep]
    exact refl c
  · rw [hstep]
    exact { Waits.refl c with pending := fun hr' => ⟨_, Table.get?_of_get?_erase hr', rfl, rfl⟩ }
  · rw [hstep]
    exact { Waits.refl c with pending := fun hr' => ⟨_, Table.get?_of_get?_erase hr', rfl, rfl⟩ }

theorem await (c : Coordinator) : Waits c c.await.2 := by
  rcases await_spec c with h | ⟨_, h⟩ | ⟨_, _, h, _⟩
  · rw [h]; exact refl c
  · rw [h]; exact refl c
  · rw [h]; exact { Waits.refl c with }

end Waits

/-- **A check** gives up the overdue requests that have no attempt left, counts an attempt for
the others, and leaves those alone that are not overdue. -/
theorem Coordinator.get?_checkOverdue (c : Coordinator) (now : Nat) (key : RequestKey) :
    (c.checkOverdue now).1.pending.get? key = (c.pending.get? key).bind fun r =>
      if c.isOverdue now key r then
        if c.isExhausted r then none
        else some { r with attempts := r.attempts + 1, dispatchedAt := now, route := .dispatching }
      else some r := by
  simp only [checkOverdue, giveUp, Table.get?_mapValues, Table.get?_filter]
  cases c.pending.get? key with
  | none => rfl
  | some r =>
    cases hoverdue : c.isOverdue now key r with
    | false => simp [hoverdue]
    | true => cases hexhausted : c.isExhausted r <;> simp [hoverdue, hexhausted]

/-- A shutdown stops the coordinator and leaves its configuration. -/
theorem Coordinator.shutdown_spec (c : Coordinator) :
    c.shutdown.2.config = c.config ∧ c.shutdown.2.stopped = true := by
  unfold shutdown
  split
  · next hstopped => exact ⟨rfl, hstopped⟩
  · exact ⟨rfl, rfl⟩

theorem Coordinator.pending_shutdown (c : Coordinator) : c.shutdown.2.pending = c.pending := by
  unfold shutdown
  split <;> rfl

namespace Sender

/-! ## The clock

Time is what sends and checks say it is. It is bounded from above only: events need not come in its
order, and a check that reads an early time finds less overdue. -/

def Event.time? : Event → Option Nat
  | send now _ _ _ => some now
  | resend now => some now
  | _ => none

/-- No event goes by a time after `t`. -/
def Until (events : List Event) (t : Nat) : Prop := ∀ e ∈ events, ∀ now ∈ e.time?, now ≤ t

instance (events : List Event) (t : Nat) : Decidable (Until events t) :=
  inferInstanceAs (Decidable (∀ e ∈ events, ∀ now ∈ e.time?, now ≤ t))

/-! ## What an event does to requests that stay pending

Four cases, and the shutdown is one of them, because it changes no request but ends the rounds. -/

/-- Everything that an event can do to the requests that are pending after it. -/
inductive Passed (s : Sender) (e : Event) (s' : Sender) : Prop
  | waited (hevent : ∀ now, e ≠ .resend now) (hstep : Waits s.coordinator s'.coordinator)
  | issued (now : Nat) (peer : WorkerId) (frame : RequestFrame) (bytes : Bytes)
      (hevent : e = .send now peer frame.type frame.payload)
      (hstep : TakesOn s.coordinator s'.coordinator now peer frame bytes)
      (hissued : s'.issued = s.issued ++ [(peer, frame)])
  | checked (now : Nat) (hevent : e = .resend now)
      (hstep : s'.coordinator = (s.coordinator.checkOverdue now).1)
  | closed (hconfig : s'.coordinator.config = s.coordinator.config)
      (hpending : s'.coordinator.pending = s.coordinator.pending)
      (hstopped : s'.coordinator.stopped = true)

/-- **Everything an event can do to requests that stay pending.** -/
theorem step_passed (s : Sender) (e : Event) : Passed s e (s.step e) := by
  cases e with
  | send now peer type payload =>
    cases hsend : s.coordinator.send now peer type payload with
    | error e =>
      refine .waited (by simp) ?_
      simp only [step, hsend]
      exact .refl _
    | ok sent =>
      obtain ⟨id, c, task⟩ := sent
      obtain ⟨bytes, htakes, _⟩ := send_spec hsend
      simp only [step, hsend]
      exact .issued now peer _ bytes rfl htakes (by simp [Sender.issued, Note.issued?])
  | resend now =>
    cases hstopped : s.coordinator.stopped with
    | true =>
      -- a check of a coordinator that was shut down leaves no work
      have hidle : s.coordinator.resend now = (s.coordinator, .idle) := by simp [resend, hstopped]
      refine .closed ?_ ?_ ?_ <;> simp [step, hidle, hstopped]
    | false => exact .checked now rfl (by simp [step, resend, hstopped])
  | wake => exact .waited (by simp) (.of_edits (edited_wake s).coordinator)
  | look thread => exact .waited (by simp) (.of_edits (edited_look s thread).coordinator)
  | connected thread answer =>
    exact .waited (by simp) (.of_edits (edited_connected s thread answer).coordinator)
  | written thread accepted =>
    exact .waited (by simp) (.of_edits (edited_written s thread accepted).coordinator)
  | response bytes => exact .waited (by simp) (.onResponse _ bytes)
  | closed connection =>
    exact .waited (by simp) (.of_edits (edited_closed s connection).coordinator)
  | alarm connection =>
    exact .waited (by simp) (.of_edits (edited_alarm s connection).coordinator)
  | await =>
    refine .waited (by simp) ?_
    have hawait := Waits.await s.coordinator
    simp only [step]
    split
    · exact .refl _
    · next hresult => rwa [hresult] at hawait
  | shutdown =>
    obtain ⟨hconfig, hstopped⟩ := shutdown_spec s.coordinator
    exact .closed hconfig (pending_shutdown _) hstopped

/-- What is pending after anything but a send or a check was pending before, with the attempts and
the time of dispatch that it has. -/
theorem kept_step {s : Sender} {e : Event}
    (hsend : ∀ now peer type payload, e ≠ .send now peer type payload)
    (hresend : ∀ now, e ≠ .resend now) {key : RequestKey} {r' : PendingRequest}
    (hr' : (s.step e).coordinator.pending.get? key = some r') :
    ∃ r, s.coordinator.pending.get? key = some r ∧ r'.attempts = r.attempts
      ∧ r'.dispatchedAt = r.dispatchedAt := by
  cases step_passed s e with
  | waited _ hstep => exact hstep.pending hr'
  | issued now peer frame _ hevent _ _ => exact absurd hevent (hsend _ _ _ _)
  | checked now hevent _ => exact absurd hevent (hresend now)
  | closed _ hpending _ => exact ⟨r', hpending ▸ hr', rfl, rfl⟩

theorem config_step (s : Sender) (e : Event) :
    (s.step e).coordinator.config = s.coordinator.config := by
  cases step_passed s e with
  | waited _ hstep => exact hstep.config
  | issued _ _ _ _ _ hstep _ => exact hstep.config
  | checked _ _ hstep => rw [hstep]; rfl
  | closed hconfig _ _ => exact hconfig

theorem config_run (s : Sender) (events : List Event) :
    (s.run events).coordinator.config = s.coordinator.config := by
  induction events generalizing s with
  | nil => rfl
  | cons e events ih => exact (ih (s.step e)).trans (config_step s e)

/-- A sender that is open after an event was open before it. -/
theorem open_of_step {s : Sender} {e : Event} (h : (s.step e).coordinator.stopped = false) :
    s.coordinator.stopped = false := by
  cases step_passed s e with
  | waited _ hstep => rwa [hstep.stopped] at h
  | issued _ _ _ _ _ hstep _ => rwa [hstep.stopped] at h
  | checked _ _ hstep => rwa [hstep] at h
  | closed _ _ hstopped => rw [hstopped] at h; cases h

/-- An open coordinator was open all the time. -/
theorem open_of_run {s : Sender} {events : List Event}
    (h : (s.run events).coordinator.stopped = false) : s.coordinator.stopped = false := by
  induction events generalizing s with
  | nil => exact h
  | cons e events ih => exact open_of_step (ih h)

theorem run_append (s : Sender) (events more : List Event) :
    s.run (events ++ more) = (s.run events).run more :=
  List.foldl_append

theorem run_concat (s : Sender) (events : List Event) (e : Event) :
    s.run (events ++ [e]) = (s.run events).step e :=
  run_append s events [e]

/-! ## What is issued in the meantime

Ids are used again after 2 ^ 64 sends to a destination. A request that is issued under the id of
another is not the one that was waiting, so the keys issued on the way are kept apart. -/

def issuedIn (s : Sender) (events : List Event) : List RequestKey :=
  (s.run events).issuedKeys.drop s.issuedKeys.length

theorem issuedKeys_run (s : Sender) (events : List Event) :
    (s.run events).issuedKeys = s.issuedKeys ++ s.issuedIn events := by
  obtain ⟨more, hmore⟩ := (issued_mono (journal_run s events)).map fun e => (e.1, e.2.id)
  have hkeys : s.issuedKeys ++ more = (s.run events).issuedKeys := hmore
  rw [issuedIn, ← hkeys, List.drop_left]

theorem issuedIn_append (s : Sender) (events more : List Event) :
    s.issuedIn (events ++ more) = s.issuedIn events ++ (s.run events).issuedIn more := by
  have hall := issuedKeys_run s (events ++ more)
  rw [run_append, issuedKeys_run, issuedKeys_run, List.append_assoc] at hall
  exact (List.append_cancel_left hall).symm

theorem issuedIn_cons (s : Sender) (e : Event) (events : List Event) :
    s.issuedIn (e :: events) = s.issuedIn [e] ++ (s.step e).issuedIn events :=
  issuedIn_append s [e] events

theorem issuedIn_single {s : Sender} {e : Event} {peer : WorkerId} {frame : RequestFrame}
    (h : (s.step e).issued = s.issued ++ [(peer, frame)]) :
    s.issuedIn [e] = [(peer, frame.id)] := by
  have hkeys : (s.step e).issuedKeys = s.issuedKeys ++ [(peer, frame.id)] := by
    rw [issuedKeys, h, List.map_append]; rfl
  have hrun := issuedKeys_run s [e]
  rw [show s.run [e] = s.step e from rfl, hkeys] at hrun
  exact (List.append_cancel_left hrun).symm

/-! ## Attempts are counted -/

/-- What an event does to a request that is pending before and after it. A check leaves only
requests alone that are within the timeout. -/
inductive Ages (config : DeliveryConfig) (e : Event) (r r' : PendingRequest) : Prop
  | waits (hattempts : r'.attempts = r.attempts) (hdispatched : r'.dispatchedAt = r.dispatchedAt)
      (hcheck : ∀ now, e = .resend now → now ≤ r.dispatchedAt + config.requestTimeout)
  | retried (now : Nat) (hevent : e = .resend now) (hleft : r.attempts < config.maxRequestAttempts)
      (hattempts : r'.attempts = r.attempts + 1) (hdispatched : r'.dispatchedAt = now)

/-- **A check** leaves a request that is within the timeout, and tries any other again. -/
theorem ages_checkOverdue {c : Coordinator} {now : Nat} {key : RequestKey} {r' : PendingRequest}
    (h : (c.checkOverdue now).1.pending.get? key = some r') :
    ∃ r, c.pending.get? key = some r ∧ Ages c.config (.resend now) r r' := by
  rw [get?_checkOverdue] at h
  obtain ⟨r, hr, hchecked⟩ := Option.bind_eq_some_iff.1 h
  refine ⟨r, hr, ?_⟩
  split at hchecked
  · split at hchecked
    · cases hchecked
    · next hleft =>
      cases hchecked
      refine .retried now rfl ?_ rfl rfl
      simpa [isExhausted] using hleft
  -- by time alone, a request is overdue on every route
  · next hearly =>
    cases hchecked
    refine .waits rfl rfl ?_
    intro now' hnow
    cases hnow
    have htime : ¬ now - r'.dispatchedAt > c.config.requestTimeout := by
      intro hlate
      exact hearly (by simp only [isOverdue, hlate, decide_true, Bool.or_true])
    omega

/-- **One event.** A request that is pending after it was there before, and waited or was tried
again, or it was just issued. -/
theorem ages_step {s : Sender} {e : Event} (hopen : (s.step e).coordinator.stopped = false)
    {key : RequestKey} {r' : PendingRequest}
    (hr' : (s.step e).coordinator.pending.get? key = some r') :
    (∃ r, s.coordinator.pending.get? key = some r ∧ Ages s.coordinator.config e r r')
      ∨ (key ∈ s.issuedIn [e] ∧ r'.attempts = 1 ∧ e.time? = some r'.dispatchedAt) := by
  -- the four things that an event can do to what is pending
  cases step_passed s e with
  | waited hevent hstep =>
    obtain ⟨r, hr, hattempts, hdispatched⟩ := hstep.pending hr'
    exact Or.inl ⟨r, hr, .waits hattempts hdispatched fun now hnow => absurd hnow (hevent now)⟩
  | issued now peer frame bytes hevent hstep hissued =>
    rw [hstep.pending, Table.get?_insert] at hr'
    split at hr'
    · next hkey =>
      cases hr'
      refine Or.inr ⟨?_, rfl, by rw [hevent]; rfl⟩
      rw [issuedIn_single hissued, hkey]
      exact List.mem_singleton_self _
    · exact Or.inl ⟨r', hr', .waits rfl rfl fun now hnow => by rw [hevent] at hnow; cases hnow⟩
  | checked now hevent hstep =>
    rw [hstep] at hr'
    rw [hevent]
    exact Or.inl (ages_checkOverdue hr')
  | closed _ _ hstopped => rw [hstopped] at hopen; cases hopen

/-- No request was tried more often than it may be, and none was dispatched after the time `t`. -/
def Counted (s : Sender) (t : Nat) : Prop :=
  ∀ key r, s.coordinator.pending.get? key = some r →
    1 ≤ r.attempts ∧ r.attempts ≤ max 1 s.coordinator.config.maxRequestAttempts
      ∧ r.dispatchedAt ≤ t

theorem counted_new (worker : WorkerId) (config : DeliveryConfig) (t : Nat) :
    Counted (new worker config) t := by
  intro key r hr
  cases hr

theorem Counted.mono {s : Sender} {t t' : Nat} (h : Counted s t) (ht : t ≤ t') : Counted s t' := by
  intro key r hr
  obtain ⟨hfirst, hlimit, hdispatched⟩ := h key r hr
  exact ⟨hfirst, hlimit, hdispatched.trans ht⟩

/-- A check counts an attempt only of a request that has one left, and dispatches at its own
time. -/
theorem counted_step {s : Sender} {e : Event} {t : Nat} (h : Counted s t)
    (hopen : (s.step e).coordinator.stopped = false) (htime : ∀ now ∈ e.time?, now ≤ t) :
    Counted (s.step e) t := by
  intro key r' hr'
  rw [config_step]
  rcases ages_step hopen hr' with ⟨r, hr, hages⟩ | ⟨_, hattempts, hnow⟩
  · obtain ⟨hfirst, hlimit, hdispatched⟩ := h key r hr
    cases hages with
    | waits hattempts' hdispatched' _ =>
      rw [hattempts', hdispatched']
      exact ⟨hfirst, hlimit, hdispatched⟩
    | retried now hevent hleft hattempts' hdispatched' =>
      have hnow : now ≤ t := htime now (by rw [hevent]; rfl)
      rw [hattempts', hdispatched']
      exact ⟨by omega, by omega, hnow⟩
  · rw [hattempts]
    exact ⟨Nat.le_refl 1, Nat.le_max_left _ _, htime _ hnow⟩

theorem counted_run {s : Sender} {events : List Event} {t : Nat} (h : Counted s t)
    (hopen : (s.run events).coordinator.stopped = false) (htime : Until events t) :
    Counted (s.run events) t := by
  induction events generalizing s with
  | nil => exact h
  | cons e events ih =>
    have hstep : Counted (s.step e) t :=
      counted_step h (open_of_run hopen) (htime e List.mem_cons_self)
    exact ih hstep hopen fun e' he' => htime e' (List.mem_cons_of_mem _ he')

/-- **Any events.** A request that is still pending after them was dispatched at the time at which
it was, or an attempt more was counted. -/
theorem attempts_run {s : Sender} {events : List Event}
    (hopen : (s.run events).coordinator.stopped = false) {key : RequestKey}
    (hold : key ∉ s.issuedIn events) {r' : PendingRequest}
    (hr' : (s.run events).coordinator.pending.get? key = some r') :
    ∃ r, s.coordinator.pending.get? key = some r
      ∧ (r.attempts < r'.attempts
        ∨ r'.attempts = r.attempts ∧ r'.dispatchedAt = r.dispatchedAt) := by
  induction events generalizing s with
  | nil => exact ⟨r', hr', Or.inr ⟨rfl, rfl⟩⟩
  | cons e events ih =>
    rw [issuedIn_cons, List.mem_append, not_or] at hold
    obtain ⟨r₁, hr₁, hlater⟩ := ih hopen hold.2 hr'
    rcases ages_step (open_of_run hopen) hr₁ with ⟨r, hr, hages⟩ | ⟨hnew, _⟩
    · refine ⟨r, hr, ?_⟩
      cases hages with
      | waits hattempts hdispatched _ => rwa [hattempts, hdispatched] at hlater
      | retried _ _ _ hattempts _ => omega
    · exact absurd hnew hold.1

/-! ## Rounds -/

/-- From the time `t` to the time `t'`, among any events, a check for overdue requests begins when
the clock has advanced by more than the timeout. -/
structure Round (timeout t : Nat) (events : List Event) (t' : Nat) : Prop where
  clock : Until events t'
  check : ∃ now, .resend now ∈ events ∧ t + timeout < now

/-- Rounds that follow each other from the time `t` to the time `t'`. -/
inductive Rounds (timeout : Nat) : Nat → List (List Event) → Nat → Prop
  | nil (t : Nat) : Rounds timeout t [] t
  | cons {t t'' : Nat} {events : List Event} {rounds : List (List Event)} (t' : Nat)
      (hround : Round timeout t events t') (hrounds : Rounds timeout t' rounds t'') :
      Rounds timeout t (events :: rounds) t''

theorem Round.counted {s : Sender} {timeout t t' : Nat} {events : List Event}
    (h : Round timeout t events t') (hs : Counted s t)
    (hopen : (s.run events).coordinator.stopped = false) : Counted (s.run events) t' := by
  obtain ⟨now, hmem, hlate⟩ := h.check
  have hnow : now ≤ t' := h.clock _ hmem now rfl
  exact counted_run (hs.mono (by omega)) hopen h.clock

/-- **One round.** A request that is pending after it was tried once more than before: the check
finds it with the time of dispatch that it had at the start, and overdue, unless an attempt was
counted before. -/
theorem attempts_round {s : Sender} {t t' : Nat} {events : List Event} (hs : Counted s t)
    (hround : Round s.coordinator.config.requestTimeout t events t')
    (hopen : (s.run events).coordinator.stopped = false) {key : RequestKey}
    (hold : key ∉ s.issuedIn events) {r' : PendingRequest}
    (hr' : (s.run events).coordinator.pending.get? key = some r') :
    ∃ r, s.coordinator.pending.get? key = some r ∧ r.attempts < r'.attempts := by
  obtain ⟨now, hmem, hlate⟩ := hround.check
  obtain ⟨early, late, rfl⟩ := List.append_of_mem hmem
  have hrun : s.run (early ++ .resend now :: late)
      = ((s.run early).step (.resend now)).run late := run_append s early _
  rw [hrun] at hopen hr'
  rw [issuedIn_append, issuedIn_cons, List.mem_append, List.mem_append, not_or, not_or] at hold
  obtain ⟨hearly, hcheck, hrest⟩ := hold
  have hopen' : ((s.run early).step (.resend now)).coordinator.stopped = false := open_of_run hopen
  obtain ⟨r₂, hr₂, hafter⟩ := attempts_run hopen hrest hr'
  rcases ages_step hopen' hr₂ with ⟨r₁, hr₁, hages⟩ | ⟨hnew, _⟩
  · obtain ⟨r, hr, hbefore⟩ := attempts_run (open_of_step hopen') hearly hr₁
    refine ⟨r, hr, ?_⟩
    obtain ⟨_, _, hdispatched⟩ := hs key r hr
    -- untouched by the check, it would be within the timeout of a dispatch that came later than the
    -- start
    cases hages with
    | waits hattempts _ hintime =>
      have := hintime now rfl
      rw [config_run] at this
      omega
    | retried _ _ _ hattempts _ => omega
  · exact absurd hnew hcheck

/-- **Several rounds** take as many attempts. -/
theorem attempts_rounds {s : Sender} {t t' : Nat} {rounds : List (List Event)} (hs : Counted s t)
    (hrounds : Rounds s.coordinator.config.requestTimeout t rounds t')
    (hopen : (s.run rounds.flatten).coordinator.stopped = false) :
    Counted (s.run rounds.flatten) t'
      ∧ ∀ key ∉ s.issuedIn rounds.flatten, ∀ r',
        (s.run rounds.flatten).coordinator.pending.get? key = some r' →
          ∃ r, s.coordinator.pending.get? key = some r
            ∧ r.attempts + rounds.length ≤ r'.attempts := by
  generalize htimeout : s.coordinator.config.requestTimeout = timeout at hrounds
  -- on the rounds; the timeout is fixed first, since the state changes along with them
  induction hrounds generalizing s with
  | nil t => exact ⟨hs, fun key _ r' hr' => ⟨r', hr', Nat.le_refl _⟩⟩
  | @cons t t'' events rounds t' hround _ ih =>
    rw [List.flatten_cons, run_append] at hopen ⊢
    have hfirst : (s.run events).coordinator.stopped = false := open_of_run hopen
    obtain ⟨hcounted, hrest⟩ := ih (hround.counted hs hfirst) hopen (by rw [config_run, htimeout])
    refine ⟨hcounted, ?_⟩
    intro key hold r' hr'
    rw [issuedIn_append, List.mem_append, not_or] at hold
    obtain ⟨r₁, hr₁, hlater⟩ := hrest key hold.2 r' hr'
    obtain ⟨r, hr, honce⟩ := attempts_round hs (htimeout ▸ hround) hfirst hold.1 hr₁
    refine ⟨r, hr, ?_⟩
    rw [List.length_cons]
    omega

/-! ## What is settled

That nothing is pending any more is not enough: each request has to be in one of the other places,
once. This is the counting of `Settlement`, taken from one state to a later one. -/

/-- The requests that were settled, each as often as it was: acknowledged, given up and not
reported yet, or reported. -/
def settledKeys (s : Sender) : List RequestKey :=
  s.acked ++ s.coordinator.failures.map DeliveryFailure.key ++ s.reported.map DeliveryFailure.key

/-- A request is pending or settled. -/
theorem accounted_eq (s : Sender) : s.accounted = s.coordinator.pending.keys ++ s.settledKeys := by
  simp only [accounted, settledKeys, List.append_assoc]

/-- A request that is not issued is in as many places after an event as before it. -/
theorem count_accounted_step {s : Sender} {e : Event} {key : RequestKey}
    (hold : key ∉ s.issuedIn [e]) : (s.step e).accounted.count key = s.accounted.count key := by
  cases step_moved s e with
  | issued now peer frame bytes _ hstep hissued hacked hreported =>
    rw [issuedIn_single hissued, List.mem_singleton] at hold
    simp only [accounted, List.count_append, hacked, hreported, hstep.failures, hstep.pending,
      Table.count_keys_insert_of_ne _ _ hold]
  | acknowledged _ _ _ _ _ _ hissued _ _ =>
    exact ((step_moved s e).accounted hissued).symm.count_eq key
  | gaveUp _ _ _ hissued _ _ => exact ((step_moved s e).accounted hissued).symm.count_eq key
  | told _ _ hissued _ _ => exact ((step_moved s e).accounted hissued).symm.count_eq key

theorem count_accounted_run {s : Sender} {events : List Event} {key : RequestKey}
    (hold : key ∉ s.issuedIn events) :
    (s.run events).accounted.count key = s.accounted.count key := by
  induction events generalizing s with
  | nil => rfl
  | cons e events ih =>
    rw [issuedIn_cons, List.mem_append, not_or] at hold
    exact (ih hold.2).trans (count_accounted_step hold.1)

/-- What was pending and is no longer pending was settled once. -/
theorem count_settledKeys_run {s : Sender} {events : List Event} {key : RequestKey}
    (hpending : key ∈ s.coordinator.pending.keys) (hold : key ∉ s.issuedIn events)
    (hgone : key ∉ (s.run events).coordinator.pending.keys) :
    (s.run events).settledKeys.count key = s.settledKeys.count key + 1 := by
  have hplaces := count_accounted_run hold
  rw [accounted_eq, accounted_eq, List.count_append, List.count_append,
    List.count_eq_zero_of_not_mem hgone,
    List.count_eq_one_of_mem (Table.nodup_keys _) hpending] at hplaces
  omega

/-- Waiting ends when nothing is pending. -/
theorem await_of_keys_eq_nil {c : Coordinator} (h : c.pending.keys = []) :
    c.await.1.isSome = true := by
  have hsize : c.pending.size = 0 := (Table.size_eq_zero_iff _).2 h
  unfold Coordinator.await
  rw [if_neg (Decidable.not_not.2 hsize)]
  split <;> rfl

/-- **Every request is settled in time.** Take any state that is reached before the shutdown, when
the clock says `t`, and any events from there in which the clock advances by more than the timeout
and a check for overdue requests begins, as often as a request may be tried; the transport, other
threads and the destinations do what they like. Then only requests that were issued in the
meantime are pending; every request that was pending at the start was settled once, unless its id
was issued again, for which its destination has to be sent 2 ^ 64 more; and if none was issued,
waiting ends. -/
theorem settled_in_time (worker : WorkerId) (config : DeliveryConfig) (before : List Event)
    (rounds : List (List Event)) (t t' : Nat) (hbefore : Until before t)
    (hrounds : Rounds config.requestTimeout t rounds t')
    (henough : max 1 config.maxRequestAttempts ≤ rounds.length)
    (hopen : ((new worker config).run (before ++ rounds.flatten)).coordinator.stopped = false) :
    let s := (new worker config).run before
    let later := s.run rounds.flatten
    (∀ key ∈ later.coordinator.pending.keys, key ∈ s.issuedIn rounds.flatten)
      ∧ (∀ key ∈ s.coordinator.pending.keys, key ∉ s.issuedIn rounds.flatten →
          later.settledKeys.count key = s.settledKeys.count key + 1)
      ∧ (s.issuedIn rounds.flatten = [] → later.coordinator.await.1.isSome = true) := by
  intro s later
  rw [run_append] at hopen
  have hconfig : s.coordinator.config = config := config_run (new worker config) before
  have hcounted : Counted s t :=
    counted_run (counted_new worker config t) (open_of_run hopen) hbefore
  obtain ⟨hlimit, hattempts⟩ := attempts_rounds hcounted (hconfig ▸ hrounds) hopen
  -- a request that had been pending all the time would have been tried too often
  have hpending : ∀ key ∈ later.coordinator.pending.keys, key ∈ s.issuedIn rounds.flatten := by
    intro key hkey
    by_contra hold
    obtain ⟨r', hr'⟩ := Table.mem_keys_iff.1 hkey
    obtain ⟨r, hr, htried⟩ := hattempts key hold r' hr'
    obtain ⟨hfirst, _, _⟩ := hcounted key r hr
    obtain ⟨_, hmost, _⟩ := hlimit key r' hr'
    rw [config_run, hconfig] at hmost
    omega
  refine ⟨hpending, ?_, ?_⟩
  · intro key hkey hold
    exact count_settledKeys_run hkey hold fun hstill => hold (hpending key hstill)
  · intro hnone
    refine await_of_keys_eq_nil (List.eq_nil_iff_forall_not_mem.2 fun key hkey => ?_)
    have := hpending key hkey
    rw [hnone] at this
    cases this

/-- One request that is written at once and never answered. Its connection is lost and no other
comes up, and in the fifth round it is given up. -/
theorem settled_in_time_unanswered :
    let rounds : List (List Event) :=
      [[.resend 201, .look 1, .written 1 true], [.resend 402, .look 2, .written 2 true],
        [.closed ⟨1⟩, .resend 603, .look 3, .connected 3 none, .look 3], [.resend 804],
        [.resend 1005]]
    let s := (new ⟨9⟩ Config.testing.delivery).run
      [.send 0 ⟨1⟩ .sendPartition [7], .look 0, .connected 0 (some ⟨1⟩), .written 0 true]
    let later := s.run rounds.flatten
    s.standings (⟨1⟩, ⟨0⟩) = [.pending]
      ∧ later.standings (⟨1⟩, ⟨0⟩) = [.unreported (.retriesExhausted 5)]
      ∧ later.settledKeys.count (⟨1⟩, ⟨0⟩) = s.settledKeys.count (⟨1⟩, ⟨0⟩) + 1
      ∧ later.coordinator.await.1.isSome = true := by
  intro rounds s later
  have hrounds : Rounds Config.testing.delivery.requestTimeout 0 rounds 1005 :=
    .cons 201 ⟨by decide, 201, by simp, by decide⟩ <|
      .cons 402 ⟨by decide, 402, by simp, by decide⟩ <|
      .cons 603 ⟨by decide, 603, by simp, by decide⟩ <|
      .cons 804 ⟨by decide, 804, by simp, by decide⟩ <|
      .cons 1005 ⟨by decide, 1005, by simp, by decide⟩ <| .nil 1005
  obtain ⟨_, hsettled, hawait⟩ := settled_in_time ⟨9⟩ Config.testing.delivery
    [.send 0 ⟨1⟩ .sendPartition [7], .look 0, .connected 0 (some ⟨1⟩), .written 0 true]
    rounds 0 1005 (by decide) hrounds (by decide) (by decide +kernel)
  exact ⟨by decide +kernel, by decide +kernel, hsettled _ (by decide +kernel) (by decide +kernel),
    hawait (by decide +kernel)⟩

end Sender

end Superstep
