import Superstep.Network.Cluster
import Superstep.Proofs.Connections

/-!
# Superstep — no wake-up is lost

A request that was written rests with its connection until it is answered. When the connection is
no longer in use, nothing will be heard of it there, and the timer has to look after the request at
once and not after the next interval: the coordinator asks for a check. The timer takes the mark
away when it wakes up, and connections are lost in between, by a thread that cannot write or by the
network.

Who takes a connection out of use has the coordinator twice: once to do so, and once to ask for the
check. Others come in between, and the mark is not there yet.

* **`Adrift`** — a request is, when its latest copy was written to a connection that its
  destination no longer uses;
* **`Alarmed`** — somebody took this connection out of use and has yet to ask for a check;
* **`alarmed_step`** — an alarm stays until the mark is there;
* **`step_watched`** — an event that leaves a request adrift asks for a check, or raises the alarm
  for its connection, or the request was adrift before and nothing was taken back;
* **`no_lost_wakeup`** — so a check is asked for whenever a request is adrift and no operation is
  in the middle, and the check finds the request.
-/

namespace Superstep

open Coordinator

namespace Coordinator

/-! ## Requests adrift

A step is `Calm` when it leaves no request adrift that was not, and does not take the mark away.
Most methods are, and what is left are losses, checks and the timer. -/

/-- The latest copy of a pending request went to a connection that is not in use any more. -/
def Adrift (c : Coordinator) (key : RequestKey) (r : PendingRequest) : Prop :=
  c.pending.get? key = some r
    ∧ ∃ connection, r.route = .sent connection ∧ c.live key.1 ≠ some connection

/-- What is adrift in `c'` was adrift in `c`, and a check that was asked for is still asked for. -/
structure Calm (c c' : Coordinator) : Prop where
  adrift : ∀ {key r}, c'.Adrift key r → c.Adrift key r
  flag : c.resendRequested = true → c'.resendRequested = true

theorem Calm.refl (c : Coordinator) : Calm c c := ⟨id, id⟩

theorem Calm.trans {c c' c'' : Coordinator} (h : Calm c c') (h' : Calm c' c'') : Calm c c'' where
  adrift hr := h.adrift (h'.adrift hr)
  flag := h'.flag ∘ h.flag

/-- Requests may go, but those that stay keep their routes and their connections. -/
theorem Calm.of_sub {c c' : Coordinator}
    (hpending : ∀ {key r}, c'.pending.get? key = some r → c.pending.get? key = some r)
    (hlive : ∀ peer, c'.live peer = c.live peer)
    (hflag : c'.resendRequested = c.resendRequested) : Calm c c' where
  adrift {key r} h := by
    obtain ⟨hr, connection, hroute, hlost⟩ := h
    exact ⟨hpending hr, connection, hroute, hlive key.1 ▸ hlost⟩
  flag h := hflag.trans h

/-- A request is routed to nowhere, or to the connection that is in use. -/
theorem calm_setRoute {c : Coordinator} {key : RequestKey} {route : Route}
    (hroute : ∀ connection, route = .sent connection → c.live key.1 = some connection) :
    Calm c (c.setRoute key route) where
  adrift {key' r'} h := by
    obtain ⟨hr', connection, hsent, hlost⟩ := h
    rw [setRoute, Table.get?_modify] at hr'
    split at hr'
    · next hkey =>
      obtain ⟨r, _, rfl⟩ := Option.map_eq_some_iff.1 hr'
      rw [hkey] at hlost
      exact absurd (hroute connection hsent) hlost
    · exact ⟨hr', connection, hsent, hlost⟩
  flag := id

theorem calm_markUnsent (c : Coordinator) (s : Shipment) : Calm c (c.markUnsent s) := by
  unfold markUnsent
  induction s.frames generalizing c with
  | nil => exact .refl c
  | cons f frames ih => exact (calm_setRoute fun _ h => by cases h).trans (ih _)

theorem calm_write (c : Coordinator) (connection : ConnectionId) (s : Shipment)
    (later : List Shipment) : Calm c (c.write connection s later).1 := by
  unfold write
  dsimp only
  split
  · exact .of_sub id (fun _ => rfl) rfl
  · exact .refl c

theorem calm_advance (c : Coordinator) (connection : ConnectionId) (s : Shipment)
    (later : List Shipment) : Calm c (c.advance connection s later).1 := by
  unfold advance
  split
  · exact .refl c
  · exact calm_write c _ _ _

theorem calm_refused (c : Coordinator) (w : WorkerId) : Calm c (c.refused w) := by
  unfold refused
  dsimp only
  split
  · exact .of_sub id (fun _ => live_setPeer_of_eq c w _) rfl
  · exact .of_sub get?_of_get?_giveUp
      (fun _ => (live_giveUp _ _ _).trans (live_setPeer_of_eq c w _)) rfl

/-- A new connection takes the place of none. -/
theorem calm_connected {c : Coordinator} {w : WorkerId} (hnone : c.live w = none)
    (connection : ConnectionId) : Calm c (c.connected w connection) where
  adrift {key r} h := by
    obtain ⟨hr, used, hroute, hlost⟩ := h
    refine ⟨hr, used, hroute, ?_⟩
    rw [live_connected] at hlost
    split at hlost
    · next hkey =>
      rw [hkey, hnone]
      exact nofun
    · exact hlost
  flag := id

/-- The answer to a connect leaves nothing adrift, as a destination that has a connection keeps
it. -/
theorem calm_afterConnect (c : Coordinator) (s : Shipment) (later : List Shipment)
    (answer : Option ConnectionId) : Calm c (c.afterConnect s later answer).coordinator := by
  cases answer with
  | none => exact calm_refused c s.peer
  | some connection =>
    cases hlive : c.live s.peer with
    | some existing =>
      simp only [afterConnect, hlive]
      exact calm_write c _ _ _
    | none =>
      simp only [afterConnect, hlive]
      exact (calm_connected hlive connection).trans (calm_write _ _ _ _)

theorem calm_onResponse (c : Coordinator) (bytes : Bytes) : Calm c (c.onResponse bytes) := by
  rcases onResponse_spec c bytes with ⟨h, _⟩ | ⟨_, _, _, h, _⟩ | ⟨_, _, _, _, h, _⟩
  · rw [h]
    exact .refl c
  · rw [h]
    exact .of_sub Table.get?_of_get?_erase (fun _ => rfl) rfl
  · rw [h]
    exact .of_sub Table.get?_of_get?_erase (fun _ => rfl) rfl

theorem calm_await (c : Coordinator) : Calm c c.await.2 := by
  rcases await_spec c with h | ⟨_, h⟩ | ⟨_, _, h, _⟩
  · rw [h]
    exact .refl c
  · rw [h]
    exact .refl c
  · rw [h]
    exact .of_sub id (fun _ => rfl) rfl

theorem calm_send {c c' : Coordinator} {now : Nat} {peer : WorkerId} {type : RequestType}
    {payload : Bytes} {id : RequestId} {task : Task}
    (h : c.send now peer type payload = .ok (id, c', task)) : Calm c c' := by
  have hlive : ∀ w, c'.live w = c.live w := fun _ => live_send h
  obtain ⟨bytes, _, _, _, rfl⟩ := send_inv h
  refine ⟨fun {key r} hr => ?_, fun hflag => hflag⟩
  obtain ⟨hget, connection, hroute, hlost⟩ := hr
  rw [count, Table.get?_insert] at hget
  split at hget
  · cases hget
    cases hroute
  · exact ⟨hget, connection, hroute, hlive key.1 ▸ hlost⟩

/-- **A frame that was written** rests with the connection that is in use, or a check is asked
for. -/
theorem afterWrite_accepted (c : Coordinator) (connection : ConnectionId) (s : Shipment)
    (later : List Shipment) :
    (c.afterWrite connection s later true).coordinator.resendRequested = true
      ∨ Calm c (c.afterWrite connection s later true).coordinator := by
  simp only [afterWrite, if_true]
  split
  · next hlive =>
    have hroute : Calm c (c.setRoute (s.peer, s.first.1) (.sent connection)) :=
      calm_setRoute fun _ hsent => Route.sent.inj hsent ▸ hlive
    exact .inr (hroute.trans (calm_advance _ _ _ _))
  · exact .inl ((calm_advance _ connection s later).flag rfl)

theorem pending_forget (c : Coordinator) (connection : ConnectionId) :
    (c.forget connection).pending = c.pending := by
  unfold forget
  split <;> rfl

theorem resendRequested_forget (c : Coordinator) (connection : ConnectionId) :
    (c.forget connection).resendRequested = c.resendRequested := by
  unfold forget
  split <;> rfl

/-- **When a connection is taken out of use**, only requests that were written to it come to be
adrift. -/
theorem adrift_forget {c : Coordinator} {connection : ConnectionId} {key : RequestKey}
    {r : PendingRequest} (h : (c.forget connection).Adrift key r) :
    c.Adrift key r ∨ r.route = .sent connection := by
  obtain ⟨hr, used, hroute, hlost⟩ := h
  rw [pending_forget] at hr
  by_cases hused : used = connection
  · exact .inr (hused ▸ hroute)
  refine .inl ⟨hr, used, hroute, fun hlive => ?_⟩
  rcases forget_cases c connection with ⟨hsame, _⟩ | ⟨w, hheld, hlinks⟩
  · rw [hsame] at hlost
    exact hlost hlive
  · rw [hlinks.live, Function.update_apply] at hlost
    split at hlost
    · next hkey =>
      rw [hkey, hheld] at hlive
      exact hused (Option.some.inj hlive).symm
    · exact hlost hlive

/-- A request adrift is overdue at any time. -/
theorem Adrift.isOverdue {c : Coordinator} {key : RequestKey} {r : PendingRequest}
    (h : c.Adrift key r) (now : Nat) : c.isOverdue now key r = true := by
  obtain ⟨_, connection, hroute, hlost⟩ := h
  simp [Coordinator.isOverdue, hroute, hlost]

/-- **A check leaves nothing adrift.** -/
theorem not_adrift_resend {c : Coordinator} (hopen : c.stopped = false) (now : Nat)
    (key : RequestKey) (r' : PendingRequest) : ¬ (c.resend now).1.Adrift key r' := by
  rintro ⟨hr', connection, hroute, hlost⟩
  rw [live_resend] at hlost
  have hchecked : (c.resend now).1 = (c.checkOverdue now).1 := by simp [resend, hopen]
  rw [hchecked, get?_checkOverdue] at hr'
  obtain ⟨r, hr, hnext⟩ := Option.bind_eq_some_iff.1 hr'
  cases hoverdue : c.isOverdue now key r with
  | true =>
    cases hexhausted : c.isExhausted r with
    | true => simp [hoverdue, hexhausted] at hnext
    | false =>
      obtain rfl := Option.some.inj (by simpa [hoverdue, hexhausted] using hnext)
      cases hroute
  | false =>
    obtain rfl : r = r' := by simpa [hoverdue] using hnext
    have hadrift : c.Adrift key r := ⟨hr, connection, hroute, hlost⟩
    rw [hadrift.isOverdue now] at hoverdue
    cases hoverdue

/-- **A check tries a request again** that is adrift, or gives it up. -/
theorem resend_adrift {c : Coordinator} (hopen : c.stopped = false) (now : Nat) {key : RequestKey}
    {r : PendingRequest} (h : c.Adrift key r) :
    let (c', task) := c.resend now
    if c.config.maxRequestAttempts ≤ r.attempts then
      c'.pending.get? key = none
        ∧ ⟨key.1, key.2, .retriesExhausted r.attempts⟩ ∈ c'.failures
    else
      c'.pending.get? key
          = some { r with attempts := r.attempts + 1, dispatchedAt := now, route := .dispatching }
        ∧ task.Bears key.1 (key.2, r.frame) := by
  have hchecked : (c.resend now).1 = (c.checkOverdue now).1 := by simp [resend, hopen]
  have hget := c.get?_checkOverdue now key
  rw [h.1, Option.bind_some, if_pos (h.isOverdue now)] at hget
  dsimp only
  rw [hchecked]
  split
  · next hexhausted =>
    have hexhausted : c.isExhausted r = true := by simpa [isExhausted] using hexhausted
    refine ⟨by rw [hget, if_pos hexhausted], List.mem_append_right _ ?_⟩
    refine List.mem_filterMap.2 ⟨(key, r), Table.mem_toList_iff.2 h.1, ?_⟩
    simp [h.isOverdue now, hexhausted]
  · next hleft =>
    have hleft : c.isExhausted r = false := by simpa [isExhausted] using hleft
    refine ⟨by rw [hget, hleft]; rfl, ?_⟩
    -- the check loads the frame of every request that it tries again
    rw [Task.bears_iff, (entries_resend hopen now).mem_iff, List.mem_map]
    refine ⟨(key, r), Table.mem_toList_iff.2 ?_, rfl⟩
    rw [get?_retried, h.1]
    simp [h.isOverdue now, hleft]

end Coordinator

/-! ## Threads that are about to ask for a check

An alarm is held by a thread: by one that could not write in its task, and by one that heard of a
loss in `alarms`. Nobody else can take it away, and who has it leaves the mark when going on. -/

/-- The thread could not write a frame to this connection, and is about to say so. -/
def Task.FailsOn (connection : ConnectionId) : Task → Prop
  | failing used _ _ => used = connection
  | _ => False

/-- A thread that has no failed write to tell of looks at the coordinator calmly. -/
theorem Coordinator.calm_look (c : Coordinator) {t : Task}
    (h : ∀ connection, ¬ t.FailsOn connection) : Calm c (c.look t).1 := by
  cases t with
  | seeking s later =>
    simp only [look]
    split
    · exact .refl c
    · split
      · exact calm_write c _ _ _
      · exact .refl c
  | stranded s later => exact calm_markUnsent c s
  | failing connection s later => exact absurd rfl (h connection)
  | idle | connecting | writing => exact .refl c

namespace Sender

/-- Somebody took this connection out of use and has yet to ask for a check: a thread that could
not write to it, or one that heard that it was closed. -/
def Alarmed (s : Sender) (connection : ConnectionId) : Prop :=
  (∃ t ∈ s.tasks, t.FailsOn connection) ∨ connection ∈ s.alarms

theorem Alarmed.mono {s s' : Sender} {connection : ConnectionId} (h : s.Alarmed connection)
    (htasks : s.tasks ⊆ s'.tasks) (halarms : s.alarms ⊆ s'.alarms) : s'.Alarmed connection :=
  h.imp (fun ⟨t, ht, hfails⟩ => ⟨t, htasks ht, hfails⟩) fun hmem => halarms hmem

/-- Other threads go on. -/
theorem Alarmed.set {s s' : Sender} {connection : ConnectionId} {thread : Nat} {task task' : Task}
    (h : s.Alarmed connection) (htask : s.tasks[thread]? = some task)
    (hnot : ¬ task.FailsOn connection) (htasks : s'.tasks = s.tasks.set thread task')
    (halarms : s'.alarms = s.alarms) : s'.Alarmed connection := by
  refine h.imp (fun ⟨t, ht, hfails⟩ => ?_) fun hmem => halarms ▸ hmem
  obtain ⟨i, hi⟩ := List.mem_iff_getElem?.1 ht
  have hne : thread ≠ i := by
    rintro rfl
    exact hnot (Option.some.inj (htask.symm.trans hi) ▸ hfails)
  refine ⟨t, List.mem_iff_getElem?.2 ⟨i, ?_⟩, hfails⟩
  rw [htasks, List.getElem?_set_ne hne, hi]

/-- **A thread that could not write** asks for a check at its next look. -/
theorem flag_look {s : Sender} {thread : Nat} {t : Task} {connection : ConnectionId}
    (ht : s.tasks[thread]? = some t) (hfails : t.FailsOn connection) :
    (s.step (.look thread)).coordinator.resendRequested = true := by
  cases t with
  | failing used shipment later =>
    simp only [step, ht]
    exact (calm_advance _ used shipment later).flag rfl
  | idle | seeking | connecting | stranded | writing => cases hfails

/-- **A thread that heard of a lost connection** asks for a check when it goes on. -/
theorem flag_alarm {s : Sender} {connection : ConnectionId} (h : connection ∈ s.alarms) :
    (s.step (.alarm connection)).coordinator.resendRequested = true := by
  simp only [step, if_pos h]
  rfl

/-- **An alarm stays until a check is asked for.** -/
theorem alarmed_step {s : Sender} {connection : ConnectionId} (h : s.Alarmed connection)
    (e : Event) :
    (s.step e).Alarmed connection ∨ (s.step e).coordinator.resendRequested = true := by
  cases e with
  | send now peer type payload =>
    simp only [step]
    split
    · exact .inl h
    · exact .inl (h.mono (List.subset_append_left _ _) fun _ => id)
  | resend now => exact .inl (h.mono (List.subset_append_left _ _) fun _ => id)
  | look thread =>
    cases htask : s.tasks[thread]? with
    | none =>
      simp only [step, htask]
      exact .inl h
    | some task =>
      -- a thread that fails on the connection asks for the check itself; any other one leaves the
      -- alarm
      by_cases hfails : task.FailsOn connection
      · exact .inr (flag_look htask hfails)
      · simp only [step, htask]
        exact .inl (h.set htask hfails rfl rfl)
  | connected thread answer =>
    simp only [step]
    split
    · next htask => exact .inl (h.set htask id rfl rfl)
    · exact .inl h
  | written thread accepted =>
    simp only [step]
    split
    · next htask => exact .inl (h.set htask id rfl rfl)
    · exact .inl h
  | closed used =>
    refine .inl (h.mono (fun _ => id) ?_)
    simp only [step]
    split
    · exact List.subset_append_left _ _
    · exact fun _ => id
  | alarm used =>
    by_cases hused : used ∈ s.alarms
    · exact .inr (flag_alarm hused)
    · simp only [step, if_neg hused]
      exact .inl h
  | await =>
    simp only [step]
    split <;> exact .inl h
  | wake | response | shutdown => exact .inl h

/-- What an event can do to the requests adrift. -/
inductive Watched (s : Sender) (e : Event) (s' : Sender) : Prop
  | woke (hevent : e = .wake)
  | checked (hnone : ∀ key r, ¬ s'.coordinator.Adrift key r)
  | flagged (hflag : s'.coordinator.resendRequested = true)
  | alarmed (connection : ConnectionId) (hevent : ∀ now, e ≠ .resend now)
      (hstep : s'.coordinator = s.coordinator.forget connection)
      (halarmed : s'.Alarmed connection)
  | calm (hevent : ∀ now, e ≠ .resend now) (hstep : Calm s.coordinator s'.coordinator)

/-- **Everything an event can do to requests adrift.** The last two cases are left to the run. -/
theorem step_watched {s : Sender} {e : Event}
    (hopen : (s.step e).coordinator.stopped = false) : Watched s e (s.step e) := by
  cases e with
  | send now peer type payload =>
    cases hsend : s.coordinator.send now peer type payload with
    | error e =>
      simp only [step, hsend]
      exact .calm (by simp) (.refl _)
    | ok sent =>
      obtain ⟨id, c, task⟩ := sent
      simp only [step, hsend]
      exact .calm (by simp) (calm_send hsend)
  | resend now => exact .checked (not_adrift_resend (open_of_step hopen) now)
  | wake => exact .woke rfl
  | look thread =>
    cases htask : s.tasks[thread]? with
    | none =>
      simp only [step, htask]
      exact .calm (by simp) (.refl _)
    | some task =>
      by_cases hfails : ∃ connection, task.FailsOn connection
      -- a thread that could not write says so now
      · obtain ⟨connection, hfails⟩ := hfails
        exact .flagged (flag_look htask hfails)
      · simp only [step, htask]
        exact .calm (by simp) (calm_look _ (not_exists.1 hfails))
  | connected thread answer =>
    simp only [step]
    split
    · exact .calm (by simp) (calm_afterConnect _ _ _ _)
    · exact .calm (by simp) (.refl _)
  | written thread accepted =>
    simp only [step]
    split
    · next connection shipment later htask =>
      cases accepted with
      | true =>
        rcases afterWrite_accepted s.coordinator connection shipment later with hflag | hcalm
        · exact .flagged hflag
        · exact .calm (by simp) hcalm
      | false =>
        have hlength := (List.getElem?_eq_some_iff.1 htask).1
        exact .alarmed connection (by simp) rfl (.inl ⟨_, List.mem_set hlength _, rfl⟩)
    · exact .calm (by simp) (.refl _)
  | response bytes => exact .calm (by simp) (calm_onResponse _ bytes)
  | closed connection =>
    cases hheld : s.coordinator.holder? connection with
    | some w => exact .alarmed connection (by simp) rfl (.inr (by simp [step, hheld]))
    -- the connection was replaced before, and nothing happens
    | none =>
      refine .calm (by simp) ?_
      simp only [step, forget, hheld]
      exact .refl _
  | alarm connection =>
    by_cases hmem : connection ∈ s.alarms
    · exact .flagged (flag_alarm hmem)
    · simp only [step, if_neg hmem]
      exact .calm (by simp) (.refl _)
  | await =>
    have hawait := calm_await s.coordinator
    simp only [step]
    split
    · exact .calm (by simp) (.refl _)
    · next hresult =>
      rw [hresult] at hawait
      exact .calm (by simp) hawait
  | shutdown =>
    cases hopen.symm.trans (shutdown_spec s.coordinator).2

/-- **A lost connection is heard of in two parts**, which make up what a coordinator does when
nobody comes in between. -/
theorem onClosed_eq {s : Sender} {connection : ConnectionId} (h : connection ∉ s.alarms) :
    ((s.step (.closed connection)).step (.alarm connection)).coordinator
      = s.coordinator.onClosed connection := by
  unfold onClosed
  cases hheld : s.coordinator.holder? connection with
  | none => simp [step, forget, hheld, h]
  | some w => simp [step, hheld]

/-! ## The timer

The timer takes the mark away and begins its check later, so there is a time in which neither shows
that a check is on its way. It ends with the check, whichever thread's it is. -/

/-- The timer has woken up, and no check has begun since. -/
def Waking (events : List Event) : Prop :=
  ∃ before after, events = before ++ .wake :: after ∧ ∀ now, .resend now ∉ after

/-- The timer is still awake as long as no check begins. -/
theorem Waking.append {events more : List Event} (h : Waking events)
    (hmore : ∀ now, .resend now ∉ more) : Waking (events ++ more) := by
  obtain ⟨before, after, rfl, hnone⟩ := h
  exact ⟨before, after ++ more, by simp, fun now hmem =>
    (List.mem_append.1 hmem).elim (hnone now) (hmore now)⟩

/-- **A check is asked for** when a request is adrift, or the timer has woken up for one, or the
alarm is raised for the connection that the request was written to. -/
theorem watched_run {worker : WorkerId} {config : DeliveryConfig} {events : List Event}
    (hopen : ((new worker config).run events).coordinator.stopped = false) {key : RequestKey}
    {r : PendingRequest} (h : ((new worker config).run events).coordinator.Adrift key r)
    {connection : ConnectionId} (hroute : r.route = .sent connection) :
    let s := (new worker config).run events
    s.coordinator.resendRequested = true ∨ Waking events ∨ s.Alarmed connection := by
  induction events using List.reverseRecOn with
  | nil =>
    obtain ⟨hr, _⟩ := h
    cases hr
  | append_singleton events e ih =>
    rw [run_concat] at hopen h ⊢
    -- what was adrift before this event was seen to before it, and stays so
    have hbefore : ((new worker config).run events).coordinator.Adrift key r →
        (∀ now, e ≠ .resend now) →
        (((new worker config).run events).coordinator.resendRequested = true →
          (((new worker config).run events).step e).coordinator.resendRequested = true) →
        (((new worker config).run events).step e).coordinator.resendRequested = true
          ∨ Waking (events ++ [e])
          ∨ (((new worker config).run events).step e).Alarmed connection := by
      intro hadrift hevent hflag
      rcases ih (open_of_step hopen) hadrift with hasked | hwaking | halarmed
      · exact .inl (hflag hasked)
      · exact .inr (.inl (hwaking.append fun now hmem =>
          hevent now (List.mem_singleton.1 hmem).symm))
      · exact (alarmed_step halarmed e).elim (fun h => .inr (.inr h)) .inl
    cases step_watched hopen with
    | woke hevent => exact .inr (.inl ⟨events, [], by rw [hevent], nofun⟩)
    | checked hnone => exact absurd h (hnone key r)
    | flagged hflag => exact .inl hflag
    | calm hevent hstep => exact hbefore (hstep.adrift h) hevent hstep.flag
    | alarmed used hevent hstep halarmed =>
      rw [hstep] at h
      rcases adrift_forget h with hadrift | hused
      · refine hbefore hadrift hevent fun hasked => ?_
        rw [hstep, resendRequested_forget]
        exact hasked
      · obtain rfl : connection = used := Route.sent.inj (hroute.symm.trans hused)
        exact .inr (.inr halarmed)

variable {I V E M : Type} [VertexId I] [Value V] [Value E] [Value M]

/-- **No wake-up is lost.** Take any run before the shutdown, whatever the transport, the
destinations and other threads did, and a request whose latest copy was written to a connection
that its destination does not use any more. Then a check is asked for, if no operation is in the
middle: no thread that could not write has yet to say so, none that heard of a lost connection has
yet to ask for a check, and the timer has begun the check that it woke up for.

When an operation is in the middle, a check is asked for all the same unless it is on its way: the
timer took the mark away and has not begun the check that it woke up for, or the connection of this
very request was taken out of use by somebody who has yet to ask for a check. Whoever that is does
so next: the thread that could not write at its next look, the one that heard of the loss as soon
as it goes on; until then the alarm stays. A loss that is heard of without anybody in between is
both steps at once. And no check leaves anything adrift.

As long as the mark is there, the timer of the coordinator does not wait before its next check. And
whenever the timer checks next, the request is found: it is given up if it has no attempt left, and
otherwise is counted another one and is in the task that dispatches it. -/
theorem no_lost_wakeup (worker : WorkerId) (config : DeliveryConfig) (events : List Event)
    (hopen : ((new worker config).run events).coordinator.stopped = false) {key : RequestKey}
    {r : PendingRequest} (hadrift : ((new worker config).run events).coordinator.Adrift key r) :
    let s := (new worker config).run events
    ((∀ t ∈ s.tasks, ∀ connection, ¬ t.FailsOn connection) → s.alarms = [] → ¬ Waking events →
        s.coordinator.resendRequested = true)
      ∧ (∀ connection, r.route = .sent connection → s.coordinator.resendRequested = true
          ∨ Waking events ∨ (∃ t ∈ s.tasks, t.FailsOn connection) ∨ connection ∈ s.alarms)
      ∧ (∀ connection,
          (∀ thread t, s.tasks[thread]? = some t → t.FailsOn connection →
              (s.step (.look thread)).coordinator.resendRequested = true)
            ∧ (connection ∈ s.alarms →
              (s.step (.alarm connection)).coordinator.resendRequested = true)
            ∧ (s.Alarmed connection → ∀ e, (s.step e).Alarmed connection
              ∨ (s.step e).coordinator.resendRequested = true)
            ∧ (connection ∉ s.alarms →
              ((s.step (.closed connection)).step (.alarm connection)).coordinator
                = s.coordinator.onClosed connection))
      ∧ (∀ now key r, ¬ (s.step (.resend now)).coordinator.Adrift key r)
      ∧ (s.coordinator.resendRequested = true → ∀ (c : Cluster I V E M) (turns : Nat),
          c.coordinator .timed = s.coordinator →
            c.turn (turns + 1) = ((Cluster.transport .timed).tick c).turn turns)
      ∧ ∀ now,
          let checked := (s.step .wake).step (.resend now)
          if config.maxRequestAttempts ≤ r.attempts then
            checked.coordinator.pending.get? key = none
              ∧ ⟨key.1, key.2, .retriesExhausted r.attempts⟩ ∈ checked.coordinator.failures
          else
            checked.coordinator.pending.get? key
                = some { r with
                    attempts := r.attempts + 1, dispatchedAt := now, route := .dispatching }
              ∧ ∃ task, checked.tasks = s.tasks ++ [task] ∧ task.Bears key.1 (key.2, r.frame) := by
  intro s
  refine ⟨fun htasks halarms hwaking => ?_, fun connection => watched_run hopen hadrift,
    fun connection => ⟨fun thread t => flag_look, flag_alarm, alarmed_step, onClosed_eq⟩,
    fun now => not_adrift_resend hopen now, fun hflag c turns hc => ?_, fun now => ?_⟩
  · obtain ⟨connection, hroute, -⟩ := hadrift.2
    -- each of the windows is closed by assumption, so that the mark is all that is left
    rcases watched_run hopen hadrift hroute with hflag | hwoke | ⟨t, ht, hfails⟩ | hmem
    · exact hflag
    · exact absurd hwoke hwaking
    · exact absurd hfails (htasks t ht connection)
    · rw [halarms] at hmem
      cases hmem
  · -- the request is pending, so that the timer has something to check
    have hsize : s.coordinator.pending.size ≠ 0 := by
      rw [Ne, Table.size_eq_zero_iff]
      intro hnone
      have hmem : key ∈ s.coordinator.pending.keys := Table.mem_keys_iff.2 ⟨r, hadrift.1⟩
      rw [hnone] at hmem
      cases hmem
    simp only [Cluster.turn, hc, hflag, if_neg hsize, if_true]
    rfl
  · have hchecked := resend_adrift (c := (s.step .wake).coordinator) hopen now hadrift
    have hconfig : (s.step .wake).coordinator.config = config :=
      config_run (new worker config) events
    dsimp only at hchecked ⊢
    rw [hconfig] at hchecked
    split
    · next hexhausted =>
      rw [if_pos hexhausted] at hchecked
      exact hchecked
    · next hleft =>
      rw [if_neg hleft] at hchecked
      exact ⟨hchecked.1, _, rfl, hchecked.2⟩

/-- A request is written, and the connection is closed and replaced for another request before the
thread that heard of it asks for a check. The mark is missing until then, and from then on it is
there; the next check finds the request. -/
theorem no_lost_wakeup_replaced :
    let events : List Event :=
      [.send 0 ⟨1⟩ .sendPartition [7], .look 0, .connected 0 (some ⟨1⟩), .written 0 true,
        .closed ⟨1⟩, .send 10 ⟨1⟩ .sendPartition [8], .look 1, .connected 1 (some ⟨2⟩),
        .written 1 true]
    let s := (new ⟨9⟩ Config.testing.delivery).run events
    ∃ r, s.coordinator.stopped = false ∧ s.coordinator.Adrift (⟨1⟩, ⟨0⟩) r
      ∧ s.coordinator.resendRequested = false ∧ s.alarms = [⟨1⟩]
      ∧ (s.step (.alarm ⟨1⟩)).coordinator.resendRequested = true
      ∧ ∃ task, ((s.step .wake).step (.resend 20)).tasks = s.tasks ++ [task]
        ∧ task.Bears ⟨1⟩ (⟨0⟩, r.frame) := by
  intro events s
  have hopen : s.coordinator.stopped = false := by decide +kernel
  obtain ⟨r, hr, hroute, hattempts⟩ : ∃ r, s.coordinator.pending.get? (⟨1⟩, ⟨0⟩) = some r
      ∧ r.route = .sent ⟨1⟩ ∧ r.attempts = 1 := by
    have hsome : (s.coordinator.pending.get? (⟨1⟩, ⟨0⟩)).map
        (fun r => (r.route, r.attempts)) = some (.sent ⟨1⟩, 1) := by decide +kernel
    obtain ⟨r, hr, hpair⟩ := Option.map_eq_some_iff.1 hsome
    exact ⟨r, hr, congrArg Prod.fst hpair, congrArg Prod.snd hpair⟩
  have hadrift : s.coordinator.Adrift (⟨1⟩, ⟨0⟩) r := ⟨hr, ⟨1⟩, hroute, by decide +kernel⟩
  have halarms : s.alarms = [⟨1⟩] := by decide +kernel
  obtain ⟨-, -, hclosing, -, -, hchecked⟩ := no_lost_wakeup (I := UInt64) (V := UInt64)
    (E := UInt64) (M := UInt64) ⟨9⟩ Config.testing.delivery events hopen hadrift
  refine ⟨r, hopen, hadrift, by decide +kernel, halarms,
    (hclosing ⟨1⟩).2.1 (halarms ▸ List.mem_singleton_self _), ?_⟩
  have hleft : ¬ Config.testing.delivery.maxRequestAttempts ≤ r.attempts := by
    rw [hattempts]
    decide
  have hnow := hchecked 20
  dsimp only at hnow
  rw [if_neg hleft] at hnow
  exact hnow.2

end Sender

end Superstep
