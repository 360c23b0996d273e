import Superstep.Proofs.Settings
import Superstep.Proofs.Verdicts

/-!
# Superstep — what a request is charged for

Each request has so many attempts. One is taken when it is sent, and one by each check that tries it
again, before it is known whether there is a connection for it. So an attempt need not come to a
copy in the hands of the transport.

* **`Charged`** — the account of a request: its attempts are the copies that the transport was
  handed, those that some thread holds, and those that were `missed`, because no connection could be
  opened for them;
* **`charged_run`** — the accounts are balanced after any events;
* **`retries_accounted`** — what became of all attempts when a request is given up for want of
  more.
-/

namespace Superstep

open Coordinator

namespace Task

/-- The requests of which a task holds a copy that it has not handed to the transport. -/
def held : Task → List RequestKey
  | writing _ s later => s.rest.map (fun f => (s.peer, f.1)) ++ later.flatMap Shipment.keys
  | t => t.owed

/-- What a task owes is the copy that it waits for, and what it holds. -/
theorem owed_eq (t : Task) : t.owed = t.copy?.toList.map Copy.key ++ t.held := by
  cases t <;> rfl

end Task

namespace Sender

/-- The requests of which a thread holds a copy that it has not handed to the transport, each as
often as there are such copies. -/
def held (s : Sender) : List RequestKey := s.tasks.flatMap Task.held

/-- The requests that were left without a copy in the course of some events, each as often. -/
def missed (s : Sender) : List Event → List RequestKey
  | [] => []
  | e :: events => s.missedBy e ++ (s.step e).missed events

/-- What is missed in two runs one after the other is missed in both together. -/
theorem missed_append (s : Sender) (events more : List Event) :
    s.missed (events ++ more) = s.missed events ++ (s.run events).missed more := by
  induction events generalizing s with
  | nil => rfl
  | cons e events ih =>
    rw [List.cons_append, missed, missed, ih, List.append_assoc]
    rfl

/-- A copy that is written or owed was handed over or is held. -/
theorem count_spent (s : Sender) (key : RequestKey) :
    s.spent.count key = (s.handed.map Copy.key).count key + s.held.count key := by
  have htasks : (s.tasks.flatMap Task.owed).count key
      = ((s.tasks.filterMap Task.copy?).map Copy.key).count key
        + (s.tasks.flatMap Task.held).count key := by
    -- over the threads, each of which has at most one copy in the hands of the transport
    induction s.tasks with
    | nil => rfl
    | cons t tasks ih =>
      rw [List.flatMap_cons, List.flatMap_cons, List.count_append, List.count_append, ih,
        t.owed_eq, List.count_append]
      cases hcopy : t.copy? with
      | none =>
        rw [List.filterMap_cons_none hcopy]
        simp only [Option.toList_none, List.map_nil, List.count_nil]
        omega
      | some copy =>
        rw [List.filterMap_cons_some hcopy]
        simp only [Option.toList_some, List.map_cons, List.map_nil, List.count_cons,
          List.count_nil]
        omega
  rw [spent, handed, held, List.map_append, List.count_append, List.count_append, htasks]
  omega

/-! ## Accounts

An attempt is counted when a copy comes to be owed, and from then on the copy is owed, written or
missed. So the account is balanced by sends and checks, and every other event only moves copies. -/

/-- Every attempt of a pending request came to a copy, or was missed, and nothing was missed of a
request that was not sent. -/
structure Charged (s : Sender) (missed : List RequestKey) : Prop where
  pending : ∀ {key r}, s.coordinator.pending.get? key = some r →
    s.spent.count key + missed.count key = r.attempts
  unissued : ∀ {key}, key ∉ s.issuedKeys → missed.count key = 0

theorem charged_new (worker : WorkerId) (config : DeliveryConfig) :
    Charged (new worker config) [] where
  pending h := by cases h
  unissued _ := rfl

theorem not_mem_issuedKeys_of_step {s : Sender} {e : Event} {key : RequestKey}
    (h : key ∉ (s.step e).issuedKeys) : key ∉ s.issuedKeys :=
  fun hmem => h (((issued_mono (journal_step s e)).map _).subset hmem)

/-- A request that is sent is charged for its first copy. -/
theorem charged_send {s : Sender} {missed : List RequestKey} (h : Charged s missed)
    (hrationed : Rationed s) (hbooks : Books s) (hfew : s.Unwrapped) (now : Nat) (peer : WorkerId)
    (type : RequestType) (payload : Bytes) :
    Charged (s.step (.send now peer type payload)) missed := by
  refine ⟨fun {key r} hr => ?_, fun hkey => h.unissued (not_mem_issuedKeys_of_step hkey)⟩
  cases hsend : s.coordinator.send now peer type payload with
  | error e =>
    simp only [step, hsend] at hr ⊢
    exact h.pending hr
  | ok sent =>
    obtain ⟨id, c, task⟩ := sent
    obtain ⟨bytes, htakes, rfl⟩ := send_spec hsend
    have hwritten := written_step s (.send now peer type payload)
    have hid : id = s.coordinator.nextId peer := htakes.id
    have hfresh : (peer, id) ∉ s.issuedKeys := hid ▸ hbooks.nextId_fresh hfew peer
    simp only [step, hsend] at hr hwritten ⊢
    have hspent := count_spent_append (hwritten.trans (List.append_nil _)) rfl key
    have howed : (Task.seeking ⟨peer, (id, bytes), [], false⟩ []).owed = [(peer, id)] := rfl
    rw [howed] at hspent
    rw [htakes.pending, Table.get?_insert] at hr
    split at hr
    -- the request itself: its id is new, so that nothing was counted for it before
    · next heq =>
      cases hr
      replace heq : key = (peer, id) := heq
      rw [heq, List.count_singleton_self, hrationed.unissued hfresh] at hspent
      rw [heq, hspent, h.unissued hfresh]
    · next hne =>
      have hzero : [(peer, id)].count key = 0 :=
        List.count_eq_zero_of_not_mem fun hmem => hne (List.mem_singleton.1 hmem)
      rw [hspent, hzero]
      exact h.pending hr

/-- A check charges a request for the copy that it loads. -/
theorem charged_resend {s : Sender} {missed : List RequestKey} (h : Charged s missed) (now : Nat) :
    Charged (s.step (.resend now)) missed := by
  refine ⟨fun {key r'} hr' => ?_, fun hkey => h.unissued (not_mem_issuedKeys_of_step hkey)⟩
  have hspent : ∀ key, (s.step (.resend now)).spent.count key
      = s.spent.count key + (s.coordinator.resend now).2.owed.count key :=
    count_spent_append rfl rfl
  cases hopen : s.coordinator.stopped with
  | true =>
    have hidle : s.coordinator.resend now = (s.coordinator, .idle) := by simp [resend, hopen]
    rw [step, hidle] at hr'
    rw [hspent, hidle]
    exact h.pending hr'
  | false =>
    have hchecked : (s.step (.resend now)).coordinator = (s.coordinator.checkOverdue now).1 := by
      simp [step, resend, hopen]
    rw [hspent, count_owed_resend hopen]
    rw [hchecked, get?_checkOverdue] at hr'
    obtain ⟨r, hr, hnext⟩ := Option.bind_eq_some_iff.1 hr'
    have hbefore := h.pending hr
    -- the copy that is loaded is the attempt that is counted
    rw [hr, Option.any_some]
    cases hoverdue : s.coordinator.isOverdue now key r with
    | false =>
      obtain rfl : r = r' := by simpa [hoverdue] using hnext
      exact hbefore
    | true =>
      cases hexhausted : s.coordinator.isExhausted r with
      | true => simp [hoverdue, hexhausted] at hnext
      | false =>
        obtain rfl := Option.some.inj (by simpa [hoverdue, hexhausted] using hnext)
        simp only [Bool.not_false, Bool.and_self, if_true]
        omega

/-- Nothing else charges a request: a copy that is owed no longer was handed over or missed. -/
theorem charged_other {s : Sender} {missed : List RequestKey} (h : Charged s missed)
    (hrationed : Rationed s) {e : Event} (hsend : ∀ now peer type payload,
      e ≠ .send now peer type payload) (hresend : ∀ now, e ≠ .resend now) :
    Charged (s.step e) (missed ++ s.missedBy e) := by
  have hmoved := count_spent_step (s := s) hsend hresend
  refine ⟨fun {key r'} hr' => ?_, fun {key} hkey => ?_⟩
  · obtain ⟨r, hr, hattempts, _⟩ := kept_step hsend hresend hr'
    rw [hattempts, ← h.pending hr, List.count_append, ← hmoved key]
    omega
  · have hold := not_mem_issuedKeys_of_step hkey
    have hnone := hmoved key
    rw [hrationed.unissued hold] at hnone
    rw [List.count_append, h.unissued hold]
    omega

/-- **Accounts stay balanced.** -/
theorem charged_step {s : Sender} {missed : List RequestKey} (h : Charged s missed)
    (hrationed : Rationed s) (hbooks : Books s) (hfew : s.Unwrapped) (e : Event) :
    Charged (s.step e) (missed ++ s.missedBy e) := by
  cases e with
  | send now peer type payload =>
    have hnone : s.missedBy (.send now peer type payload) = [] := rfl
    rw [hnone, List.append_nil]
    exact charged_send h hrationed hbooks hfew now peer type payload
  | resend now =>
    have hnone : s.missedBy (.resend now) = [] := rfl
    rw [hnone, List.append_nil]
    exact charged_resend h now
  | wake | look | connected | written | response | closed | alarm | await | shutdown =>
    exact charged_other h hrationed (by simp) (by simp)

/-- Accounts are balanced after any events. -/
theorem charged_run (worker : WorkerId) (config : DeliveryConfig) (events : List Event)
    (hfew : ((new worker config).run events).Unwrapped) :
    Charged ((new worker config).run events) ((new worker config).missed events) := by
  -- from the back, because what was missed is listed event by event
  induction events using List.reverseRecOn with
  | nil => exact charged_new worker config
  | append_singleton events e ih =>
    rw [run_append, missed_append, missed, missed, List.append_nil]
    have hgrow := journal_run ((new worker config).run events) [e]
    rw [← run_append] at hgrow
    have hs := hfew.mono hgrow
    exact charged_step (ih hs) (rationed_run (rationed_new worker config)
      (books_new worker config) events hs) (books_run (books_new worker config) events hs) hs e

/-! ## Copies that were missed

A thread leaves a shipment without writing it when its connect fails, or when the coordinator was
shut down meanwhile. As long as it is open, only the former happens. -/

/-- A copy is missed when a connect for it fails, as long as the sender is open. -/
theorem missedBy_of_open {s : Sender} (hopen : s.coordinator.stopped = false) {e : Event}
    {key : RequestKey} (h : key ∈ s.missedBy e) :
    .connected key.1 none ∈ (s.step e).journal := by
  cases e with
  | look thread =>
    rw [missedBy] at h
    cases htask : s.tasks[thread]? with
    | none => simp [htask] at h
    | some task =>
      -- only a shutdown makes a thread turn away from a shipment without a connect
      have hnone : s.coordinator.deserted task = [] := by
        cases task <;> simp [deserted, hopen]
      simp [htask, hnone] at h
  | connected thread answer =>
    rw [missedBy] at h
    split at h
    · next shipment later htask =>
      cases answer with
      | some connection => cases h
      | none =>
        obtain ⟨f, -, rfl⟩ := List.mem_map.1 h
        simp [step, htask, goOn]
    · cases h
  | send | resend | wake | written | response | closed | alarm | await | shutdown => cases h

/-- **Nothing is missed without a failed connect.** -/
theorem missed_of_open {s : Sender} {events : List Event}
    (hopen : (s.run events).coordinator.stopped = false) {key : RequestKey}
    (h : key ∈ s.missed events) : .connected key.1 none ∈ (s.run events).journal := by
  induction events generalizing s with
  | nil => cases h
  | cons e events ih =>
    rcases List.mem_append.1 h with h | h
    · have hnow : (s.step e).coordinator.stopped = false := open_of_run hopen
      exact (journal_run (s.step e) events).subset (missedBy_of_open (open_of_step hnow) h)
    · exact ih hopen h

/-! ## Giving up for want of attempts

Settings that were accepted allow an attempt or more, so that the first one is within the limit and
the limit is what a request has had when it is given up. -/

/-- Settings that are accepted allow an attempt at the least. -/
theorem attempts_of_validate {config : Config} (h : config.validate = .ok ()) :
    max 1 config.delivery.maxRequestAttempts = config.maxRequestAttempts.toNat := by
  have hpos := (config.validate_eq_ok_iff.1 h).2.2.1
  have hnat : config.maxRequestAttempts.toNat ≠ 0 :=
    fun hzero => hpos (UInt32.toNat_inj.1 hzero)
  simp only [Config.delivery]
  omega

/-- A request that was given up was not acknowledged. -/
theorem Books.not_acked {s : Sender} (h : Books s) (hfew : s.Unwrapped) {f : DeliveryFailure}
    (hf : f ∈ s.verdicts) : f.key ∉ s.acked := by
  have hplaces : s.accounted.Nodup := h.keys.nodup_iff.1 (h.nodup_issuedKeys hfew)
  rw [accounted, List.append_assoc, List.append_assoc] at hplaces
  have hapart := (List.nodup_append.1 (List.nodup_append.1 hplaces).2.1).2.2
  intro hacked
  refine hapart f.key hacked f.key ?_ rfl
  rw [← List.map_append]
  refine List.mem_map_of_mem (List.mem_append.2 ?_)
  exact (List.mem_append.1 hf).symm

/-- **Attempts are copies, or were missed.** Take any run with accepted settings in which no
destination is sent 2 ^ 64 requests. A request that is pending has had as many attempts as copies of
it were handed to the transport, are held by threads that did not come to hand them over, or were
missed because no connection could be opened. A request that is given up for want of attempts has
had all that the settings allow and was never acknowledged. It was found overdue by a check, and up
to then its attempts were made up so; none of them was missed unless a connect to its destination
had failed. -/
theorem retries_accounted (worker : WorkerId) {config : Config} (hvalid : config.validate = .ok ())
    (events : List Event) (hfew : ((new worker config.delivery).run events).Unwrapped) :
    let s := (new worker config.delivery).run events
    (∀ key r, s.coordinator.pending.get? key = some r →
        (s.handed.map Copy.key).count key + s.held.count key
          + ((new worker config.delivery).missed events).count key = r.attempts)
      ∧ ∀ f ∈ s.verdicts, ∀ attempts, f.reason = .retriesExhausted attempts →
          attempts = config.maxRequestAttempts.toNat ∧ f.key ∉ s.acked
          ∧ ∃ before now after, events = before ++ .resend now :: after ∧
              let s₀ := (new worker config.delivery).run before
              let missed := (new worker config.delivery).missed before
              (∃ r, s₀.coordinator.pending.get? f.key = some r
                ∧ s₀.coordinator.isOverdue now f.key r = true)
              ∧ (s₀.handed.map Copy.key).count f.key + s₀.held.count f.key + missed.count f.key
                = attempts
              ∧ (.connected f.destination none ∉ s₀.journal → missed.count f.key = 0) := by
  intro s
  have hbalance : ∀ events, ((new worker config.delivery).run events).Unwrapped →
      ∀ key r, ((new worker config.delivery).run events).coordinator.pending.get? key = some r →
        (((new worker config.delivery).run events).handed.map Copy.key).count key
            + ((new worker config.delivery).run events).held.count key
          + ((new worker config.delivery).missed events).count key = r.attempts := by
    intro events hfew key r hr
    rw [← count_spent]
    exact (charged_run worker config.delivery events hfew).pending hr
  refine ⟨hbalance events hfew, fun f hf attempts hreason => ?_⟩
  have hbooks : Books s := books_run (books_new worker config.delivery) events hfew
  -- the event that brought the verdict splits the run, and everything is said of the part before it
  obtain ⟨before, e, after, hevents, hold, hnew⟩ := exists_verdict_step hf
  obtain ⟨now, r, rfl, hopen, hr, hoverdue, hexhausted, hattempts⟩ :=
    exhausted_step hnew hreason hold
  have hgrow := journal_run ((new worker config.delivery).run before) (.resend now :: after)
  rw [← run_append, ← hevents] at hgrow
  have hs₀ := hfew.mono hgrow
  have hlimit := (rationed_run (rationed_new worker config.delivery)
    (books_new worker config.delivery) before hs₀).pending hr
  have hconfig := config_run (new worker config.delivery) before
  refine ⟨?_, hbooks.not_acked hfew hf, before, now, after, hevents, ⟨r, hr, hoverdue⟩, ?_,
    fun hnever => ?_⟩
  · have hnone : config.delivery.maxRequestAttempts ≤ r.attempts := by
      have := hexhausted
      rw [isExhausted, hconfig] at this
      exact of_decide_eq_true this
    -- the attempts are no fewer than the limit because the request was exhausted, and no more
    -- because it was rationed
    have hmax := attempts_of_validate hvalid
    have hmost := hlimit.2
    have hleast : 1 ≤ config.delivery.maxRequestAttempts := Nat.le_max_left _ _
    rw [hconfig] at hmost
    change r.attempts ≤ max 1 config.delivery.maxRequestAttempts at hmost
    omega
  · rw [hattempts]
    exact hbalance before hs₀ f.key r hr
  · refine List.count_eq_zero_of_not_mem fun hmem => ?_
    exact hnever (missed_of_open hopen hmem)

def single : Config := { Config.testing with maxRequestAttempts := 1 }

/-- The one copy is written and not answered in time. -/
theorem retries_accounted_written :
    let events : List Event := [.send 0 ⟨1⟩ .sendPartition [7], .look 0, .connected 0 (some ⟨1⟩),
      .written 0 true, .resend 201]
    let s := (new ⟨9⟩ single.delivery).run events
    single.validate = .ok () ∧ s.Unwrapped
      ∧ s.verdicts = [⟨⟨1⟩, ⟨0⟩, .retriesExhausted 1⟩]
      ∧ ∃ before now after, events = before ++ .resend now :: after
        ∧ (((new ⟨9⟩ single.delivery).run before).handed.map Copy.key).count (⟨1⟩, ⟨0⟩)
            + ((new ⟨9⟩ single.delivery).run before).held.count (⟨1⟩, ⟨0⟩)
            + ((new ⟨9⟩ single.delivery).missed before).count (⟨1⟩, ⟨0⟩) = 1 := by
  intro events s
  have hvalid : single.validate = .ok () := by decide +kernel
  have hfew : s.Unwrapped := unwrapped_of_length (by decide)
  have hverdicts : s.verdicts = [⟨⟨1⟩, ⟨0⟩, .retriesExhausted 1⟩] := by decide +kernel
  refine ⟨hvalid, hfew, hverdicts, ?_⟩
  obtain ⟨-, hgiven⟩ := retries_accounted ⟨9⟩ hvalid events hfew
  obtain ⟨-, -, before, now, after, hevents, -, hcount, -⟩ :=
    hgiven ⟨⟨1⟩, ⟨0⟩, .retriesExhausted 1⟩ (hverdicts ▸ List.mem_singleton_self _) 1 rfl
  exact ⟨before, now, after, hevents, hcount⟩

/-- The only connect fails, and the request is given up as if it had been tried: the transport was
handed no copy of it, and one more connect was allowed. -/
theorem exhausted_unsent :
    let s := (new ⟨9⟩ single.delivery).run [.send 0 ⟨1⟩ .sendPartition [7], .look 0,
      .connected 0 none, .look 0, .resend 1]
    single.validate = .ok () ∧ s.verdicts = [⟨⟨1⟩, ⟨0⟩, .retriesExhausted 1⟩]
      ∧ (s.handed.map Copy.key).count (⟨1⟩, ⟨0⟩) = 0
      ∧ (s.coordinator.peer ⟨1⟩).refusals.toNat < s.coordinator.patience := by
  decide +kernel

end Sender

end Superstep
