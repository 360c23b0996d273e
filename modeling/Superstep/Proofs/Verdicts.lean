import Superstep.Proofs.Connections

/-!
# Superstep — when a destination is unreachable

A destination is given up on when too many connects to it failed in a row. The connects are made by
threads that send and by checks for overdue requests, in any order and several at a time; what is
counted is their outcome (`Attempt`).

* **`step_heeds`** — a connect that failed is counted, and may give requests up; one whose
  connection comes into use ends the row; nothing else changes a count. Checks and responses give
  requests up for other reasons;
* **`refusals_run`** — the count of a destination is the length of its row of failures (`streak`),
  whatever else happened;
* **`unreachable_exactly`** — the requests that are given up because their destination is
  unreachable, the moment at which they are, and the count that they are given;
* **`unreachable_despite_success`** — a row that a successful connect does not end.

A connect may be answered with a connection after another thread brought one into use. It is closed
at once; such a connect is spare and neither continues nor ends a row.
-/

namespace Superstep

open Coordinator

/-- What came of a connect. -/
inductive Attempt where
  | refused
  /-- Its connection came into use. -/
  | opened
  /-- Another connection was in use by then. -/
  | spare
deriving DecidableEq

namespace Attempt

def extend (n : Nat) : Attempt → Nat
  | refused => n + 1
  | opened => 0
  | spare => n

/-- The number of connects that failed since the last one whose connection came into use. -/
def streak (attempts : List Attempt) : Nat := attempts.foldl extend 0

/-- **A streak is a row of failures**, the last of the connects that are not spare. -/
theorem exists_append_replicate {attempts : List Attempt} {n : Nat} (hn : n ≤ streak attempts) :
    ∃ earlier, attempts.filter (· ≠ spare) = earlier ++ List.replicate n refused := by
  -- on the last connect: it makes the row longer, ends it, or is spare
  induction attempts using List.reverseRecOn generalizing n with
  | nil =>
    obtain rfl := Nat.le_zero.1 hn
    exact ⟨[], rfl⟩
  | append_singleton attempts last ih =>
    have hstreak : streak (attempts ++ [last]) = extend (streak attempts) last := by
      simp [streak]
    rw [hstreak] at hn
    rw [List.filter_append]
    cases last with
    | refused =>
      cases n with
      | zero => exact ⟨_, (List.append_nil _).symm⟩
      | succ n =>
        obtain ⟨earlier, hfilter⟩ := ih (Nat.le_of_succ_le_succ hn)
        refine ⟨earlier, ?_⟩
        rw [hfilter, List.replicate_succ', ← List.append_assoc]
        rfl
    | opened =>
      obtain rfl := Nat.le_zero.1 hn
      exact ⟨_, (List.append_nil _).symm⟩
    | spare =>
      obtain ⟨earlier, hfilter⟩ := ih hn
      exact ⟨earlier, by rw [hfilter]; exact List.append_nil _⟩

/-- **The last connects all failed** if and only if none of them was spare, as many of them as are
counted or fewer. -/
theorem replicate_isSuffix_iff {attempts : List Attempt} {n : Nat} (hn : n ≤ streak attempts) :
    List.replicate n refused <:+ attempts ↔ spare ∉ attempts.drop (attempts.length - n) := by
  constructor
  · intro hsuffix hspare
    rw [List.suffix_iff_eq_drop, List.length_replicate] at hsuffix
    rw [← hsuffix] at hspare
    cases List.eq_of_mem_replicate hspare
  · intro hnone
    obtain ⟨earlier, hfilter⟩ := exists_append_replicate hn
    have hlength : n ≤ attempts.length := by
      have hshort := attempts.length_filter_le (· ≠ spare)
      rw [hfilter, List.length_append, List.length_replicate] at hshort
      omega
    -- what is not spare at the end of all connects is at the end of those that are not spare
    have htail : (attempts.drop (attempts.length - n)).filter (· ≠ spare)
        = attempts.drop (attempts.length - n) :=
      List.filter_eq_self.2 fun a ha => decide_eq_true fun h => hnone (h ▸ ha)
    have hend : attempts.drop (attempts.length - n) <:+ attempts.filter (· ≠ spare) := by
      rw [← htail]
      exact (List.drop_suffix _ _).filter _
    have hrow : List.replicate n refused <:+ attempts.filter (· ≠ spare) := ⟨earlier, hfilter.symm⟩
    have hsame : List.replicate n refused = attempts.drop (attempts.length - n) := by
      refine (List.suffix_of_suffix_length_le hrow hend ?_).eq_of_length ?_ <;>
        simp only [List.length_replicate, List.length_drop] <;> omega
    rw [hsame]
    exact List.drop_suffix _ _

end Attempt

/-- The destination was not found unreachable. -/
def DeliveryFailure.IsOther (f : DeliveryFailure) : Prop := ∀ n, f.reason ≠ .unreachable n

namespace Coordinator

/-! ## What does not count connects

Counts are kept with the destinations, and these change for other reasons too. Every method but the
answer to a connect leaves the counts alone, and those that give requests up are treated by
themselves below. -/

/-- `c'` counts the failed connects that `c` counts, and has given nothing up. -/
structure Heedless (c c' : Coordinator) : Prop where
  refusals : ∀ w, (c'.peer w).refusals = (c.peer w).refusals
  failures : c'.failures = c.failures

namespace Heedless

variable {c c' c'' : Coordinator}

theorem of_eq (hpeers : c'.peers = c.peers) (hfailures : c'.failures = c.failures) :
    Heedless c c' :=
  ⟨fun w => by rw [peer, peer, hpeers], hfailures⟩

theorem refl (c : Coordinator) : Heedless c c := of_eq rfl rfl

theorem trans (h : Heedless c c') (h' : Heedless c' c'') : Heedless c c'' :=
  ⟨fun w => (h'.refusals w).trans (h.refusals w), h'.failures.trans h.failures⟩

theorem setPeer (c : Coordinator) (w : WorkerId) {f : Peer → Peer}
    (hf : ∀ p, (f p).refusals = p.refusals) : Heedless c (c.setPeer w f) where
  refusals w' := by
    rw [peer_setPeer]
    split
    · next h => rw [hf, h]
    · rfl
  failures := rfl

theorem setRoute (c : Coordinator) (key : RequestKey) (route : Route) :
    Heedless c (c.setRoute key route) := of_eq rfl rfl

theorem markUnsent (c : Coordinator) (s : Shipment) : Heedless c (c.markUnsent s) := by
  unfold Coordinator.markUnsent
  induction s.frames generalizing c with
  | nil => exact refl c
  | cons f frames ih => exact (setRoute c _ _).trans (ih _)

theorem write (c : Coordinator) (connection : ConnectionId) (s : Shipment)
    (later : List Shipment) : Heedless c (c.write connection s later).1 := by
  unfold Coordinator.write
  dsimp only
  split
  · exact of_eq rfl rfl
  · exact refl c

theorem advance (c : Coordinator) (connection : ConnectionId) (s : Shipment)
    (later : List Shipment) : Heedless c (c.advance connection s later).1 := by
  unfold Coordinator.advance
  split
  · exact refl c
  · exact write c _ _ _

theorem look (c : Coordinator) (t : Task) : Heedless c (c.look t).1 := by
  unfold Coordinator.look
  split
  · split
    · exact refl c
    · split
      · exact write c _ _ _
      · exact refl c
  · exact markUnsent c _
  · next connection s later =>
    have hroute : Heedless c
        { c.setRoute (s.peer, s.first.1) .unsent with resendRequested := true } := of_eq rfl rfl
    exact hroute.trans (advance _ _ _ _)
  · exact refl c

theorem forget (c : Coordinator) (connection : ConnectionId) :
    Heedless c (c.forget connection) := by
  unfold Coordinator.forget
  split
  · exact refl c
  · next w _ =>
    have hpeer : Heedless c (c.setPeer w fun p => { p with connection := none }) :=
      setPeer c w fun _ => rfl
    exact hpeer.trans (of_eq rfl rfl)

theorem afterWrite (c : Coordinator) (connection : ConnectionId) (s : Shipment)
    (later : List Shipment) (accepted : Bool) :
    Heedless c (c.afterWrite connection s later accepted).coordinator := by
  cases accepted with
  | false => exact forget c connection
  | true =>
    simp only [Coordinator.afterWrite, if_true]
    split
    · exact (setRoute c _ _).trans (advance _ _ _ _)
    · have hflag : ∀ c : Coordinator, Heedless c { c with resendRequested := true } :=
        fun _ => of_eq rfl rfl
      exact ((setRoute c _ _).trans (hflag _)).trans (advance _ _ _ _)

theorem send {now : Nat} {w : WorkerId} {type : RequestType} {payload : Bytes} {id : RequestId}
    {task : Task} (h : c.send now w type payload = .ok (id, c', task)) : Heedless c c' := by
  obtain ⟨_, _, _, _, rfl⟩ := send_inv h
  exact (setPeer c w (f := fun p => { p with nextId := id.next }) fun _ => rfl).trans
    (of_eq rfl rfl)

theorem shutdown (c : Coordinator) : Heedless c c.shutdown.2 := by
  unfold Coordinator.shutdown
  split
  · exact refl c
  · refine ⟨fun w => ?_, rfl⟩
    simp only [peer, Table.get?_mapValues]
    cases c.peers.get? w <;> rfl

end Heedless

theorem refusals_connected (c : Coordinator) (w w' : WorkerId) (connection : ConnectionId) :
    ((c.connected w connection).peer w').refusals
      = if w' = w then 0 else (c.peer w').refusals := by
  have hpeer := peer_setPeer c w w' fun p => { p with connection := some connection, refusals := 0 }
  have hsame : (c.connected w connection).peer w' = _ := hpeer
  rw [hsame]
  split <;> rfl

/-! ## What gives requests up

A check, a response and a failed connect. Each says why, so from the reason of a verdict it can be
told which of them it was. -/

/-- **A check gives requests up** that are overdue and have no attempt left. -/
theorem failures_checkOverdue (c : Coordinator) (now : Nat) :
    ∃ given, (c.checkOverdue now).1.failures = c.failures ++ given ∧ ∀ f ∈ given,
      ∃ r, c.pending.get? f.key = some r ∧ c.isOverdue now f.key r = true
        ∧ c.isExhausted r = true ∧ f.reason = .retriesExhausted r.attempts := by
  obtain ⟨given, hyields, hreason⟩ := yields_giveUp c fun key r =>
    if c.isOverdue now key r && c.isExhausted r then some (.retriesExhausted r.attempts) else none
  refine ⟨given, hyields.failures, fun f hf => ?_⟩
  obtain ⟨r, hr, hsome⟩ := hreason f hf
  split at hsome
  · next h =>
    obtain ⟨hoverdue, hexhausted⟩ := Bool.and_eq_true_iff.1 h
    exact ⟨r, hr, hoverdue, hexhausted, (Option.some.inj hsome).symm⟩
  · cases hsome

/-- **A response gives a request up** when it says that the destination refused it. -/
theorem failures_onResponse (c : Coordinator) (bytes : Bytes) :
    (c.onResponse bytes).peers = c.peers
      ∧ ∃ given, (c.onResponse bytes).failures = c.failures ++ given
        ∧ ∀ f ∈ given, f.reason.IsRejection := by
  rcases onResponse_spec c bytes with ⟨h, _⟩ | ⟨_, _, _, h, _⟩ | ⟨key, reason, _, _, h, _⟩
  · rw [h]
    exact ⟨rfl, [], (List.append_nil _).symm, by simp⟩
  · rw [h]
    exact ⟨rfl, [], (List.append_nil _).symm, by simp⟩
  · rw [h]
    refine ⟨rfl, [⟨key.1, key.2, .rejected reason⟩], rfl, fun f hf => ?_⟩
    rw [List.mem_singleton.1 hf]
    exact trivial

/-- The failures of all requests that are pending for a destination, after so many failed
connects. -/
def unreachable (c : Coordinator) (w : WorkerId) (refusals : Nat) : List DeliveryFailure :=
  (c.pending.keys.filter (·.1 = w)).map fun key => ⟨key.1, key.2, .unreachable refusals⟩

theorem failures_giveUp_peer (c : Coordinator) (w : WorkerId) (why : FailureReason) :
    (c.giveUp fun key _ => if key.1 = w then some why else none).failures
      = c.failures ++ (c.pending.keys.filter (·.1 = w)).map fun key => ⟨key.1, key.2, why⟩ := by
  rw [giveUp, Table.keys]
  dsimp only
  congr 1
  -- the requests are gone through in the order of the table, and each is judged by itself
  induction c.pending.toList with
  | nil => rfl
  | cons e entries ih =>
    by_cases hpeer : e.1.1 = w
    · simp only [List.map_cons, List.filterMap_cons, List.filter_cons, hpeer, if_true,
        Option.map_some, decide_true]
      exact congrArg _ ih
    · simp only [List.map_cons, List.filterMap_cons, List.filter_cons, hpeer, if_false,
        Option.map_none, decide_false, Bool.false_eq_true]
      exact ih

/-- A connect that fails is counted for its destination only. -/
theorem refusals_refused (c : Coordinator) (w w' : WorkerId) :
    ((c.refused w).peer w').refusals
      = if w' = w then c.refusalsNext w else (c.peer w').refusals := by
  have hpeer : ∀ w', ((c.setPeer w fun p => { p with refusals := c.refusalsNext w }).peer
      w').refusals = if w' = w then c.refusalsNext w else (c.peer w').refusals := by
    intro w'
    rw [peer_setPeer]
    split <;> rfl
  unfold refused
  dsimp only
  split <;> exact hpeer w'

/-- **One failed connect too many** gives up what is pending for its destination, all of it and
nothing else. One that is not yet too many gives nothing up. -/
theorem refused_spec (c : Coordinator) (w : WorkerId) :
    ((c.refusalsNext w).toNat < c.patience → (c.refused w).pending = c.pending
        ∧ (c.refused w).failures = c.failures)
      ∧ (c.patience ≤ (c.refusalsNext w).toNat →
        (∀ key, (c.refused w).pending.get? key
          = if key.1 = w then none else c.pending.get? key)
        ∧ (c.refused w).failures = c.failures ++ c.unreachable w (c.refusalsNext w).toNat) := by
  have hrefused : c.refused w = if (c.refusalsNext w).toNat < c.patience
      then c.setPeer w fun p => { p with refusals := c.refusalsNext w }
      else (c.setPeer w fun p => { p with refusals := c.refusalsNext w }).giveUp fun key _ =>
        if key.1 = w then some (.unreachable (c.refusalsNext w).toNat) else none := rfl
  refine ⟨fun hfew => ?_, fun hmany => ?_⟩
  · rw [hrefused, if_pos hfew]
    exact ⟨rfl, rfl⟩
  · rw [hrefused, if_neg (by omega)]
    refine ⟨fun key => ?_, failures_giveUp_peer _ w _⟩
    rw [giveUp, Table.get?_filter]
    have hkeeps : ∀ r : Option PendingRequest, r.filter (fun _ => true) = r := by
      rintro (_ | _) <;> rfl
    by_cases hpeer : key.1 = w
    · simp [hpeer]
    · simp only [hpeer, if_false, Option.isNone_none, hkeeps]
      rfl

end Coordinator

namespace Sender

/-! ## Connects

A connect ends when the transport answers it. Whether its connection comes into use depends on what
is in use at that moment, so what came of it is read off the state before the event. -/

/-- The connect that an event brings to an end: its destination, and what came of it. -/
def connect? (s : Sender) : Event → Option (WorkerId × Attempt)
  | .connected thread answer =>
    match s.tasks[thread]? with
    | some (.connecting shipment _) =>
      some (shipment.peer, match answer with
        | none => .refused
        | some _ => if (s.coordinator.live shipment.peer).isSome then .spare else .opened)
    | _ => none
  | _ => none

/-- The connect to this destination that an event brings to an end, if there is one. -/
def attempt? (s : Sender) (peer : WorkerId) (e : Event) : Option Attempt :=
  ((s.connect? e).filter (·.1 = peer)).map Prod.snd

theorem attempt?_of_connect? {s : Sender} {e : Event} {w : WorkerId} {attempt : Attempt}
    (h : s.connect? e = some (w, attempt)) (peer : WorkerId) :
    s.attempt? peer e = if peer = w then some attempt else none := by
  rw [attempt?, h, Option.filter_some]
  by_cases hpeer : peer = w
  · simp [hpeer]
  · simp [hpeer, Ne.symm hpeer]

/-- What came of the connects to a destination in the course of some events, oldest first. -/
def attempts (s : Sender) (peer : WorkerId) : List Event → List Attempt
  | [] => []
  | e :: events => (s.attempt? peer e).toList ++ (s.step e).attempts peer events

/-- The requests that were given up, those that a caller was told of first. -/
def verdicts (s : Sender) : List DeliveryFailure := s.reported ++ s.coordinator.failures

/-! ## What an event does to counts and verdicts

All that is said below about runs follows from the five cases of `Heeds`. The verdicts are those
told and those not told yet, in one list, so that telling them is no change. -/

/-- Everything that an event can do to the counts of failed connects and to the verdicts. -/
inductive Heeds (s : Sender) (e : Event) (s' : Sender) : Prop
  | refused (thread : Nat) (peer : WorkerId) (hevent : e = .connected thread none)
      (hconnect : s.connect? e = some (peer, .refused))
      (hstep : s'.coordinator = s.coordinator.refused peer) (hreported : s'.reported = s.reported)
  | opened (peer : WorkerId) (hconnect : s.connect? e = some (peer, .opened))
      (hrefusals : ∀ w, (s'.coordinator.peer w).refusals
        = if w = peer then 0 else (s.coordinator.peer w).refusals)
      (hverdicts : s'.verdicts = s.verdicts)
  | heedless (hconnect : ∀ peer attempt, s.connect? e = some (peer, attempt) → attempt = .spare)
      (hrefusals : ∀ w, (s'.coordinator.peer w).refusals = (s.coordinator.peer w).refusals)
      (hverdicts : s'.verdicts = s.verdicts)
  | exhausted (now : Nat) (given : List DeliveryFailure) (hevent : e = .resend now)
      (hopen : s.coordinator.stopped = false)
      (hrefusals : ∀ w, (s'.coordinator.peer w).refusals = (s.coordinator.peer w).refusals)
      (hverdicts : s'.verdicts = s.verdicts ++ given)
      (hgiven : ∀ f ∈ given, ∃ r, s.coordinator.pending.get? f.key = some r
        ∧ s.coordinator.isOverdue now f.key r = true ∧ s.coordinator.isExhausted r = true
        ∧ f.reason = .retriesExhausted r.attempts)
  | rejected (bytes : Bytes) (given : List DeliveryFailure) (hevent : e = .response bytes)
      (hrefusals : ∀ w, (s'.coordinator.peer w).refusals = (s.coordinator.peer w).refusals)
      (hverdicts : s'.verdicts = s.verdicts ++ given) (hgiven : ∀ f ∈ given, f.reason.IsRejection)

/-- What leaves the coordinator's counts alone leaves the sender's alone. -/
theorem Heeds.of_heedless {s s' : Sender} {e : Event}
    (hstep : Heedless s.coordinator s'.coordinator)
    (hconnect : ∀ peer attempt, s.connect? e = some (peer, attempt) → attempt = .spare)
    (hreported : s'.reported = s.reported) : Heeds s e s' :=
  .heedless hconnect hstep.refusals (by rw [verdicts, verdicts, hreported, hstep.failures])

theorem verdicts_append {s s' : Sender} {given : List DeliveryFailure}
    (hreported : s'.reported = s.reported)
    (hfailures : s'.coordinator.failures = s.coordinator.failures ++ given) :
    s'.verdicts = s.verdicts ++ given := by
  rw [verdicts, verdicts, hreported, hfailures, List.append_assoc]

/-- Only waiting tells failures. -/
theorem reported_step {s : Sender} {e : Event} (h : e ≠ .await) :
    (s.step e).reported = s.reported := by
  cases step_moved s e with
  | issued _ _ _ _ _ _ _ _ hreported => exact hreported
  | acknowledged _ _ _ _ _ _ _ _ hreported => exact hreported
  | gaveUp _ _ _ _ _ hreported => exact hreported
  | told hevent => exact absurd hevent h

/-- **The answer to a connect** is counted, ends the row, or is spare. -/
theorem heeds_connected (s : Sender) (thread : Nat) (answer : Option ConnectionId) :
    Heeds s (.connected thread answer) (s.step (.connected thread answer)) := by
  have hreported := reported_step (s := s) (e := .connected thread answer) (by simp)
  cases htask : s.tasks[thread]? with
  | none =>
    refine .of_heedless ?_ (by simp [connect?, htask]) hreported
    simp only [step, htask]
    exact .refl _
  | some task =>
    -- only a thread that waits for a connection takes the answer up
    cases task with
    | connecting shipment later =>
      have hcoordinator : (s.step (.connected thread answer)).coordinator
          = (s.coordinator.afterConnect shipment later answer).coordinator := by
        simp only [step, htask, goOn]
      cases answer with
      | none =>
        have hconnect : s.connect? (.connected thread none) = some (shipment.peer, .refused) := by
          simp [connect?, htask]
        exact .refused thread shipment.peer rfl hconnect hcoordinator hreported
      | some connection =>
        cases hlive : s.coordinator.live shipment.peer with
        | some existing =>
          simp only [afterConnect, hlive] at hcoordinator
          refine .of_heedless (hcoordinator ▸ Heedless.write _ _ _ _) ?_ hreported
          simp [connect?, htask, hlive]
        | none =>
          simp only [afterConnect, hlive] at hcoordinator
          have hwrite := Heedless.write (s.coordinator.connected shipment.peer connection)
            connection shipment later
          rw [← hcoordinator] at hwrite
          refine .opened shipment.peer (by simp [connect?, htask, hlive]) (fun w => ?_) ?_
          · rw [hwrite.refusals, refusals_connected]
          · rw [verdicts, verdicts, hreported, hcoordinator]
            unfold Coordinator.write
            dsimp only
            split <;> rfl
    | idle | seeking | stranded | writing | failing =>
      refine .of_heedless ?_ (by simp [connect?, htask]) hreported
      simp only [step, htask]
      exact .refl _

/-- **Connects that fail are counted**, and nothing else is. -/
theorem step_heeds (s : Sender) (e : Event) : Heeds s e (s.step e) := by
  cases e with
  | connected thread answer => exact heeds_connected s thread answer
  | send now peer type payload =>
    refine .of_heedless ?_ (by simp [connect?]) (reported_step (by simp))
    cases hsend : s.coordinator.send now peer type payload with
    | error e =>
      simp only [step, hsend]
      exact .refl _
    | ok sent =>
      simp only [step, hsend]
      exact .send hsend
  | resend now =>
    have hreported := reported_step (s := s) (e := .resend now) (by simp)
    cases hopen : s.coordinator.stopped with
    | true =>
      refine .of_heedless ?_ (by simp [connect?]) hreported
      simp only [step, resend, hopen, if_true]
      exact .refl _
    | false =>
      have hchecked : (s.step (.resend now)).coordinator = (s.coordinator.checkOverdue now).1 := by
        simp [step, resend, hopen]
      obtain ⟨given, hfailures, hgiven⟩ := failures_checkOverdue s.coordinator now
      rw [← hchecked] at hfailures
      refine .exhausted now given rfl hopen (fun w => ?_)
        (verdicts_append hreported hfailures) hgiven
      rw [hchecked]
      rfl
  | wake => exact .of_heedless (.of_eq rfl rfl) (by simp [connect?]) (reported_step (by simp))
  | look thread =>
    refine .of_heedless ?_ (by simp [connect?]) (reported_step (by simp))
    simp only [step]
    split
    · exact .refl _
    · exact .look _ _
  | written thread accepted =>
    refine .of_heedless ?_ (by simp [connect?]) (reported_step (by simp))
    simp only [step]
    split
    · exact .afterWrite _ _ _ _ _
    · exact .refl _
  | response bytes =>
    obtain ⟨hpeers, given, hfailures, hgiven⟩ := failures_onResponse s.coordinator bytes
    refine .rejected bytes given rfl (fun w => ?_)
      (verdicts_append (reported_step (by simp)) hfailures) hgiven
    rw [step, peer, peer, hpeers]
  | closed connection =>
    exact .of_heedless (.forget _ connection) (by simp [connect?]) (reported_step (by simp))
  | alarm connection =>
    refine .of_heedless ?_ (by simp [connect?]) (reported_step (by simp))
    simp only [step]
    split
    · exact .of_eq rfl rfl
    · exact .refl _
  -- failures that are told stay among the verdicts
  | await =>
    rcases await_spec s.coordinator with hawait | ⟨_, hawait⟩ | ⟨result, _, hawait, htold, _⟩ <;>
      refine .heedless (by simp [connect?]) (fun w => ?_) ?_
    · simp only [step, hawait]
    · simp only [step, hawait]
    · simp only [step, hawait]
    · simp [step, hawait, verdicts, reported, Note.failures, stoppedError]
    · simp only [step, hawait, peer]
    · simp [step, hawait, verdicts, reported, htold]
  | shutdown => exact .of_heedless (.shutdown _) (by simp [connect?]) (reported_step (by simp))

/-! ## Rows of failures -/

/-- **One event and the count of a destination**: it goes on with the row of failures, up to the
size of a word. -/
theorem refusals_step {s : Sender} {peer : WorkerId} {n : Nat}
    (hn : (s.coordinator.peer peer).refusals = .ofNat n) (e : Event) :
    ((s.step e).coordinator.peer peer).refusals
      = .ofNat ((s.attempt? peer e).toList.foldl Attempt.extend n) := by
  cases step_heeds s e with
  | refused thread w _ hconnect hstep _ =>
    rw [hstep, refusals_refused, attempt?_of_connect? hconnect]
    split
    · next hpeer =>
      rw [← hpeer, refusalsNext, hn]
      exact (UInt32.ofNat_add n 1).symm
    · exact hn
  | opened w hconnect hrefusals _ =>
    rw [hrefusals, attempt?_of_connect? hconnect]
    split
    · rfl
    · exact hn
  -- a connect that is spare leaves the row as it is, as every other event does
  | heedless hconnect hrefusals _ =>
    rw [hrefusals]
    cases h : s.connect? e with
    | none => rwa [attempt?, h]
    | some ended =>
      obtain ⟨w, attempt⟩ := ended
      obtain rfl := hconnect w attempt h
      rw [attempt?_of_connect? h]
      split <;> exact hn
  | exhausted _ _ hevent _ hrefusals => rwa [hrefusals, hevent]
  | rejected _ _ hevent hrefusals => rwa [hrefusals, hevent]

/-- **The failed connects of a row are counted**, over any events. -/
theorem refusals_run {s : Sender} {peer : WorkerId} {n : Nat}
    (hn : (s.coordinator.peer peer).refusals = .ofNat n) (events : List Event) :
    ((s.run events).coordinator.peer peer).refusals
      = .ofNat ((s.attempts peer events).foldl Attempt.extend n) := by
  induction events generalizing s n with
  | nil => exact hn
  | cons e events ih =>
    rw [attempts, List.foldl_append]
    exact ih (refusals_step hn e)

/-- From the start, a count is the length of the row of failures. -/
theorem refusals_eq_streak (worker : WorkerId) (config : DeliveryConfig) (events : List Event)
    (peer : WorkerId) : (((new worker config).run events).coordinator.peer peer).refusals
      = .ofNat (Attempt.streak ((new worker config).attempts peer events)) :=
  refusals_run (s := new worker config) (n := 0) rfl events

/-- How many failed connects are allowed never changes. -/
theorem patience_run (worker : WorkerId) (config : DeliveryConfig) (events : List Event) :
    ((new worker config).run events).coordinator.patience = max 1 config.maxReconnectAttempts := by
  rw [patience, config_run]
  rfl

/-! ## Verdicts

The verdicts only grow, and each event adds those for its own reason. So a verdict that is there at
the end was new after one of the events, and its reason says which. -/

/-- **Only a failed connect finds a destination unreachable.** -/
theorem verdicts_step {s : Sender} {e : Event}
    (h : ∀ peer, s.connect? e ≠ some (peer, .refused)) :
    ∃ given, (s.step e).verdicts = s.verdicts ++ given ∧ ∀ f ∈ given, f.IsOther := by
  cases step_heeds s e with
  | refused _ peer _ hconnect => exact absurd hconnect (h peer)
  | opened _ _ _ hverdicts => exact ⟨[], by rw [hverdicts, List.append_nil], by simp⟩
  | heedless _ _ hverdicts => exact ⟨[], by rw [hverdicts, List.append_nil], by simp⟩
  | exhausted _ given _ _ _ hverdicts hgiven =>
    refine ⟨given, hverdicts, fun f hf n hn => ?_⟩
    obtain ⟨_, _, _, _, hreason⟩ := hgiven f hf
    rw [hn] at hreason
    cases hreason
  | rejected _ given _ _ hverdicts hgiven =>
    refine ⟨given, hverdicts, fun f hf n hn => ?_⟩
    have hrejection := hgiven f hf
    rw [hn] at hrejection
    exact hrejection

/-- What a failed connect adds to the verdicts. -/
theorem refused_step {s : Sender} {e : Event} {peer : WorkerId}
    (h : s.connect? e = some (peer, .refused)) :
    (∃ thread, e = .connected thread none)
      ∧ (s.step e).coordinator = s.coordinator.refused peer ∧ (s.step e).reported = s.reported := by
  cases step_heeds s e with
  | refused thread w hevent hconnect hstep hreported =>
    obtain rfl : w = peer := by simpa [hconnect] using h
    exact ⟨⟨thread, hevent⟩, hstep, hreported⟩
  | opened _ hconnect => rw [hconnect] at h; cases h
  | heedless hconnect => cases hconnect peer .refused h
  | exhausted _ _ hevent => rw [hevent] at h; cases h
  | rejected _ _ hevent => rw [hevent] at h; cases h

/-- Whatever a failed connect gives up was pending for its destination. -/
theorem verdicts_refused {s : Sender} {e : Event} {peer : WorkerId}
    (h : s.connect? e = some (peer, .refused)) :
    ∃ given, (s.step e).verdicts = s.verdicts ++ given ∧ ∀ f ∈ given,
      f.destination = peer ∧ f.key ∈ s.coordinator.pending.keys
        ∧ f.reason = .unreachable (s.coordinator.refusalsNext peer).toNat
        ∧ s.coordinator.patience ≤ (s.coordinator.refusalsNext peer).toNat := by
  obtain ⟨-, hstep, hreported⟩ := refused_step h
  obtain ⟨hfew, hmany⟩ := refused_spec s.coordinator peer
  rw [← hstep] at hfew hmany
  by_cases hpatience : (s.coordinator.refusalsNext peer).toNat < s.coordinator.patience
  · refine ⟨[], ?_, by simp⟩
    rw [verdicts, verdicts, hreported, (hfew hpatience).2, List.append_nil]
  · have henough := Nat.le_of_not_lt hpatience
    refine ⟨_, verdicts_append hreported (hmany henough).2, fun f hf => ?_⟩
    obtain ⟨key, hkey, rfl⟩ := List.mem_map.1 hf
    obtain ⟨hpending, hpeer⟩ := List.mem_filter.1 hkey
    exact ⟨by simpa using hpeer, hpending, rfl, henough⟩

/-- A verdict that a destination is unreachable came with a connect that failed. -/
theorem unreachable_step {s : Sender} {e : Event} {f : DeliveryFailure} {n : Nat}
    (hf : f ∈ (s.step e).verdicts) (hreason : f.reason = .unreachable n) (hnew : f ∉ s.verdicts) :
    ∃ thread, e = .connected thread none ∧ s.connect? e = some (f.destination, .refused)
      ∧ f.key ∈ s.coordinator.pending.keys
      ∧ n = (s.coordinator.refusalsNext f.destination).toNat ∧ s.coordinator.patience ≤ n := by
  by_cases hrefused : ∃ peer, s.connect? e = some (peer, .refused)
  · obtain ⟨peer, hconnect⟩ := hrefused
    obtain ⟨⟨thread, hevent⟩, -⟩ := refused_step hconnect
    obtain ⟨given, hverdicts, hgiven⟩ := verdicts_refused hconnect
    rw [hverdicts, List.mem_append] at hf
    obtain ⟨rfl, hpending, hcount, hpatience⟩ := hgiven f (hf.resolve_left hnew)
    obtain rfl : (s.coordinator.refusalsNext f.destination).toNat = n := by
      simpa [hcount] using hreason
    exact ⟨thread, hevent, hconnect, hpending, rfl, hpatience⟩
  · -- any other event gives requests up for another reason
    obtain ⟨given, hverdicts, hgiven⟩ := verdicts_step (not_exists.1 hrefused)
    rw [hverdicts, List.mem_append] at hf
    exact absurd hreason (hgiven f (hf.resolve_left hnew) n)

/-- A verdict that no attempt is left came with a check, which found the request overdue. -/
theorem exhausted_step {s : Sender} {e : Event} {f : DeliveryFailure} {attempts : Nat}
    (hf : f ∈ (s.step e).verdicts) (hreason : f.reason = .retriesExhausted attempts)
    (hnew : f ∉ s.verdicts) :
    ∃ now r, e = .resend now ∧ s.coordinator.stopped = false
      ∧ s.coordinator.pending.get? f.key = some r ∧ s.coordinator.isOverdue now f.key r = true
      ∧ s.coordinator.isExhausted r = true ∧ attempts = r.attempts := by
  cases step_heeds s e with
  | refused _ peer _ hconnect =>
    obtain ⟨given, hverdicts, hgiven⟩ := verdicts_refused hconnect
    rw [hverdicts, List.mem_append] at hf
    obtain ⟨-, -, hcount, -⟩ := hgiven f (hf.resolve_left hnew)
    -- a destination that is given up has another reason
    rw [hcount] at hreason
    cases hreason
  | opened _ _ _ hverdicts => exact absurd (hverdicts ▸ hf) hnew
  | heedless _ _ hverdicts => exact absurd (hverdicts ▸ hf) hnew
  | exhausted now given hevent hopen _ hverdicts hgiven =>
    rw [hverdicts, List.mem_append] at hf
    obtain ⟨r, hr, hoverdue, hexhausted, hwhy⟩ := hgiven f (hf.resolve_left hnew)
    rw [hwhy] at hreason
    cases hreason
    exact ⟨now, r, hevent, hopen, hr, hoverdue, hexhausted, rfl⟩
  | rejected _ given _ _ hverdicts hgiven =>
    rw [hverdicts, List.mem_append] at hf
    have hrejection := hgiven f (hf.resolve_left hnew)
    rw [hreason] at hrejection
    cases hrejection

/-- **Every verdict came at some event.** -/
theorem exists_verdict_step {worker : WorkerId} {config : DeliveryConfig} {events : List Event}
    {f : DeliveryFailure} (hf : f ∈ ((new worker config).run events).verdicts) :
    ∃ before e after, events = before ++ e :: after
      ∧ f ∉ ((new worker config).run before).verdicts
      ∧ f ∈ (((new worker config).run before).step e).verdicts := by
  -- on the last event: the verdict is new with it, or came with an earlier one
  induction events using List.reverseRecOn with
  | nil => cases hf
  | append_singleton events e ih =>
    by_cases hold : f ∈ ((new worker config).run events).verdicts
    · obtain ⟨before, e', after, rfl, hverdict⟩ := ih hold
      exact ⟨before, e', after ++ [e], by simp, hverdict⟩
    · rw [run_concat] at hf
      exact ⟨events, e, [], rfl, hold, hf⟩

/-- A connect that comes too late is closed, and the connection in use stays in use. -/
theorem spare_step {s : Sender} {e : Event} {peer : WorkerId}
    (h : s.connect? e = some (peer, .spare)) :
    ∃ used connection, s.coordinator.live peer = some used
      ∧ (s.step e).coordinator.live peer = some used
      ∧ (s.step e).journal
        = s.journal ++ [.connected peer (some connection), .closing connection] := by
  -- only an answer to a connect can be spare
  cases e with
  | connected thread answer =>
    cases htask : s.tasks[thread]? with
    | none => simp [connect?, htask] at h
    | some task =>
      cases task with
      | connecting shipment later =>
        cases answer with
        | none => simp [connect?, htask] at h
        | some connection =>
          cases hlive : s.coordinator.live shipment.peer with
          | none => simp [connect?, htask, hlive] at h
          | some used =>
            obtain rfl : shipment.peer = peer := by simpa [connect?, htask, hlive] using h
            refine ⟨used, connection, hlive, ?_, ?_⟩
            · simp only [step, htask, goOn, afterConnect, hlive]
              rw [live_write, hlive]
            · simp [step, htask, goOn, afterConnect, hlive]
      | idle | seeking | stranded | writing | failing => simp [connect?, htask] at h
  | send | resend | wake | look | written | response | closed | alarm | await | shutdown =>
    simp [connect?] at h

/-- A connect that fails makes the row of failures of its destination one longer, and this is what
the coordinator counts, up to the size of a word. -/
theorem refusalsNext_eq_streak (worker : WorkerId) (config : DeliveryConfig) {events : List Event}
    {e : Event} {peer : WorkerId}
    (h : ((new worker config).run events).connect? e = some (peer, .refused)) :
    (((new worker config).run events).coordinator.refusalsNext peer).toNat
      = Attempt.streak ((new worker config).attempts peer (events ++ [e])) % UInt32.size := by
  have hcount := refusals_eq_streak worker config (events ++ [e]) peer
  have hnext : (((new worker config).run (events ++ [e])).coordinator.peer peer).refusals
      = ((new worker config).run events).coordinator.refusalsNext peer := by
    rw [run_concat, (refused_step h).2.1, refusals_refused, if_pos rfl]
  rw [← hnext, hcount]
  exact UInt32.toNat_ofNat'

/-- **A destination is unreachable when connects to it failed in a row**, as many as are allowed at
the least. After any events, whatever threads and transport did: a connect that fails gives nothing
up while the row of failures that it ends is too short; else it gives up the requests that are
pending for its destination, all of them and no others, with the length of the row. Nothing else
finds a destination unreachable. A connect that is left out of the row had its connection closed at
once, because another one was in use.

Whenever a request was given up so, with some count, it was at a connect to its destination that
failed, while the request was pending; the count is that of all failures since a connection to the
destination last came into use. A connect that succeeds does not end a row if its connection comes
too late: the last connects, as many as the count says, all failed if and only if none of them was
spare. -/
theorem unreachable_exactly (worker : WorkerId) (config : DeliveryConfig) (events : List Event) :
    let s := (new worker config).run events
    let limit := max 1 config.maxReconnectAttempts
    (∀ e peer, s.connect? e = some (peer, .refused) →
        let n := Attempt.streak ((new worker config).attempts peer (events ++ [e])) % UInt32.size
        let s' := s.step e
        if n < limit then
          s'.coordinator.pending = s.coordinator.pending ∧ s'.verdicts = s.verdicts
        else
          (∀ key, s'.coordinator.pending.get? key
            = if key.1 = peer then none else s.coordinator.pending.get? key)
          ∧ s'.verdicts = s.verdicts ++ s.coordinator.unreachable peer n)
      ∧ (∀ e, (∀ peer, s.connect? e ≠ some (peer, .refused)) →
          ∃ given, (s.step e).verdicts = s.verdicts ++ given ∧ ∀ f ∈ given, f.IsOther)
      ∧ (∀ e peer, s.connect? e = some (peer, .spare) →
          ∃ used connection, s.coordinator.live peer = some used
            ∧ (s.step e).coordinator.live peer = some used
            ∧ (s.step e).journal
              = s.journal ++ [.connected peer (some connection), .closing connection])
      ∧ ∀ f ∈ s.verdicts, ∀ n, f.reason = .unreachable n →
          ∃ before thread after, events = before ++ .connected thread none :: after
            ∧ ((new worker config).run before).connect? (.connected thread none)
              = some (f.destination, .refused)
            ∧ f.key ∈ ((new worker config).run before).coordinator.pending.keys
            ∧ limit ≤ n
            ∧ let tried := (new worker config).attempts f.destination
                (before ++ [.connected thread none])
              n = Attempt.streak tried % UInt32.size
                ∧ (∃ earlier, tried.filter (· ≠ .spare) = earlier ++ List.replicate n .refused)
                ∧ (List.replicate n .refused <:+ tried
                  ↔ .spare ∉ tried.drop (tried.length - n)) := by
  intro s limit
  refine ⟨fun e peer hconnect => ?_, fun e hconnect => ?_, fun e peer => spare_step, ?_⟩
  · have hlimit : s.coordinator.patience = limit := patience_run worker config events
    have hcount := refusalsNext_eq_streak worker config hconnect
    obtain ⟨-, hstep, hreported⟩ := refused_step hconnect
    obtain ⟨hfew, hmany⟩ := refused_spec s.coordinator peer
    rw [hlimit, ← hstep, hcount] at hfew hmany
    intro n s'
    split
    · next hlt => exact ⟨(hfew hlt).1, by rw [verdicts, hreported, (hfew hlt).2]; rfl⟩
    · next hge =>
      obtain ⟨hpending, hfailures⟩ := hmany (Nat.le_of_not_lt hge)
      exact ⟨hpending, verdicts_append hreported hfailures⟩
  · exact verdicts_step hconnect
  · intro f hf n hreason
    -- the verdict was new after one of the events, and this event tells all the rest
    obtain ⟨before, e, after, hevents, hold, hnew⟩ := exists_verdict_step hf
    obtain ⟨thread, rfl, hconnect, hpending, hn, hlimit⟩ := unreachable_step hnew hreason hold
    rw [patience_run] at hlimit
    rw [refusalsNext_eq_streak worker config hconnect] at hn
    have hle : n ≤ Attempt.streak _ := hn.trans_le (Nat.mod_le _ _)
    exact ⟨before, thread, after, hevents, hconnect, hpending, hlimit, hn,
      Attempt.exists_append_replicate hle, Attempt.replicate_isSuffix_iff hle⟩

/-- The third connect to a destination fails, behind two others: its three requests are given up,
and the request to another destination is not. -/
theorem unreachable_exactly_third :
    let events := [.send 0 ⟨1⟩ .sendPartition [7], .look 0, .connected 0 none, .look 0,
      .send 1 ⟨2⟩ .sendPartition [8], .send 2 ⟨1⟩ .sendPartition [9], .look 2, .connected 2 none,
      .look 2, .send 3 ⟨1⟩ .sendPartition [10], .look 3, .connected 3 none]
    let s := (new ⟨9⟩ Config.testing.delivery).run events
    s.verdicts = [⟨⟨1⟩, ⟨0⟩, .unreachable 3⟩, ⟨⟨1⟩, ⟨1⟩, .unreachable 3⟩,
        ⟨⟨1⟩, ⟨2⟩, .unreachable 3⟩]
      ∧ s.coordinator.pending.keys = [(⟨2⟩, ⟨0⟩)]
      ∧ ∀ f ∈ s.verdicts, ∃ before thread after, events = before ++ .connected thread none :: after
        ∧ f.key ∈ ((new ⟨9⟩ Config.testing.delivery).run before).coordinator.pending.keys := by
  intro events s
  have hverdicts : s.verdicts = [⟨⟨1⟩, ⟨0⟩, .unreachable 3⟩, ⟨⟨1⟩, ⟨1⟩, .unreachable 3⟩,
      ⟨⟨1⟩, ⟨2⟩, .unreachable 3⟩] := by decide +kernel
  refine ⟨hverdicts, by decide +kernel, fun f hf => ?_⟩
  have hreason : f.reason = .unreachable 3 := by
    rw [hverdicts] at hf
    revert f
    decide
  obtain ⟨-, -, -, hwhen⟩ := unreachable_exactly ⟨9⟩ Config.testing.delivery events
  obtain ⟨before, thread, after, hevents, -, hpending, -⟩ := hwhen f hf 3 hreason
  exact ⟨before, thread, after, hevents, hpending⟩

/-- Four sends wait for connections to one destination, and their connects are answered one after
the other: with a connection, with a failure, with another connection, with a failure. The second
connection comes too late and ends no row, so that all four requests are given up because two
connects in a row are said to have failed. They did not, and the first connection is in use. -/
theorem unreachable_despite_success :
    let sender := new ⟨9⟩ { Config.testing with maxReconnectAttempts := 2 }.delivery
    let events := [.send 0 ⟨1⟩ .sendPartition [7], .send 0 ⟨1⟩ .sendPartition [8],
      .send 0 ⟨1⟩ .sendPartition [9], .send 0 ⟨1⟩ .sendPartition [10],
      .look 0, .look 1, .look 2, .look 3, .connected 0 (some ⟨1⟩), .connected 1 none,
      .connected 2 (some ⟨2⟩), .connected 3 none]
    let s := sender.run events
    s.verdicts = [⟨⟨1⟩, ⟨0⟩, .unreachable 2⟩, ⟨⟨1⟩, ⟨1⟩, .unreachable 2⟩,
        ⟨⟨1⟩, ⟨2⟩, .unreachable 2⟩, ⟨⟨1⟩, ⟨3⟩, .unreachable 2⟩]
      ∧ sender.attempts ⟨1⟩ events = [.opened, .refused, .spare, .refused]
      ∧ .connected ⟨1⟩ (some ⟨2⟩) ∈ s.journal ∧ s.coordinator.live ⟨1⟩ = some ⟨1⟩ := by
  intro sender events s
  have hanswers : s.openings = [(⟨1⟩, ⟨1⟩), (⟨1⟩, ⟨2⟩)] := by decide +kernel
  have hsecond : (⟨1⟩, ⟨2⟩) ∈ s.openings := by rw [hanswers]; decide
  exact ⟨by decide +kernel, by decide +kernel, mem_openings.1 hsecond, by decide +kernel⟩

end Sender

end Superstep
