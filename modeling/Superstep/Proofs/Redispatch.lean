import Superstep.Proofs.Attempts
import Superstep.Proofs.Dispatch
import Superstep.Proofs.Frames

/-!
# Superstep — what the transport is handed

Whatever is handed to the transport is a copy of a frame that a send was answered for. Many threads
hand over copies, connections come and go while they do, and a request is tried again as often as
it has attempts. Through all of this

* **`Delivers`** — every copy is the encoding of the request that was issued under its id, and is
  written to a connection that was opened to its destination;
* **`Rationed`** — of a request there are no more copies, those that some task may hand over yet
  included, than it has had attempts;
* **`redispatched`** — what a destination can rely on: ids count up from zero without a gap, copies
  of one request are the same bytes and say who sends what, and they are few.

A copy counts from the moment at which a task waits for it to be written, so that nothing is said
later of a call that the transport has not answered.
-/

namespace Superstep

open Coordinator

/-! ## Copies

A thread that waits for the transport holds the frame that it handed over, and those that follow.
What it may still hand over is read off its task: the rest of this shipment, and all later ones. -/

/-- A frame that the transport was handed, with the connection that it is for. -/
structure Copy where
  connection : ConnectionId
  peer : WorkerId
  id : RequestId
  bytes : Bytes

def Copy.key (copy : Copy) : RequestKey := (copy.peer, copy.id)

/-- What the transport answered to a call. -/
def Note.isAnswer : Note → Bool
  | connected _ _ => true
  | wrote _ _ _ _ => true
  | _ => false

/-- The copy of which the transport said whether it was written. -/
def Note.copy? : Note → Option Copy
  | wrote connection peer frame _ => some ⟨connection, peer, frame.1, frame.2⟩
  | _ => none

namespace Shipment

def entries (s : Shipment) : List (WorkerId × RequestId × Bytes) :=
  s.frames.map fun f => (s.peer, f)

def keys (s : Shipment) : List RequestKey := s.frames.map fun f => (s.peer, f.1)

theorem keys_eq (s : Shipment) : s.keys = s.entries.map fun e => (e.1, e.2.1) := by
  rw [entries, List.map_map]
  rfl

theorem flatMap_keys (shipments : List Shipment) :
    shipments.flatMap keys = (shipments.flatMap entries).map fun e => (e.1, e.2.1) := by
  rw [List.map_flatMap]
  exact congrArg (List.flatMap · shipments) (funext keys_eq)

end Shipment

namespace Task

theorem bears_iff {t : Task} {peer : WorkerId} {f : RequestId × Bytes} :
    t.Bears peer f ↔ (peer, f) ∈ t.shipments.flatMap Shipment.entries := by
  simp only [Bears, Shipment.entries, List.mem_flatMap, List.mem_map, Prod.mk.injEq]
  constructor
  · rintro ⟨s, hs, rfl, hf⟩
    exact ⟨s, hs, f, hf, rfl, rfl⟩
  · rintro ⟨s, hs, _, hf, rfl, rfl⟩
    exact ⟨s, hs, rfl, hf⟩

/-- The copy that a task waits for. -/
def copy? : Task → Option Copy
  | writing connection s _ => some ⟨connection, s.peer, s.first.1, s.first.2⟩
  | _ => none

/-- What the transport answers to a task that waits for a connection. -/
def connected? (answer : Option ConnectionId) : Task → Option Note
  | connecting s _ => some (.connected s.peer answer)
  | _ => none

/-- What the transport answers to a task that waits for its copy to be written. -/
def wrote? (accepted : Bool) : Task → Option Note
  | writing connection s _ => some (.wrote connection s.peer s.first accepted)
  | _ => none

/-- The requests of which a task may hand over a copy yet, each as often as it may. The copy that it
waits for is one of them. -/
def owed : Task → List RequestKey
  | idle => []
  | seeking s later => s.keys ++ later.flatMap Shipment.keys
  | connecting s later => s.keys ++ later.flatMap Shipment.keys
  | stranded _ later => later.flatMap Shipment.keys
  | writing _ s later => s.keys ++ later.flatMap Shipment.keys
  | failing _ s later =>
    s.rest.map (fun f => (s.peer, f.1)) ++ later.flatMap Shipment.keys

/-- A task that begins owes every frame of its shipments once. -/
theorem owed_ofShipments (shipments : List Shipment) :
    (ofShipments shipments).owed = shipments.flatMap Shipment.keys := by
  cases shipments <;> rfl

theorem owed_resend (c : Coordinator) (now : Nat) :
    (c.resend now).2.owed = (c.resend now).2.shipments.flatMap Shipment.keys := by
  unfold resend
  split
  · rfl
  · rw [owed_ofShipments, shipments_ofShipments]

theorem copy_target {t : Task} {copy : Copy} (h : t.copy? = some copy) :
    t.target? = some (copy.peer, copy.connection) ∧ t.Bears copy.peer (copy.id, copy.bytes) := by
  cases t with
  | writing connection s later =>
    cases h
    exact ⟨rfl, s, List.mem_cons_self, rfl, List.mem_cons_self⟩
  | idle | seeking | connecting | stranded | failing => cases h

/-- The copy that a task waits for is owed by it. -/
theorem mem_owed_of_copy {t : Task} {copy : Copy} (h : t.copy? = some copy) :
    copy.key ∈ t.owed := by
  cases t with
  | writing connection s later =>
    cases h
    exact List.mem_append_left _ List.mem_cons_self
  | idle | seeking | connecting | stranded | failing => cases h

end Task

namespace Coordinator

/-! ## What a task owes after its next step

A step of a task leaves what it owed, less the copy that was written and the shipment that was given
up. A check makes a task that owes a copy of each request it tries again. -/

theorem owed_advance (c : Coordinator) (connection : ConnectionId) (s : Shipment)
    (later : List Shipment) : (c.advance connection s later).2.owed
      = s.rest.map (fun f => (s.peer, f.1)) ++ later.flatMap Shipment.keys := by
  unfold advance
  split
  · next hrest => rw [Task.owed_ofShipments, hrest]; rfl
  · next first rest hrest => rw [hrest]; rfl

/-- The requests that a task turns away from at its next look: those that it was about to look for
a connection for, when the coordinator is shut down. -/
def deserted (c : Coordinator) : Task → List RequestKey
  | .seeking s _ => if c.stopped then s.keys else []
  | _ => []

/-- A look hands nothing over, and a shipment is given up only when the coordinator was shut
down. -/
theorem owed_look (c : Coordinator) (t : Task) : c.deserted t ++ (c.look t).2.owed = t.owed := by
  cases t with
  | seeking s later =>
    rw [look, deserted]
    cases c.stopped with
    | true => rfl
    | false =>
      simp only [Bool.false_eq_true, if_false]
      split <;> rfl
  | stranded s later =>
    rw [look, Task.owed_ofShipments]
    rfl
  | failing connection s later =>
    rw [look, owed_advance]
    rfl
  | idle | connecting | writing => rfl

/-- A shipment whose connect failed is not written. -/
theorem owed_afterConnect (c : Coordinator) (s : Shipment) (later : List Shipment)
    (answer : Option ConnectionId) :
    (if answer.isNone then s.keys else []) ++ (c.afterConnect s later answer).task.owed
      = (Task.connecting s later).owed := by
  cases answer with
  | none => rfl
  | some connection =>
    rw [afterConnect]
    cases c.live s.peer <;> rfl

/-- The copy that was waited for is no longer owed, whether it was written or not. -/
theorem owed_afterWrite (c : Coordinator) (connection : ConnectionId) (s : Shipment)
    (later : List Shipment) (accepted : Bool) :
    (s.peer, s.first.1) :: (c.afterWrite connection s later accepted).task.owed
      = (Task.writing connection s later).owed := by
  cases accepted with
  | false => rfl
  | true =>
    simp only [afterWrite, if_true]
    rw [owed_advance]
    rfl

theorem entries_load (peer : WorkerId) (frame : RequestId × Bytes) (loaded : List Shipment) :
    ((load peer frame loaded).flatMap Shipment.entries).Perm
      ((peer, frame) :: loaded.flatMap Shipment.entries) := by
  induction loaded with
  | nil => exact .refl _
  | cons s later ih =>
    rw [load]
    -- the frame joins a shipment to its destination, or opens a new one at the end
    split
    · next hpeer =>
      subst hpeer
      have hentries : Shipment.entries { s with rest := s.rest ++ [frame] }
          = s.entries ++ [(s.peer, frame)] := by
        simp [Shipment.entries, Shipment.frames]
      rw [List.flatMap_cons, hentries, List.append_assoc]
      exact List.perm_middle
    · exact (ih.append_left s.entries).trans List.perm_middle

theorem entries_foldl_load (entries : List (RequestKey × PendingRequest))
    (loaded : List Shipment) :
    ((entries.foldl (fun loaded e => load e.1.1 (e.1.2, e.2.frame) loaded) loaded).flatMap
      Shipment.entries).Perm
      (entries.map (fun e => (e.1.1, e.1.2, e.2.frame)) ++ loaded.flatMap Shipment.entries) := by
  -- on the requests, for any shipments that were loaded before
  induction entries generalizing loaded with
  | nil => exact .refl _
  | cons e entries ih =>
    exact (ih _).trans (((entries_load _ _ loaded).append_left _).trans List.perm_middle)

def retried (c : Coordinator) (now : Nat) : Table RequestKey PendingRequest :=
  c.pending.filter fun key r => c.isOverdue now key r && !c.isExhausted r

theorem get?_retried (c : Coordinator) (now : Nat) (key : RequestKey) :
    (c.retried now).get? key
      = (c.pending.get? key).filter fun r => c.isOverdue now key r && !c.isExhausted r :=
  Table.get?_filter _ _ _

/-- **A check loads the frames** of the requests that it tries again. -/
theorem entries_checkOverdue (c : Coordinator) (now : Nat) :
    ((c.checkOverdue now).2.flatMap Shipment.entries).Perm
      ((c.retried now).toList.map fun e => (e.1.1, e.1.2, e.2.frame)) :=
  (entries_foldl_load _ []).trans (List.append_nil _ ▸ .refl _)

theorem entries_resend {c : Coordinator} (hopen : c.stopped = false) (now : Nat) :
    ((c.resend now).2.shipments.flatMap Shipment.entries).Perm
      ((c.retried now).toList.map fun e => (e.1.1, e.1.2, e.2.frame)) := by
  have htask : (c.resend now).2 = .ofShipments (c.checkOverdue now).2 := by simp [resend, hopen]
  rw [htask, Task.shipments_ofShipments]
  exact entries_checkOverdue c now

/-- It loads one copy of each. -/
theorem count_owed_resend {c : Coordinator} (hopen : c.stopped = false) (now : Nat)
    (key : RequestKey) : (c.resend now).2.owed.count key
      = if (c.pending.get? key).any fun r => c.isOverdue now key r && !c.isExhausted r then 1
        else 0 := by
  have hkeys : ((c.resend now).2.owed).Perm (c.retried now).keys := by
    rw [Task.owed_resend, Shipment.flatMap_keys]
    exact ((entries_resend hopen now).map _).trans (by rw [List.map_map]; exact .refl _)
  rw [hkeys.count_eq, (Table.nodup_keys _).count]
  congr 1
  rw [eq_iff_iff, Table.mem_keys_iff, get?_retried]
  simp [Option.filter_eq_some_iff, Option.any_eq_true]

end Coordinator

namespace Sender

/-! ## What the transport answered

An answer is noted only when the task that it is for does wait for it. So the answers are read off
the journal, and each event adds the one that it brings, if any. -/

def answers (s : Sender) : List Note := s.journal.filter Note.isAnswer

/-- The answer that an event brings. -/
def answer? (s : Sender) : Event → Option Note
  | .connected thread answer => s.tasks[thread]?.bind (Task.connected? answer)
  | .written thread accepted => s.tasks[thread]?.bind (Task.wrote? accepted)
  | _ => none

theorem answers_append {s s' : Sender} {notes : List Note} (h : s'.journal = s.journal ++ notes) :
    s'.answers = s.answers ++ notes.filter Note.isAnswer := by
  rw [answers, h, List.filter_append]
  rfl

theorem filter_closings (connections : List ConnectionId) :
    (connections.map Note.closing).filter Note.isAnswer = [] := by
  rw [List.filter_eq_nil_iff]
  intro n hn
  obtain ⟨connection, _, rfl⟩ := List.mem_map.1 hn
  exact Bool.false_ne_true

theorem answers_goOn (s : Sender) (thread : Nat) (note : Note) (hnote : note.isAnswer = true)
    (p : Progress) : (s.goOn thread note p).answers = s.answers ++ [note] := by
  rw [answers_append rfl, List.filter_cons_of_pos hnote, filter_closings]

/-- **The transport answers the calls** that threads wait for, and no others. -/
theorem answers_step (s : Sender) (e : Event) :
    (s.step e).answers = s.answers ++ (s.answer? e).toList := by
  -- most events bring no answer, whatever else they note
  have hquiet : ∀ {s' : Sender} {notes : List Note}, s'.journal = s.journal ++ notes →
      notes.filter Note.isAnswer = [] → s'.answers = s.answers ++ (none : Option Note).toList := by
    intro s' notes hjournal hnotes
    rw [answers_append hjournal, hnotes]
    rfl
  have hsame : s.journal = s.journal ++ [] := (List.append_nil _).symm
  cases e with
  | send now peer type payload =>
    simp only [step]
    split
    · exact hquiet hsame rfl
    · exact hquiet rfl rfl
  | resend | wake => exact hquiet hsame rfl
  | look thread =>
    simp only [step]
    split <;> exact hquiet hsame rfl
  | connected thread answer =>
    simp only [step, answer?]
    cases htask : s.tasks[thread]? with
    | none => exact hquiet hsame rfl
    | some task =>
      cases task with
      | connecting shipment later =>
        exact answers_goOn s thread (.connected shipment.peer answer) rfl _
      | idle | seeking | stranded | writing | failing => exact hquiet hsame rfl
  | written thread accepted =>
    simp only [step, answer?]
    cases htask : s.tasks[thread]? with
    | none => exact hquiet hsame rfl
    | some task =>
      cases task with
      | writing connection shipment later =>
        exact answers_goOn s thread (.wrote connection shipment.peer shipment.first accepted) rfl _
      | idle | seeking | connecting | stranded | failing => exact hquiet hsame rfl
  | response bytes =>
    refine hquiet rfl ?_
    rcases onResponse_spec s.coordinator bytes with
      ⟨_, h⟩ | ⟨_, _, _, _, h⟩ | ⟨_, _, _, _, _, h⟩ <;> rw [h] <;> rfl
  | closed connection => exact hquiet rfl rfl
  | alarm connection =>
    simp only [step]
    split <;> exact hquiet hsame rfl
  | await =>
    simp only [step]
    split
    · exact hquiet hsame rfl
    · exact hquiet rfl rfl
  | shutdown => exact hquiet rfl (filter_closings _)

/-! ## What was handed over

A copy is in the hands of the transport from the moment a task waits for it. When the answer comes
it moves from the tasks to the journal, and in between it is counted once. -/

/-- The copies that the transport answered for. -/
def written (s : Sender) : List Copy := s.answers.filterMap Note.copy?

/-- The copies that the transport was handed: those that it answered for, and those in its hands. -/
def handed (s : Sender) : List Copy := s.written ++ s.tasks.filterMap Task.copy?

/-- An event adds the copy that the transport has answered, if it was about one. -/
theorem written_step (s : Sender) (e : Event) :
    (s.step e).written = s.written ++ ((s.answer? e).bind Note.copy?).toList := by
  rw [written, written, answers_step, List.filterMap_append]
  cases s.answer? e with
  | none => rfl
  | some note =>
    rw [Option.toList_some, Option.bind_some, List.filterMap_cons]
    cases note.copy? <;> rfl

/-- **The transport answers for what it was handed.** -/
theorem mem_handed_of_mem_written_step {s : Sender} {e : Event} {copy : Copy}
    (h : copy ∈ (s.step e).written) : copy ∈ s.handed := by
  rw [written_step, List.mem_append, Option.mem_toList] at h
  refine List.mem_append.2 (h.imp_right fun h => ?_)
  obtain ⟨note, hnote, hcopy⟩ := Option.bind_eq_some_iff.1 h
  -- a copy is answered for when the thread that waits for it takes up the answer
  cases e with
  | written thread accepted =>
    obtain ⟨task, htask, hwrote⟩ := Option.bind_eq_some_iff.1 hnote
    refine List.mem_filterMap.2 ⟨task, List.mem_of_getElem? htask, ?_⟩
    cases task with
    | writing connection shipment later =>
      cases hwrote
      exact hcopy
    | idle | seeking | connecting | stranded | failing => cases hwrote
  | connected thread answer =>
    obtain ⟨task, htask, hconnected⟩ := Option.bind_eq_some_iff.1 hnote
    cases task with
    | connecting shipment later =>
      cases hconnected
      cases hcopy
    | idle | seeking | stranded | writing | failing => cases hconnected
  | send | resend | wake | look | response | closed | alarm | await | shutdown => cases hnote

/-! ## Copies are true to what was issued

The frames come from requests in flight, and these were issued. The connection of a copy is one that
was opened to its destination, since tasks take connections from where they are recorded. -/

/-- What was handed over is what was issued, over connections that were opened for it. -/
structure Delivers (s : Sender) : Prop where
  carries : Carries s
  uses : s.Uses fun peer connection => .connected peer (some connection) ∈ s.journal
  written : ∀ copy ∈ s.written, s.HasIssued copy.peer copy.id copy.bytes
    ∧ .connected copy.peer (some copy.connection) ∈ s.journal

theorem delivers_new (worker : WorkerId) (config : DeliveryConfig) :
    Delivers (new worker config) where
  carries := carries_new worker config
  uses := uses_new worker config _
  written _ h := by cases h

/-- What a task waits for was issued, and so was what it waited for before. -/
theorem Delivers.handed {s : Sender} (h : Delivers s) {copy : Copy} (hcopy : copy ∈ s.handed) :
    s.HasIssued copy.peer copy.id copy.bytes
      ∧ .connected copy.peer (some copy.connection) ∈ s.journal := by
  rcases List.mem_append.1 hcopy with hcopy | hcopy
  · exact h.written copy hcopy
  · obtain ⟨task, htask, hcopy⟩ := List.mem_filterMap.1 hcopy
    obtain ⟨htarget, hbears⟩ := Task.copy_target hcopy
    exact ⟨h.carries.tasks htask hbears, h.uses.tasks htask htarget⟩

theorem delivers_step {s : Sender} (h : Delivers s) (e : Event) : Delivers (s.step e) := by
  have hgrow := journal_step s e
  refine ⟨carries_step h.carries e, ?_, fun copy hcopy => ?_⟩
  · refine uses_step (h.uses.mono fun hnote => hgrow.subset hnote) e ?_
    rintro thread connection shipment later rfl htask
    simp [step, htask, goOn]
  · obtain ⟨hissued, hconnected⟩ := h.handed (mem_handed_of_mem_written_step hcopy)
    exact ⟨hissued.mono hgrow, hgrow.subset hconnected⟩

theorem delivers_run {s : Sender} (h : Delivers s) (events : List Event) :
    Delivers (s.run events) := by
  induction events generalizing s with
  | nil => exact h
  | cons e events ih => exact ih (delivers_step h e)

/-! ## Copies are few

The attempts of a request bound what is written and what is owed together. A send and a check both
raise the bound by one before a task owes one more, and nothing else owes anything new. -/

/-- The requests of which a copy was written or may be handed over yet, each as often as that. -/
def spent (s : Sender) : List RequestKey := s.written.map Copy.key ++ s.tasks.flatMap Task.owed

/-- What is in the hands of the transport is owed. -/
theorem count_handed_le (s : Sender) (key : RequestKey) :
    (s.handed.map Copy.key).count key ≤ s.spent.count key := by
  have htasks : ((s.tasks.filterMap Task.copy?).map Copy.key).Sublist
      (s.tasks.flatMap Task.owed) := by
    -- a task that waits for a copy owes it, and it is counted with the first of the two
    induction s.tasks with
    | nil => exact .slnil
    | cons t tasks ih =>
      rw [List.flatMap_cons]
      cases hcopy : t.copy? with
      | none =>
        rw [List.filterMap_cons_none hcopy]
        exact ih.trans (List.sublist_append_right _ _)
      | some copy =>
        rw [List.filterMap_cons_some hcopy]
        exact (List.singleton_sublist.2 (Task.mem_owed_of_copy hcopy)).append ih
  rw [handed, List.map_append]
  exact (htasks.append_left _).count_le key

/-- Of every request there are no more copies than it has had attempts, and it has had no more
attempts than it may have. -/
structure Rationed (s : Sender) : Prop where
  pending : ∀ {key r}, s.coordinator.pending.get? key = some r →
    s.spent.count key ≤ r.attempts ∧ r.attempts ≤ max 1 s.coordinator.config.maxRequestAttempts
  settled : ∀ key, s.spent.count key ≤ max 1 s.coordinator.config.maxRequestAttempts
  unissued : ∀ {key}, key ∉ s.issuedKeys → s.spent.count key = 0

theorem rationed_new (worker : WorkerId) (config : DeliveryConfig) :
    Rationed (new worker config) where
  pending h := by cases h
  settled _ := Nat.zero_le _
  unissued _ := rfl

/-- Nothing is tried again, and no copy is handed over that was not owed. -/
theorem Rationed.of_le {s s' : Sender} (h : Rationed s) (hgrow : s.journal <+: s'.journal)
    (hconfig : s'.coordinator.config = s.coordinator.config)
    (hpending : ∀ {key r'}, s'.coordinator.pending.get? key = some r' →
      ∃ r, s.coordinator.pending.get? key = some r ∧ r'.attempts = r.attempts
        ∧ r'.dispatchedAt = r.dispatchedAt)
    (hspent : ∀ key, s'.spent.count key ≤ s.spent.count key) : Rationed s' where
  pending {key r'} hr' := by
    obtain ⟨r, hr, hattempts, _⟩ := hpending hr'
    obtain ⟨hfew, hlimit⟩ := h.pending hr
    rw [hattempts, hconfig]
    exact ⟨(hspent key).trans hfew, hlimit⟩
  settled key := by
    rw [hconfig]
    exact (hspent key).trans (h.settled key)
  unissued {key} hkey := by
    have hold : key ∉ s.issuedKeys := fun hmem => hkey (((issued_mono hgrow).map _).subset hmem)
    exact Nat.le_zero.1 ((hspent key).trans (h.unissued hold).le)

theorem count_flatMap_set {A B : Type} [BEq B] {l : List A} {n : Nat} {a : A} (h : l[n]? = some a)
    (a' : A) (f : A → List B) (b : B) :
    ((l.set n a').flatMap f).count b + (f a).count b
      = (l.flatMap f).count b + (f a').count b := by
  induction l generalizing n with
  | nil => cases h
  | cons x l ih =>
    cases n with
    | zero =>
      cases h
      simp only [List.set_cons_zero, List.flatMap_cons, List.count_append]
      omega
    | succ n =>
      have := ih h
      simp only [List.set_cons_succ, List.flatMap_cons, List.count_append]
      omega

/-- A new task owes what it owes, besides all that was owed before. -/
theorem count_spent_append {s s' : Sender} {task : Task} (hwritten : s'.written = s.written)
    (htasks : s'.tasks = s.tasks ++ [task]) (key : RequestKey) :
    s'.spent.count key = s.spent.count key + task.owed.count key := by
  rw [spent, spent, hwritten, htasks, List.flatMap_append, List.flatMap_singleton]
  simp only [List.count_append]
  omega

/-- A task that goes on is the only one whose debts change. -/
theorem count_spent_set {s s' : Sender} {thread : Nat} {task task' : Task}
    {answered : Option Copy} (htask : s.tasks[thread]? = some task)
    (hwritten : s'.written = s.written ++ answered.toList)
    (htasks : s'.tasks = s.tasks.set thread task') (key : RequestKey) :
    s'.spent.count key + task.owed.count key
      = s.spent.count key + (answered.toList.map Copy.key ++ task'.owed).count key := by
  have hset := count_flatMap_set htask task' Task.owed key
  rw [spent, spent, hwritten, htasks, List.map_append]
  simp only [List.count_append]
  omega

/-- A request that is taken on had no copies before, and is owed one. -/
theorem Rationed.of_takesOn {s s' : Sender} (h : Rationed s) (hbooks : Books s) (hfew : s.Unwrapped)
    {now : Nat} {peer : WorkerId} {frame : RequestFrame} {bytes : Bytes}
    (hstep : TakesOn s.coordinator s'.coordinator now peer frame bytes)
    (hissued : s'.issued = s.issued ++ [(peer, frame)])
    (hspent : ∀ key, s'.spent.count key = s.spent.count key + [(peer, frame.id)].count key) :
    Rationed s' := by
  -- its id is fresh, so nothing was owed under it
  have hnew : s.spent.count (peer, frame.id) = 0 :=
    h.unissued (hstep.id ▸ hbooks.nextId_fresh hfew peer)
  have hone : s'.spent.count (peer, frame.id) = 1 := by
    rw [hspent, hnew, List.count_singleton_self]
  have hother : ∀ key ≠ (peer, frame.id), s'.spent.count key = s.spent.count key := by
    intro key hkey
    rw [hspent, List.count_eq_zero_of_not_mem fun hmem => hkey (List.mem_singleton.1 hmem),
      Nat.add_zero]
  refine ⟨fun {key r} hr => ?_, fun key => ?_, fun {key} hkey => ?_⟩
  · rw [hstep.config]
    rw [hstep.pending, Table.get?_insert] at hr
    split at hr
    · next heq =>
      cases hr
      rw [heq, hone]
      exact ⟨Nat.le_refl 1, Nat.le_max_left _ _⟩
    · next hne =>
      rw [hother key hne]
      exact h.pending hr
  · rw [hstep.config]
    by_cases heq : key = (peer, frame.id)
    · rw [heq, hone]
      exact Nat.le_max_left _ _
    · rw [hother key heq]
      exact h.settled key
  · have hkeys : s'.issuedKeys = s.issuedKeys ++ [(peer, frame.id)] := by
      rw [issuedKeys, hissued, List.map_append]
      rfl
    rw [hkeys, List.mem_append, List.mem_singleton, not_or] at hkey
    rw [hother key hkey.2]
    exact h.unissued hkey.1

/-- A check takes an attempt of each request that it loads a copy of. -/
theorem rationed_resend {s : Sender} (h : Rationed s) (hbooks : Books s) (now : Nat) :
    Rationed (s.step (.resend now)) := by
  have hspent : ∀ key, (s.step (.resend now)).spent.count key
      = s.spent.count key + (s.coordinator.resend now).2.owed.count key :=
    count_spent_append rfl rfl
  have hconfig := config_step s (.resend now)
  cases hopen : s.coordinator.stopped with
  | true =>
    have hidle : s.coordinator.resend now = (s.coordinator, .idle) := by simp [resend, hopen]
    refine h.of_le List.prefix_rfl hconfig ?_ fun key => ?_
    · intro key r' hr'
      rw [step, hidle] at hr'
      exact ⟨r', hr', rfl, rfl⟩
    · rw [hspent, hidle]
      exact Nat.le_refl _
  | false =>
    have hchecked : (s.step (.resend now)).coordinator = (s.coordinator.checkOverdue now).1 := by
      simp [step, resend, hopen]
    -- an open coordinator checks, and then each request is untouched, tried again or given up
    have hcount := fun key => (hspent key).trans
      (congrArg (_ + ·) (count_owed_resend hopen now key))
    refine ⟨fun {key r'} hr' => ?_, fun key => ?_, fun {key} hkey => ?_⟩
    · rw [hchecked, get?_checkOverdue] at hr'
      obtain ⟨r, hr, hnext⟩ := Option.bind_eq_some_iff.1 hr'
      obtain ⟨hleft, hlimit⟩ := h.pending hr
      rw [hcount, hconfig, hr, Option.any_some]
      cases hoverdue : s.coordinator.isOverdue now key r with
      | false =>
        obtain rfl : r = r' := by simpa [hoverdue] using hnext
        exact ⟨hleft, hlimit⟩
      | true =>
        cases hexhausted : s.coordinator.isExhausted r with
        | true => simp [hoverdue, hexhausted] at hnext
        | false =>
          obtain rfl := Option.some.inj (by simpa [hoverdue, hexhausted] using hnext)
          have hmore : r.attempts < s.coordinator.config.maxRequestAttempts := by
            simpa [isExhausted] using hexhausted
          exact ⟨Nat.add_le_add_right hleft 1, (Nat.succ_le_of_lt hmore).trans (le_max_right _ _)⟩
    · rw [hcount, hconfig]
      split
      · next htried =>
        obtain ⟨r, hr, htried⟩ := (Option.any_eq_true _ _).1 htried
        obtain ⟨hleft, _⟩ := h.pending hr
        have hmore : r.attempts < s.coordinator.config.maxRequestAttempts := by
          simpa [isExhausted] using (Bool.and_eq_true_iff.1 htried).2
        omega
      · exact h.settled key
    · -- a request in flight was issued, so one that was not issued is not in flight
      have hnone : s.coordinator.pending.get? key = none :=
        Option.eq_none_iff_forall_ne_some.2 fun r hr =>
          hkey (hbooks.mem_issuedKeys (Table.mem_keys_iff.2 ⟨r, hr⟩))
      rw [hcount, hnone]
      exact h.unissued hkey

/-- The requests that an event leaves without a copy that was owed: no connection could be opened
for them, or the coordinator was shut down before one was looked for. -/
def missedBy (s : Sender) : Event → List RequestKey
  | .look thread => (s.tasks[thread]?.map s.coordinator.deserted).getD []
  | .connected thread answer =>
    match s.tasks[thread]? with
    | some (.connecting shipment _) => if answer.isNone then shipment.keys else []
    | _ => []
  | _ => []

/-- **Copies that are owed** are written or missed, and only sends and checks owe more of them. -/
theorem count_spent_step {s : Sender} {e : Event}
    (hsend : ∀ now peer type payload, e ≠ .send now peer type payload)
    (hresend : ∀ now, e ≠ .resend now) (key : RequestKey) :
    (s.missedBy e).count key + (s.step e).spent.count key = s.spent.count key := by
  have hwritten := written_step s e
  have hsame : s.answer? e = none → s.missedBy e = [] → (s.step e).tasks = s.tasks →
      (s.missedBy e).count key + (s.step e).spent.count key = s.spent.count key := by
    intro hnone hmissed htasks
    rw [hnone, Option.bind_none, Option.toList_none, List.append_nil] at hwritten
    rw [spent, spent, hwritten, htasks, hmissed, List.count_nil, Nat.zero_add]
  cases e with
  | send now peer type payload => exact absurd rfl (hsend now peer type payload)
  | resend now => exact absurd rfl (hresend now)
  | look thread =>
    cases htask : s.tasks[thread]? with
    | none => exact hsame rfl (by simp [missedBy, htask]) (by simp only [step, htask])
    | some task =>
      have htasks : (s.step (.look thread)).tasks
          = s.tasks.set thread (s.coordinator.look task).2 := by simp only [step, htask]
      have hset := count_spent_set htask hwritten htasks key
      have howed := congrArg (List.count key) (owed_look s.coordinator task)
      simp only [answer?, Option.bind_none, Option.toList_none, List.map_nil, List.nil_append]
        at hset
      simp only [missedBy, htask, Option.map_some, Option.getD_some]
      rw [List.count_append] at howed
      omega
  | connected thread answer =>
    cases htask : s.tasks[thread]? with
    | none =>
      exact hsame (by simp [answer?, htask]) (by simp [missedBy, htask])
        (by simp only [step, htask])
    | some task =>
      cases task with
      | connecting shipment later =>
        have htasks : (s.step (.connected thread answer)).tasks = s.tasks.set thread
            (s.coordinator.afterConnect shipment later answer).task := by
          simp only [step, htask, goOn]
        have hset := count_spent_set htask hwritten htasks key
        have howed := congrArg (List.count key)
          (owed_afterConnect s.coordinator shipment later answer)
        simp only [answer?, htask, Option.bind_some, Task.connected?, Note.copy?,
          Option.toList_none, List.map_nil, List.nil_append] at hset
        simp only [missedBy, htask]
        rw [List.count_append] at howed
        omega
      | idle | seeking | stranded | writing | failing =>
        exact hsame (by simp [answer?, htask, Task.connected?]) (by simp [missedBy, htask])
          (by simp only [step, htask])
  -- the copy that was waited for is written now, and no longer owed
  | written thread accepted =>
    cases htask : s.tasks[thread]? with
    | none => exact hsame (by simp [answer?, htask]) rfl (by simp only [step, htask])
    | some task =>
      cases task with
      | writing connection shipment later =>
        have htasks : (s.step (.written thread accepted)).tasks = s.tasks.set thread
            (s.coordinator.afterWrite connection shipment later accepted).task := by
          simp only [step, htask, goOn]
        have hset := count_spent_set htask hwritten htasks key
        rw [← owed_afterWrite s.coordinator connection shipment later accepted] at hset
        simp only [answer?, htask, Option.bind_some, Task.wrote?, Note.copy?, Option.toList_some,
          List.map_singleton, List.singleton_append, Copy.key] at hset
        simp only [missedBy, List.count_nil]
        omega
      | idle | seeking | connecting | stranded | failing =>
        exact hsame (by simp [answer?, htask, Task.wrote?]) rfl (by simp only [step, htask])
  | await | alarm =>
    refine hsame rfl rfl ?_
    simp only [step]
    split <;> rfl
  | wake | response | closed | shutdown => exact hsame rfl rfl rfl

/-- Only sends and checks owe copies that were not owed before. -/
theorem count_spent_step_le {s : Sender} {e : Event}
    (hsend : ∀ now peer type payload, e ≠ .send now peer type payload)
    (hresend : ∀ now, e ≠ .resend now) (key : RequestKey) :
    (s.step e).spent.count key ≤ s.spent.count key :=
  (Nat.le_add_left _ _).trans_eq (count_spent_step hsend hresend key)

/-- **No step hands over a copy too many.** -/
theorem rationed_step {s : Sender} (h : Rationed s) (hbooks : Books s) (hfew : s.Unwrapped)
    (e : Event) : Rationed (s.step e) := by
  cases e with
  | send now peer type payload =>
    cases hsend : s.coordinator.send now peer type payload with
    | error e => simpa only [step, hsend] using h
    | ok sent =>
      obtain ⟨id, c, task⟩ := sent
      obtain ⟨bytes, htakes, rfl⟩ := send_spec hsend
      have hwritten := written_step s (.send now peer type payload)
      simp only [step, hsend] at hwritten ⊢
      refine h.of_takesOn hbooks hfew htakes (by simp [issued, Note.issued?]) fun key => ?_
      exact count_spent_append (hwritten.trans (List.append_nil _)) rfl key
  | resend now => exact rationed_resend h hbooks now
  | wake | look | connected | written | response | closed | alarm | await | shutdown =>
    exact h.of_le (journal_step s _) (config_step s _) (kept_step (by simp) (by simp))
      (count_spent_step_le (by simp) (by simp))

/-- Copies are few in every state, as long as ids do not wrap around. -/
theorem rationed_run {s : Sender} (h : Rationed s) (hbooks : Books s) (events : List Event)
    (hfew : (s.run events).Unwrapped) : Rationed (s.run events) := by
  induction events generalizing s with
  | nil => exact h
  | cons e events ih =>
    -- the journal only grows, so ids have not wrapped around before either
    have hs : s.Unwrapped := hfew.mono (journal_run s (e :: events))
    exact ih (rationed_step h hbooks hs e) (books_step hbooks e hs) hfew

/-! ## What a destination can rely on

Ids count up from zero for each destination, so an id that was issued is the place of its frame in
what was sent there. -/

/-- The request that was issued under an id is the one at its place. -/
theorem HasIssued.getElem? {s : Sender} {peer : WorkerId} {id : RequestId} {bytes : Bytes}
    (h : s.HasIssued peer id bytes) (hbooks : Books s) (hfew : s.Unwrapped) :
    ∃ frame, (s.sentTo peer)[id.val.toNat]? = some frame ∧ frame.id = id
      ∧ frame.encode = .ok bytes := by
  obtain ⟨frame, hissued, rfl, hencode⟩ := h
  have hmem : frame ∈ s.sentTo peer :=
    List.mem_map.2 ⟨(peer, frame), List.mem_filter.2 ⟨hissued, by simp⟩, rfl⟩
  obtain ⟨k, hk, hframe⟩ := List.getElem_of_mem hmem
  have hid : ((s.sentTo peer).map RequestFrame.id)[k]? = some frame.id := by
    rw [List.getElem?_map, List.getElem?_eq_getElem hk, hframe]
    rfl
  rw [hbooks.ids, List.getElem?_map, List.getElem?_range hk] at hid
  have hnth : frame.id = .nth k := (Option.some.inj hid).symm
  refine ⟨frame, ?_, rfl, hencode⟩
  rw [hnth, RequestId.toNat_nth (hk.trans (hfew peer)), List.getElem?_eq_getElem hk, hframe]

/-- **Redispatch is identical, ids are dense, copies are bounded.** Take any run in which no
destination is sent 2 ^ 64 requests. A send that is refused changes nothing; one that succeeds
returns the number of requests that the destination was sent before, whatever other destinations
were sent, and nothing else issues a request. Whatever the transport was handed for a destination,
however often a request was tried, is the encoding of the request that was issued under its id, is
read back as that request with the sender's own worker, and is the same for all copies of it. It is
written to a connection that was opened to this destination. Of no request there are more copies
than it may have attempts. -/
theorem redispatched (worker : WorkerId) (config : DeliveryConfig) (events : List Event)
    (hfew : ((new worker config).run events).Unwrapped) :
    let s := (new worker config).run events
    (∀ now peer type payload,
        match s.coordinator.send now peer type payload with
        | .error _ => s.step (.send now peer type payload) = s
        | .ok (id, _, _) => id.val.toNat = (s.sentTo peer).length
          ∧ (s.step (.send now peer type payload)).issued
            = s.issued ++ [(peer, { sender := worker, id, type, payload })])
      ∧ (∀ e, (∀ now peer type payload, e ≠ .send now peer type payload) →
          (s.step e).issued = s.issued)
      ∧ (∀ copy ∈ s.handed,
          (∃ frame, (s.sentTo copy.peer)[copy.id.val.toNat]? = some frame
            ∧ frame.sender = worker ∧ frame.id = copy.id
            ∧ frame.encode = .ok copy.bytes ∧ Frame.decode copy.bytes = .ok (.request frame))
          ∧ .connected copy.peer (some copy.connection) ∈ s.journal
          ∧ ∀ other ∈ s.handed, other.key = copy.key → other.bytes = copy.bytes)
      ∧ ∀ key, (s.handed.map Copy.key).count key ≤ max 1 config.maxRequestAttempts := by
  intro s
  have hbooks : Books s := books_run (books_new worker config) events hfew
  have hdelivers : Delivers s := delivers_run (delivers_new worker config) events
  have hrationed : Rationed s :=
    rationed_run (rationed_new worker config) (books_new worker config) events hfew
  have hworker : s.coordinator.worker = worker := worker_run (new worker config) events
  have hconfig : s.coordinator.config = config := config_run (new worker config) events
  refine ⟨fun now peer type payload => ?_, fun e he => ?_, fun copy hcopy => ⟨?_, ?_, ?_⟩,
    fun key => ?_⟩
  · cases hsend : s.coordinator.send now peer type payload with
    | error e => simp only [step, hsend]
    | ok sent =>
      obtain ⟨id, c, task⟩ := sent
      obtain ⟨bytes, htakes, -⟩ := send_spec hsend
      -- the id is the number of requests before, by the books
      have hid : id = .nth (s.sentTo peer).length := htakes.id.trans (hbooks.nextId peer)
      refine ⟨by rw [hid, RequestId.toNat_nth (hfew peer)], ?_⟩
      simp [step, hsend, issued, Note.issued?, hworker]
  · cases step_moved s e with
    | issued now peer frame _ hevent _ _ _ _ => exact absurd hevent (he _ _ _ _)
    | acknowledged _ _ _ _ _ _ hissued _ _ => exact hissued
    | gaveUp _ _ _ hissued _ _ => exact hissued
    | told _ _ hissued _ _ => exact hissued
  · obtain ⟨frame, hframe, hid, hencode⟩ := (hdelivers.handed hcopy).1.getElem? hbooks hfew
    have hmem := List.mem_of_getElem? hframe
    obtain ⟨⟨peer, frame⟩, hissued, rfl⟩ := List.mem_map.1 hmem
    have hsender := hdelivers.carries.sender (List.mem_filter.1 hissued).1
    exact ⟨frame, hframe, hsender.trans hworker, hid, hencode, RequestFrame.decode_encode hencode⟩
  · exact (hdelivers.handed hcopy).2
  · intro other hother hkey
    obtain ⟨hpeer, hid⟩ := Prod.mk.inj hkey
    obtain ⟨frame, hframe, -, hencode⟩ := (hdelivers.handed hcopy).1.getElem? hbooks hfew
    obtain ⟨frame', hframe', -, hencode'⟩ := (hdelivers.handed hother).1.getElem? hbooks hfew
    -- one frame was issued under the id, and a frame has one encoding
    rw [hpeer, hid, hframe] at hframe'
    obtain rfl := Option.some.inj hframe'
    exact Except.ok.inj (hencode'.symm.trans hencode)
  · rw [← hconfig]
    exact (s.count_handed_le key).trans (hrationed.settled key)

/-- A request that is written once and is in the hands of the transport again, while another
destination was sent one too. -/
theorem redispatched_overdue :
    let s := (new ⟨9⟩ Config.testing.delivery).run
      [.send 0 ⟨1⟩ .sendPartition [7], .look 0, .connected 0 (some ⟨1⟩), .written 0 true,
        .send 10 ⟨2⟩ .sendPartition [8], .resend 201, .look 2]
    s.Unwrapped ∧ s.handed.map Copy.key = [(⟨1⟩, ⟨0⟩), (⟨1⟩, ⟨0⟩)]
      ∧ (∀ copy ∈ s.handed, copy.connection = ⟨1⟩
        ∧ Frame.decode copy.bytes = .ok (.request ⟨⟨9⟩, ⟨0⟩, .sendPartition, [7]⟩))
      ∧ (s.handed.map Copy.key).count (⟨1⟩, ⟨0⟩) ≤ 5 := by
  intro s
  have hfew : s.Unwrapped := unwrapped_of_length (by decide)
  obtain ⟨-, -, hcopies, hcount⟩ := redispatched ⟨9⟩ Config.testing.delivery _ hfew
  have hkeys : s.handed.map Copy.key = [(⟨1⟩, ⟨0⟩), (⟨1⟩, ⟨0⟩)] := by decide +kernel
  have hused : ∀ copy ∈ s.handed, copy.connection = ⟨1⟩ := by decide +kernel
  have hsent : s.sentTo ⟨1⟩ = [⟨⟨9⟩, ⟨0⟩, .sendPartition, [7]⟩] := by decide +kernel
  refine ⟨hfew, hkeys, fun copy hcopy => ⟨hused copy hcopy, ?_⟩, hcount (⟨1⟩, ⟨0⟩)⟩
  obtain ⟨⟨frame, hframe, -, -, -, hdecode⟩, -, -⟩ := hcopies copy hcopy
  have hkey : copy.key = (⟨1⟩, ⟨0⟩) := by
    have hmem := List.mem_map_of_mem (f := Copy.key) hcopy
    simpa [hkeys] using hmem
  obtain ⟨hpeer, hid⟩ := Prod.mk.inj hkey
  rw [hpeer, hid, hsent] at hframe
  obtain rfl := Option.some.inj hframe
  exact hdecode

end Sender

end Superstep
