import Mathlib.Data.List.Infix
import Superstep.Proofs.Coordinator

/-!
# Superstep — what a step of a sender does to its requests

Eleven kinds of events can happen to a sender, and a thread may stand at six places. To the
requests they do only four things: one is issued, one is acknowledged, some are given up,
possibly none, or the failures are told (`Moved`). **`step_moved`** proves it once, so that an
invariant about requests has four cases and never looks into a step. What threads and the
transport do is `Edited` whatever place it happens at.

A step only adds to the journal (`journal_step`), so whatever it says stays said.
-/

namespace Superstep

open Coordinator

namespace Sender

/-- Everything that an event can do to the requests of a sender. -/
inductive Moved (s : Sender) (e : Event) (s' : Sender) : Prop
  | issued (now : Nat) (peer : WorkerId) (frame : RequestFrame) (bytes : Bytes)
      (hevent : e = .send now peer frame.type frame.payload)
      (hstep : TakesOn s.coordinator s'.coordinator now peer frame bytes)
      (hissued : s'.issued = s.issued ++ [(peer, frame)])
      (hacked : s'.acked = s.acked) (hreported : s'.reported = s.reported)
  | acknowledged (bytes : Bytes) (key : RequestKey)
      (hevent : e = .response bytes)
      (hdecode : Frame.decode bytes = .ok (.response (.ack key.1 key.2)))
      (hpending : s.coordinator.pending.contains key = true)
      (hstep : s'.coordinator = { s.coordinator with
        pending := s.coordinator.pending.erase key
        metrics := { s.coordinator.metrics with acks := s.coordinator.metrics.acks + 1 } })
      (hissued : s'.issued = s.issued)
      (hacked : s'.acked = s.acked ++ [key]) (hreported : s'.reported = s.reported)
  | gaveUp (given : List DeliveryFailure)
      (hstep : Yields s.coordinator s'.coordinator given)
      (hreason : ∀ f ∈ given, f.reason.IsRejection → ∃ bytes reason, e = .response bytes
        ∧ Frame.decode bytes = .ok (.response (.failed f.destination f.request reason)))
      (hissued : s'.issued = s.issued)
      (hacked : s'.acked = s.acked) (hreported : s'.reported = s.reported)
  | told (hevent : e = .await)
      (hstep : s'.coordinator = { s.coordinator with failures := [] })
      (hissued : s'.issued = s.issued)
      (hacked : s'.acked = s.acked)
      (hreported : s'.reported = s.reported ++ s.coordinator.failures)

/-- An entry that says nothing about the fate of a request. -/
def Quiet (n : Note) : Prop :=
  n.issued? = none ∧ n.acknowledged? = none ∧ n.failures = []

/-- Requests are given up for another reason than a rejection, and nothing is noted about them. -/
theorem Moved.quietly {s s' : Sender} {e : Event} {notes : List Note}
    {given : List DeliveryFailure} (hstep : Yields s.coordinator s'.coordinator given)
    (hreason : ∀ f ∈ given, ¬ f.reason.IsRejection)
    (hjournal : s'.journal = s.journal ++ notes) (hquiet : ∀ n ∈ notes, Quiet n) :
    Moved s e s' := by
  have hissued : notes.filterMap Note.issued? = [] :=
    List.filterMap_eq_nil_iff.2 fun n hn => (hquiet n hn).1
  have hacked : notes.filterMap Note.acknowledged? = [] :=
    List.filterMap_eq_nil_iff.2 fun n hn => (hquiet n hn).2.1
  have hreported : notes.flatMap Note.failures = [] :=
    List.flatMap_eq_nil_iff.2 fun n hn => (hquiet n hn).2.2
  refine .gaveUp given hstep (fun f hf h => absurd h (hreason f hf)) ?_ ?_ ?_
  · rw [Sender.issued, hjournal, List.filterMap_append, hissued, List.append_nil]; rfl
  · rw [Sender.acked, hjournal, List.filterMap_append, hacked, List.append_nil]; rfl
  · rw [Sender.reported, hjournal, List.flatMap_append, hreported, List.append_nil]; rfl

theorem Moved.refl (s : Sender) (e : Event) : Moved s e s :=
  .quietly (.refl _) (by simp) (List.append_nil _).symm (by simp)

theorem quiet_goOn (note : Note) (p : Progress) (h : Quiet note) :
    ∀ n ∈ note :: p.close.toList.map Note.closing, Quiet n := by
  intro n hn
  rcases List.mem_cons.1 hn with rfl | hn
  · exact h
  · obtain ⟨connection, _, rfl⟩ := List.mem_map.1 hn
    exact ⟨rfl, rfl, rfl⟩

/-! ## Edits

Six kinds of events are edits and no more. One that gives nothing up moves no request, and the
others are treated by themselves in `step_moved`. -/

/-- `s'` is `s` after edits, with a journal that says no more about the fate of requests. -/
structure Edited (s s' : Sender) : Prop where
  coordinator : Edits s.coordinator s'.coordinator
  journal : ∃ notes, s'.journal = s.journal ++ notes ∧ ∀ n ∈ notes, Quiet n

theorem Edited.refl (s : Sender) : Edited s s := ⟨.refl, [], (List.append_nil _).symm, by simp⟩

/-- Edits give requests up, if anything. -/
theorem Edited.moved {s s' : Sender} (h : Edited s s') (e : Event) : Moved s e s' := by
  obtain ⟨given, hyields, hreason⟩ := yields_edits h.coordinator
  obtain ⟨notes, hjournal, hquiet⟩ := h.journal
  exact .quietly hyields hreason hjournal hquiet

theorem edited_wake (s : Sender) : Edited s (s.step .wake) :=
  ⟨.single (.flag _ false), [], (List.append_nil _).symm, by simp⟩

theorem edited_look (s : Sender) (thread : Nat) : Edited s (s.step (.look thread)) := by
  simp only [step]
  split
  · exact .refl s
  · next task _ =>
    exact ⟨edits_look s.coordinator task, [], (List.append_nil _).symm, by simp⟩

theorem edited_connected (s : Sender) (thread : Nat) (answer : Option ConnectionId) :
    Edited s (s.step (.connected thread answer)) := by
  simp only [step]
  split
  · next shipment later _ =>
    exact ⟨edits_afterConnect s.coordinator shipment later answer, _, rfl,
      quiet_goOn _ _ ⟨rfl, rfl, rfl⟩⟩
  · exact .refl s

theorem edited_written (s : Sender) (thread : Nat) (accepted : Bool) :
    Edited s (s.step (.written thread accepted)) := by
  simp only [step]
  split
  · next connection shipment later _ =>
    exact ⟨edits_afterWrite s.coordinator connection shipment later accepted, _, rfl,
      quiet_goOn _ _ ⟨rfl, rfl, rfl⟩⟩
  · exact .refl s

theorem edited_closed (s : Sender) (connection : ConnectionId) :
    Edited s (s.step (.closed connection)) := by
  refine ⟨edits_forget s.coordinator connection, [.closed connection], rfl, ?_⟩
  intro n hn
  rw [List.mem_singleton.1 hn]
  exact ⟨rfl, rfl, rfl⟩

theorem edited_alarm (s : Sender) (connection : ConnectionId) :
    Edited s (s.step (.alarm connection)) := by
  simp only [step]
  split
  · exact ⟨.single (.flag _ true), [], (List.append_nil _).symm, by simp⟩
  · exact .refl s

/-- **Every step is one of four.** -/
theorem step_moved (s : Sender) (e : Event) : Moved s e (s.step e) := by
  cases e with
  | send now peer type payload =>
    cases hsend : s.coordinator.send now peer type payload with
    | error e => simpa only [step, hsend] using Moved.refl s _
    | ok sent =>
      obtain ⟨id, c, task⟩ := sent
      obtain ⟨bytes, htakes, _⟩ := send_spec hsend
      simp only [step, hsend]
      refine .issued now peer _ bytes rfl htakes ?_ ?_ ?_
      · simp [issued, Note.issued?]
      · simp [acked, Note.acknowledged?]
      · simp [reported, Note.failures]
  | resend now =>
    obtain ⟨given, hyields, hreason⟩ := yields_resend s.coordinator now
    exact .quietly hyields hreason (List.append_nil _).symm (by simp)
  | wake => exact (edited_wake s).moved _
  | look thread => exact (edited_look s thread).moved _
  | connected thread answer => exact (edited_connected s thread answer).moved _
  | written thread accepted => exact (edited_written s thread accepted).moved _
  | response bytes =>
    rcases onResponse_spec s.coordinator bytes with ⟨hstep, hnote⟩ |
      ⟨key, hdecode, hpending, hstep, hnote⟩ | ⟨key, reason, hdecode, hpending, hstep, hnote⟩
    · simpa [step, hstep, hnote] using Moved.refl s _
    · refine .acknowledged bytes key rfl hdecode hpending hstep ?_ ?_ ?_
      · simp [step, issued, hnote, Note.issued?]
      · simp [step, acked, hnote, Note.acknowledged?]
      · simp [step, reported, hnote, Note.failures]
    -- a rejection gives its request up, with the reason that was heard
    · refine .gaveUp [⟨key.1, key.2, .rejected reason⟩] ?_ ?_ ?_ ?_ ?_
      · simp only [step, hstep]
        exact
          { Yields.refl _ with
            keys := perm_keys_erase hpending
            frames := fun hr' => ⟨_, Table.get?_of_get?_erase hr', rfl⟩
            failures := rfl
            failed := rfl }
      · intro f hf _
        rw [List.mem_singleton.1 hf]
        exact ⟨bytes, reason, rfl, hdecode⟩
      · simp [step, issued, hnote]
      · simp [step, acked, hnote]
      · simp [step, reported, hnote]
  | closed connection => exact (edited_closed s connection).moved _
  | alarm connection => exact (edited_alarm s connection).moved _
  | await =>
    -- it waits on, or it ends and has nothing to tell, or it ends and tells the failures
    rcases await_spec s.coordinator with hawait | ⟨_, hawait⟩ | ⟨result, _, hawait, hfailures, _⟩
    · simpa only [step, hawait] using Moved.refl s _
    · simp only [step, hawait]
      refine .quietly (.refl _) (by simp) rfl ?_
      intro n hn
      rw [List.mem_singleton.1 hn]
      exact ⟨rfl, rfl, rfl⟩
    · simp only [step, hawait]
      refine .told rfl rfl ?_ ?_ ?_
      · simp [issued, Note.issued?]
      · simp [acked, Note.acknowledged?]
      · simp [reported, hfailures]
  | shutdown =>
    refine .quietly (yields_shutdown s.coordinator) (by simp) rfl ?_
    intro n hn
    obtain ⟨connection, _, rfl⟩ := List.mem_map.1 hn
    exact ⟨rfl, rfl, rfl⟩

/-! ## The journal only grows

Issued requests, acknowledgements and reports are read off the journal, so they only grow too. -/

/-- An event adds to the journal, and takes nothing back. -/
theorem journal_step (s : Sender) (e : Event) : s.journal <+: (s.step e).journal := by
  cases e with
  | send now peer type payload =>
    rw [step]
    split
    · exact List.prefix_rfl
    · exact List.prefix_append _ _
  | look thread =>
    rw [step]
    split <;> exact List.prefix_rfl
  | connected thread answer =>
    rw [step]
    split
    · exact List.prefix_append _ _
    · exact List.prefix_rfl
  | written thread accepted =>
    rw [step]
    split
    · exact List.prefix_append _ _
    · exact List.prefix_rfl
  | await =>
    rw [step]
    split
    · exact List.prefix_rfl
    · exact List.prefix_append _ _
  | alarm connection =>
    rw [step]
    split <;> exact List.prefix_rfl
  | resend | wake => exact List.prefix_rfl
  | response | closed | shutdown => exact List.prefix_append _ _

theorem journal_run (s : Sender) (events : List Event) : s.journal <+: (s.run events).journal := by
  induction events generalizing s with
  | nil => exact List.prefix_rfl
  | cons e events ih => exact (journal_step s e).trans (ih (s.step e))

theorem issued_mono {s s' : Sender} (h : s.journal <+: s'.journal) : s.issued <+: s'.issued :=
  h.filterMap _

theorem acked_mono {s s' : Sender} (h : s.journal <+: s'.journal) : s.acked <+: s'.acked :=
  h.filterMap _

theorem reported_mono {s s' : Sender} (h : s.journal <+: s'.journal) :
    s.reported <+: s'.reported :=
  List.IsPrefix.flatMap h _

theorem sentTo_mono {s s' : Sender} (h : s.journal <+: s'.journal) (peer : WorkerId) :
    s.sentTo peer <+: s'.sentTo peer :=
  ((issued_mono h).filter _).map _

end Sender

end Superstep
