import Mathlib.Data.List.TakeWhile
import Superstep.Network.Link

/-!
# Superstep — what a link delivers

The frames that a link accepted, each with the action that is in store for it (`fated`), tell what
its server is given (`due`): the frames in front of the first that cuts the link, each as often as
its action says. What is heard are the answers to these (`replies`), but for lost ones, and at last
that the link was cut.

`Follows` says of a link at any moment: what was taken off it and what is still queued are what was
accepted, and a second copy that is owed is the last thing due so far.

* **`Follows.serve`** — serving one frame keeps this up, whatever the server does;
* **`Follows.of_idle`** — once nothing is left to be served, everything that is due was delivered;
* **`waiting_carry`** — every frame that is served leaves less to be served.
-/

namespace Superstep

/-! ## What is due

The frames are gone through in order, up to the first that cuts the link. A frame in front of it is
due as often as its action lets the server see it. -/

/-- What becomes of a frame for which this action is in store: only requests are interfered with. -/
def FaultAction.on (action : FaultAction) (frame : Bytes) : FaultAction :=
  match Frame.decode frame with
  | .ok (.request _) => action
  | _ => .deliver

/-- How often a frame is handed to the server. -/
def FaultAction.copies : FaultAction → Nat
  | deliver => 1
  | dropResponse => 1
  | closeConnection => 0
  | duplicate => 2

theorem FaultPlan.actionFor_always (action : FaultAction) (frame : Bytes) :
    (always action).actionFor frame = (action.on frame, always action) := by
  unfold actionFor FaultAction.on
  cases Frame.decode frame with
  | error _ => rfl
  | ok f => cases f <;> rfl

namespace Link

/-- The frames with what becomes of them, when these actions are in store. -/
def fated (fate : Nat → FaultAction) (frames : List Bytes) : List (Bytes × FaultAction) :=
  frames.mapIdx fun k frame => (frame, (fate k).on frame)

/-- Whether one of the frames cuts the link. -/
def Cuts (frames : List (Bytes × FaultAction)) : Prop := ∃ e ∈ frames, e.2 = .closeConnection

instance (frames : List (Bytes × FaultAction)) : Decidable (Cuts frames) :=
  inferInstanceAs (Decidable (∃ e ∈ frames, e.2 = .closeConnection))

/-- What the server is to be given: the frames in front of the first that cuts the link. -/
def due (frames : List (Bytes × FaultAction)) : List (Bytes × FaultAction) :=
  (frames.takeWhile fun e => e.2 ≠ .closeConnection).flatMap fun e => List.replicate e.2.copies e

/-- What is heard of one frame that the server was given. -/
def reply (handed : Bytes × Option Bytes) (action : FaultAction) : List Heard :=
  if action = .dropResponse then [] else (handed.2.map Heard.response).toList

/-- What is heard of the frames that the server was given, out of those that are due. -/
def replies (handed : List (Bytes × Option Bytes)) (due : List (Bytes × FaultAction)) :
    List Heard :=
  (handed.zip due).flatMap fun e => reply e.1 e.2.2

theorem fated_append (fate : Nat → FaultAction) (frames more : List Bytes) :
    fated fate (frames ++ more)
      = fated fate frames ++ fated (fun k => fate (k + frames.length)) more := by
  rw [fated, List.mapIdx_append]
  rfl

theorem fated_concat (fate : Nat → FaultAction) (frames : List Bytes) (frame : Bytes) :
    fated fate (frames ++ [frame])
      = fated fate frames ++ [(frame, (fate frames.length).on frame)] := by
  rw [fated_append]
  simp [fated]

/-- Frames without a cut do not keep later ones from being due. -/
theorem due_append_of_not_cuts {frames : List (Bytes × FaultAction)} (h : ¬ Cuts frames)
    (more : List (Bytes × FaultAction)) : due (frames ++ more) = due frames ++ due more := by
  have hall : ∀ e ∈ frames, decide (e.2 ≠ FaultAction.closeConnection) = true := by
    intro e he
    exact decide_eq_true fun heq => h ⟨e, he, heq⟩
  rw [due, List.takeWhile_append_of_pos hall, List.flatMap_append, due,
    List.takeWhile_eq_self_iff.2 hall]
  rfl

/-- Nothing is due after a cut. -/
theorem due_append_of_cuts {frames : List (Bytes × FaultAction)} (h : Cuts frames)
    (more : List (Bytes × FaultAction)) : due (frames ++ more) = due frames := by
  obtain ⟨e, he, hcut⟩ := h
  have hlen : (frames.takeWhile fun e => e.2 ≠ .closeConnection).length ≠ frames.length := by
    intro heq
    have hself := (List.takeWhile_prefix fun e : Bytes × FaultAction =>
      decide (e.2 ≠ .closeConnection)).eq_of_length heq
    have := List.takeWhile_eq_self_iff.1 hself e he
    simp [hcut] at this
  rw [due, List.takeWhile_append, if_neg hlen, due]

theorem due_isPrefix_append (frames more : List (Bytes × FaultAction)) :
    due frames <+: due (frames ++ more) := by
  by_cases h : Cuts frames
  · exact ⟨[], by rw [List.append_nil, due_append_of_cuts h]⟩
  · rw [due_append_of_not_cuts h]
    exact List.prefix_append _ _

theorem due_singleton (e : Bytes × FaultAction) : due [e] = List.replicate e.2.copies e := by
  obtain ⟨frame, action⟩ := e
  cases action <;> simp [due, FaultAction.copies]

/-- Replies are made frame by frame, when as many frames were handed over as were due. -/
theorem replies_append {handed handed' : List (Bytes × Option Bytes)}
    {done due : List (Bytes × FaultAction)} (h : handed.length = done.length) :
    replies (handed ++ handed') (done ++ due) = replies handed done ++ replies handed' due := by
  rw [replies, List.zip_append h, List.flatMap_append]
  rfl

/-- What is due later does not matter to what was heard. -/
theorem replies_of_isPrefix {handed : List (Bytes × Option Bytes)}
    {done due : List (Bytes × FaultAction)} (h : handed.length ≤ done.length)
    (hfront : done <+: due) : replies handed due = replies handed done := by
  obtain ⟨later, rfl⟩ := hfront
  have htake : (handed.zip (done ++ later)) = handed.zip done := by
    rw [List.zip_eq_zip_take_min, @List.zip_eq_zip_take_min _ _ handed done, List.length_append,
      min_eq_left h, min_eq_left (by omega), List.take_append_of_le_length h]
  rw [replies, htake, replies]

/-! ## A link, one frame at a time

A link is at one of three points: between two frames, with a second copy in store, or cut. `Follows`
holds at each of them, and serving goes from one to the next. -/

/-- The second copy that is still to be served. -/
def owed (l : Link) : List (Bytes × FaultAction) :=
  l.copy.toList.map fun frame => (frame, .duplicate)

/-- What is heard of a cut. -/
def closing (cut : Bool) : List Heard := if cut then [.closed] else []

/-- What was accepted, taken off the link, handed to the server and heard is what the link is to do
with frames for which these actions are in store, as far as it got. -/
structure Follows (fate : Nat → FaultAction) (accepted taken : List Bytes)
    (handed : List (Bytes × Option Bytes)) (heard : List Heard) (l : Link) : Prop where
  backlog : accepted = taken ++ l.queue
  owes : l.owed <:+ due (fated fate taken)
  delivered : handed.map Prod.fst ++ l.copy.toList = (due (fated fate taken)).map Prod.fst
  answered : heard = replies handed (due (fated fate taken)) ++ closing l.cut
  cut_iff : l.cut = true ↔ Cuts (fated fate taken)
  /-- A link is not cut before the second copy was served. -/
  copy_of_cut : l.cut = true → l.copy = none

/-- The second copy of a frame is served before the next frame. -/
theorem pop?_cases {l l' : Link} {frame : Bytes} {again : Bool}
    (h : l.pop? = some (frame, again, l')) :
    l.cut = false ∧
      ((again = true ∧ l.copy = some frame ∧ l' = { l with copy := none })
        ∨ (again = false ∧ l.copy = none
          ∧ ∃ queue, l.queue = frame :: queue ∧ l' = { l with queue })) := by
  unfold pop? at h
  split at h
  · next hcut hcopy =>
    cases h
    exact ⟨hcut, Or.inl ⟨rfl, hcopy, rfl⟩⟩
  · next hcut hcopy hqueue =>
    cases h
    exact ⟨hcut, Or.inr ⟨rfl, hcopy, _, hqueue, rfl⟩⟩
  · cases h

/-- Nothing is served of a link that was cut, or has nothing left. -/
theorem pop?_eq_none {l : Link} (h : l.pop? = none) :
    l.cut = true ∨ (l.copy = none ∧ l.queue = []) := by
  obtain ⟨queue, copy, cut⟩ := l
  cases cut with
  | true => exact Or.inl rfl
  | false =>
    cases copy with
    | some frame => cases h
    | none =>
      cases queue with
      | nil => exact Or.inr ⟨rfl, rfl⟩
      | cons frame queue => cases h

section Follows

variable {fate : Nat → FaultAction} {accepted taken : List Bytes}
  {handed : List (Bytes × Option Bytes)} {heard : List Heard} {l : Link}

theorem follows_empty (fate : Nat → FaultAction) : Follows fate [] [] [] [] .empty where
  backlog := rfl
  owes := List.nil_suffix
  delivered := rfl
  answered := rfl
  cut_iff := by simp [empty, Cuts, fated]
  copy_of_cut := fun _ => rfl

/-- A frame that is accepted waits behind the others. -/
theorem Follows.accept (h : Follows fate accepted taken handed heard l) {frame : Bytes}
    {l' : Link} (haccept : l.accept? frame = some l') :
    Follows fate (accepted ++ [frame]) taken handed heard l' := by
  unfold accept? at haccept
  split at haccept
  · cases haccept
  · cases haccept
    exact { h with backlog := by rw [h.backlog, List.append_assoc] }

/-- The server was given everything that is due, but for a second copy. -/
theorem Follows.length_handed (h : Follows fate accepted taken handed heard l)
    (hcopy : l.copy = none) : handed.length = (due (fated fate taken)).length := by
  have := congrArg List.length h.delivered
  simpa [hcopy] using this

/-- The second copy is handed over, and nothing is taken off the queue. -/
theorem Follows.serve_copy (h : Follows fate accepted taken handed heard l) {frame : Bytes}
    (hcut : l.cut = false) (hcopy : l.copy = some frame) (answer : Option Bytes) :
    Follows fate accepted taken (handed ++ [(frame, answer)])
      (heard ++ reply (frame, answer) .duplicate) { l with copy := none } := by
  obtain ⟨done, hdue⟩ := h.owes
  simp only [owed, hcopy, Option.toList_some, List.map_singleton] at hdue
  have hlen : handed.length = done.length := by
    have := congrArg List.length h.delivered
    rw [← hdue, hcopy] at this
    simpa using this
  refine { h with
    owes := List.nil_suffix, delivered := ?_, answered := ?_, copy_of_cut := fun _ => rfl }
  · rw [← h.delivered, hcopy]
    simp
  · -- the copy is the last thing due, so that what was heard are the replies to all before it
    have hbefore : replies handed (due (fated fate taken)) = replies handed done :=
      replies_of_isPrefix hlen.le ⟨_, hdue⟩
    rw [h.answered, hbefore, ← hdue, replies_append hlen, hcut]
    simp [replies, closing]

/-- What the next frame of a link adds to what is due. -/
theorem Follows.due_concat (h : Follows fate accepted taken handed heard l) (hcut : l.cut = false)
    (frame : Bytes) : due (fated fate (taken ++ [frame])) = due (fated fate taken)
      ++ List.replicate ((fate taken.length).on frame).copies
        (frame, (fate taken.length).on frame) := by
  have hnot : ¬ Cuts (fated fate taken) := fun hcuts => by simp [h.cut_iff.2 hcuts] at hcut
  rw [fated_concat, due_append_of_not_cuts hnot, due_singleton]

theorem Follows.cuts_concat (h : Follows fate accepted taken handed heard l) (hcut : l.cut = false)
    (frame : Bytes) : Cuts (fated fate (taken ++ [frame]))
      ↔ (fate taken.length).on frame = .closeConnection := by
  have hnot : ¬ Cuts (fated fate taken) := fun hcuts => by simp [h.cut_iff.2 hcuts] at hcut
  rw [fated_concat]
  constructor
  · rintro ⟨e, he, heq⟩
    rcases List.mem_append.1 he with he | he
    · exact absurd ⟨e, he, heq⟩ hnot
    · rw [List.mem_singleton.1 he] at heq
      exact heq
  · intro heq
    exact ⟨_, List.mem_append_right _ (List.mem_singleton.2 rfl), heq⟩

/-- The next frame cuts the link, and the server does not see it. -/
theorem Follows.cut_off (h : Follows fate accepted taken handed heard l) {frame : Bytes}
    {queue : List Bytes} (hcut : l.cut = false) (hcopy : l.copy = none)
    (hqueue : l.queue = frame :: queue)
    (haction : (fate taken.length).on frame = .closeConnection) :
    Follows fate accepted (taken ++ [frame]) handed (heard ++ [.closed])
      { l with queue, cut := true } := by
  have hdue := h.due_concat hcut frame
  rw [haction] at hdue
  rw [show (FaultAction.closeConnection.copies) = 0 from rfl, List.replicate_zero,
    List.append_nil] at hdue
  refine ⟨?_, ?_, ?_, ?_, ?_, fun _ => hcopy⟩
  · rw [h.backlog, hqueue, List.append_assoc]
    rfl
  · simp [owed, hcopy]
  · rw [hdue]
    exact h.delivered
  · rw [hdue, h.answered, hcut]
    simp [closing]
  · exact iff_of_true rfl ((h.cuts_concat hcut frame).2 haction)

/-- The next frame is handed to the server, and maybe kept for a second time. -/
theorem Follows.hand (h : Follows fate accepted taken handed heard l) {frame : Bytes}
    {queue : List Bytes} (hcut : l.cut = false) (hcopy : l.copy = none)
    (hqueue : l.queue = frame :: queue) {action : FaultAction}
    (haction : (fate taken.length).on frame = action) {copy : Option Bytes}
    (hcopies : List.replicate action.copies (frame, action)
      = (frame, action) :: copy.toList.map fun frame => (frame, .duplicate))
    (answer : Option Bytes) :
    Follows fate accepted (taken ++ [frame]) (handed ++ [(frame, answer)])
      (heard ++ reply (frame, answer) action) { l with queue, copy } := by
  -- the frame that is taken adds its copies to what is due, the first of which is handed over now
  have hdue := h.due_concat hcut frame
  rw [haction, hcopies] at hdue
  have hlen := h.length_handed hcopy
  refine ⟨?_, ?_, ?_, ?_, ?_, ?_⟩
  · rw [h.backlog, hqueue, List.append_assoc]
    rfl
  · rw [hdue]
    exact ⟨due (fated fate taken) ++ [(frame, action)], by simp [owed]⟩
  · have hhanded := h.delivered
    rw [hcopy, Option.toList_none, List.append_nil] at hhanded
    rw [hdue]
    simp [hhanded, Function.comp_def]
  · rw [hdue, h.answered, replies_append hlen, hcut]
    simp [replies, closing]
  · rw [h.cuts_concat hcut frame, haction]
    refine iff_of_false (by simp [hcut]) ?_
    rintro rfl
    simp [FaultAction.copies] at hcopies
  · intro hcut'
    simp [hcut] at hcut'

/-- **Serving a frame does with it what is in store for it**, whatever the server does. -/
theorem Follows.serve {S : Type} (h : Follows fate accepted taken handed heard l) {l' : Link}
    {frame : Bytes} {again : Bool} (hpop : l.pop? = some (frame, again, l'))
    (handle : Bytes → S → Option Bytes × S) (server : S) {served : Served S}
    (hserved : l'.carry handle frame server
      (if again then .deliver else (fate taken.length).on frame) = served) :
    Follows fate accepted (taken ++ if again then [] else [frame])
      (handed ++ served.handled.map fun bytes => (bytes, (handle bytes server).1))
      (heard ++ served.heard) served.link := by
  subst hserved
  obtain ⟨hcut, ⟨rfl, hcopy, rfl⟩ | ⟨rfl, hcopy, queue, hqueue, rfl⟩⟩ := pop?_cases hpop
  · rw [if_pos rfl, if_pos rfl, List.append_nil]
    exact h.serve_copy hcut hcopy _
  · rw [if_neg Bool.false_ne_true, if_neg Bool.false_ne_true]
    cases haction : (fate taken.length).on frame with
    | deliver =>
      exact h.hand hcut hcopy hqueue haction (by rw [hcopy]; rfl) (handle frame server).1
    | dropResponse =>
      exact h.hand hcut hcopy hqueue haction (by rw [hcopy]; rfl) (handle frame server).1
    | closeConnection =>
      have := h.cut_off hcut hcopy hqueue haction
      simpa [carry] using this
    | duplicate =>
      exact h.hand hcut hcopy hqueue haction rfl (handle frame server).1

/-! ## What has been delivered

Of what was accepted, some was taken and the rest is queued. What is due of the former is in front
of what is due of all, and a cut makes the two the same. -/

theorem Follows.due_isPrefix (h : Follows fate accepted taken handed heard l) :
    due (fated fate taken) <+: due (fated fate accepted) := by
  rw [h.backlog, fated_append]
  exact due_isPrefix_append _ _

theorem Follows.handed_isPrefix (h : Follows fate accepted taken handed heard l) :
    handed.map Prod.fst <+: (due (fated fate accepted)).map Prod.fst := by
  refine List.IsPrefix.trans ?_ (h.due_isPrefix.map Prod.fst)
  rw [← h.delivered]
  exact List.prefix_append _ _

/-- What is due does not change any more once the link is cut. -/
theorem Follows.due_of_cut (h : Follows fate accepted taken handed heard l) (hcut : l.cut = true) :
    due (fated fate accepted) = due (fated fate taken) := by
  rw [h.backlog, fated_append, due_append_of_cuts (h.cut_iff.1 hcut)]

theorem Follows.cut_eq (h : Follows fate accepted taken handed heard l) :
    l.cut = decide (Cuts (fated fate taken)) := by
  rw [Bool.eq_iff_iff, decide_eq_true_iff]
  exact h.cut_iff

/-- What is heard are the replies to what was handed over, and the cut. -/
theorem Follows.heard_eq (h : Follows fate accepted taken handed heard l) :
    heard = replies handed (due (fated fate accepted))
      ++ closing (Cuts (fated fate taken)) := by
  have hlen : handed.length ≤ (due (fated fate taken)).length := by
    have := congrArg List.length h.delivered
    simp only [List.length_append, List.length_map] at this
    omega
  rw [replies_of_isPrefix hlen h.due_isPrefix, ← h.cut_eq]
  exact h.answered

/-- **Nothing is left to be served only when all that is due was delivered.** -/
theorem Follows.of_idle (h : Follows fate accepted taken handed heard l) (hidle : l.pop? = none) :
    handed.map Prod.fst = (due (fated fate accepted)).map Prod.fst
      ∧ (Cuts (fated fate taken) ↔ Cuts (fated fate accepted)) := by
  have hdelivered := h.delivered
  rcases pop?_eq_none hidle with hcut | ⟨hcopy, hqueue⟩
  · rw [h.copy_of_cut hcut, Option.toList_none, List.append_nil] at hdelivered
    have hcuts := h.cut_iff.1 hcut
    refine ⟨by rw [hdelivered, h.due_of_cut hcut], iff_of_true hcuts ?_⟩
    obtain ⟨e, he, heq⟩ := hcuts
    rw [h.backlog, fated_append]
    exact ⟨e, List.mem_append_left _ he, heq⟩
  · have hall : accepted = taken := by rw [h.backlog, hqueue, List.append_nil]
    rw [hcopy, Option.toList_none, List.append_nil, ← hall] at hdelivered
    exact ⟨hdelivered, by rw [hall]⟩

theorem closed_notMem_replies (handed : List (Bytes × Option Bytes))
    (due : List (Bytes × FaultAction)) : Heard.closed ∉ replies handed due := by
  intro hmem
  obtain ⟨⟨⟨frame, answer⟩, e⟩, -, hreply⟩ := List.mem_flatMap.1 hmem
  unfold reply at hreply
  split at hreply
  · cases hreply
  · cases answer <;> simp at hreply

/-- A cut is heard once. -/
theorem Follows.count_closed (h : Follows fate accepted taken handed heard l) :
    heard.count .closed = if Cuts (fated fate taken) then 1 else 0 := by
  have hnone : (replies handed (due (fated fate accepted))).count .closed = 0 :=
    List.count_eq_zero.2 (closed_notMem_replies _ _)
  rw [h.heard_eq, List.count_append, hnone, Nat.zero_add, closing]
  by_cases hcuts : Cuts (fated fate taken) <;> simp [hcuts]

/-- A cut is heard only of a link that was cut. -/
theorem Follows.cut_of_closed (h : Follows fate accepted taken handed heard l)
    (hclosed : .closed ∈ heard) : l.cut = true := by
  rw [h.answered] at hclosed
  rcases List.mem_append.1 hclosed with hmem | hmem
  · exact absurd hmem (closed_notMem_replies _ _)
  · cases hcut : l.cut with
    | true => rfl
    | false => simp [closing, hcut] at hmem

/-! ## How much is left

Each frame in the queue is served twice at the most, so it counts for two and a second copy for one.
Then serving makes the count smaller whatever the action is. -/

/-- How many times the link will be served at most. -/
def waiting (l : Link) : Nat := 2 * l.queue.length + l.copy.toList.length

theorem pop?_of_waiting {l : Link} (h : l.waiting = 0) : l.pop? = none := by
  obtain ⟨queue, copy, cut⟩ := l
  cases queue with
  | cons frame queue => simp [waiting] at h
  | nil =>
    cases copy with
    | some frame => simp [waiting] at h
    | none => cases cut <;> rfl

theorem pop?_of_cut {l : Link} (h : l.cut = true) : l.pop? = none := by
  unfold pop?
  simp [h]

/-- **Each serving leaves less.** -/
theorem waiting_carry {S : Type} {l l' : Link} {frame : Bytes} {again : Bool}
    (hpop : l.pop? = some (frame, again, l')) (handle : Bytes → S → Option Bytes × S) (server : S)
    (action : FaultAction) :
    (l'.carry handle frame server (if again then .deliver else action)).link.waiting
      < l.waiting := by
  obtain ⟨-, ⟨rfl, hcopy, rfl⟩ | ⟨rfl, hcopy, queue, hqueue, rfl⟩⟩ := pop?_cases hpop
  · simp [carry, waiting, hcopy]
  · have hleft : (carry { l with queue } handle frame server action).link.queue = queue := by
      cases action <;> rfl
    have hcopy' : (carry { l with queue } handle frame server action).link.copy.toList.length ≤ 1 :=
      Option.length_toList_le
    simp only [waiting, hqueue, List.length_cons, Bool.false_eq_true, if_false, hleft]
    omega

theorem Follows.waiting_le (h : Follows fate accepted taken handed heard l) :
    l.waiting ≤ 2 * accepted.length := by
  rw [h.backlog, List.length_append, waiting]
  cases hcopy : l.copy with
  | none =>
    simp only [Option.toList_none, List.length_nil]
    omega
  | some frame =>
    -- a second copy is owed only for a frame that was taken off the link
    have hdue : 0 < (due (fated fate taken)).length := by
      have := h.owes.length_le
      simp only [owed, hcopy, Option.toList_some, List.map_singleton, List.length_singleton] at this
      omega
    have htaken : 0 < taken.length := by
      cases taken with
      | nil => simp [fated, due] at hdue
      | cons _ _ => simp
    simp only [Option.toList_some, List.length_singleton]
    omega

end Follows

end Link

end Superstep
