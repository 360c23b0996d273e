import Mathlib.Algebra.Ring.Nat
import Mathlib.Data.List.Nodup
import Superstep.Proofs.Moves

/-!
# Superstep — every request is settled once

A request that was issued is in exactly one place: pending, acknowledged, among the failures
that nobody was told yet, or among those that a caller was told. The proof has two layers:

* **`Books`** — the invariant: the places together hold the issued requests, each as often as it
  was issued, the counters agree with the places, and ids are handed out in order;
* **`settled_once`** — what a caller can rely on, read off the books of a run.

Ids are words of 64 bits. The books are kept as long as no destination has been sent 2 ^ 64
requests, so that no id was handed out twice (`Unwrapped`).
-/

namespace Superstep

/-- The id of the request that is number `k` to its destination, counted from zero. -/
def RequestId.nth (k : Nat) : RequestId := ⟨UInt64.ofNat k⟩

theorem RequestId.next_nth (k : Nat) : (nth k).next = nth (k + 1) := by
  simp [nth, next, UInt64.ofNat_add]

theorem RequestId.toNat_nth {k : Nat} (hk : k < 2 ^ 64) : (nth k).val.toNat = k := by
  rw [nth, UInt64.toNat_ofNat', Nat.mod_eq_of_lt hk]

theorem RequestId.nth_toNat (id : RequestId) : nth id.val.toNat = id := by
  rw [nth, UInt64.ofNat_toNat]

theorem RequestId.nth_injOn {j k : Nat} (hj : j < 2 ^ 64) (hk : k < 2 ^ 64)
    (h : nth j = nth k) : j = k := by
  rw [← toNat_nth hj, ← toNat_nth hk, h]

namespace Sender

/-- No destination was sent so many requests that an id had to be used again. -/
def Unwrapped (s : Sender) : Prop := ∀ peer, (s.sentTo peer).length < 2 ^ 64

/-- The places in which requests are found, one after the other. -/
def accounted (s : Sender) : List RequestKey :=
  s.coordinator.pending.keys ++ s.acked ++ s.coordinator.failures.map DeliveryFailure.key ++
    s.reported.map DeliveryFailure.key

/-- The books of a sender: ids count up from zero for each destination, every request that was
issued is in one place, and the counters say how many requests each place holds. -/
structure Books (s : Sender) : Prop where
  nextId : ∀ peer, s.coordinator.nextId peer = .nth (s.sentTo peer).length
  ids : ∀ peer, (s.sentTo peer).map RequestFrame.id
    = (List.range (s.sentTo peer).length).map RequestId.nth
  keys : s.issuedKeys.Perm s.accounted
  sent : s.coordinator.metrics.sent = s.issued.length
  acks : s.coordinator.metrics.acks = s.acked.length
  failed : s.coordinator.metrics.failed = s.coordinator.failures.length + s.reported.length

theorem books_new (worker : WorkerId) (config : DeliveryConfig) : Books (new worker config) where
  nextId _ := rfl
  ids _ := rfl
  keys := .refl _
  sent := rfl
  acks := rfl
  failed := rfl

/-- If the ids lasted to the end of a run, they lasted up to every point of it. -/
theorem Unwrapped.mono {s s' : Sender} (h : s.journal <+: s'.journal) (hs' : s'.Unwrapped) :
    s.Unwrapped :=
  fun peer => Nat.lt_of_le_of_lt (sentTo_mono h peer).length_le (hs' peer)

/-! ## No id is handed out twice

The frames sent to a destination have the ids 0, 1, 2 and so on, so two of them share an id only
when there are 2 ^ 64 of them. A key is a destination with an id, and destinations do not mix. -/

/-- Pairs are different when those with one first part are. -/
theorem nodup_pairs {A B C : Type} [DecidableEq A] {entries : List (A × B)} {f : B → C}
    (h : ∀ a, (((entries.filter fun e => e.1 = a).map Prod.snd).map f).Nodup) :
    (entries.map fun e => (e.1, f e.2)).Nodup := by
  induction entries with
  | nil => simp
  | cons e entries ih =>
    have htail : ∀ a, (((entries.filter fun e => e.1 = a).map Prod.snd).map f).Nodup := by
      intro a
      refine (h a).sublist (((List.Sublist.filter _ (List.sublist_cons_self _ _)).map _).map _)
    rw [List.map_cons, List.nodup_cons]
    refine ⟨?_, ih htail⟩
    intro hmem
    obtain ⟨e', he', heq⟩ := List.mem_map.1 hmem
    obtain ⟨hfst, hsnd⟩ := Prod.mk.inj heq
    have hhead := h e.1
    rw [List.filter_cons_of_pos (by simp), List.map_cons, List.map_cons, List.nodup_cons] at hhead
    refine hhead.1 (List.mem_map.2 ⟨e'.2, List.mem_map.2 ⟨e', ?_, rfl⟩, hsnd⟩)
    exact List.mem_filter.2 ⟨he', by simpa using hfst⟩

/-- The ids that were issued to a destination are the first so many. -/
theorem Books.mem_sentTo_id {s : Sender} (h : Books s) {peer : WorkerId} {id : RequestId} :
    (peer, id) ∈ s.issuedKeys ↔ ∃ k < (s.sentTo peer).length, id = .nth k := by
  have hids : id ∈ (s.sentTo peer).map RequestFrame.id ↔ (peer, id) ∈ s.issuedKeys := by
    simp only [sentTo, issuedKeys, List.map_map, List.mem_map, List.mem_filter, decide_eq_true_eq,
      Function.comp_apply, Prod.mk.injEq]
    constructor
    · rintro ⟨e, ⟨he, hpeer⟩, hid⟩
      exact ⟨e, he, hpeer, hid⟩
    · rintro ⟨e, he, hpeer, hid⟩
      exact ⟨e, ⟨he, hpeer⟩, hid⟩
  rw [← hids, h.ids peer, List.mem_map]
  simp only [List.mem_range, eq_comm]

/-- The requests to one destination have ids of their own. -/
theorem Books.nodup_ids {s : Sender} (h : Books s) (hfew : s.Unwrapped) (peer : WorkerId) :
    ((s.sentTo peer).map RequestFrame.id).Nodup := by
  rw [h.ids peer, List.nodup_map_iff_inj_on List.nodup_range]
  intro j hj k hk heq
  rw [List.mem_range] at hj hk
  have hlt := hfew peer
  exact RequestId.nth_injOn (by omega) (by omega) heq

/-- **Ids are unique.** -/
theorem Books.nodup_issuedKeys {s : Sender} (h : Books s) (hfew : s.Unwrapped) :
    s.issuedKeys.Nodup := by
  refine nodup_pairs fun peer => ?_
  exact h.nodup_ids hfew peer

/-- No request is acknowledged twice. -/
theorem Books.nodup_acked {s : Sender} (h : Books s) (hfew : s.Unwrapped) : s.acked.Nodup := by
  have hplaces : s.accounted.Nodup := h.keys.nodup_iff.1 (h.nodup_issuedKeys hfew)
  rw [accounted, List.append_assoc, List.append_assoc] at hplaces
  exact ((List.sublist_append_left _ _).trans (List.sublist_append_right _ _)).nodup hplaces

/-- The id for the next request is not in use. -/
theorem Books.nextId_fresh {s : Sender} (h : Books s) (hfew : s.Unwrapped) (peer : WorkerId) :
    (peer, s.coordinator.nextId peer) ∉ s.issuedKeys := by
  rw [h.mem_sentTo_id, h.nextId peer]
  rintro ⟨k, hk, heq⟩
  have hlt := hfew peer
  have := RequestId.nth_injOn hlt (by omega) heq
  omega

theorem Books.mem_issuedKeys {s : Sender} (h : Books s) {key : RequestKey}
    (hkey : key ∈ s.coordinator.pending.keys) : key ∈ s.issuedKeys := by
  rw [h.keys.mem_iff, accounted, List.append_assoc, List.append_assoc]
  exact List.mem_append_left _ hkey

/-! ## A step keeps the books

`Moved` says which of the four lists a request leaves and which it joins. The lists together are
then the same up to order, and up to the request that is issued. -/

theorem sentTo_of_issued_eq {s s' : Sender} (h : s'.issued = s.issued) (peer : WorkerId) :
    s'.sentTo peer = s.sentTo peer := by
  rw [sentTo, h]; rfl

theorem sentTo_of_issued_append {s s' : Sender} {peer : WorkerId} {frame : RequestFrame}
    (h : s'.issued = s.issued ++ [(peer, frame)]) (peer' : WorkerId) :
    s'.sentTo peer' = if peer' = peer then s.sentTo peer' ++ [frame] else s.sentTo peer' := by
  rw [sentTo, h, List.filter_append, List.map_append]
  by_cases hpeer : peer' = peer
  · subst hpeer
    rw [List.filter_cons_of_pos (by simp), if_pos rfl]
    rfl
  · rw [List.filter_cons_of_neg (by simpa using Ne.symm hpeer), if_neg hpeer]
    exact List.append_nil _

/-- Ids and numbers of requests are untouched when nothing is issued. -/
theorem Books.of_issued_eq {s s' : Sender} (h : Books s) (hissued : s'.issued = s.issued)
    (hnext : ∀ peer, s'.coordinator.nextId peer = s.coordinator.nextId peer)
    (hkeys : s.accounted.Perm s'.accounted)
    (hsent : s'.coordinator.metrics.sent = s.coordinator.metrics.sent)
    (hacks : s'.coordinator.metrics.acks = s'.acked.length)
    (hfailed : s'.coordinator.metrics.failed
      = s'.coordinator.failures.length + s'.reported.length) : Books s' where
  nextId peer := by rw [hnext, h.nextId, sentTo_of_issued_eq hissued]
  ids peer := by rw [sentTo_of_issued_eq hissued]; exact h.ids peer
  keys := by
    have hsame : s'.issuedKeys = s.issuedKeys := by rw [issuedKeys, hissued]; rfl
    rw [hsame]
    exact h.keys.trans hkeys
  sent := by rw [hsent, h.sent, hissued]
  acks := hacks
  failed := hfailed

/-- **Requests only change places** when none is issued: from the pending ones to the acknowledged
ones or to the failures, and from the failures to the reports. -/
theorem Moved.accounted {s s' : Sender} {e : Event} (h : Moved s e s')
    (hissued : s'.issued = s.issued) : s.accounted.Perm s'.accounted := by
  -- permutations of lists are compared by counting, which is linear arithmetic
  cases h with
  | issued _ _ _ _ _ _ hmore _ _ => simp [hissued] at hmore
  | acknowledged bytes key _ _ hpending hstep _ hacked hreported =>
    have hperm := Coordinator.perm_keys_erase hpending
    rw [Sender.accounted, Sender.accounted, hacked, hreported, hstep]
    rw [List.perm_iff_count] at hperm ⊢
    intro key'
    have := hperm key'
    simp only [List.count_append] at this ⊢
    omega
  | gaveUp given hstep _ _ hacked hreported =>
    have hperm := hstep.keys
    rw [Sender.accounted, Sender.accounted, hacked, hreported, hstep.failures, List.map_append]
    rw [List.perm_iff_count] at hperm ⊢
    intro key
    have := hperm key
    simp only [List.count_append] at this ⊢
    omega
  | told _ hstep _ hacked hreported =>
    rw [Sender.accounted, Sender.accounted, hacked, hreported, hstep, List.map_append,
      List.perm_iff_count]
    intro key
    simp only [List.count_append, List.map_nil, List.count_nil]
    omega

/-- **One step keeps the books.** In each of the four cases the request changes its place and
its counter together. -/
theorem books_step {s : Sender} (h : Books s) (e : Event) (hfew : s.Unwrapped) :
    Books (s.step e) := by
  cases step_moved s e with
  | issued now peer frame bytes _ hstep hissued hacked hreported =>
    -- the new id is behind all that the peer was sent, so that nothing stands under it yet
    have hfresh := h.nextId_fresh hfew peer
    rw [← hstep.id] at hfresh
    have hpending := hstep.pending
    have hnot : s.coordinator.pending.contains (peer, frame.id) = false := by
      rw [Bool.eq_false_iff, Ne, Table.contains_iff_mem_keys]
      exact fun hmem => hfresh (h.mem_issuedKeys hmem)
    refine ⟨?_, ?_, ?_, ?_, ?_, ?_⟩
    · intro peer'
      rw [hstep.nextId, sentTo_of_issued_append hissued]
      split
      · next heq =>
        rw [hstep.id, h.nextId, heq, RequestId.next_nth, List.length_append]
        rfl
      · exact h.nextId peer'
    · intro peer'
      rw [sentTo_of_issued_append hissued]
      split
      · next heq =>
        rw [List.map_append, List.length_append, List.length_singleton, List.range_succ,
          List.map_append, h.ids, List.map_singleton, List.map_singleton, hstep.id, h.nextId, heq]
      · exact h.ids peer'
    -- permutations of lists are compared by counting, which is linear arithmetic
    · have hkeys : (s.step e).issuedKeys = s.issuedKeys ++ [(peer, frame.id)] := by
        rw [issuedKeys, hissued, List.map_append]; rfl
      rw [hkeys, accounted, hpending, Table.keys_insert_of_not_contains _ _ hnot, hacked, hreported,
        hstep.failures]
      have hbooks := h.keys
      rw [accounted] at hbooks
      rw [List.perm_iff_count] at hbooks ⊢
      intro key
      have := hbooks key
      simp only [List.count_append] at this ⊢
      omega
    · rw [hstep.sent, h.sent, hissued, List.length_append]; rfl
    · rw [hstep.acks, h.acks, hacked]
    · rw [hstep.failed, h.failed, hstep.failures, hreported]
  | acknowledged bytes key _ _ hpending hstep hissued hacked hreported =>
    refine h.of_issued_eq hissued ?_ ?_ ?_ ?_ ?_
    · intro peer; rw [hstep]; rfl
    · exact (step_moved s e).accounted hissued
    · rw [hstep]
    · rw [hstep, hacked, List.length_append, ← h.acks]; rfl
    · rw [hstep, hreported]; exact h.failed
  -- what is given up moves from the pending requests to the failures
  | gaveUp given hstep _ hissued hacked hreported =>
    refine h.of_issued_eq hissued hstep.nextId ((step_moved s e).accounted hissued) hstep.sent
      ?_ ?_
    · rw [hstep.acks, hacked, h.acks]
    · rw [hstep.failed, h.failed, hstep.failures, hreported, List.length_append]
      omega
  -- what is told moves from the failures to the reports
  | told _ hstep hissued hacked hreported =>
    refine h.of_issued_eq hissued ?_ ?_ ?_ ?_ ?_
    · intro peer; rw [hstep]; rfl
    · exact (step_moved s e).accounted hissued
    · rw [hstep]
    · rw [hstep, hacked]; exact h.acks
    · rw [hstep, hreported, List.length_append]
      have := h.failed
      simp only [List.length_nil]
      omega

/-- The books are kept in every run. -/
theorem books_run {s : Sender} (h : Books s) (events : List Event)
    (hfew : (s.run events).Unwrapped) : Books (s.run events) := by
  induction events generalizing s with
  | nil => exact h
  | cons e events ih =>
    have hs : s.Unwrapped := hfew.mono (journal_run s (e :: events))
    exact ih (books_step h e hs) hfew

/-! ## Standings

A standing names the place and, for failures, the reason. As a request is in one place, it has one
standing; a failure of it with another reason would be a second place. -/

/-- The request is found in the place that a standing names. -/
def Stands (s : Sender) (key : RequestKey) : Standing → Prop
  | .pending => key ∈ s.coordinator.pending.keys
  | .acknowledged => key ∈ s.acked
  | .unreported reason => ⟨key.1, key.2, reason⟩ ∈ s.coordinator.failures
  | .reported reason => ⟨key.1, key.2, reason⟩ ∈ s.reported

theorem mem_failures_of_key {failures : List DeliveryFailure} {key : RequestKey}
    {reason : FailureReason} :
    (∃ f ∈ failures, f.key = key ∧ f.reason = reason)
      ↔ ⟨key.1, key.2, reason⟩ ∈ failures := by
  constructor
  · rintro ⟨f, hf, rfl, rfl⟩
    exact hf
  · intro hf
    exact ⟨_, hf, rfl, rfl⟩

/-- A request has the standings of the places that it is in. -/
theorem mem_standings {s : Sender} {key : RequestKey} {standing : Standing} :
    standing ∈ s.standings key ↔ s.Stands key standing := by
  simp only [standings, List.mem_append, List.mem_map, List.mem_filter, decide_eq_true_eq]
  cases standing with
  | pending => simp [Stands]
  | acknowledged => simp [Stands]
  | unreported reason => simp [Stands, ← mem_failures_of_key, and_assoc]
  | reported reason => simp [Stands, ← mem_failures_of_key, and_assoc]

/-- A request has as many standings as places hold it. -/
theorem length_standings (s : Sender) (key : RequestKey) :
    (s.standings key).length = s.accounted.count key := by
  have hkeys : ∀ keys : List RequestKey, (keys.filter (· = key)).length = keys.count key := by
    intro keys
    rw [List.count, List.countP_eq_length_filter]
    simp [beq_eq_decide]
  have hfailures : ∀ failures : List DeliveryFailure,
      (failures.filter (·.key = key)).length = (failures.map DeliveryFailure.key).count key := by
    intro failures
    rw [← hkeys, List.filter_map, List.length_map]
    rfl
  simp only [standings, accounted, List.length_append, List.length_map, List.count_append, hkeys,
    hfailures]

/-- A request that was issued has one standing. -/
theorem Books.standing {s : Sender} (h : Books s) (hfew : s.Unwrapped) {key : RequestKey}
    (hkey : key ∈ s.issuedKeys) : ∃ standing, s.standings key = [standing] := by
  rw [← List.length_eq_one_iff, length_standings, ← h.keys.count_eq key]
  exact List.count_eq_one_of_mem (h.nodup_issuedKeys hfew) hkey

theorem Books.standings_eq_nil {s : Sender} (h : Books s) {key : RequestKey}
    (hkey : key ∉ s.issuedKeys) : s.standings key = [] := by
  rw [← List.length_eq_zero_iff, length_standings, ← h.keys.count_eq key]
  exact List.count_eq_zero_of_not_mem hkey

/-- A standing that a request has is its only one. -/
theorem Books.standings_eq {s : Sender} (h : Books s) (hfew : s.Unwrapped) {key : RequestKey}
    {standing : Standing} (hkey : key ∈ s.issuedKeys) (hstands : s.Stands key standing) :
    s.standings key = [standing] := by
  obtain ⟨only, honly⟩ := h.standing hfew hkey
  have hmem := mem_standings.2 hstands
  rw [honly, List.mem_singleton] at hmem
  rw [honly, hmem]

/-! ## Verdicts are final

Acknowledgements and reports are read off the journal, which grows. Failures that nobody was told
are held by the coordinator, and leave it only by being told. -/

theorem failures_step {s : Sender} (e : Event) {f : DeliveryFailure}
    (hf : f ∈ s.coordinator.failures ∨ f ∈ s.reported) :
    f ∈ (s.step e).coordinator.failures ∨ f ∈ (s.step e).reported := by
  rcases hf with hf | hf
  · cases step_moved s e with
    | issued _ _ _ _ _ hstep _ _ _ => exact Or.inl (hstep.failures ▸ hf)
    | acknowledged _ _ _ _ _ hstep _ _ _ => exact Or.inl (hstep ▸ hf)
    | gaveUp given hstep _ _ _ _ =>
      exact Or.inl (hstep.failures ▸ List.mem_append_left given hf)
    | told _ _ _ _ hreported => exact Or.inr (hreported ▸ List.mem_append_right s.reported hf)
  · exact Or.inr ((reported_mono (journal_step s e)).subset hf)

/-- A request that was given up stays so, told or not. -/
theorem failures_run {s : Sender} (events : List Event) {f : DeliveryFailure}
    (hf : f ∈ s.coordinator.failures ∨ f ∈ s.reported) :
    f ∈ (s.run events).coordinator.failures ∨ f ∈ (s.run events).reported := by
  induction events generalizing s with
  | nil => exact hf
  | cons e events ih => exact ih (failures_step e hf)

/-- **A request never leaves a verdict**, except that a failure is told. -/
theorem Books.mayBecome {s : Sender} {more : List Event} (h : Books s)
    (hfew : (s.run more).Unwrapped) {key : RequestKey} {standing : Standing}
    (hkey : key ∈ s.issuedKeys) (hstanding : s.standings key = [standing]) :
    ∃ later, (s.run more).standings key = [later] ∧ standing.MayBecome later := by
  have hgrow := journal_run s more
  have hbooks := books_run h more hfew
  have hkey' : key ∈ (s.run more).issuedKeys := ((issued_mono hgrow).map _).subset hkey
  have hlater : ∀ later, (s.run more).Stands key later → (s.run more).standings key = [later] :=
    fun later => hbooks.standings_eq hfew hkey'
  have hstands : s.Stands key standing :=
    mem_standings.1 (by rw [hstanding]; exact List.mem_singleton_self _)
  -- the verdicts stay in their lists; only a failure moves, to those that were reported
  cases standing with
  | pending =>
    obtain ⟨later, hone⟩ := hbooks.standing hfew hkey'
    exact ⟨later, hone, trivial⟩
  | acknowledged =>
    exact ⟨.acknowledged, hlater .acknowledged ((acked_mono hgrow).subset hstands), rfl⟩
  | unreported reason =>
    rcases failures_run more (Or.inl hstands) with hmem | hmem
    · exact ⟨.unreported reason, hlater _ hmem, Or.inl rfl⟩
    · exact ⟨.reported reason, hlater _ hmem, Or.inr rfl⟩
  | reported reason =>
    exact ⟨.reported reason, hlater (.reported reason) ((reported_mono hgrow).subset hstands), rfl⟩

/-! ## The counters and the wait

The counters add up because they count the places. A wait that succeeds has found no request
pending, and has failures to tell otherwise. -/

/-- **Nothing is lost from the counters.** -/
theorem Books.sent_eq {s : Sender} (h : Books s) :
    s.coordinator.metrics.sent
      = s.coordinator.metrics.acks + s.coordinator.metrics.failed + s.coordinator.pending.size := by
  have hlength := h.keys.length_eq
  simp only [issuedKeys, accounted, List.length_map, List.length_append, Table.length_keys]
    at hlength
  rw [h.sent, h.acks, h.failed, hlength]
  omega

/-- When a wait succeeds, every request was acknowledged or its failure was told before. -/
theorem Books.of_await_ok {s : Sender} (h : Books s)
    (hawait : s.coordinator.await.1 = some (.ok ())) {key : RequestKey}
    (hkey : key ∈ s.issuedKeys) :
    s.Stands key .acknowledged ∨ ∃ reason, s.Stands key (.reported reason) := by
  obtain ⟨hsize, hfailures⟩ : s.coordinator.pending.size = 0 ∧ s.coordinator.failures = [] := by
    rcases Coordinator.await_spec s.coordinator with heq | ⟨_, heq⟩ | ⟨result, hsize, heq, _, hok⟩
    · rw [heq] at hawait; cases hawait
    · rw [heq] at hawait; cases hawait
    · rw [heq] at hawait
      exact ⟨hsize, hok (Option.some.inj hawait)⟩
  have hmem := h.keys.mem_iff.1 hkey
  rw [accounted, (Table.size_eq_zero_iff _).1 hsize, hfailures, List.nil_append, List.map_nil,
    List.append_nil, List.mem_append, List.mem_map] at hmem
  rcases hmem with hacked | ⟨f, hf, rfl⟩
  · exact Or.inl hacked
  · exact Or.inr ⟨f.reason, hf⟩

/-! ## What a caller can rely on

That ids do not wrap around is a hypothesis on the journal. A run that is short enough satisfies
it. -/

/-- An event issues one request at the most. -/
theorem length_issued_step_le (s : Sender) (e : Event) :
    (s.step e).issued.length ≤ s.issued.length + 1 := by
  cases step_moved s e with
  | issued _ _ _ _ _ _ hissued _ _ => simp [hissued]
  | acknowledged _ _ _ _ _ _ hissued _ _ => simp [hissued]
  | gaveUp _ _ _ hissued _ _ => simp [hissued]
  | told _ _ hissued _ _ => simp [hissued]

theorem length_issued_run_le (s : Sender) (events : List Event) :
    (s.run events).issued.length ≤ s.issued.length + events.length := by
  induction events generalizing s with
  | nil => exact Nat.le_refl _
  | cons e events ih =>
    have hstep := length_issued_step_le s e
    have := ih (s.step e)
    rw [List.length_cons]
    show ((s.step e).run events).issued.length ≤ _
    omega

theorem length_sentTo_le (s : Sender) (peer : WorkerId) :
    (s.sentTo peer).length ≤ s.issued.length := by
  rw [sentTo, List.length_map]
  exact List.length_filter_le _ _

/-- A run of fewer than 2 ^ 64 events does not use an id twice. -/
theorem unwrapped_of_length {worker : WorkerId} {config : DeliveryConfig} {events : List Event}
    (h : events.length < 2 ^ 64) : ((new worker config).run events).Unwrapped := by
  intro peer
  have hissued := length_issued_run_le (new worker config) events
  have hsent := length_sentTo_le ((new worker config).run events) peer
  have hzero : (new worker config).issued.length = 0 := rfl
  omega

/-- **No request is lost, and none is settled twice.** After any events, whatever the transport
did: a request that a send returned stands in one place, and nothing else stands anywhere;
whatever happens from then on, a verdict stays, except that a failure is told; the counters add
up; and a wait succeeds only when every request was acknowledged or told to have failed. -/
theorem settled_once (worker : WorkerId) (config : DeliveryConfig) (events more : List Event)
    (hfew : ((new worker config).run (events ++ more)).Unwrapped) :
    let s := (new worker config).run events
    (∀ key ∈ s.issuedKeys, ∃ standing, s.standings key = [standing]
        ∧ ∃ later, (s.run more).standings key = [later] ∧ standing.MayBecome later)
      ∧ (∀ key ∉ s.issuedKeys, s.standings key = [])
      ∧ s.coordinator.metrics.sent = s.coordinator.metrics.acks + s.coordinator.metrics.failed
          + s.coordinator.pending.size
      ∧ (s.coordinator.await.1 = some (.ok ()) → ∀ key ∈ s.issuedKeys,
          s.standings key = [.acknowledged]
            ∨ ∃ reason, s.standings key = [.reported reason]) := by
  intro s
  have hmore : (s.run more).Unwrapped := by
    rwa [run, List.foldl_append] at hfew
  have hs : s.Unwrapped := hmore.mono (journal_run s more)
  have hbooks : Books s := books_run (books_new worker config) events hs
  refine ⟨?_, fun key => hbooks.standings_eq_nil, hbooks.sent_eq, ?_⟩
  · intro key hkey
    obtain ⟨standing, hstanding⟩ := hbooks.standing hs hkey
    exact ⟨standing, hstanding, hbooks.mayBecome hmore hkey hstanding⟩
  · intro hawait key hkey
    rcases hbooks.of_await_ok hawait hkey with hacked | ⟨reason, htold⟩
    · exact Or.inl (hbooks.standings_eq hs hkey hacked)
    · exact Or.inr ⟨reason, hbooks.standings_eq hs hkey htold⟩

/-- One request that is written, refused by its destination, and told to the caller. -/
theorem settled_once_rejected :
    let s := (new ⟨9⟩ Config.testing.delivery).run
      [.send 0 ⟨1⟩ .sendPartition [7], .look 0, .connected 0 (some ⟨1⟩), .written 0 true,
        .response (ResponseFrame.failed ⟨1⟩ ⟨0⟩ "full").encode]
    s.standings (⟨1⟩, ⟨0⟩) = [.unreported (.rejected "full")]
      ∧ ∃ standing, s.standings (⟨1⟩, ⟨0⟩) = [standing]
        ∧ ∃ later, (s.run [.await]).standings (⟨1⟩, ⟨0⟩) = [later]
          ∧ standing.MayBecome later :=
  ⟨by decide +kernel, (settled_once ⟨9⟩ Config.testing.delivery _ [.await]
    (unwrapped_of_length (by decide))).1 (⟨1⟩, ⟨0⟩) (by decide +kernel)⟩

end Sender

end Superstep
