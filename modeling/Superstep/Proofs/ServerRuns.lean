import Mathlib.Algebra.BigOperators.Group.Finset.Basic
import Superstep.Proofs.Records
import Superstep.Proofs.Server

/-!
# Superstep — a server's run is its run without repetitions

`Holdings.once` picks, of the frames that a server was given, the first one of each sender and id
that could be carried out at its turn. It knows nothing of ledgers: a frame is skipped when one of
the same sender and id is among those that were picked. What the server holds is what these frames
make of what it held at the start, and everything that it answers, records and counts can be read
off them (**`Mirrors`**, **`mirrors_after`**).

What the holdings had before is still there, under the same ids (`Holdings.Extends`), so that a
partition that was received once can be found under its id from then on (**`received`**).

* **`deduplicated`** — all of it, for a run of any length.
-/

namespace Superstep

/-- What a ledger knows a request by. -/
def RequestFrame.key (frame : RequestFrame) : WorkerId × RequestId := (frame.sender, frame.id)

variable {I V E M : Type}

/-! ## What stays

Vertices are added to what is held and are never taken out, so an id that was once there can be
found there later. -/

namespace Holdings

/-- Nothing is lost between `h` and `h'`, and a partition that is new is held under its own id. -/
structure Extends (h h' : Holdings I V E M) : Prop where
  kept : ∀ {id p}, h.partitions.get? id = some p →
    ∃ p', h'.partitions.get? id = some p' ∧ p.ids ⊆ p'.ids
  own : ∀ {id p'}, h'.partitions.get? id = some p' →
    p'.id = id ∨ ∃ p, h.partitions.get? id = some p ∧ p'.id = p.id

theorem Extends.of_eq {h h' : Holdings I V E M} (heq : h'.partitions = h.partitions) :
    Extends h h' :=
  ⟨fun hp => ⟨_, heq ▸ hp, List.Subset.refl _⟩, fun hp => .inr ⟨_, heq ▸ hp, rfl⟩⟩

/-- What was there at first is there at last. -/
theorem Extends.trans {h h' h'' : Holdings I V E M} (h₁ : Extends h h') (h₂ : Extends h' h'') :
    Extends h h'' := by
  constructor
  · intro id p hp
    obtain ⟨p', hp', hsub⟩ := h₁.kept hp
    obtain ⟨p'', hp'', hsub'⟩ := h₂.kept hp'
    exact ⟨p'', hp'', List.Subset.trans hsub hsub'⟩
  · intro id p'' hp''
    rcases h₂.own hp'' with hown | ⟨p', hp', heq⟩
    · exact .inl hown
    · rcases h₁.own hp' with hown | ⟨p, hp, heq'⟩
      · exact .inl (heq.trans hown)
      · exact .inr ⟨p, hp, heq.trans heq'⟩

variable [VertexId I]

/-- **A partition that is taken over is held under its id**, with what was held there before. -/
theorem addPartition_ok {h h' : Holdings I V E M} {p : Partition I V E}
    (hadd : h.addPartition p = (.ok (), h')) :
    ∃ held, h'.partitions = h.partitions.insert p.id held ∧ p.ids ⊆ held.ids
      ∧ (h.partitions.get? p.id = none → held.id = p.id)
      ∧ ∀ old, h.partitions.get? p.id = some old → held.id = old.id ∧ old.ids ⊆ held.ids := by
  unfold addPartition at hadd
  split at hadd
  · next hnone =>
    cases hadd
    refine ⟨p, rfl, List.Subset.refl _, fun _ => rfl, fun old hold => ?_⟩
    rw [hnone] at hold
    cases hold
  · next old hold =>
    -- a merge that fails would have refused the partition
    cases hmerge : old.records.merge p.records with
    | error e =>
      rw [Partition.merge, hmerge] at hadd
      cases hadd
    | ok records =>
      rw [Partition.merge, hmerge] at hadd
      cases hadd
      refine ⟨{ old with records }, rfl, ?_, fun hnone => ?_, fun other hother => ?_⟩
      · exact fun id hid => (Records.mem_ids_merge hmerge).2 (.inl hid)
      · rw [hnone] at hold
        cases hold
      · rw [hold] at hother
        cases hother
        exact ⟨rfl, fun id hid => (Records.mem_ids_merge hmerge).2 (.inr hid)⟩

/-- Adding a partition takes no vertex away. -/
theorem extends_addPartition {h h' : Holdings I V E M} {p : Partition I V E}
    (hadd : h.addPartition p = (.ok (), h')) : Extends h h' := by
  obtain ⟨held, hpartitions, _, hfresh, hold⟩ := addPartition_ok hadd
  constructor
  · intro id q hq
    rw [hpartitions, Table.get?_insert]
    split
    · next heq => exact ⟨held, rfl, (hold q (heq ▸ hq)).2⟩
    · exact ⟨q, hq, List.Subset.refl _⟩
  · intro id q hq
    rw [hpartitions, Table.get?_insert] at hq
    split at hq
    · next heq =>
      cases hq
      cases hget : h.partitions.get? p.id with
      | none => exact .inl ((hfresh hget).trans heq.symm)
      | some old => exact .inr ⟨old, heq ▸ hget, (hold old hget).1⟩
    · exact .inr ⟨q, hq, rfl⟩

end Holdings

/-! ## Frames without repetitions

`once` is told from the frames and the holdings alone. That a server's ledger skips the same frames
is what `Mirrors` says. -/

variable [VertexId I] [Value V] [Value E] [Value M]

namespace Holdings

def applyAll (h : Holdings I V E M) (frames : List RequestFrame) : Holdings I V E M :=
  frames.foldl (fun h frame => (h.applyFrame frame).2) h

/-- One more frame, unless one with its key is there already or it cannot be carried out. -/
def takeIn (h : Holdings I V E M) (done : List RequestFrame) (frame : RequestFrame) :
    List RequestFrame :=
  if frame.key ∉ done.map RequestFrame.key ∧ ((h.applyAll done).applyFrame frame).1.isOk = true
  then done ++ [frame] else done

/-- Of each key the first frame that can be carried out at its turn. -/
def once (h : Holdings I V E M) (frames : List RequestFrame) : List RequestFrame :=
  frames.foldl h.takeIn []

theorem applyAll_append (h : Holdings I V E M) (frames : List RequestFrame) (frame : RequestFrame) :
    h.applyAll (frames ++ [frame]) = ((h.applyAll frames).applyFrame frame).2 := by
  rw [applyAll, List.foldl_append]
  rfl

theorem once_append (h : Holdings I V E M) (frames : List RequestFrame) (frame : RequestFrame) :
    h.once (frames ++ [frame]) = h.takeIn (h.once frames) frame := by
  rw [once, List.foldl_append]
  rfl

theorem takeIn_of_seen {h : Holdings I V E M} {done : List RequestFrame} {frame : RequestFrame}
    (hseen : frame.key ∈ done.map RequestFrame.key) : h.takeIn done frame = done :=
  if_neg fun hnew => hnew.1 hseen

theorem takeIn_of_error {h : Holdings I V E M} {done : List RequestFrame} {frame : RequestFrame}
    {e : Error} (herror : ((h.applyAll done).applyFrame frame).1 = .error e) :
    h.takeIn done frame = done :=
  if_neg fun hok => by rw [herror] at hok; cases hok.2

theorem takeIn_of_ok {h : Holdings I V E M} {done : List RequestFrame} {frame : RequestFrame}
    (hnew : frame.key ∉ done.map RequestFrame.key)
    (hok : ((h.applyAll done).applyFrame frame).1 = .ok ()) :
    h.takeIn done frame = done ++ [frame] :=
  if_pos ⟨hnew, by rw [hok]; rfl⟩

/-- A frame is skipped or picked; if it is picked, it is new and can be carried out. -/
theorem takeIn_cases (h : Holdings I V E M) (done : List RequestFrame) (frame : RequestFrame) :
    h.takeIn done frame = done ∨ (frame.key ∉ done.map RequestFrame.key
      ∧ ((h.applyAll done).applyFrame frame).1 = .ok ()
      ∧ h.takeIn done frame = done ++ [frame]) := by
  by_cases hseen : frame.key ∈ done.map RequestFrame.key
  · exact .inl (takeIn_of_seen hseen)
  · cases happly : ((h.applyAll done).applyFrame frame).1 with
    | error e => exact .inl (takeIn_of_error happly)
    | ok _ => exact .inr ⟨hseen, rfl, takeIn_of_ok hseen happly⟩

/-- The frames that are picked come in the order in which they were given. -/
theorem once_sublist (h : Holdings I V E M) (frames : List RequestFrame) :
    (h.once frames).Sublist frames := by
  induction frames using List.reverseRecOn with
  | nil => exact .refl []
  | append_singleton frames frame ih =>
    rw [once_append]
    rcases h.takeIn_cases (h.once frames) frame with heq | ⟨_, _, heq⟩
    · rw [heq]
      exact ih.trans (List.sublist_append_left _ _)
    · rw [heq]
      exact ih.append (.refl _)

/-- No two of them are for one request. -/
theorem nodup_once (h : Holdings I V E M) (frames : List RequestFrame) :
    ((h.once frames).map RequestFrame.key).Nodup := by
  induction frames using List.reverseRecOn with
  | nil => exact .nil
  | append_singleton frames frame ih =>
    rw [once_append]
    rcases h.takeIn_cases (h.once frames) frame with heq | ⟨hnew, _, heq⟩
    · rw [heq]
      exact ih
    · rw [heq, List.map_append, List.nodup_append]
      refine ⟨ih, List.nodup_singleton _, ?_⟩
      rintro key hkey _ hframe rfl
      cases List.mem_singleton.1 hframe
      exact hnew hkey

theorem extends_applyFrame (h : Holdings I V E M) (frame : RequestFrame) :
    Extends h (h.applyFrame frame).2 := by
  cases happly : (h.applyFrame frame).1 with
  | error e => exact .of_eq (congrArg partitions (applyFrame_error happly))
  | ok _ =>
    unfold applyFrame at happly ⊢
    split at happly
    · cases happly
    · next request _ =>
      cases request with
      | messages parts => exact .of_eq rfl
      | partition bytes =>
        unfold apply at happly ⊢
        dsimp only at happly ⊢
        split at happly
        · cases happly
        · exact extends_addPartition (Prod.ext happly rfl)

/-- The partition of a request that is carried out is there afterwards. -/
theorem received_applyFrame {h : Holdings I V E M} {frame : RequestFrame} {p : Partition I V E}
    (hok : (h.applyFrame frame).1 = .ok ()) (htype : frame.type = .sendPartition)
    (hp : Partition.ofBytes frame.payload h.config = .ok p) :
    ∃ held, (h.applyFrame frame).2.partitions.get? p.id = some held ∧ p.ids ⊆ held.ids := by
  rw [applyFrame_eq_addPartition htype hp] at hok ⊢
  obtain ⟨held, hpartitions, hids, _⟩ := addPartition_ok (Prod.ext hok rfl)
  exact ⟨held, by rw [hpartitions, Table.get?_insert_self], hids⟩

theorem config_applyAll (h : Holdings I V E M) (frames : List RequestFrame) :
    (h.applyAll frames).config = h.config := by
  induction frames using List.reverseRecOn with
  | nil => rfl
  | append_singleton frames frame ih =>
    rw [applyAll_append, (steady_applyFrame _ frame).config, ih]

theorem extends_applyAll (h : Holdings I V E M) (frames : List RequestFrame) :
    Extends h (h.applyAll frames) := by
  induction frames using List.reverseRecOn with
  | nil => exact .of_eq rfl
  | append_singleton frames frame ih =>
    rw [applyAll_append]
    exact ih.trans (extends_applyFrame _ frame)

/-- **What was received is held under its id from then on.** -/
theorem received (h : Holdings I V E M) (frames : List RequestFrame) {frame : RequestFrame}
    (hframe : frame ∈ h.once frames) (htype : frame.type = .sendPartition)
    {p : Partition I V E} (hp : Partition.ofBytes frame.payload h.config = .ok p) :
    ∃ held, (h.applyAll (h.once frames)).partitions.get? p.id = some held
      ∧ p.ids ⊆ held.ids := by
  induction frames using List.reverseRecOn with
  | nil => cases hframe
  | append_singleton frames last ih =>
    rw [once_append] at hframe ⊢
    rcases h.takeIn_cases (h.once frames) last with heq | ⟨_, hok, heq⟩
    · rw [heq] at hframe ⊢
      exact ih hframe
    · rw [heq] at hframe ⊢
      rw [applyAll_append]
      rcases List.mem_append.1 hframe with hbefore | hlast
      · obtain ⟨held, hheld, hids⟩ := ih hbefore
        obtain ⟨held', hheld', hids'⟩ := (extends_applyFrame _ last).kept hheld
        exact ⟨held', hheld', List.Subset.trans hids hids'⟩
      · cases List.mem_singleton.1 hlast
        rw [← h.config_applyAll (h.once frames)] at hp
        exact received_applyFrame hok htype hp

end Holdings

/-! ## Runs of a server

A server has one set of ids for each sender, and it is right as long as some id is missing from it.
So a run must not use up all the ids of a sender. -/

/-- Of every sender, some id does not occur. -/
def Unexhausted (frames : List RequestFrame) : Prop :=
  ∀ sender, ∃ id, ∀ frame ∈ frames, frame.sender = sender → frame.id ≠ id

theorem Unexhausted.of_append {frames more : List RequestFrame}
    (h : Unexhausted (frames ++ more)) : Unexhausted frames := by
  intro sender
  obtain ⟨id, hid⟩ := h sender
  exact ⟨id, fun frame hframe => hid frame (List.mem_append_left _ hframe)⟩

namespace Server

def after (s : Server I V E M) (frames : List RequestFrame) : Server I V E M :=
  frames.foldl (fun s frame => (s.process frame).2) s

theorem after_append (s : Server I V E M) (frames : List RequestFrame) (frame : RequestFrame) :
    s.after (frames ++ [frame]) = ((s.after frames).process frame).2 := by
  rw [after, List.foldl_append]
  rfl

/-- What the server holds, has on record and has counted, if it counts, is that of the frames
without repetitions. -/
structure Mirrors (h : Holdings I V E M) (metered : Bool) (frames : List RequestFrame)
    (s : Server I V E M) : Prop where
  counts : s.metered = metered
  holdings : s.holdings = h.applyAll (h.once frames)
  normal : s.ledger.Normal
  contains : ∀ sender id, s.ledger.contains sender id = true
    ↔ (sender, id) ∈ (h.once frames).map RequestFrame.key
  applied : ∀ sender, (s.ledger.applied sender).toNat
    = ((h.once frames).map RequestFrame.sender).count sender
  carried : metered = true → s.metrics.applied = (h.once frames).length
  total : metered = true →
    s.metrics.applied + s.metrics.duplicates + s.metrics.rejected = frames.length

theorem mirrors_serving (worker : WorkerId) (h : Holdings I V E M) (metered : Bool) :
    Mirrors h metered [] (serving worker h metered) where
  counts := rfl
  holdings := rfl
  normal := Ledger.normal_empty
  contains sender id := by simp [serving, Holdings.once]
  applied _ := rfl
  carried _ := rfl
  total _ := rfl

/-- A frame that is skipped is counted, and that is all. -/
theorem Mirrors.count {h : Holdings I V E M} {metered : Bool} {frames : List RequestFrame}
    {frame : RequestFrame} {s : Server I V E M} (hs : Mirrors h metered frames s)
    (honce : h.once (frames ++ [frame]) = h.once frames) {f : Metrics → Metrics}
    (happlied : ∀ m, (f m).applied = m.applied)
    (hcounts : ∀ m, (f m).duplicates + (f m).rejected = m.duplicates + m.rejected + 1) :
    Mirrors h metered (frames ++ [frame]) (s.count f) := by
  constructor
  · rw [count_metered, hs.counts]
  · rw [count_holdings, honce, hs.holdings]
  · rw [count_ledger]
    exact hs.normal
  · rw [count_ledger, honce]
    exact hs.contains
  · rw [count_ledger, honce]
    exact hs.applied
  · intro hmetered
    rw [count_metrics (hs.counts.trans hmetered), honce, happlied, hs.carried hmetered]
  · intro hmetered
    have htotal := hs.total hmetered
    have hone := hcounts s.metrics
    rw [count_metrics (hs.counts.trans hmetered), List.length_append, List.length_singleton,
      happlied]
    omega

/-- A frame that is picked is carried out and goes on record. The id `m` does not occur. -/
theorem Mirrors.record {h : Holdings I V E M} {metered : Bool} {frames : List RequestFrame}
    {frame : RequestFrame} {s : Server I V E M} {m : RequestId} (hs : Mirrors h metered frames s)
    (hnew : s.ledger.contains frame.sender frame.id = false)
    (hok : (s.holdings.applyFrame frame).1 = .ok ())
    (hm : ∀ other ∈ frames ++ [frame], other.sender = frame.sender → other.id ≠ m) :
    Mirrors h metered (frames ++ [frame]) (Server.count { s with
        ledger := s.ledger.record frame.sender frame.id
        holdings := (s.holdings.applyFrame frame).2 }
      fun m => { m with applied := m.applied + 1 }) := by
  have hunseen : frame.key ∉ (h.once frames).map RequestFrame.key := by
    intro hseen
    rw [(hs.contains frame.sender frame.id).2 hseen] at hnew
    cases hnew
  have honce : h.once (frames ++ [frame]) = h.once frames ++ [frame] := by
    rw [Holdings.once_append, Holdings.takeIn_of_ok hunseen (hs.holdings ▸ hok)]
  -- the ledger has room, because `m` is not on record
  have hne : m ≠ frame.id :=
    fun heq => hm frame (List.mem_append_right _ (List.mem_singleton_self _)) rfl heq.symm
  have hmissing : s.ledger.contains frame.sender m = false := by
    rw [← Bool.not_eq_true, hs.contains]
    intro hmem
    obtain ⟨other, hother, hkey⟩ := List.mem_map.1 hmem
    obtain ⟨hsender, hid⟩ := Prod.mk.inj hkey
    exact hm other (List.mem_append_left _ ((h.once_sublist frames).subset hother)) hsender hid
  have hmetered : ({ s with
      ledger := s.ledger.record frame.sender frame.id
      holdings := (s.holdings.applyFrame frame).2 } : Server I V E M).metered = metered := hs.counts
  constructor
  · rw [count_metered, hmetered]
  · rw [count_holdings, honce, Holdings.applyAll_append, ← hs.holdings]
  · rw [count_ledger]
    exact Ledger.normal_record hs.normal hmissing hne
  · intro sender id
    rw [count_ledger, honce, Ledger.contains_record hs.normal hmissing hne, hs.contains,
      List.map_append, List.mem_append, List.map_singleton, List.mem_singleton, or_comm]
    exact or_congr_right Prod.mk_inj.symm
  · intro sender
    rw [count_ledger, honce, Ledger.applied_record hs.normal hnew hmissing hne, hs.applied,
      List.map_append, List.count_append, List.map_singleton, List.count_singleton]
    by_cases hsender : sender = frame.sender
    · rw [if_pos hsender, if_pos (beq_iff_eq.2 hsender.symm)]
    · rw [if_neg hsender, if_neg fun heq => hsender (beq_iff_eq.1 heq).symm]
  · intro hcounts
    rw [count_metrics (hmetered.trans hcounts), honce, List.length_append, List.length_singleton,
      ← hs.carried hcounts]
  · intro hcounts
    have htotal := hs.total hcounts
    rw [count_metrics (hmetered.trans hcounts), List.length_append, List.length_singleton]
    dsimp only
    omega

/-- **One more frame** is skipped or picked as the server skips it or carries it out. -/
theorem Mirrors.process {h : Holdings I V E M} {metered : Bool} {frames : List RequestFrame}
    {s : Server I V E M} (hs : Mirrors h metered frames s) {frame : RequestFrame}
    (hroom : Unexhausted (frames ++ [frame])) :
    Mirrors h metered (frames ++ [frame]) (s.process frame).2 := by
  rcases s.process_cases frame with ⟨hseen, hprocess⟩ | ⟨hnew, hok, hprocess⟩ |
    ⟨e, _, herror, hprocess⟩
  · rw [hprocess]
    dsimp only
    refine hs.count ?_ (fun _ => rfl) fun m => Nat.add_right_comm _ _ _
    rw [Holdings.once_append, Holdings.takeIn_of_seen ((hs.contains _ _).1 hseen)]
  · rw [hprocess]
    obtain ⟨m, hm⟩ := hroom frame.sender
    exact hs.record hnew hok hm
  · rw [hprocess]
    dsimp only
    refine hs.count ?_ (fun _ => rfl) fun m => rfl
    rw [Holdings.once_append, Holdings.takeIn_of_error (hs.holdings ▸ herror)]

/-- **A whole run.** -/
theorem mirrors_after (worker : WorkerId) (h : Holdings I V E M) (metered : Bool)
    {frames : List RequestFrame} (hroom : Unexhausted frames) :
    Mirrors h metered frames ((serving worker h metered).after frames) := by
  -- on the last frame, since a frame is picked or not by what came in front of it
  induction frames using List.reverseRecOn with
  | nil => exact mirrors_serving worker h metered
  | append_singleton frames frame ih =>
    rw [after_append]
    exact (ih hroom.of_append).process hroom

/-! ## Deduplication

The answer to each frame is read off the frames in front of it as well, so the whole record of a run
can be compared. -/

/-- What a server does with a frame when it has carried out requests with these keys. -/
structure Settles (s : Server I V E M) (done : List (WorkerId × RequestId)) (frame : RequestFrame) :
    Prop where
  ack : (s.process frame).1 = .ack s.worker frame.id
    ↔ frame.key ∈ done ∨ (s.holdings.applyFrame frame).1 = .ok ()
  failed : (s.process frame).1 ≠ .ack s.worker frame.id →
    ∃ e, (s.holdings.applyFrame frame).1 = .error e
      ∧ (s.process frame).1 = .failed s.worker frame.id e.message
  unchanged : frame.key ∈ done ∨ (s.process frame).1 ≠ .ack s.worker frame.id →
    (s.process frame).2.holdings = s.holdings ∧ (s.process frame).2.ledger = s.ledger

/-- **One frame** is answered by what is on record and what is held. -/
theorem settles {s : Server I V E M} {done : List (WorkerId × RequestId)}
    (hdone : ∀ sender id, s.ledger.contains sender id = true ↔ (sender, id) ∈ done)
    (frame : RequestFrame) : Settles s done frame := by
  have hkey := hdone frame.sender frame.id
  -- the frame was there before, or is carried out, or cannot be
  rcases s.process_cases frame with ⟨hseen, hprocess⟩ | ⟨hnew, hok, hprocess⟩ |
    ⟨e, hnew, herror, hprocess⟩
  · refine ⟨?_, ?_, fun _ => ?_⟩
    · rw [hprocess]
      exact iff_of_true rfl (.inl (hkey.1 hseen))
    · rw [hprocess]
      exact fun h => absurd rfl h
    · rw [hprocess]
      exact ⟨count_holdings s _, count_ledger s _⟩
  · rw [hnew] at hkey
    refine ⟨?_, ?_, ?_⟩
    · rw [hprocess]
      exact iff_of_true rfl (.inr hok)
    · rw [hprocess]
      exact fun h => absurd rfl h
    · rw [hprocess]
      rintro (hmem | h)
      · cases hkey.2 hmem
      · exact absurd rfl h
  · rw [hnew] at hkey
    refine ⟨?_, fun _ => ?_, fun _ => ?_⟩
    · rw [hprocess, herror]
      refine iff_of_false (fun h => by cases h) ?_
      rintro (hmem | h)
      · cases hkey.2 hmem
      · cases h
    · exact ⟨e, herror, by rw [hprocess]⟩
    · rw [hprocess]
      exact ⟨count_holdings s _, count_ledger s _⟩

/-- What is to be said of a server `s` that was given these frames. -/
structure Deduplicates (worker : WorkerId) (h : Holdings I V E M) (metered : Bool)
    (frames : List RequestFrame) (s : Server I V E M) : Prop where
  holdings : s.holdings = h.applyAll (h.once frames)
  once : (h.once frames).Sublist frames ∧ ((h.once frames).map RequestFrame.key).Nodup
  settles : ∀ before frame later, frames = before ++ frame :: later →
    Settles ((serving worker h metered).after before) ((h.once before).map RequestFrame.key) frame
  received : ∀ frame ∈ h.once frames, frame.type = .sendPartition →
    ∀ p : Partition I V E, Partition.ofBytes frame.payload h.config = .ok p →
      ∃ held, s.holdings.partitions.get? p.id = some held ∧ p.ids ⊆ held.ids
  own : ∀ id held, s.holdings.partitions.get? id = some held →
    held.id = id ∨ ∃ p, h.partitions.get? id = some p ∧ held.id = p.id
  total : metered = true →
    s.metrics.applied + s.metrics.duplicates + s.metrics.rejected = frames.length
  applied : metered = true → s.metrics.applied
    = ∑ sender ∈ (frames.map RequestFrame.sender).toFinset, (s.ledger.applied sender).toNat

/-- **A run is its run without repetitions.** A server that was given any frames, not all ids of any
sender among them, holds what the first frames of each sender and id make that could be carried out
at their turn; it answers and records accordingly, and if it counts, its counters add up. -/
theorem deduplicated (worker : WorkerId) (h : Holdings I V E M) (metered : Bool)
    {frames : List RequestFrame} (hroom : Unexhausted frames) :
    Deduplicates worker h metered frames ((serving worker h metered).after frames) := by
  have hs := mirrors_after worker h metered hroom
  refine ⟨hs.holdings, ⟨h.once_sublist frames, h.nodup_once frames⟩, ?_, ?_, ?_, hs.total, ?_⟩
  · rintro before frame later rfl
    exact settles (mirrors_after worker h metered hroom.of_append).contains frame
  · intro frame hframe htype p hp
    rw [hs.holdings]
    exact h.received frames hframe htype hp
  · intro id held hheld
    rw [hs.holdings] at hheld
    exact (h.extends_applyAll _).own hheld
  · intro hmetered
    have hsenders : ∀ sender ∈ ((h.once frames).map RequestFrame.sender : Multiset WorkerId),
        sender ∈ (frames.map RequestFrame.sender).toFinset := by
      intro sender hsender
      rw [List.mem_toFinset]
      exact ((h.once_sublist frames).map RequestFrame.sender).subset hsender
    -- the ids on record of all senders are as many as the frames that were carried out
    have hsum := Multiset.sum_count_eq_card hsenders
    rw [Multiset.coe_card, List.length_map] at hsum
    rw [hs.carried hmetered, ← hsum]
    refine Finset.sum_congr rfl fun sender _ => ?_
    rw [Multiset.coe_count, hs.applied]

/-- A partition that cannot be read, one that can under the same id, another request under that id,
and one of another sender. -/
def repeated : List RequestFrame :=
  [⟨⟨9⟩, ⟨0⟩, .sendPartition, [7]⟩, ⟨⟨9⟩, ⟨0⟩, .sendPartition, [0, 0, 0, 5, 0, 0, 0, 0]⟩,
    ⟨⟨9⟩, ⟨0⟩, .sendWorkerMessages, [0, 0, 0, 0]⟩, ⟨⟨8⟩, ⟨0⟩, .sendWorkerMessages, [0, 0, 0, 0]⟩]

theorem deduplicated_repeated : Unexhausted repeated ∧
    let h : Holdings UInt64 UInt64 UInt64 UInt64 := .empty Config.testing.partition
    let s := (serving ⟨1⟩ h true).after repeated
    s.holdings = h.applyAll [⟨⟨9⟩, ⟨0⟩, .sendPartition, [0, 0, 0, 5, 0, 0, 0, 0]⟩,
        ⟨⟨8⟩, ⟨0⟩, .sendWorkerMessages, [0, 0, 0, 0]⟩]
      ∧ (∃ held, s.holdings.partitions.get? ⟨5⟩ = some held ∧ held.id = ⟨5⟩)
      ∧ s.metrics.applied + s.metrics.duplicates + s.metrics.rejected = 4
      ∧ s.metrics.applied = (s.ledger.applied ⟨9⟩).toNat + (s.ledger.applied ⟨8⟩).toNat := by
  have hids : ∀ frame ∈ repeated, frame.id ≠ ⟨1⟩ := by decide
  have hroom : Unexhausted repeated := fun sender => ⟨⟨1⟩, fun frame hframe _ => hids frame hframe⟩
  refine ⟨hroom, ?_⟩
  intro h s
  have hs : Deduplicates ⟨1⟩ h true repeated s := deduplicated ⟨1⟩ h true hroom
  have honce : h.once repeated = [⟨⟨9⟩, ⟨0⟩, .sendPartition, [0, 0, 0, 5, 0, 0, 0, 0]⟩,
      ⟨⟨8⟩, ⟨0⟩, .sendWorkerMessages, [0, 0, 0, 0]⟩] := by decide +kernel
  obtain ⟨p, hp, hid⟩ : ∃ p, Partition.ofBytes [0, 0, 0, 5, 0, 0, 0, 0] h.config = .ok p
      ∧ p.id = (⟨5⟩ : PartitionId) := by
    have hread : (Partition.ofBytes [0, 0, 0, 5, 0, 0, 0, 0] h.config
        : Except Error (Partition UInt64 UInt64 UInt64)).toOption.map (·.id) = some ⟨5⟩ := by
      decide +kernel
    generalize hp : (Partition.ofBytes [0, 0, 0, 5, 0, 0, 0, 0] h.config
      : Except Error (Partition UInt64 UInt64 UInt64)) = read at hread
    cases read with
    | error e => cases hread
    | ok p => exact ⟨p, hp, Option.some.inj hread⟩
  obtain ⟨held, hheld, -⟩ := hs.received ⟨⟨9⟩, ⟨0⟩, .sendPartition, [0, 0, 0, 5, 0, 0, 0, 0]⟩
    (by rw [honce]; exact List.mem_cons_self) rfl p hp
  rw [hid] at hheld
  have hown : held.id = ⟨5⟩ := by
    rcases hs.own ⟨5⟩ held hheld with hown | ⟨p, hp, _⟩
    · exact hown
    · rw [show h.partitions = .empty from rfl, Table.get?_empty] at hp
      cases hp
  have hsenders : (repeated.map RequestFrame.sender).toFinset = {⟨9⟩, ⟨8⟩} := by decide
  refine ⟨?_, ⟨held, hheld, hown⟩, hs.total rfl, ?_⟩
  · rw [hs.holdings, honce]
  rw [hs.applied rfl, hsenders]
  exact Finset.sum_pair (by decide)

end Server

end Superstep
