import Mathlib.Data.Finset.Card
import Superstep.Proofs.Compaction

/-!
# Superstep — an id set depends on its ids only

A `SeenIds` grows by one id at a time, in whatever order they come. What it is afterwards is told by
the ids alone (`Represents`): the floor is the least id that was not inserted, and behind it are, in
ascending order, the ids that were.

* **`Represents.insert`** — one insertion, given an id `m` that stays missing;
* **`Represents.eq`** — no two sets represent the same ids;
* **`Raisable.lt_gap_of_mem_passed`** — no floor that is passed on the way is the last id of the
  word;
* **`compact_set`** — sequences of insertions.

An id that stays missing is all that is asked for. There is one as long as fewer than 2 ^ 64 ids
were inserted (`exists_missing`).
-/

namespace Superstep.SeenIds

/-- Inserts ids in turn. Says of each whether it was new. -/
def insertAll (s : SeenIds) : List RequestId → List Bool × SeenIds
  | [] => ([], s)
  | id :: ids =>
    let (new, s) := s.insert id
    let (news, s) := s.insertAll ids
    (new :: news, s)

/-- The floors that are raised by one, when the floor is raised through a list. -/
def passed (floor : UInt64) : List UInt64 → List UInt64
  | [] => []
  | x :: xs => if x = floor then floor :: passed (floor + 1) xs else []

/-- The set holds these ids, in the form that they determine. -/
structure Represents (s : SeenIds) (ids : List RequestId) : Prop where
  contains : ∀ id, s.contains id = true ↔ id ∈ ids
  /-- The floor is the least id that is missing. -/
  floor : (⟨s.floor⟩ : RequestId) ∉ ids
  below : ∀ id : RequestId, id.val < s.floor → id ∈ ids
  ascending : s.above.Pairwise (· < ·)
  above : ∀ id : RequestId, id.val ∈ s.above ↔ s.floor < id.val ∧ id ∈ ids
  /-- The size is the exact sum, and counts every id once. -/
  size : s.size.toNat = s.floor.toNat + s.above.length
  size_eq_length : s.size.toNat = ids.dedup.length

variable {s t : SeenIds} {ids : List RequestId}

/-- A set in its normal form represents the ids that it contains. -/
theorem Normal.represents (hs : s.Normal) (h : ∀ id, s.contains id = true ↔ id ∈ ids) :
    s.Represents ids where
  contains := h
  floor := by
    rw [← h, hs.floor_missing]
    exact Bool.false_ne_true
  below id hlt := (h id).1 (contains_iff.2 (.inl hlt))
  ascending := hs.ascending
  above id := by
    rw [hs.mem_above_iff, ← h]
    constructor
    · rintro ⟨hmem, hge⟩
      refine ⟨UInt64.lt_of_le_of_ne (UInt64.not_lt.1 hge) fun heq => ?_, hmem⟩
      have hmissing := hs.floor_missing
      rw [heq, hmem] at hmissing
      cases hmissing
    · rintro ⟨hlt, hmem⟩
      exact ⟨hmem, UInt64.not_lt.2 (UInt64.le_of_lt hlt)⟩
  size := toNat_size hs
  size_eq_length := by
    rw [toNat_size hs]
    exact hs.length_eq ids.nodup_dedup fun id => by rw [List.mem_dedup, h]

namespace Represents

/-- What represents some ids is in its normal form. -/
theorem normal (hs : s.Represents ids) : s.Normal := by
  refine ⟨hs.ascending, fun x hx => ?_⟩
  exact ((hs.above ⟨x⟩).1 hx).1

theorem nil : empty.Represents [] := normal_empty.represents (by simp)

/-- **The form is determined** by the ids, however often and in which order they are listed. -/
theorem eq {ids' : List RequestId} (hs : s.Represents ids) (ht : t.Represents ids')
    (h : ∀ id, id ∈ ids ↔ id ∈ ids') : s = t := by
  refine hs.normal.ext ht.normal fun id => ?_
  rw [Bool.eq_iff_iff, hs.contains, ht.contains, h]

/-- More ids never lower the floor. -/
theorem floor_le {ids' : List RequestId} (hs : s.Represents ids) (ht : t.Represents ids')
    (h : ids ⊆ ids') : s.floor ≤ t.floor := by
  refine ht.normal.floor_le fun id hid => ?_
  rw [ht.contains]
  exact h ((hs.contains id).1 hid)

/-- An id is new exactly when it was not inserted before. -/
theorem fst_insert (hs : s.Represents ids) (id : RequestId) :
    (s.insert id).1 = decide (id ∉ ids) := by
  have hcontains := hs.contains id
  cases hid : s.contains id with
  | true => rw [insert_of_contains hid, decide_eq_false (by simpa [hid] using hcontains)]
  | false => rw [insert_of_not_contains hid, decide_eq_true (by simpa [hid] using hcontains)]

/-- **An insertion** adds the id. -/
theorem insert (hs : s.Represents ids) {id m : RequestId} (hm : m ∉ ids ++ [id]) :
    (s.insert id).2.Represents (ids ++ [id]) := by
  rw [List.mem_append, List.mem_singleton, not_or] at hm
  have hmissing : s.contains m = false := by
    rw [← Bool.not_eq_true, hs.contains]
    exact hm.1
  refine (normal_insert hs.normal hmissing hm.2).represents fun y => ?_
  rw [contains_insert hs.normal hmissing hm.2, hs.contains, List.mem_append, List.mem_singleton]
  exact or_comm

/-- **Insertions add the ids**, and say of each whether it came before. -/
theorem insertAll {more : List RequestId} {m : RequestId} (hs : s.Represents ids)
    (hm : m ∉ ids ++ more) :
    (s.insertAll more).2.Represents (ids ++ more)
      ∧ (s.insertAll more).1 = more.mapIdx fun k id => decide (id ∉ ids ++ more.take k) := by
  -- one id stays missing all the way, which each insertion asks for
  induction more generalizing s ids with
  | nil =>
    rw [List.append_nil]
    exact ⟨hs, rfl⟩
  | cons id more ih =>
    have happend : ids ++ id :: more = ids ++ [id] ++ more := by simp
    have hm' : m ∉ ids ++ [id] := fun hmem => hm (by
      rw [happend]
      exact List.mem_append_left more hmem)
    rw [happend] at hm ⊢
    obtain ⟨hlast, hnews⟩ := ih (hs.insert hm') hm
    refine ⟨hlast, ?_⟩
    show (s.insert id).1 :: ((s.insert id).2.insertAll more).1 = _
    rw [hs.fst_insert, hnews, List.mapIdx_cons]
    simp

end Represents

/-- The floor does not run over when it is raised: what it passes lies in front of a gap. -/
theorem Raisable.lt_gap_of_mem_passed {floor m f : UInt64} {xs : List UInt64}
    (h : Raisable floor m xs) (hf : f ∈ passed floor xs) : f < m := by
  induction xs generalizing floor with
  | nil => cases hf
  | cons x xs ih =>
    rw [passed] at hf
    split at hf
    · next heq =>
      subst heq
      rcases List.mem_cons.1 hf with rfl | hf
      · exact h.lt_gap
      · exact ih h.tail hf
    · cases hf

/-- Every floor that is passed raises it by one, in exact numbers. -/
theorem Raisable.toNat_floor_raise {floor m : UInt64} {xs : List UInt64} (h : Raisable floor m xs) :
    (raise floor xs).floor.toNat = floor.toNat + (passed floor xs).length := by
  induction xs generalizing floor with
  | nil => rfl
  | cons x xs ih =>
    rw [raise, passed]
    split
    · next heq =>
      subst heq
      rw [ih h.tail, toNat_succ_of_lt h.lt_gap, List.length_cons]
      omega
    · rfl

/-- Fewer than 2 ^ 64 ids are not all of them. -/
theorem exists_missing (hfew : ids.dedup.length < 2 ^ 64) : ∃ m, m ∉ ids := by
  -- ids are as many as the numbers below 2 ^ 64, and fewer cannot be all of them
  let numbers : Finset Nat := ids.toFinset.image fun id => id.val.toNat
  have hcard : numbers.card < (Finset.range (2 ^ 64)).card := by
    rw [Finset.card_range]
    calc numbers.card ≤ ids.toFinset.card := Finset.card_image_le
      _ = ids.dedup.length := List.card_toFinset ids
      _ < 2 ^ 64 := hfew
  obtain ⟨k, hk, hnot⟩ := Finset.exists_mem_notMem_of_card_lt_card hcard
  refine ⟨.nth k, fun hmem => hnot ?_⟩
  refine Finset.mem_image.2 ⟨.nth k, List.mem_toFinset.2 hmem, ?_⟩
  exact RequestId.toNat_nth (Finset.mem_range.1 hk)

/-- **Insertions of fewer than 2 ^ 64 ids.** An id is new exactly when it was not inserted before.
The set then holds what was inserted, in a form that the ids determine, whatever their order. The
floor never fell on the way, and each time it was raised by one it did not run over. -/
theorem compact_set (ids : List RequestId) (hfew : ids.dedup.length < 2 ^ 64) :
    (empty.insertAll ids).1 = (ids.mapIdx fun k id => decide (id ∉ ids.take k))
      ∧ (empty.insertAll ids).2.Represents ids
      ∧ (∀ ids', (∀ id, id ∈ ids' ↔ id ∈ ids) →
          (empty.insertAll ids').2 = (empty.insertAll ids).2)
      ∧ (∀ before, before <+: ids →
          (empty.insertAll before).2.floor ≤ (empty.insertAll ids).2.floor)
      ∧ ∀ before id, before ++ [id] <+: ids → id ∉ before →
          let s := (empty.insertAll before).2
          let floors := passed s.floor (place id.val s.above)
          (s.insert id).2.floor.toNat = s.floor.toNat + floors.length
            ∧ ∀ floor ∈ floors, floor.toNat + 1 < 2 ^ 64 := by
  obtain ⟨m, hm⟩ := exists_missing hfew
  -- every part of the ids leaves the same one missing
  have hall : ∀ {ids' : List RequestId}, ids' ⊆ ids →
      (empty.insertAll ids').2.Represents ids' := by
    intro ids' hsub
    exact (Represents.nil.insertAll (m := m) fun hmem => hm (hsub (by simpa using hmem))).1
  refine ⟨(Represents.nil.insertAll (m := m) hm).2, hall (List.Subset.refl ids), ?_, ?_, ?_⟩
  · intro ids' hsame
    exact (hall fun id hid => (hsame id).1 hid).eq (hall (List.Subset.refl ids)) hsame
  · intro before hbefore
    exact (hall hbefore.subset).floor_le (hall (List.Subset.refl ids)) hbefore.subset
  · intro before id hbefore hnew s floors
    have hs := hall ((List.prefix_append before [id]).trans hbefore).subset
    have hmissing : ∀ {x}, x ∉ before → s.contains x = false := by
      intro x hx
      rw [← Bool.not_eq_true, hs.contains]
      exact hx
    have hm' : m ∉ before ++ [id] := fun hmem => hm (hbefore.subset hmem)
    rw [List.mem_append, List.mem_singleton, not_or] at hm'
    have hplace := raisable_place hs.normal (hmissing hnew) (hmissing hm'.1) hm'.2
    refine ⟨?_, fun floor hfloor => ?_⟩
    · rw [insert_of_not_contains (hmissing hnew)]
      exact hplace.toNat_floor_raise
    · have hlt := UInt64.lt_iff_toNat_lt.1 (hplace.lt_gap_of_mem_passed hfloor)
      have hbound := m.val.toNat_lt
      omega

/-- Ids out of order, and one of them twice. -/
theorem compact_set_gap_closed :
    let ids : List RequestId := [⟨2⟩, ⟨0⟩, ⟨2⟩, ⟨1⟩]
    ids.dedup.length < 2 ^ 64
      ∧ (ids.mapIdx fun k id => decide (id ∉ ids.take k)) = [true, true, false, true]
      ∧ (empty.insertAll ids).1 = [true, true, false, true]
      ∧ (empty.insertAll ids).2.Represents ids
      ∧ (empty.insertAll ids).2 = ⟨3, []⟩ := by
  intro ids
  have hfew : ids.dedup.length < 2 ^ 64 := by decide
  obtain ⟨hnews, hset, hsame, _, _⟩ := compact_set ids hfew
  have horder : (empty.insertAll [⟨0⟩, ⟨1⟩, ⟨2⟩]).2 = (empty.insertAll ids).2 :=
    hsame [⟨0⟩, ⟨1⟩, ⟨2⟩] (by intro id; simp only [ids, List.mem_cons, List.not_mem_nil]; tauto)
  exact ⟨hfew, by decide, hnews.trans (by decide), hset, horder.symm.trans (by decide)⟩

end Superstep.SeenIds
