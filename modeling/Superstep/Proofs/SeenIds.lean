import Mathlib.Algebra.Ring.Nat
import Mathlib.Data.List.Sort
import Superstep.Ledger.Basic

/-!
# Superstep — compact id sets are sets

`SeenIds` keeps a floor and an ascending list above it. Three facts carry every use of it:

* **`normal_insert`** — the floor stays the least id that is missing, and the list stays
  ascending and above it (`Normal`);
* **`contains_insert`** — membership after an insertion is membership before it, or being
  the inserted id;
* **`size_insert`** — a new id makes the set larger by one.

A set is kept in one way only (**`Normal.ext`**).

All need one id that is still missing afterwards. A floor that has passed every id of the
word has wrapped round to zero, and the set has forgotten what it held.
-/

namespace Superstep.SeenIds

/-- The form in which a set is kept: the ids above the floor are in ascending order, and the
floor itself is missing. -/
structure Normal (s : SeenIds) : Prop where
  ascending : s.above.Pairwise (· < ·)
  above_floor : ∀ x ∈ s.above, s.floor < x

theorem normal_empty : Normal empty := ⟨.nil, by simp [empty]⟩

theorem contains_iff {s : SeenIds} {id : RequestId} :
    s.contains id = true ↔ id.val < s.floor ∨ id.val ∈ s.above := by
  simp [contains]

@[simp] theorem contains_empty (id : RequestId) : empty.contains id = false := by
  simp [contains, empty]

/-! ## Placing an id into an ascending list

A new id is put in front of the first one behind it. -/

/-- An id that is placed is added, and nothing is lost. -/
theorem mem_place {id x : UInt64} {xs : List UInt64} : x ∈ place id xs ↔ x = id ∨ x ∈ xs := by
  induction xs with
  | nil => simp [place]
  | cons y ys ih =>
    rw [place]
    split
    · rw [List.mem_cons]
    · rw [List.mem_cons, ih, List.mem_cons]
      exact or_left_comm

theorem ascending_place {id : UInt64} {xs : List UInt64} (hxs : xs.Pairwise (· < ·))
    (hid : id ∉ xs) : (place id xs).Pairwise (· < ·) := by
  induction xs with
  | nil => simp [place]
  | cons y ys ih =>
    rw [List.mem_cons, not_or] at hid
    have hys := (List.pairwise_cons.1 hxs).1
    rw [place]
    -- the id stands in front of the first that is greater
    split
    · next hlt =>
      refine List.pairwise_cons.2 ⟨?_, hxs⟩
      intro z hz
      rcases List.mem_cons.1 hz with rfl | hz
      · exact hlt
      · exact UInt64.lt_trans hlt (hys z hz)
    · next hge =>
      have hlt : y < id := by
        rcases UInt64.lt_or_lt_of_ne hid.1 with h | h
        · exact absurd h hge
        · exact h
      refine List.pairwise_cons.2 ⟨?_, ih (List.pairwise_cons.1 hxs).2 hid.2⟩
      intro z hz
      rcases mem_place.1 hz with rfl | hz
      · exact hlt
      · exact hys z hz

/-! ## Raising the floor

While the list begins with the floor, the floor is raised over it. Ids are words, so it could go
over the last of them and begin again; a missing id in front keeps it from doing so. -/

/-- The next id of one that another id lies behind does not wrap round. -/
theorem toNat_succ_of_lt {a b : UInt64} (h : a < b) : (a + 1).toNat = a.toNat + 1 := by
  have hb := b.toNat_lt
  rw [UInt64.lt_iff_toNat_lt] at h
  rw [UInt64.toNat_add, UInt64.toNat_one]
  exact Nat.mod_eq_of_lt (by omega)

theorem lt_succ_iff {a b y : UInt64} (h : a < b) : y < a + 1 ↔ y < a ∨ y = a := by
  rw [UInt64.lt_iff_toNat_lt, UInt64.lt_iff_toNat_lt, ← UInt64.toNat_inj, toNat_succ_of_lt h]
  omega

/-- The floor can be raised through this list: it ascends from the floor on, and the gap `m` keeps
the floor from wrapping round on its way. -/
structure Raisable (floor m : UInt64) (xs : List UInt64) : Prop where
  ascending : xs.Pairwise (· < ·)
  floor_le : ∀ x ∈ xs, floor ≤ x
  floor_le_gap : floor ≤ m
  gap : m ∉ xs

namespace Raisable

variable {floor m : UInt64} {xs : List UInt64}

theorem lt_gap (h : Raisable floor m (floor :: xs)) : floor < m := by
  refine UInt64.lt_of_le_of_ne h.floor_le_gap ?_
  rintro rfl
  exact h.gap List.mem_cons_self

/-- An id equal to the floor moves into the part below it, and the floor rises by one, to the gap at
most. -/
theorem tail (h : Raisable floor m (floor :: xs)) : Raisable (floor + 1) m xs := by
  obtain ⟨hx, hxs⟩ := List.pairwise_cons.1 h.ascending
  have hsucc : ∀ y, floor < y → floor + 1 ≤ y := by
    intro y hy
    rw [UInt64.le_iff_toNat_le, toNat_succ_of_lt hy]
    exact UInt64.lt_iff_toNat_lt.1 hy
  exact ⟨hxs, fun y hy => hsucc y (hx y hy), hsucc m h.lt_gap,
    fun hmem => h.gap (List.mem_cons_of_mem _ hmem)⟩

/-- **Raising the floor keeps the set.** -/
theorem raise_spec (h : Raisable floor m xs) : (raise floor xs).Normal
    ∧ ∀ y : RequestId, (raise floor xs).contains y = true ↔ y.val < floor ∨ y.val ∈ xs := by
  -- on the list, with a floor that rises along with it
  induction xs generalizing floor with
  | nil => exact ⟨⟨.nil, by simp [raise]⟩, fun y => by rw [raise, contains_iff]⟩
  | cons x xs ih =>
    rw [raise]
    split
    · next heq =>
      subst heq
      obtain ⟨hnormal, hmem⟩ := ih h.tail
      refine ⟨hnormal, fun y => ?_⟩
      rw [hmem, lt_succ_iff h.lt_gap, List.mem_cons, or_assoc]
    -- there is a gap at the floor
    · next hne =>
      have hlt : floor < x :=
        UInt64.lt_of_le_of_ne (h.floor_le x List.mem_cons_self) (Ne.symm hne)
      refine ⟨⟨h.ascending, ?_⟩, fun y => contains_iff⟩
      intro z hz
      rcases List.mem_cons.1 hz with rfl | hz
      · exact hlt
      · exact UInt64.lt_trans hlt ((List.pairwise_cons.1 h.ascending).1 z hz)

/-- Raising the floor counts the same ids differently. -/
theorem size_raise (h : Raisable floor m xs) :
    (raise floor xs).floor.toNat + (raise floor xs).above.length = floor.toNat + xs.length := by
  induction xs generalizing floor with
  | nil => rfl
  | cons x xs ih =>
    rw [raise]
    split
    · next heq =>
      subst heq
      rw [ih h.tail, toNat_succ_of_lt h.lt_gap, List.length_cons]
      omega
    · rfl

end Raisable

/-! ## Insertion

A new id is placed, and then the floor is raised. The list that results can be raised over, because
the id that is missing stays missing. -/

theorem insert_of_contains {s : SeenIds} {id : RequestId} (h : s.contains id = true) :
    s.insert id = (false, s) := by
  rw [insert, if_pos h]

theorem insert_of_not_contains {s : SeenIds} {id : RequestId} (h : s.contains id = false) :
    s.insert id = (true, raise s.floor (place id.val s.above)) := by
  rw [insert, if_neg (by rw [h]; exact Bool.false_ne_true)]

/-- A new id is placed so that the floor can be raised, when another id `m` stays missing. -/
theorem raisable_place {s : SeenIds} {id m : RequestId} (hs : s.Normal)
    (hid : s.contains id = false) (hm : s.contains m = false) (hne : m ≠ id) :
    Raisable s.floor m.val (place id.val s.above) := by
  rw [← Bool.not_eq_true, contains_iff, not_or, UInt64.not_lt] at hid hm
  refine ⟨ascending_place hs.ascending hid.2, ?_, hm.1, ?_⟩
  · intro x hx
    rcases mem_place.1 hx with rfl | hx
    · exact hid.1
    · exact UInt64.le_of_lt (hs.above_floor x hx)
  · have hval : m.val ≠ id.val := fun h => hne (by cases m; cases id; cases h; rfl)
    rw [mem_place, not_or]
    exact ⟨hval, hm.2⟩

/-- What an insertion does when the id is new and another one stays missing. -/
theorem insert_spec {s : SeenIds} {id m : RequestId} (hs : s.Normal)
    (hid : s.contains id = false) (hm : s.contains m = false) (hne : m ≠ id) :
    (s.insert id).2.Normal
      ∧ ∀ y, (s.insert id).2.contains y = true ↔ y = id ∨ s.contains y = true := by
  obtain ⟨hnormal, hmem⟩ := (raisable_place hs hid hm hne).raise_spec
  rw [insert_of_not_contains hid]
  refine ⟨hnormal, fun y => ?_⟩
  have hy : y.val = id.val ↔ y = id := by cases y; cases id; simp
  rw [hmem, mem_place, contains_iff, hy]
  exact or_left_comm

theorem normal_insert {s : SeenIds} {id m : RequestId} (hs : s.Normal)
    (hm : s.contains m = false) (hne : m ≠ id) : (s.insert id).2.Normal := by
  cases hid : s.contains id with
  | true => rw [insert_of_contains hid]; exact hs
  | false => exact (insert_spec hs hid hm hne).1

/-- **Membership after an insertion.** -/
theorem contains_insert {s : SeenIds} {id m : RequestId} (hs : s.Normal)
    (hm : s.contains m = false) (hne : m ≠ id) (y : RequestId) :
    (s.insert id).2.contains y = true ↔ y = id ∨ s.contains y = true := by
  cases hid : s.contains id with
  | true =>
    rw [insert_of_contains hid]
    constructor
    · exact Or.inr
    · rintro (rfl | h)
      · exact hid
      · exact h
  | false => exact (insert_spec hs hid hm hne).2 y

/-! ## Sizes

The size is a word. It is right because an ascending list of words above the floor is not longer
than there are such words. -/

theorem length_place (id : UInt64) (xs : List UInt64) : (place id xs).length = xs.length + 1 := by
  induction xs with
  | nil => rfl
  | cons y ys ih =>
    rw [place]
    split
    · rfl
    · rw [List.length_cons, List.length_cons, ih]

/-- Ids that ascend behind another one are no more than there are behind it. -/
theorem length_add_lt {a : UInt64} {xs : List UInt64} (hxs : xs.Pairwise (· < ·))
    (ha : ∀ x ∈ xs, a < x) : xs.length + a.toNat < 2 ^ 64 := by
  induction xs generalizing a with
  | nil =>
    have := a.toNat_lt
    rw [List.length_nil]
    omega
  | cons x xs ih =>
    obtain ⟨hx, hxs⟩ := List.pairwise_cons.1 hxs
    have hrest := ih hxs hx
    have hlt := UInt64.lt_iff_toNat_lt.1 (ha x List.mem_cons_self)
    rw [List.length_cons]
    omega

/-- **The size does not wrap round**, even though it is a sum. -/
theorem toNat_size {s : SeenIds} (hs : s.Normal) :
    s.size.toNat = s.floor.toNat + s.above.length := by
  have hlt := length_add_lt hs.ascending hs.above_floor
  rw [size, UInt64.toNat_add, UInt64.toNat_ofNat']
  omega

/-- **A new id counts one more.** -/
theorem size_insert {s : SeenIds} {id m : RequestId} (hs : s.Normal)
    (hid : s.contains id = false) (hm : s.contains m = false) (hne : m ≠ id) :
    (s.insert id).2.size.toNat = s.size.toNat + 1 := by
  have hnormal := normal_insert hs hm hne
  have hraise := (raisable_place hs hid hm hne).size_raise
  rw [length_place] at hraise
  rw [toNat_size hnormal, insert_of_not_contains hid, hraise, toNat_size hs]
  omega

/-! ## One form for each set

The floor is the least missing id, so it can be told from membership alone. And what lies above it
can then be told as well. -/

namespace Normal

variable {s t : SeenIds}

/-- The floor is not in the set. -/
theorem floor_missing (hs : s.Normal) : s.contains ⟨s.floor⟩ = false := by
  rw [← Bool.not_eq_true, contains_iff, not_or]
  refine ⟨UInt64.lt_irrefl _, fun hmem => ?_⟩
  exact UInt64.lt_irrefl _ (hs.above_floor _ hmem)

/-- **A set with more ids has no smaller floor.** -/
theorem floor_le (hs : s.Normal) (h : ∀ id, t.contains id = true → s.contains id = true) :
    t.floor ≤ s.floor := by
  refine UInt64.not_lt.1 fun hlt => ?_
  have hmissing := hs.floor_missing
  rw [h _ (contains_iff.2 (.inl hlt))] at hmissing
  cases hmissing

theorem mem_above_iff (hs : s.Normal) {x : UInt64} :
    x ∈ s.above ↔ s.contains ⟨x⟩ = true ∧ ¬ x < s.floor := by
  rw [contains_iff]
  constructor
  · intro hmem
    exact ⟨.inr hmem, UInt64.not_lt.2 (UInt64.le_of_lt (hs.above_floor x hmem))⟩
  · rintro ⟨hlt | hmem, hge⟩
    · exact absurd hlt hge
    · exact hmem

/-- **Sets with the same ids are kept alike.** -/
theorem ext (hs : s.Normal) (ht : t.Normal) (h : ∀ id, s.contains id = t.contains id) : s = t := by
  have hfloor : s.floor = t.floor :=
    UInt64.le_antisymm (ht.floor_le fun id hid => by rwa [← h])
      (hs.floor_le fun id hid => by rwa [h])
  have habove : s.above = t.above := by
    refine hs.ascending.eq_of_mem_iff ht.ascending fun x => ?_
    rw [hs.mem_above_iff, ht.mem_above_iff, h, hfloor]
  cases s
  cases t
  cases hfloor
  cases habove
  rfl

end Normal

end Superstep.SeenIds
