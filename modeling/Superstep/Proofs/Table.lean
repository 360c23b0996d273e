import Mathlib.Data.List.Perm.Basic
import Superstep.Table

/-!
# Superstep — the theory of tables

A `Table` is read through two views: the lookup function `get?`, and the list of its keys.
For each operation this module says what it does to both:

* **lookups** — `get?_filter`, `get?_mapValues`, `get?_modify` join `get?_insert` and
  `get?_erase`, which stand beside the definition;
* **keys** — `keys_insert_of_contains`, `keys_insert_of_not_contains`, `keys_erase`, and the
  operations that keep every key;
* **bridges** — `mem_toList_iff` and `contains_eq_isSome` turn the one view into the other.

No later proof opens a table operation: it rewrites with these.
-/

namespace Superstep.Table

variable {K V W : Type}

/-! ## Listings

A table is its listing, and no key comes twice in it. -/

@[ext] theorem ext_toList {t u : Table K V} (h : t.toList = u.toList) : t = u := by
  cases t; cases u; cases h; rfl

@[simp] theorem toList_empty : (empty : Table K V).toList = [] := rfl

@[simp] theorem keys_empty : (empty : Table K V).keys = [] := rfl

@[simp] theorem keys_mapValues (t : Table K V) (f : K → V → W) :
    (t.mapValues f).keys = t.keys := by
  simp [keys, mapValues]

theorem nodup_keys (t : Table K V) : t.keys.Nodup := t.nodup

@[simp] theorem length_keys (t : Table K V) : t.keys.length = t.size := by
  simp [keys, size]

theorem size_eq_zero_iff (t : Table K V) : t.size = 0 ↔ t.keys = [] := by
  rw [← length_keys, List.length_eq_zero_iff]

variable [DecidableEq K]

/-! ## Lookups and listings

What is looked up is what is listed, because a key comes once. Either view can be taken for a
proof. -/

/-- **The bridge between the views.** A pair is listed exactly when looking its key up gives
its value: keys are distinct, so the first pair of a key is the only one. -/
theorem mem_toList_iff {t : Table K V} {k : K} {v : V} :
    (k, v) ∈ t.toList ↔ t.get? k = some v := by
  obtain ⟨l, hl⟩ := t
  simp only [get?]
  induction l with
  | nil => simp
  | cons e l ih =>
    obtain ⟨k', v'⟩ := e
    simp only [List.map_cons, List.nodup_cons] at hl
    by_cases hk : k' = k
    · subst hk
      have hnot : ∀ v, (k', v) ∉ l := fun v hv => hl.1 (List.mem_map_of_mem hv)
      simp [hnot, eq_comm]
    · have hne : ¬ k = k' := fun h => hk h.symm
      simp [hk, hne, ih hl.2]

theorem contains_eq_isSome (t : Table K V) (k : K) : t.contains k = (t.get? k).isSome := by
  rw [contains, get?, Option.isSome_map, List.isSome_find?]

/-- A key is there when its lookup finds something. -/
theorem mem_keys_iff {t : Table K V} {k : K} : k ∈ t.keys ↔ ∃ v, t.get? k = some v := by
  rw [← contains_iff_mem_keys, contains_eq_isSome, Option.isSome_iff_exists]

theorem contains_eq_true_iff {t : Table K V} {k : K} :
    t.contains k = true ↔ ∃ v, t.get? k = some v := by
  rw [contains_iff_mem_keys, mem_keys_iff]

theorem contains_eq_false_iff {t : Table K V} {k : K} :
    t.contains k = false ↔ t.get? k = none := by
  rw [contains_eq_isSome, Option.isSome_eq_false_iff, Option.isNone_iff_eq_none]

@[simp] theorem get?_empty (k : K) : (empty : Table K V).get? k = none := rfl

/-! ## What each operation does to lookups

One equation for each operation, by which a lookup in the result becomes one in the table. -/

theorem get?_filter (t : Table K V) (p : K → V → Bool) (k : K) :
    (t.filter p).get? k = (t.get? k).filter (p k) := by
  apply Option.ext
  intro v
  rw [← mem_toList_iff, Option.filter_eq_some_iff, ← mem_toList_iff]
  simp [filter]

@[simp] theorem get?_mapValues (t : Table K V) (f : K → V → W) (k : K) :
    (t.mapValues f).get? k = (t.get? k).map (f k) := by
  apply Option.ext
  intro w
  rw [← mem_toList_iff, Option.map_eq_some_iff]
  simp only [mapValues, List.mem_map, Prod.exists, Prod.mk.injEq]
  constructor
  · rintro ⟨k', v, hv, rfl, rfl⟩
    exact ⟨v, mem_toList_iff.1 hv, rfl⟩
  · rintro ⟨v, hv, rfl⟩
    exact ⟨k, v, mem_toList_iff.2 hv, rfl, rfl⟩

theorem get?_modify (t : Table K V) (k k' : K) (f : V → V) :
    (t.modify k f).get? k' = if k' = k then (t.get? k').map f else t.get? k' := by
  unfold modify
  rw [get?_mapValues]
  split
  · next h => simp [h]
  · next h => cases t.get? k' <;> simp

@[simp] theorem get?_insert_self (t : Table K V) (k : K) (v : V) :
    (t.insert k v).get? k = some v := by
  simp [get?_insert]

theorem get?_insert_of_ne (t : Table K V) {k k' : K} (v : V) (h : k' ≠ k) :
    (t.insert k v).get? k' = t.get? k' := by
  simp [get?_insert, h]

/-- What is found after an erasure was there before it. -/
theorem get?_of_get?_erase {t : Table K V} {k k' : K} {v : V}
    (h : (t.erase k).get? k' = some v) : t.get? k' = some v := by
  rw [get?_erase] at h
  split at h
  · cases h
  · exact h

/-- Keys that are absent stay absent when another key is inserted. -/
theorem contains_insert_of_notMem {A : Type} {t : Table K V} {k : K} {l : List A} (f : A → K)
    (v : V) (h : k ∉ l.map f) (hnew : ∀ a ∈ l, t.contains (f a) = false) :
    ∀ a ∈ l, (t.insert k v).contains (f a) = false := by
  intro a ha
  have hne : f a ≠ k := fun heq => h (heq ▸ List.mem_map_of_mem ha)
  rw [contains_eq_false_iff, get?_insert_of_ne _ _ hne, ← contains_eq_false_iff]
  exact hnew a ha

/-! ## What each operation does to keys

The order of the keys is that in which they came in. Only a new key changes it, and an erased
one. -/

@[simp] theorem keys_modify (t : Table K V) (k : K) (f : V → V) :
    (t.modify k f).keys = t.keys := by
  simp [modify]

theorem keys_insert_of_contains (t : Table K V) {k : K} (v : V) (h : t.contains k = true) :
    (t.insert k v).keys = t.keys := by
  simp [insert, h]

theorem toList_insert_of_not_contains (t : Table K V) {k : K} (v : V)
    (h : t.contains k = false) : (t.insert k v).toList = t.toList ++ [(k, v)] := by
  simp [insert, h]

theorem keys_insert_of_not_contains (t : Table K V) {k : K} (v : V)
    (h : t.contains k = false) : (t.insert k v).keys = t.keys ++ [k] := by
  rw [keys, toList_insert_of_not_contains t v h, List.map_append]
  rfl

theorem count_keys_insert_of_ne [BEq K] [LawfulBEq K] (t : Table K V) {k k' : K} (v : V)
    (h : k' ≠ k) : (t.insert k v).keys.count k' = t.keys.count k' := by
  cases hk : t.contains k with
  | true => rw [keys_insert_of_contains t v hk]
  | false =>
    rw [keys_insert_of_not_contains t v hk, List.count_append, List.count_singleton]
    simp [h.symm]

theorem keys_erase (t : Table K V) (k : K) : (t.erase k).keys = t.keys.filter (· ≠ k) := by
  simp only [keys, erase, filter, List.filter_map]
  rfl

theorem size_insert (t : Table K V) (k : K) (v : V) :
    (t.insert k v).size = if t.contains k then t.size else t.size + 1 := by
  rw [← length_keys, ← length_keys]
  cases h : t.contains k with
  | true => rw [keys_insert_of_contains t v h]; rfl
  | false => rw [keys_insert_of_not_contains t v h, List.length_append]; rfl

/-- An erased key is one key less. -/
theorem keys_perm_erase {t : Table K V} {k : K} (h : k ∈ t.keys) :
    t.keys.Perm (k :: (t.erase k).keys) := by
  rw [keys_erase]
  have herase : t.keys.erase k = t.keys.filter (· ≠ k) := by
    rw [t.nodup_keys.erase_eq_filter k]
    congr 1
    funext a
    rw [bne, beq_eq_decide]
    simp
  rw [← herase]
  exact List.perm_cons_erase h

/-! ## Writing back what is there

A value that is put in its own place changes nothing, not even the order. -/

theorem insert_eq_self {t : Table K V} {k : K} {v : V} (h : t.get? k = some v) :
    t.insert k v = t := by
  have hc : t.contains k = true := contains_eq_true_iff.2 ⟨v, h⟩
  apply ext_toList
  simp only [insert, hc, dif_pos, mapValues]
  conv_rhs => rw [← List.map_id t.toList]
  apply List.map_congr_left
  rintro ⟨k', v'⟩ hmem
  by_cases hk : k' = k
  · subst hk
    have : v' = v := Option.some.inj ((mem_toList_iff.1 hmem).symm.trans h)
    simp [this]
  · simp [hk]

end Superstep.Table
