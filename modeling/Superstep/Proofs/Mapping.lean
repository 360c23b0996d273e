import Mathlib.Data.Finmap
import Superstep.Proofs.Table

/-!
# Superstep — finite maps

What tables, edge containers and partitions stand for: a `Mapping`, in which the order of
arrival is forgotten. `mapping` gives the one that a list of pairs stands for; of two pairs with
one key the first counts. Lists that hold the same pairs stand for the same map
(**`mapping_perm`**), and the operations of a table are those of its map (`mapping_insert`,
`mapping_erase`, `get?_union`).
-/

namespace Superstep

abbrev Mapping (K V : Type) := Finmap fun _ : K => V

variable {K V : Type} [DecidableEq K]

/-- The finite map that a list of pairs stands for. -/
def mapping (pairs : List (K × V)) : Mapping K V :=
  (pairs.map fun e => (⟨e.1, e.2⟩ : Sigma fun _ : K => V)).toFinmap

theorem lookup_mapping (pairs : List (K × V)) (k : K) :
    (mapping pairs).lookup k = (pairs.find? fun e => e.1 = k).map Prod.snd := by
  rw [mapping, Finmap.dlookup_list_toFinmap]
  induction pairs with
  | nil => rfl
  | cons e pairs ih =>
    by_cases h : e.1 = k
    · subst h
      simp
    · rw [List.map_cons, List.dlookup_cons_ne _ _ (Ne.symm h), ih,
        List.find?_cons_of_neg (by simpa using h)]

@[simp] theorem mapping_nil : mapping ([] : List (K × V)) = ∅ := rfl

theorem lookup_mapping_eq_some_iff {pairs : List (K × V)} (h : (pairs.map Prod.fst).Nodup)
    {k : K} {v : V} : (mapping pairs).lookup k = some v ↔ (k, v) ∈ pairs := by
  rw [lookup_mapping]
  exact (Table.mem_toList_iff (t := ⟨pairs, h⟩)).symm

theorem mem_mapping {pairs : List (K × V)} {k : K} :
    k ∈ mapping pairs ↔ k ∈ pairs.map Prod.fst := by
  rw [← Finmap.lookup_isSome, lookup_mapping, Option.isSome_map, List.find?_isSome]
  simp

theorem keys_mapping {pairs : List (K × V)} (h : (pairs.map Prod.fst).Nodup) :
    (mapping pairs).keys.val = (pairs.map Prod.fst : List K) := by
  refine (Multiset.Nodup.ext (mapping pairs).keys.nodup (Multiset.coe_nodup.2 h)).2 fun k => ?_
  rw [Finset.mem_val, Finmap.mem_keys, mem_mapping, Multiset.mem_coe]

theorem card_mapping {pairs : List (K × V)} (h : (pairs.map Prod.fst).Nodup) :
    (mapping pairs).keys.card = pairs.length := by
  rw [Finset.card, keys_mapping h, Multiset.coe_card, List.length_map]

theorem entries_mapping {pairs : List (K × V)} (h : (pairs.map Prod.fst).Nodup) :
    (mapping pairs).entries
      = (pairs.map fun e => (⟨e.1, e.2⟩ : Sigma fun _ : K => V) : List _) := by
  induction pairs with
  | nil => rfl
  | cons e pairs ih =>
    obtain ⟨hfirst, hrest⟩ := List.nodup_cons.1 h
    have hcons : mapping (e :: pairs) = (mapping pairs).insert e.1 e.2 := rfl
    have hnew : e.1 ∉ mapping pairs := fun hmem => hfirst (mem_mapping.1 hmem)
    rw [hcons, Finmap.entries_insert_of_notMem hnew, ih hrest]
    rfl

/-- **The order of the pairs does not matter.** -/
theorem mapping_perm {pairs pairs' : List (K × V)} (h : (pairs.map Prod.fst).Nodup)
    (hperm : pairs.Perm pairs') : mapping pairs = mapping pairs' := by
  have h' : (pairs'.map Prod.fst).Nodup := (hperm.map Prod.fst).nodup_iff.1 h
  refine Finmap.ext_lookup fun k => Option.ext fun v => ?_
  rw [lookup_mapping_eq_some_iff h, lookup_mapping_eq_some_iff h', hperm.mem_iff]

/-- A pair in the middle decides for its key, if that key is not in front of it. -/
theorem lookup_mapping_middle {before after : List (K × V)} {e : K × V}
    (h : ∀ x ∈ before, x.1 ≠ e.1) (k : K) : (mapping (before ++ e :: after)).lookup k
      = if k = e.1 then some e.2 else (mapping (before ++ after)).lookup k := by
  simp only [lookup_mapping, List.find?_append]
  split
  · next heq =>
    subst heq
    have hnone : before.find? (fun x => decide (x.1 = e.1)) = none := by
      rw [List.find?_eq_none]
      intro x hx
      simpa using h x hx
    simp [hnone]
  · next hne =>
    rw [List.find?_cons_of_neg (by simpa using Ne.symm hne)]

theorem lookup_insert_mapping (m : Mapping K V) (k k' : K) (v : V) :
    (m.insert k v).lookup k' = if k' = k then some v else m.lookup k' := by
  split
  · next heq => rw [heq, Finmap.lookup_insert]
  · next hne => rw [Finmap.lookup_insert_of_ne _ hne]

theorem lookup_erase_mapping (m : Mapping K V) (k k' : K) :
    (m.erase k).lookup k' = if k' = k then none else m.lookup k' := by
  split
  · next heq => rw [heq, Finmap.lookup_erase]
  · next hne => rw [Finmap.lookup_erase_ne hne]

/-- Erasing what is absent changes nothing. -/
theorem erase_mapping_of_lookup_eq_none {m : Mapping K V} {k : K} (h : m.lookup k = none) :
    m.erase k = m := by
  refine Finmap.ext_lookup fun k' => ?_
  rw [lookup_erase_mapping]
  split
  · next heq => rw [heq, h]
  · rfl

theorem lookup_union_mapping (m m' : Mapping K V) (k : K) :
    (m ∪ m').lookup k = (m.lookup k).or (m'.lookup k) := by
  by_cases h : k ∈ m
  · rw [Finmap.lookup_union_left h]
    obtain ⟨v, hv⟩ := Finmap.mem_iff.1 h
    rw [hv]
    rfl
  · rw [Finmap.lookup_union_right h, Finmap.lookup_eq_none.2 h]
    rfl

namespace Table

def mapping (t : Table K V) : Mapping K V := Superstep.mapping t.toList

theorem lookup_mapping (t : Table K V) (k : K) : t.mapping.lookup k = t.get? k :=
  Superstep.lookup_mapping t.toList k

theorem mapping_insert (t : Table K V) (k : K) (v : V) :
    (t.insert k v).mapping = t.mapping.insert k v := by
  refine Finmap.ext_lookup fun k' => ?_
  rw [lookup_mapping, get?_insert, lookup_insert_mapping, lookup_mapping]

theorem mapping_erase (t : Table K V) (k : K) : (t.erase k).mapping = t.mapping.erase k := by
  refine Finmap.ext_lookup fun k' => ?_
  rw [lookup_mapping, get?_erase, lookup_erase_mapping, lookup_mapping]

theorem get?_union (t other : Table K V) (k : K) :
    (t.union other).get? k = (other.get? k).or (t.get? k) := by
  obtain ⟨pairs, hnodup⟩ := other
  unfold union
  dsimp only
  -- over the pairs that are put in, which overwrite those that are there
  induction pairs generalizing t with
  | nil => rfl
  | cons e pairs ih =>
    obtain ⟨hfirst, hrest⟩ := List.nodup_cons.1 hnodup
    rw [List.foldl_cons, ih (t.insert e.1 e.2) hrest, get?_insert]
    by_cases h : k = e.1
    · subst h
      -- no later pair has the key again
      have hnone : (⟨pairs, hrest⟩ : Table K V).get? e.1 = none := by
        rw [← contains_eq_false_iff, Bool.eq_false_iff, Ne, contains_iff_mem_keys]
        exact hfirst
      rw [hnone, if_pos rfl]
      simp [get?]
    · rw [if_neg h]
      have hskip : (⟨e :: pairs, hnodup⟩ : Table K V).get? k
          = (⟨pairs, hrest⟩ : Table K V).get? k := by
        simp only [get?]
        rw [List.find?_cons_of_neg (by simpa using Ne.symm h)]
      rw [hskip]

end Table

end Superstep
