/-!
# Finite maps in order of arrival

A `Table K V` holds pairs with pairwise distinct keys. Overwriting a key keeps its
place, a new key goes to the end, and removal closes the gap, so that listing a table
gives the same order in every run. The laws `get?_insert` and `get?_erase` say how
each operation changes the map.
-/

namespace Superstep

/-- A finite map, listed in the order in which its keys arrived. -/
structure Table (K V : Type) where
  /-- The pairs, oldest key first. -/
  toList : List (K × V)
  nodup : (toList.map Prod.fst).Nodup

namespace Table

variable {K V W : Type}

def empty : Table K V := ⟨[], by simp⟩

instance : Inhabited (Table K V) := ⟨empty⟩

def keys (t : Table K V) : List K := t.toList.map Prod.fst

/-- The values, in the order of their keys. -/
def values (t : Table K V) : List V := t.toList.map Prod.snd

def size (t : Table K V) : Nat := t.toList.length

def filter (t : Table K V) (p : K → V → Bool) : Table K V :=
  ⟨t.toList.filter fun e => p e.1 e.2,
    t.nodup.sublist ((List.filter_sublist).map Prod.fst)⟩

def mapValues (t : Table K V) (f : K → V → W) : Table K W :=
  ⟨t.toList.map fun e => (e.1, f e.1 e.2), by
    have h : (t.toList.map fun e => (e.1, f e.1 e.2)).map Prod.fst = t.toList.map Prod.fst := by
      rw [List.map_map]; rfl
    rw [h]; exact t.nodup⟩

variable [DecidableEq K]

def get? (t : Table K V) (k : K) : Option V :=
  (t.toList.find? fun e => e.1 = k).map Prod.snd

def contains (t : Table K V) (k : K) : Bool :=
  t.toList.any fun e => e.1 = k

def erase (t : Table K V) (k : K) : Table K V :=
  t.filter fun key _ => key ≠ k

theorem contains_iff_mem_keys (t : Table K V) (k : K) : t.contains k = true ↔ k ∈ t.keys := by
  simp [contains, keys]

/-- Stores `v` under `k`: in place when the key is present, at the end otherwise. -/
def insert (t : Table K V) (k : K) (v : V) : Table K V :=
  if h : t.contains k = true then t.mapValues fun key old => if key = k then v else old
  else
    ⟨t.toList ++ [(k, v)], by
      have hk : k ∉ t.toList.map Prod.fst := fun hm => h ((t.contains_iff_mem_keys k).2 hm)
      rw [List.map_append, List.nodup_append]
      refine ⟨t.nodup, by simp, ?_⟩
      intro a ha b hb
      simp only [List.map_cons, List.map_nil, List.mem_singleton] at hb
      rintro rfl
      exact hk (hb ▸ ha)⟩

def modify (t : Table K V) (k : K) (f : V → V) : Table K V :=
  t.mapValues fun key old => if key = k then f old else old

/-- The table that holds `pairs`, later ones overwriting earlier ones of equal key. -/
def ofList (pairs : List (K × V)) : Table K V :=
  pairs.foldl (fun t e => t.insert e.1 e.2) empty

/-- Stores every pair of `other`, which wins where both have a key. -/
def union (t other : Table K V) : Table K V :=
  other.toList.foldl (fun t e => t.insert e.1 e.2) t

theorem get?_erase (t : Table K V) (k k' : K) :
    (t.erase k).get? k' = if k' = k then none else t.get? k' := by
  unfold erase filter get?
  rw [List.find?_filter]
  split
  · next h => subst h; simp
  · next h =>
    congr 1
    refine congrFun (congrArg List.find? ?_) _
    funext e
    by_cases he : e.1 = k'
    · simp [he, h]
    · simp [he]

theorem get?_insert (t : Table K V) (k k' : K) (v : V) :
    (t.insert k v).get? k' = if k' = k then some v else t.get? k' := by
  unfold insert
  split
  · next hc =>
    obtain ⟨old, hold⟩ : ∃ old, (k, old) ∈ t.toList := by
      simpa [contains] using hc
    simp only [get?, mapValues, List.find?_map, Option.map_map]
    by_cases hk : k' = k
    · subst hk
      have hsome : (t.toList.find? fun e => e.1 = k').isSome := by
        rw [List.find?_isSome]; exact ⟨_, hold, by simp⟩
      obtain ⟨e, he⟩ := Option.isSome_iff_exists.1 hsome
      have hfst : e.1 = k' := by simpa using List.find?_some he
      simp only [Function.comp_def, he, Option.map_some, hfst, if_true]
    · simp only [hk, if_false, Function.comp_def]
      cases hf : t.toList.find? fun e => decide (e.1 = k') with
      | none => simp
      | some e =>
        have hfst : e.1 = k' := by simpa using List.find?_some hf
        simp [hfst, hk]
  · next hc =>
    simp only [get?, List.find?_append]
    by_cases hk : k' = k
    · subst hk
      have hnone : (t.toList.find? fun e => decide (e.1 = k')) = none := by
        rw [List.find?_eq_none]
        intro e he hek
        exact hc (by simp only [contains, List.any_eq_true]; exact ⟨e, he, hek⟩)
      simp [hnone]
    · have hne : ¬ k = k' := fun h => hk h.symm
      simp [hk, hne]

end Table

end Superstep
