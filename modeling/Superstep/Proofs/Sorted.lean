import Superstep.Edges.Sorted
import Superstep.Proofs.Mapping
import Superstep.Proofs.Sections

/-!
# Superstep — edges ordered by target

`Ascending` is what a decode that succeeds and every change keep: each target is less than
those behind it. On such a list halving finds the place of a target: **`place_cases`** gives it as
a split of the list, in front of which everything is less and behind which everything is greater.
From there each operation is a fact about `before ++ after`.

A decode sorts what it has read, and two neighbours with one target are then all that can be wrong
with it (`ascending_of_firstRepeat?`).
-/

namespace Superstep.SortedEdges

variable {I E : Type} [VertexId I]

/-- Every target is less than those behind it. -/
def Ascending (pairs : List (I × E)) : Prop :=
  pairs.Pairwise fun a b => compare a.1 b.1 = .lt

/-- The order is one of targets only. -/
theorem ascending_iff {pairs : List (I × E)} :
    Ascending pairs ↔ (pairs.map Prod.fst).Pairwise fun a b => compare a b = .lt := by
  rw [Ascending, List.pairwise_map]

theorem probe_of_lt {pairs : List (I × E)} {i : Nat} (hi : i < pairs.length) (target : I) :
    probe pairs target i = compare pairs[i].1 target := by
  rw [probe, List.getElem?_eq_getElem hi]

/-- Distinct targets have no repeat among neighbours. -/
theorem firstRepeat?_eq_none {pairs : List (I × E)} (h : (pairs.map Prod.fst).Nodup) :
    firstRepeat? pairs = none := by
  induction pairs with
  | nil => rfl
  | cons a pairs ih =>
    obtain ⟨hfirst, hrest⟩ := List.nodup_cons.1 h
    cases pairs with
    | nil => rfl
    | cons b pairs =>
      rw [firstRepeat?, if_neg, ih hrest]
      intro heq
      exact hfirst (by rw [heq]; exact List.mem_cons_self)

variable [LawfulId I]

theorem ne_of_compare_lt {a b : I} (h : compare a b = .lt) : a ≠ b := by
  rintro rfl
  rw [Std.ReflOrd.compare_self] at h
  cases h

theorem ne_of_compare_gt {a b : I} (h : compare a b = .gt) : a ≠ b := by
  rintro rfl
  rw [Std.ReflOrd.compare_self] at h
  cases h

/-- In a list in strict order no target comes twice. -/
theorem Ascending.nodup {pairs : List (I × E)} (h : Ascending pairs) :
    (pairs.map Prod.fst).Nodup := by
  rw [List.Nodup, List.pairwise_map]
  exact h.imp ne_of_compare_lt

/-! ## Looking up

A search by halves is right as long as the place stays between two ends: what is in front of the
lower one is not too great, and what is behind the upper one is too great. `narrow_spec` carries
this through the rounds, and there are enough of them because each leaves less than before. -/

/-- What is behind a greater target is greater. -/
theorem probe_gt_of_le {pairs : List (I × E)} (h : Ascending pairs) {target : I} {i j : Nat}
    (hij : i ≤ j) (hj : j < pairs.length) (hgt : probe pairs target i = .gt) :
    probe pairs target j = .gt := by
  rcases Nat.eq_or_lt_of_le hij with rfl | hlt
  · exact hgt
  · have hstep := List.pairwise_iff_getElem.1 h i j (by omega) hj hlt
    rw [probe_of_lt (by omega)] at hgt
    rw [probe_of_lt hj]
    exact Std.TransCmp.gt_trans (Std.OrientedCmp.gt_of_lt hstep) hgt

/-- What is in front of a lesser target is lesser. -/
theorem probe_lt_of_lt {pairs : List (I × E)} (h : Ascending pairs) {target : I} {i j : Nat}
    (hij : i < j) (hj : j < pairs.length) (hle : probe pairs target j ≠ .gt) :
    probe pairs target i = .lt := by
  have hstep := List.pairwise_iff_getElem.1 h i j (by omega) hj hij
  rw [probe_of_lt hj] at hle
  rw [probe_of_lt (by omega)]
  exact Std.TransCmp.lt_of_lt_of_isLE hstep (Ordering.isLE_iff_ne_gt.2 hle)

/-- **Halving keeps the place in view**: it is not in front of `base`, and not behind the `size`
edges from there on. -/
theorem narrow_spec {pairs : List (I × E)} (h : Ascending pairs) (target : I)
    (rounds base size : Nat) (hrounds : size ≤ rounds + 1) (hsize : 0 < size)
    (hfits : base + size ≤ pairs.length)
    (hbase : base = 0 ∨ probe pairs target base ≠ .gt)
    (hbehind : ∀ i, base + size ≤ i → i < pairs.length → probe pairs target i = .gt) :
    let place := narrow pairs target rounds base size
    place < pairs.length ∧ (place = 0 ∨ probe pairs target place ≠ .gt)
      ∧ ∀ i, place < i → i < pairs.length → probe pairs target i = .gt := by
  -- on the rounds that are left, with one more than the edges in view, so that they do not run out
  induction rounds generalizing base size with
  | zero =>
    have hone : size = 1 := by omega
    subst hone
    exact ⟨by simp only [narrow]; omega, hbase, fun i hi => hbehind i hi⟩
  | succ rounds ih =>
    rw [narrow]
    split
    · next hle =>
      have hone : size = 1 := by omega
      subst hone
      exact ⟨by omega, hbase, fun i hi => hbehind i hi⟩
    · next hmany =>
      dsimp only
      -- the middle is too great, and so is all behind it; or it becomes the base
      by_cases hgt : probe pairs target (base + size / 2) = .gt
      · rw [if_pos hgt]
        refine ih _ _ (by omega) (by omega) (by omega) hbase ?_
        intro i hi hlen
        exact probe_gt_of_le h (by omega) hlen hgt
      · rw [if_neg hgt]
        refine ih _ _ (by omega) (by omega) (by omega) (Or.inr hgt) ?_
        intro i hi hlen
        exact hbehind i (by omega) hlen

/-- **The place of a target** splits the list. -/
theorem place_cases {s : SortedEdges I E} (h : Ascending s.pairs) (target : I) :
    (∃ before edge after, s.pairs = before ++ edge :: after ∧ edge.1 = target
        ∧ s.place target = .found before.length)
      ∨ ∃ before after, s.pairs = before ++ after
        ∧ (∀ e ∈ before, compare e.1 target = .lt) ∧ (∀ e ∈ after, compare e.1 target = .gt)
        ∧ s.place target = .gap before.length := by
  by_cases hnil : s.pairs = []
  · exact Or.inr ⟨[], [], by rw [hnil]; rfl, by simp, by simp, by rw [place, if_pos hnil]; rfl⟩
  · have hpos := List.length_pos_iff.2 hnil
    -- at the start the whole list is in view, so that nothing is behind it
    obtain ⟨hlt, hbase, hbehind⟩ := narrow_spec h target s.pairs.length 0 s.pairs.length
      (by omega) hpos (by omega) (Or.inl rfl) (fun i hi hlen => by omega)
    rw [place, if_neg hnil]
    dsimp only
    -- from here on only the two ends are known of the place, and no longer how it was found
    generalize narrow s.pairs target s.pairs.length 0 s.pairs.length = i at *
    have hlen : (s.pairs.take i).length = i := List.length_take_of_le (by omega)
    have hsplit : s.pairs = s.pairs.take i ++ s.pairs[i] :: s.pairs.drop (i + 1) := by
      rw [← List.drop_eq_getElem_cons hlt, List.take_append_drop]
    have hafter : ∀ e ∈ s.pairs.drop (i + 1), compare e.1 target = .gt := by
      intro e he
      obtain ⟨j, hj, rfl⟩ := List.mem_iff_getElem.1 he
      rw [List.length_drop] at hj
      rw [List.getElem_drop, ← probe_of_lt (by omega)]
      exact hbehind _ (by omega) (by omega)
    have hbefore : probe s.pairs target i ≠ .gt →
        ∀ e ∈ s.pairs.take i, compare e.1 target = .lt := by
      intro hle e he
      obtain ⟨j, hj, rfl⟩ := List.mem_iff_getElem.1 he
      rw [hlen] at hj
      rw [List.getElem_take, ← probe_of_lt (by omega)]
      exact probe_lt_of_lt h hj hlt hle
    -- one last look at the edge that the search ended at
    split
    · next heq =>
      refine Or.inl ⟨_, _, _, hsplit, ?_, by rw [hlen]⟩
      rw [probe_of_lt hlt] at heq
      exact Std.LawfulEqCmp.eq_of_compare heq
    · next hless =>
      refine Or.inr ⟨s.pairs.take (i + 1), s.pairs.drop (i + 1),
        (List.take_append_drop _ _).symm, ?_, hafter, ?_⟩
      · intro e he
        rw [List.take_succ_eq_append_getElem hlt, List.mem_append, List.mem_singleton] at he
        rcases he with he | rfl
        · exact hbefore (by rw [hless]; simp) e he
        · rw [← probe_of_lt hlt]
          exact hless
      · rw [List.length_take_of_le (by omega)]
    · next hgreater =>
      -- the base is never too great unless nothing was halved away in front of it
      have hzero : i = 0 := hbase.resolve_right fun hne => hne hgreater
      subst hzero
      refine Or.inr ⟨[], s.pairs, rfl, by simp, ?_, rfl⟩
      intro e he
      obtain ⟨j, hj, rfl⟩ := List.mem_iff_getElem.1 he
      rw [← probe_of_lt hj]
      exact probe_gt_of_le h (Nat.zero_le j) hj hgreater

/-! ## Operations

Each of them looks for the place and then works on the list there. With the list split at the place,
the result is the same split with another middle. -/

theorem modify_middle {A : Type} (before : List A) (a : A) (after : List A) (f : A → A) :
    (before ++ a :: after).modify before.length f = before ++ f a :: after := by
  induction before with
  | nil => rfl
  | cons b before ih => simpa using ih

theorem insertIdx_middle {A : Type} (before : List A) (a : A) (after : List A) :
    (before ++ after).insertIdx before.length a = before ++ a :: after := by
  induction before with
  | nil => rfl
  | cons b before ih => simpa using ih

theorem eraseIdx_middle {A : Type} (before : List A) (a : A) (after : List A) :
    (before ++ a :: after).eraseIdx before.length = before ++ after := by
  induction before with
  | nil => rfl
  | cons b before ih => simpa using ih

/-- The edges in front of a target do not have it. -/
theorem Ascending.ne_of_mem_before {before after : List (I × E)} {edge : I × E}
    (h : Ascending (before ++ edge :: after)) {e : I × E} (he : e ∈ before) : e.1 ≠ edge.1 :=
  ne_of_compare_lt ((List.pairwise_append.1 h).2.2 e he edge List.mem_cons_self)

/-- A target between what is less and what is greater is absent. -/
theorem not_mem_of_gap {before after : List (I × E)} {target : I}
    (hbefore : ∀ e ∈ before, compare e.1 target = .lt)
    (hafter : ∀ e ∈ after, compare e.1 target = .gt) : target ∉ mapping (before ++ after) := by
  rw [mem_mapping, List.map_append, List.mem_append, List.mem_map, List.mem_map]
  rintro (⟨e, he, heq⟩ | ⟨e, he, heq⟩)
  · exact ne_of_compare_lt (hbefore e he) heq
  · exact ne_of_compare_gt (hafter e he) heq

/-- **A lookup** is that of the map. -/
theorem get?_eq {s : SortedEdges I E} (h : Ascending s.pairs) (target : I) :
    s.get? target = (mapping s.pairs).lookup target := by
  rcases place_cases h target with ⟨before, edge, after, hpairs, rfl, hplace⟩ |
    ⟨before, after, hpairs, hbefore, hafter, hplace⟩
  · rw [get?, hplace]
    rw [hpairs] at h ⊢
    rw [lookup_mapping_middle (fun e he => h.ne_of_mem_before he), if_pos rfl]
    simp
  · rw [get?, hplace, hpairs]
    exact (Finmap.lookup_eq_none.2 (not_mem_of_gap hbefore hafter)).symm

/-- **Adding an edge** keeps the order and is an insertion. -/
theorem add_spec {s : SortedEdges I E} (h : Ascending s.pairs) (target : I) (value : E) :
    ((s.add target value).1 = true ↔ target ∉ mapping s.pairs)
      ∧ Ascending (s.add target value).2.pairs
      ∧ mapping (s.add target value).2.pairs = (mapping s.pairs).insert target value := by
  rcases place_cases h target with ⟨before, edge, after, hpairs, rfl, hplace⟩ |
    ⟨before, after, hpairs, hbefore, hafter, hplace⟩
  · have hne := fun e he => Ascending.ne_of_mem_before (hpairs ▸ h) (e := e) he
    have hadd : s.add edge.1 value = (false, ⟨before ++ (edge.1, value) :: after⟩) := by
      rw [add, hplace, hpairs]
      dsimp only
      rw [modify_middle]
    rw [hadd]
    dsimp only
    refine ⟨?_, ?_, ?_⟩
    · simp [hpairs, mem_mapping]
    · rw [hpairs] at h
      -- only targets are compared, and they are the same
      have htargets : (before ++ (edge.1, value) :: after).map Prod.fst
          = (before ++ edge :: after).map Prod.fst := by simp
      rw [ascending_iff] at h ⊢
      rwa [htargets]
    · refine Finmap.ext_lookup fun k => ?_
      rw [hpairs, lookup_insert_mapping, lookup_mapping_middle (e := (edge.1, value)) hne,
        lookup_mapping_middle hne]
      split
      · rfl
      · rfl
  · have hadd : s.add target value = (true, ⟨before ++ (target, value) :: after⟩) := by
      rw [add, hplace, hpairs]
      dsimp only
      rw [insertIdx_middle]
    rw [hadd]
    dsimp only
    refine ⟨?_, ?_, ?_⟩
    · simp [hpairs, not_mem_of_gap hbefore hafter]
    · rw [hpairs] at h
      obtain ⟨hfront, hback, hacross⟩ := List.pairwise_append.1 h
      refine List.pairwise_append.2 ⟨hfront, List.pairwise_cons.2 ⟨?_, hback⟩, ?_⟩
      · exact fun e he => Std.OrientedCmp.lt_of_gt (hafter e he)
      · intro e he e' he'
        rcases List.mem_cons.1 he' with rfl | he'
        · exact hbefore e he
        · exact hacross e he e' he'
    · refine Finmap.ext_lookup fun k => ?_
      rw [hpairs, lookup_insert_mapping,
        lookup_mapping_middle fun e he => ne_of_compare_lt (hbefore e he)]

/-- **Removing an edge** keeps the order and is an erasure. -/
theorem remove_spec {s : SortedEdges I E} (h : Ascending s.pairs) (target : I) :
    (s.remove target).1 = (mapping s.pairs).lookup target
      ∧ Ascending (s.remove target).2.pairs
      ∧ mapping (s.remove target).2.pairs = (mapping s.pairs).erase target := by
  rcases place_cases h target with ⟨before, edge, after, hpairs, rfl, hplace⟩ |
    ⟨before, after, hpairs, hbefore, hafter, hplace⟩
  · have hne := fun e he => Ascending.ne_of_mem_before (hpairs ▸ h) (e := e) he
    have hremove : s.remove edge.1 = (some edge.2, ⟨before ++ after⟩) := by
      rw [remove, hplace, hpairs]
      dsimp only
      rw [eraseIdx_middle]
      simp
    rw [hremove]
    dsimp only
    refine ⟨?_, ?_, ?_⟩
    · rw [hpairs, lookup_mapping_middle hne, if_pos rfl]
    · rw [hpairs] at h
      exact h.sublist ((List.sublist_cons_self edge after).append_left before)
    · refine Finmap.ext_lookup fun k => ?_
      rw [hpairs, lookup_erase_mapping, lookup_mapping_middle hne]
      split
      · next heq =>
        -- no other edge has the target
        rw [Finmap.lookup_eq_none, mem_mapping, heq]
        have hnodup := h.nodup
        rw [hpairs, List.map_append, List.map_cons] at hnodup
        rw [List.map_append]
        exact (List.nodup_middle.1 hnodup |> List.nodup_cons.1).1
      · rfl
  · have hremove : s.remove target = (none, s) := by rw [remove, hplace]
    rw [hremove]
    have hnone : (mapping s.pairs).lookup target = none := by
      rw [hpairs, Finmap.lookup_eq_none]
      exact not_mem_of_gap hbefore hafter
    exact ⟨hnone.symm, h, (erase_mapping_of_lookup_eq_none hnone).symm⟩

/-! ## Sorting

Sorting by less-or-equal makes neighbours of equal targets. So a comparison of neighbours is enough
to tell whether any target comes twice, and if none does the order is strict. -/

theorem pairwise_mergeSort_inOrder (pairs : List (I × E)) :
    (pairs.mergeSort inOrder).Pairwise fun a b => inOrder a b = true := by
  refine List.pairwise_mergeSort ?_ ?_ pairs
  · exact fun a b c hab hbc => Std.TransCmp.isLE_trans hab hbc
  · intro a b
    rw [Bool.or_eq_true]
    by_cases h : (compare a.1 b.1).isLE
    · exact Or.inl h
    · exact Or.inr (Ordering.isLE_of_eq_lt (Std.OrientedCmp.lt_of_not_isLE h))

/-- Two neighbours with one target are all that can be wrong with a sorted list. -/
theorem ascending_of_firstRepeat? {pairs : List (I × E)}
    (hsorted : pairs.Pairwise fun a b => inOrder a b = true) (h : firstRepeat? pairs = none) :
    Ascending pairs := by
  induction pairs with
  | nil => exact .nil
  | cons a pairs ih =>
    obtain ⟨hle, hsorted⟩ := List.pairwise_cons.1 hsorted
    cases pairs with
    | nil => exact List.pairwise_singleton _ a
    | cons b pairs =>
      rw [firstRepeat?] at h
      split at h
      · cases h
      · next hne =>
        -- sorted says less or equal, and neighbours are not equal
        have hrest := ih hsorted h
        have hab : compare a.1 b.1 = .lt := by
          rcases Ordering.isLE_iff_eq_lt_or_eq_eq.1 (hle b List.mem_cons_self) with hlt | heq
          · exact hlt
          · exact absurd (Std.LawfulEqCmp.eq_of_compare heq) hne
        -- the first is less than its neighbour, which is less than all the others
        refine List.pairwise_cons.2 ⟨?_, hrest⟩
        intro e he
        rcases List.mem_cons.1 he with rfl | he
        · exact hab
        · exact Std.TransCmp.lt_trans hab ((List.pairwise_cons.1 hrest).1 e he)

/-! ## Decoding

Reading collects the pairs as they come, sorts them and looks for a repeat. It accepts the sections
and nothing else. A pair that cannot be read breaks it off before the sorting, and a repeat is found
only behind it. -/

variable [Value E]

/-- **A section that is accepted is sorted.** -/
theorem ascending_decode {input : Bytes}
    (h : (decode (I := I) (E := E) input).outcome = .ok ()) :
    Ascending (decode (I := I) (E := E) input).target.pairs := by
  unfold decode at h ⊢
  split at h
  · cases h
  · dsimp only at h ⊢
    split at h
    · cases h
    · split at h
      · cases h
      · next hnone => exact ascending_of_firstRepeat? (pairwise_mergeSort_inOrder _) hnone

variable [LawfulCodec E]

/-- **A section is read**, and its edges are put in order. -/
theorem decode_of_holds {input rest : Bytes} {pairs : List (I × E)}
    (h : Section.Holds input pairs rest) :
    decode input = ⟨.ok (), ⟨pairs.mergeSort inOrder⟩, rest⟩ := by
  have hnone : firstRepeat? (pairs.mergeSort inOrder) = none :=
    firstRepeat?_eq_none (((List.mergeSort_perm pairs inOrder).map Prod.fst).nodup_iff.2 h.nodup)
  rw [decode, h.run_count]
  dsimp only
  rw [Section.collect_encodePairs h.readable]
  dsimp only
  rw [hnone]

/-- **What is read is a section.** -/
theorem holds_of_decode {input : Bytes}
    (h : (decode (I := I) (E := E) input).outcome = .ok ()) : ∃ pairs : List (I × E),
      Section.Holds input pairs (decode (I := I) (E := E) input).rest := by
  unfold decode at h ⊢
  split at h
  · cases h
  · next n body hcount =>
    rw [Section.count, Decoder.run_lengthPrefix_eq_ok] at hcount
    obtain ⟨hfew, rfl, _⟩ := hcount
    dsimp only at h ⊢
    split at h
    · cases h
    · next hcollect =>
      obtain ⟨hlength, hreadable, hbody⟩ := Section.of_collect hcollect
      generalize Section.collect (I := I) (E := E) n body = read at *
      split at h
      · cases h
      · next hnone =>
        have hascending := ascending_of_firstRepeat? (pairwise_mergeSort_inOrder _) hnone
        have hperm := List.mergeSort_perm read.target inOrder
        refine ⟨read.target, ?_, hlength ▸ hfew, ?_, hreadable⟩
        · rw [Section.encode, hlength, List.append_assoc, ← hbody]
        · exact (hperm.map Prod.fst).nodup_iff.1 hascending.nodup

end Superstep.SortedEdges
