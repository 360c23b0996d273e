import Superstep.Proofs.Reuse

/-!
# Superstep — containers and vertices are compared as maps

Two containers compare equal when they count as many edges and every edge of the one is found in the
other. That looks one way only, through the listing of the one strategy and the lookup of the other.
It says that both hold the same finite map all the same: targets are distinct, so that as many edges
that are found again are all there are.

`SameMap` is this equality of maps, with values that compare equal.

* **`Edges.same_iff_of_lawful`** — the comparison is `SameMap` of what the two containers hold;
* **`Vertex.Reached.means`** — every vertex that operations made has edges that mean a map;
* **`same_iff_same_map`** — for containers and for vertices, whatever their histories.
-/

namespace Superstep

variable {I V E : Type} [VertexId I] [Value V] [Value E]

/-- Values that compare equal are as good as equal. Floating-point words are no such values. -/
abbrev Value.Fair (E : Type) [Value E] : Prop := Equivalence fun v w : E => Value.same v w = true

/-- Two finite maps have the same keys, with values that compare equal. -/
def SameMap (m m' : Mapping I E) : Prop :=
  ∀ target, Option.Rel (fun v w => Value.same v w = true) (m.lookup target) (m'.lookup target)

namespace SameMap

variable {m m' m'' : Mapping I E}

theorem refl (h : Value.Fair E) (m : Mapping I E) : SameMap m m := by
  intro target
  cases m.lookup target with
  | none => exact .none
  | some value => exact .some (h.refl value)

theorem symm (h : Value.Fair E) (hm : SameMap m m') : SameMap m' m := by
  intro target
  have hrel := hm target
  generalize m.lookup target = found, m'.lookup target = found' at hrel ⊢
  cases hrel with
  | none => exact .none
  | some hsame => exact .some (h.symm hsame)

theorem trans (h : Value.Fair E) (hm : SameMap m m') (hm' : SameMap m' m'') : SameMap m m'' := by
  intro target
  have hfirst := hm target
  have hsecond := hm' target
  generalize m.lookup target = found, m'.lookup target = found', m''.lookup target = found''
    at hfirst hsecond ⊢
  cases hfirst with
  | none => exact hsecond
  | some hsame =>
    cases hsecond with
    | some hsame' => exact .some (h.trans hsame hsame')

/-- What one of the maps has under a key, the other has as well. -/
theorem lookup_eq_some {target : I} {v : E} (hm : SameMap m m') (hv : m.lookup target = some v) :
    ∃ w, m'.lookup target = some w ∧ Value.same v w = true := by
  have hrel := hm target
  rw [hv] at hrel
  generalize m'.lookup target = found at hrel ⊢
  cases hrel with
  | some hsame => exact ⟨_, rfl, hsame⟩

/-- Maps that are the same in this sense have the same targets. -/
theorem keys_eq (hm : SameMap m m') : m.keys = m'.keys := by
  ext target
  rw [Finmap.mem_keys, Finmap.mem_keys, ← Finmap.lookup_isSome, ← Finmap.lookup_isSome]
  have hrel := hm target
  generalize m.lookup target = found, m'.lookup target = found' at hrel ⊢
  cases hrel with
  | none => exact Iff.rfl
  | some _ => exact Iff.rfl

end SameMap

/-! ## The comparison

Lengths are compared, and then each edge of the first container is looked up in the second. In a map
no target comes twice, so that this is enough for both directions. -/

theorem Vertex.same_eq_true_iff {v w : Vertex I V E} : v.same w = true ↔ v.id = w.id
    ∧ Value.same v.value w.value = true ∧ v.halted = w.halted ∧ v.edges.same w.edges = true := by
  simp only [same, Bool.and_eq_true, decide_eq_true_eq, beq_iff_eq, and_assoc]

namespace Edges

theorem same_eq_true_iff {a b : Edges I E} : a.same b = true ↔ a.count = b.count
    ∧ ∀ edge ∈ a.toList, ∃ value, b.get? edge.1 = some value ∧ Value.same value edge.2 = true := by
  rw [same, Bool.and_eq_true, decide_eq_true_eq, List.all_eq_true]
  refine and_congr_right fun _ => forall₂_congr fun edge _ => ?_
  cases b.get? edge.1 with
  | none => simp
  | some value => simp

variable [LawfulId I]

/-- **The comparison looks one way and says it both ways.** -/
theorem same_iff_of_lawful (hfair : Value.Fair E) {a b : Edges I E} (ha : a.Lawful)
    (hb : b.Lawful) : a.same b = true ↔ SameMap a.mapping b.mapping := by
  have hlists := lists_toList ha
  rw [same_eq_true_iff, count_eq ha, count_eq hb]
  constructor
  · rintro ⟨hcount, hfound⟩
    -- every edge of `a` is one of `b`
    have hlookup : ∀ {target v}, a.mapping.lookup target = some v →
        ∃ w, b.mapping.lookup target = some w ∧ Value.same v w = true := by
      intro target v hv
      obtain ⟨w, hw, hsame⟩ := hfound _ ((hlists.mem_iff target v).2 hv)
      rw [get?_eq hb] at hw
      exact ⟨w, hw, hfair.symm hsame⟩
    have hsubset : a.mapping.keys ⊆ b.mapping.keys := by
      intro target hmem
      obtain ⟨v, hv⟩ := Finmap.mem_iff.1 (Finmap.mem_keys.1 hmem)
      obtain ⟨w, hw, -⟩ := hlookup hv
      exact Finmap.mem_keys.2 (Finmap.mem_of_lookup_eq_some hw)
    -- and they are as many, so that `b` has no others
    have hkeys := Finset.eq_of_subset_of_card_le hsubset hcount.ge
    intro target
    cases hv : a.mapping.lookup target with
    | some v =>
      obtain ⟨w, hw, hsame⟩ := hlookup hv
      rw [hw]
      exact .some hsame
    | none =>
      have habsent : target ∉ b.mapping := by
        rw [← Finmap.mem_keys, ← hkeys, Finmap.mem_keys]
        exact Finmap.lookup_eq_none.1 hv
      rw [Finmap.lookup_eq_none.2 habsent]
      exact .none
  · intro hsame
    refine ⟨congrArg Finset.card hsame.keys_eq, fun edge hedge => ?_⟩
    obtain ⟨w, hw, hvalue⟩ := hsame.lookup_eq_some ((hlists.mem_iff edge.1 edge.2).1 hedge)
    exact ⟨w, by rw [get?_eq hb, hw], hfair.symm hvalue⟩

variable [LawfulCodec E]

/-! ## Vertices and what their edges mean

For containers that calls made, `Means` gives the map. A vertex has its container from operations of
its own, among them a decode over an old vertex; each of them makes a container that means a map
from one that does. -/

/-- A container that was read, over whatever was there before, might have been read by a new one. -/
theorem means_of_decodeInto {old : Edges I E} {input : Bytes}
    (h : (old.decodeInto input).outcome = .ok ()) : ∃ m, (old.decodeInto input).target.Means m := by
  obtain ⟨pairs, hholds⟩ := holds_of_decodeInto h
  have hstrategy : old.strategy = (empty old.strategy : Edges I E).strategy := by
    cases old.strategy <;> rfl
  have hnew := (decodeInto_agrees hstrategy input).eq_ok (Refill.eq_of_outcome h)
  have hmeans := (means_empty old.strategy).perform (.decode hholds)
  rw [perform, hnew] at hmeans
  exact ⟨_, hmeans⟩

end Edges

variable [LawfulId I] [LawfulCodec E]

/-- **The edges of every vertex mean a map.** -/
theorem Vertex.Reached.means {v : Vertex I V E} (h : v.Reached) : ∃ m, v.edges.Means m := by
  -- over the operations, each of which is a call of the container or leaves it alone
  induction h with
  | new _ _ strategy => exact ⟨∅, Edges.means_empty strategy⟩
  | withEdges _ _ strategy edges => exact (Edges.means_empty strategy).addAll edges
  | reset _ _ _ ih | clearEdges _ ih =>
    obtain ⟨m, hmeans⟩ := ih
    exact ⟨∅, hmeans.perform .clear⟩
  | addEdge _ target value ih =>
    obtain ⟨m, hmeans⟩ := ih
    exact ⟨_, hmeans.perform (.add target value)⟩
  | removeEdge _ target ih =>
    obtain ⟨m, hmeans⟩ := ih
    exact ⟨_, hmeans.perform (.remove target)⟩
  | setEdges _ _ _ ih => exact ih
  | setValue _ _ ih | halt _ ih | wake _ ih => exact ih
  | decodeEdges _ hdecode _ => exact Edges.means_of_decodeInto hdecode
  -- the vertex that is read over has edges of its own, of which nothing is left
  | decodeInto hdecode =>
    obtain ⟨_, middle, _, -, -, hedges, -⟩ := decodeInto_eq_ok_iff.1 (Refill.eq_of_outcome hdecode)
    obtain ⟨m, hmeans⟩ := Edges.means_of_decodeInto (congrArg Refill.outcome hedges)
    rw [hedges] at hmeans
    exact ⟨m, hmeans⟩

/-- Which containers are compared does not matter, but only which maps they mean. -/
theorem Edges.Means.same_iff (hfair : Value.Fair E) {a b : Edges I E} {m m' : Mapping I E}
    (ha : a.Means m) (hb : b.Means m') : a.same b = true ↔ SameMap m m' := by
  rw [same_iff_of_lawful hfair ha.lawful hb.lawful, ha.mapping_eq, hb.mapping_eq]

/-- **The comparison is an equivalence** of all containers that mean a map. -/
theorem Edges.equivalence_same (hfair : Value.Fair E) :
    Equivalence fun a b : { es : Edges I E // ∃ m, es.Means m } => a.1.same b.1 = true where
  refl := by
    rintro ⟨a, m, ha⟩
    exact (ha.same_iff hfair ha).2 (.refl hfair m)
  symm := by
    rintro ⟨a, m, ha⟩ ⟨b, m', hb⟩ hsame
    exact (hb.same_iff hfair ha).2 (((ha.same_iff hfair hb).1 hsame).symm hfair)
  trans := by
    rintro ⟨a, m, ha⟩ ⟨b, m', hb⟩ ⟨c, m'', hc⟩ hsame hsame'
    have hfirst := (ha.same_iff hfair hb).1 hsame
    have hsecond := (hb.same_iff hfair hc).1 hsame'
    exact (ha.same_iff hfair hc).2 (hfirst.trans hfair hsecond)

def Vertex.Reached.edges {v : Vertex I V E} (h : v.Reached) :
    { es : Edges I E // ∃ m, es.Means m } :=
  ⟨v.edges, h.means⟩

/-- **The comparison of vertices is an equivalence** as well, field by field. -/
theorem Vertex.equivalence_same (hfair : Value.Fair E) (hfair' : Value.Fair V) :
    Equivalence fun v w : { v : Vertex I V E // v.Reached } => v.1.same w.1 = true where
  refl := by
    rintro ⟨v, hv⟩
    exact same_eq_true_iff.2
      ⟨rfl, hfair'.refl v.value, rfl, (Edges.equivalence_same hfair).refl hv.edges⟩
  symm := by
    rintro ⟨v, hv⟩ ⟨w, hw⟩ hsame
    obtain ⟨hid, hvalue, hhalted, hedges⟩ := same_eq_true_iff.1 hsame
    have hback := (Edges.equivalence_same hfair).symm (x := hv.edges) (y := hw.edges) hedges
    exact same_eq_true_iff.2 ⟨hid.symm, hfair'.symm hvalue, hhalted.symm, hback⟩
  trans := by
    rintro ⟨v, hv⟩ ⟨w, hw⟩ ⟨u, hu⟩ hsame hsame'
    obtain ⟨hid, hvalue, hhalted, hedges⟩ := same_eq_true_iff.1 hsame
    obtain ⟨hid', hvalue', hhalted', hedges'⟩ := same_eq_true_iff.1 hsame'
    have hboth := (Edges.equivalence_same hfair).trans (x := hv.edges) (y := hw.edges)
      (z := hu.edges) hedges hedges'
    exact same_eq_true_iff.2
      ⟨hid.trans hid', hfair'.trans hvalue hvalue', hhalted.trans hhalted', hboth⟩

/-- **Equality is equality of maps.** Every container that successful calls made, in any strategy
and in any order, means a finite map. Two of them compare equal if and only if their maps have the
same targets with values that compare equal; so the comparison is an equivalence across all
strategies, and how a container came by its map does not matter. Vertices that operations made
compare equal if and only if ids, values, flags and these maps do, which is an equivalence too.
Edge values have to compare as an equivalence. -/
theorem same_iff_same_map (hfair : Value.Fair E) :
    (∀ (strategy : EdgeStrategy) (calls : List (Edges.Call I E)),
      (∀ answer ∈ ((Edges.empty strategy : Edges I E).run calls).1, answer.isOk = true) →
      ∃ m, ((Edges.empty strategy : Edges I E).run calls).2.Means m)
    ∧ (∀ (a b : Edges I E) (m m' : Mapping I E), a.Means m → b.Means m' →
      (a.same b = true ↔ SameMap m m'))
    ∧ (Equivalence fun a b : { es : Edges I E // ∃ m, es.Means m } => a.1.same b.1 = true)
    ∧ (∀ (a a' b : Edges I E) (m m' : Mapping I E), a.Means m → a'.Means m → b.Means m' →
      a.same a' = true ∧ a.same b = a'.same b ∧ b.same a = b.same a')
    ∧ (∀ v w : Vertex I V E, v.Reached → w.Reached → ∃ m m', v.edges.Means m ∧ w.edges.Means m'
      ∧ (v.same w = true ↔ v.id = w.id ∧ Value.same v.value w.value = true
        ∧ v.halted = w.halted ∧ SameMap m m'))
    ∧ (Value.Fair V →
      Equivalence fun v w : { v : Vertex I V E // v.Reached } => v.1.same w.1 = true) := by
  refine ⟨fun _ _ => Edges.exists_means, fun a b m m' ha hb => ha.same_iff hfair hb,
    Edges.equivalence_same hfair, ?_, ?_, Vertex.equivalence_same hfair⟩
  · intro a a' b m m' ha ha' hb
    refine ⟨(ha.same_iff hfair ha').2 (.refl hfair m), ?_, ?_⟩
    · rw [Bool.eq_iff_iff, ha.same_iff hfair hb, ha'.same_iff hfair hb]
    · rw [Bool.eq_iff_iff, hb.same_iff hfair ha, hb.same_iff hfair ha']
  · intro v w hv hw
    obtain ⟨m, hm⟩ := hv.means
    obtain ⟨m', hm'⟩ := hw.means
    refine ⟨m, m', hm, hm', ?_⟩
    rw [Vertex.same_eq_true_iff, hm.same_iff hfair hm']

/-- Values that are compared by equality are fair. -/
theorem Value.fair_ofDecidableEq (α : Type) [Codec α] [Inhabited α] [DecidableEq α] :
    @Fair α (.ofDecidableEq α) where
  refl _ := decide_eq_true rfl
  symm h := decide_eq_true (of_decide_eq_true h).symm
  trans h h' := decide_eq_true ((of_decide_eq_true h).trans (of_decide_eq_true h'))

/-- Values of all scalar types compare as an equivalence, except floating-point words. -/
theorem Scalar.fair : ∀ s : Scalar, s ≠ .f32 → s ≠ .f64 → @Value.Fair s.Carrier s.instValue
  | i8, _, _ => Value.fair_ofDecidableEq Int8
  | i16, _, _ => Value.fair_ofDecidableEq Int16
  | i32, _, _ => Value.fair_ofDecidableEq Int32
  | i64, _, _ => Value.fair_ofDecidableEq Int64
  | u8, _, _ => Value.fair_ofDecidableEq UInt8
  | u16, _, _ => Value.fair_ofDecidableEq UInt16
  | u32, _, _ => Value.fair_ofDecidableEq UInt32
  | u64, _, _ => Value.fair_ofDecidableEq UInt64
  | f32, h, _ => absurd rfl h
  | f64, _, h => absurd rfl h
  | bool, _, _ => Value.fair_ofDecidableEq Bool
  | unit, _, _ => Value.fair_ofDecidableEq Unit
  | string, _, _ => Value.fair_ofDecidableEq String

def readOnce : List (Edges.Call UInt64 UInt64) :=
  [.decode (Section.encode Edges.others)]

def addedSingly : List (Edges.Call UInt64 UInt64) :=
  [.add 7 71, .add 5 50, .add 2 20, .remove 5, .add 7 70]

/-- Encoded bytes and a list in order that came to be in two ways compare equal, and so do vertices
with these edges. -/
theorem same_iff_same_map_histories :
    let a := ((Edges.empty .lazy).run readOnce).2
    let b := ((Edges.empty .sorted).run addedSingly).2
    let v : Vertex UInt64 UInt64 UInt64 := .withEdges 1 10 .lazy [(7, 70), (2, 20)]
    let w : Vertex UInt64 UInt64 UInt64 := .withEdges 1 10 .hashed [(2, 20), (7, 70)]
    Value.Fair UInt64
      ∧ (∃ m m', a.Means m ∧ b.Means m' ∧ SameMap m m') ∧ b.same a = true
      ∧ v.Reached ∧ w.Reached ∧ (∃ m m', v.edges.Means m ∧ w.edges.Means m' ∧ SameMap m m')
      ∧ w.same v = true := by
  intro a b v w
  have hfair : Value.Fair UInt64 := Scalar.fair .u64 (by decide) (by decide)
  obtain ⟨hmeans, hiff, hequiv, -, hvertex, hequiv'⟩ :=
    same_iff_same_map (I := UInt64) (V := UInt64) hfair
  obtain ⟨m, hm⟩ := hmeans .lazy readOnce (by decide +kernel)
  obtain ⟨m', hm'⟩ := hmeans .sorted addedSingly (by decide +kernel)
  have hsame : a.same b = true := by decide +kernel
  have hv : v.Reached := .withEdges _ _ _ _
  have hw : w.Reached := .withEdges _ _ _ _
  have hsame' : v.same w = true := by decide +kernel
  obtain ⟨n, n', hn, hn', hboth⟩ := hvertex v w hv hw
  exact ⟨hfair, ⟨m, m', hm, hm', (hiff a b m m' hm hm').1 hsame⟩,
    hequiv.symm (x := ⟨a, m, hm⟩) (y := ⟨b, m', hm'⟩) hsame, hv, hw,
    ⟨n, n', hn, hn', (hboth.1 hsame').2.2.2⟩,
    (hequiv' hfair).symm (x := ⟨v, hv⟩) (y := ⟨w, hw⟩) hsame'⟩

end Superstep
