import Mathlib.Data.List.Sort
import Superstep.Proofs.Debris
import Superstep.Proofs.Reencoding

/-!
# Superstep — one form for each map

A list in target order writes its edges in that order, and a strictly ascending list without
repeated targets is the only one of its edges. So containers that keep edges sorted write the same
bytes when they hold the same map, whatever calls made them; and what they wrote is written again
when it was read.

Values count by their encoded forms here, so that the words of a floating-point number count as
they are.

* **`SortedEdges.Ascending.eq_of_mem_iff`** — ascending lists are told apart by their edges;
* **`Edges.encode_eq_of_map_eq`** — equal maps are written as equal bytes;
* **`Edges.decodeInto_encode_sorted`** — sorted edges are written as they were read;
* **`Edges.sorted_form_canonical`** — both, for all containers that calls made.
-/

namespace Superstep

variable {I E : Type} [VertexId I]

/-- **A strictly ascending list is the only one of its pairs.** -/
theorem SortedEdges.Ascending.eq_of_mem_iff [LawfulId I] {pairs pairs' : List (I × E)}
    (h : Ascending pairs) (h' : Ascending pairs') (hmem : ∀ e, e ∈ pairs ↔ e ∈ pairs') :
    pairs = pairs' := by
  have hirrefl : Std.Irrefl fun a b : I × E => compare a.1 b.1 = .lt :=
    ⟨fun _ hlt => ne_of_compare_lt hlt rfl⟩
  have hantisymm : Std.Antisymm fun a b : I × E => compare a.1 b.1 = .lt :=
    ⟨fun _ _ hab hba => absurd rfl (ne_of_compare_lt (Std.TransCmp.lt_trans hab hba))⟩
  exact List.Pairwise.eq_of_mem_iff h h' hmem

variable [Value E]

namespace Section

/-- The edges with the encoded forms of their values. -/
def spelled (pairs : List (I × E)) : List (I × Bytes) :=
  pairs.map fun e => (e.1, Codec.encode e.2)

/-- Edges with the same targets and the same encoded values are encoded alike. -/
theorem encode_of_spelled_eq {pairs pairs' : List (I × E)} (h : spelled pairs = spelled pairs') :
    encode pairs = encode pairs' := by
  have hpairs : ∀ l : List (I × E),
      encodePairs l = (spelled l).flatMap fun e => Codec.encode e.1 ++ e.2 := by
    intro l
    rw [spelled, List.flatMap_map]
    rfl
  have hlength : pairs.length = pairs'.length := by
    have := congrArg List.length h
    rwa [spelled, spelled, List.length_map, List.length_map] at this
  rw [encode, encode, hlength, hpairs, hpairs, h]

theorem ascending_spelled {pairs : List (I × E)} (h : SortedEdges.Ascending pairs) :
    SortedEdges.Ascending (spelled pairs) := by
  rw [SortedEdges.Ascending, spelled, List.pairwise_map]
  exact h

end Section

namespace Edges

/-- What is listed is what the map has, value by encoded value. -/
theorem Lists.mem_spelled_iff {pairs : List (I × E)} {m : Mapping I E} (h : Lists pairs m)
    (target : I) (bytes : Bytes) : (target, bytes) ∈ Section.spelled pairs
      ↔ (m.lookup target).map Codec.encode = some bytes := by
  rw [Section.spelled, List.mem_map, Option.map_eq_some_iff]
  constructor
  · rintro ⟨⟨k, value⟩, hmem, heq⟩
    obtain ⟨rfl, rfl⟩ := Prod.mk.inj heq
    exact ⟨value, (h.mem_iff k value).1 hmem, rfl⟩
  · rintro ⟨value, hlookup, rfl⟩
    exact ⟨(target, value), (h.mem_iff target value).2 hlookup, rfl⟩

variable [LawfulId I]

/-- **Equal maps are written as equal bytes** by containers in target order. -/
theorem encode_eq_of_map_eq {a b : Edges I E} (ha : a.Lawful) (hb : b.Lawful)
    (hsorted : a.strategy = .sorted) (hsorted' : b.strategy = .sorted)
    (h : ∀ target, (a.mapping.lookup target).map Codec.encode
      = (b.mapping.lookup target).map Codec.encode) : a.encode = b.encode := by
  have hlists := lists_toList ha
  have hlists' := lists_toList hb
  rw [encode_eq ha, encode_eq hb]
  -- values need not be equal, only their encoded forms are; targets are in order all the same
  refine Section.encode_of_spelled_eq ?_
  refine (Section.ascending_spelled (ha.ascending hsorted)).eq_of_mem_iff
    (Section.ascending_spelled (hb.ascending hsorted')) ?_
  rintro ⟨target, bytes⟩
  rw [hlists.mem_spelled_iff, hlists'.mem_spelled_iff, h]

/-- The edges fit the form in which they are written: their count fits its 32 bits, and no edge
takes 4 GiB. -/
structure Fits (es : Edges I E) : Prop where
  count : es.toList.length < wordLimit
  edges : ∀ edge ∈ es.toList, (Section.encodePair edge).length < wordLimit

variable [LawfulCodec E]

/-- A container that fits the format writes a section that can be read. -/
theorem Fits.holds {es : Edges I E} (h : es.Fits) (hes : es.Lawful) (rest : Bytes) :
    Section.Holds (es.encode ++ rest) es.toList rest := by
  rw [encode_eq hes]
  exact ⟨rfl, h.count, nodup_toList hes, fun edge hedge => Section.reads_pair (h.edges edge hedge)⟩

/-- **Sorted edges are written as they were read.** -/
theorem decodeInto_encode_sorted {es old : Edges I E} {rest : Bytes} (hes : es.Lawful)
    (hsorted : es.strategy = .sorted) (hsorted' : old.strategy = .sorted)
    (h : Section.Holds (es.encode ++ rest) es.toList rest) :
    ∃ es', old.decodeInto (es.encode ++ rest) = ⟨.ok (), es', rest⟩ ∧ es'.toList = es.toList
      ∧ es'.encode = es.encode := by
  obtain ⟨es', hdecode, hlawful, hperm⟩ := decodeInto_of_holds h old
  have hstrategy := strategy_decodeInto old (es.encode ++ rest)
  rw [hdecode] at hstrategy
  -- what is read has the same edges, and both lists are ascending
  have hascending := hlawful.ascending (hstrategy.trans hsorted')
  have hlist : es'.toList = es.toList :=
    hascending.eq_of_mem_iff (hes.ascending hsorted) fun _ => hperm.mem_iff
  exact ⟨es', hdecode, hlist, by rw [encode_eq hlawful, encode_eq hes, hlist]⟩

/-- What was read can be read again, wherever it is put. -/
theorem holds_encode_of_decodeInto {old es : Edges I E} {input left : Bytes}
    (h : old.decodeInto input = ⟨.ok (), es, left⟩) (rest : Bytes) :
    Section.Holds (es.encode ++ rest) es.toList rest := by
  have hok := congrArg Refill.outcome h
  have hlawful := lawful_decodeInto hok
  obtain ⟨pairs, hholds⟩ := holds_of_decodeInto hok
  obtain ⟨es', hdecode, -, hperm⟩ := decodeInto_of_holds hholds old
  obtain rfl : es = es' := congrArg Refill.target (h.symm.trans hdecode)
  rw [h] at hlawful
  rw [encode_eq hlawful]
  refine ⟨rfl, hperm.length_eq ▸ hholds.few, nodup_toList hlawful, fun edge hedge => ?_⟩
  exact hholds.readable edge (hperm.mem_iff.1 hedge)

/-- The container keeps its edges in target order, and successful calls made it, which mean this
map. -/
def Orders (es : Edges I E) (m : Mapping I E) : Prop := es.strategy = .sorted ∧ es.Means m

/-- **A map has one form.** Take containers that keep edges sorted, made by any calls that succeed:
additions, removals, clearings, and decodes of sections in whatever order their edges are. Each
writes a section of its map in strictly ascending order of targets; and two that hold the same map,
with values compared by their encoded forms, write the same bytes. What such a container wrote is
read back by any other, which writes it again; for edges that were read themselves that is always
so, and for all others if their count and each of them fit the format. -/
theorem sorted_form_canonical :
    (∀ calls : List (Call I E),
      (∀ answer ∈ ((empty .sorted : Edges I E).run calls).1, answer.isOk = true) →
      ∃ m, ((empty .sorted : Edges I E).run calls).2.Orders m)
    ∧ (∀ (es : Edges I E) (m : Mapping I E), es.Orders m → ∃ pairs : List (I × E),
      es.encode = Section.encode pairs ∧ SortedEdges.Ascending pairs ∧ Lists pairs m)
    ∧ (∀ (a b : Edges I E) (m m' : Mapping I E), a.Orders m → b.Orders m' →
      (∀ target, (m.lookup target).map Codec.encode = (m'.lookup target).map Codec.encode) →
      a.encode = b.encode)
    ∧ (∀ (es old : Edges I E) (m : Mapping I E) (rest : Bytes), es.Orders m → es.Fits →
      old.strategy = .sorted → ∃ es', old.decodeInto (es.encode ++ rest) = ⟨.ok (), es', rest⟩
        ∧ es'.encode = es.encode)
    ∧ ∀ (old other : Edges I E) (input rest : Bytes), old.strategy = .sorted →
      other.strategy = .sorted → (old.decodeInto input).outcome = .ok () →
      let es := (old.decodeInto input).target
      ∃ es', other.decodeInto (es.encode ++ rest) = ⟨.ok (), es', rest⟩
        ∧ es'.encode = es.encode := by
  refine ⟨?_, ?_, ?_, ?_, ?_⟩
  · intro calls hok
    obtain ⟨m, hm⟩ := exists_means hok
    exact ⟨m, strategy_run _ calls, hm⟩
  · rintro es m ⟨hsorted, hm⟩
    have hlists := lists_toList hm.lawful
    rw [hm.mapping_eq] at hlists
    exact ⟨es.toList, encode_eq hm.lawful, hm.lawful.ascending hsorted, hlists⟩
  · rintro a b m m' ⟨hsorted, hm⟩ ⟨hsorted', hm'⟩ h
    rw [← hm.mapping_eq, ← hm'.mapping_eq] at h
    exact encode_eq_of_map_eq hm.lawful hm'.lawful hsorted hsorted' h
  · rintro es old m rest ⟨hsorted, hm⟩ hfits hsorted'
    obtain ⟨es', hdecode, -, hencode⟩ :=
      decodeInto_encode_sorted hm.lawful hsorted hsorted' (hfits.holds hm.lawful rest)
    exact ⟨es', hdecode, hencode⟩
  · intro old other input rest hsorted hsorted' hok es
    have hstrategy : es.strategy = .sorted := (strategy_decodeInto old input).trans hsorted
    obtain ⟨es', hdecode, -, hencode⟩ := decodeInto_encode_sorted (lawful_decodeInto hok) hstrategy
      hsorted' (holds_encode_of_decodeInto (Refill.eq_of_outcome hok) rest)
    exact ⟨es', hdecode, hencode⟩

/-- Edges that are added with a detour. -/
def wandering : List (Call UInt64 UInt64) :=
  [.add 7 71, .add 5 50, .clear, .add 9 90, .add 2 20, .add 7 70, .remove 9]

/-- The same edges out of order, read in place of another. -/
def backwards : List (Call UInt64 UInt64) :=
  [.add 4 40, .decode (Section.encode others)]

theorem sorted_form_canonical_detour :
    let a := ((empty .sorted : Edges UInt64 UInt64).run wandering).2
    let b := ((empty .sorted : Edges UInt64 UInt64).run backwards).2
    (∀ answer ∈ ((empty .sorted : Edges UInt64 UInt64).run wandering).1, answer.isOk = true)
      ∧ (∃ m, a.Orders m ∧ b.Orders m) ∧ a.encode = b.encode ∧ a.Fits
      ∧ (∃ es', b.decodeInto (a.encode ++ [1]) = ⟨.ok (), es', [1]⟩ ∧ es'.encode = a.encode)
      ∧ (b.decodeInto a.encode).outcome = .ok ()
      ∧ ∃ es', a.decodeInto ((b.decodeInto a.encode).target.encode ++ [2]) = ⟨.ok (), es', [2]⟩
        ∧ es'.encode = (b.decodeInto a.encode).target.encode := by
  intro a b
  obtain ⟨hmade, -, hbytes, hread, hagain⟩ := sorted_form_canonical (I := UInt64) (E := UInt64)
  have hok : ∀ answer ∈ ((empty .sorted : Edges UInt64 UInt64).run wandering).1,
      answer.isOk = true := by decide +kernel
  obtain ⟨m, hm⟩ := hmade wandering hok
  have hlist : a.toList = [(2, 20), (7, 70)] := by decide +kernel
  -- the section means the map that the detour made
  have hb : b.Orders m := by
    have hnodup : (others.map Prod.fst).Nodup := by decide
    have hholds := Section.holds_encode hnodup (by decide) []
    rw [List.append_nil] at hholds
    have hmap : Superstep.mapping others = m := by
      rw [← hm.2.mapping_eq, mapping, hlist]
      exact mapping_perm hnodup (.swap _ _ _)
    rw [← hmap]
    exact ⟨strategy_run _ backwards,
      .sorted, backwards, _, .cons (.add 4 40) (.cons (.decode hholds) (.nil _)), rfl⟩
  have hfits : a.Fits := by
    constructor
    · rw [hlist]
      decide
    · rw [hlist, List.forall_mem_cons, List.forall_mem_singleton]
      decide
  have hdecodes : (b.decodeInto a.encode).outcome = .ok () := by
    obtain ⟨es', hdecode, -⟩ := hread a b m [] hm hfits hb.1
    rw [List.append_nil] at hdecode
    rw [hdecode]
  exact ⟨hok, ⟨m, hm, hb⟩, hbytes a b m m hm hb fun _ => rfl, hfits, hread a b m [1] hm hfits hb.1,
    hdecodes, hagain b a a.encode [2] hb.1 hm.1 hdecodes⟩

end Edges

end Superstep
