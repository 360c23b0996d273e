import Superstep.Proofs.Grammar

/-!
# Superstep — vertices there and back

A vertex is read over any other as what it says, and what was read is written again. Which bytes
come back depends on how the target keeps its edges: the ones that were read if it keeps them
encoded, and the same edges in the order of their targets if it keeps them sorted.

* **`Vertex.form_of_decodeInto`** — what was read, and in which order its edges are kept;
* **`Vertex.round_trip`** — both ways, for every target.
-/

namespace Superstep

variable {I V E : Type} [VertexId I] [Value E]

namespace Edges

/-- Lawful edges that are kept sorted are in order. -/
theorem Lawful.ascending {es : Edges I E} (h : es.Lawful) (hs : es.strategy = .sorted) :
    SortedEdges.Ascending es.toList := by
  cases es with
  | hashed table => cases hs
  | sorted list => exact h
  | lazy edges => cases hs

/-- Edges that stay encoded stay in the order in which they were read. -/
theorem toList_of_lazy [LawfulId I] [LawfulCodec E] {es es' : Edges I E} {input rest : Bytes}
    {pairs : List (I × E)} (hs : es.strategy = .lazy) (h : Section.Holds input pairs rest)
    (hdecode : es.decodeInto input = ⟨.ok (), es', rest⟩) : es'.toList = pairs := by
  cases es with
  | hashed table => cases hs
  | sorted list => cases hs
  | lazy edges =>
    rw [decodeInto, LazyEdges.decode_of_holds h] at hdecode
    rw [← (Refill.mk.inj hdecode).2.1]
    exact LazyEdges.toList_holding h.readable

end Edges

namespace Vertex

/-- A vertex says what its form says, also when the edges of the form are in another order. -/
theorem data_eq_of_form [LawfulId I] {w : Vertex I V E} {f : VertexForm I V E}
    (hform : w.form = { f with edges := w.edges.toList }) (hperm : w.edges.toList.Perm f.edges)
    (hnodup : (f.edges.map Prod.fst).Nodup) : w.data = f.data := by
  have hvalue : w.value = f.value := congrArg VertexForm.value hform
  have hhalted : w.halted = f.halted := congrArg VertexForm.halted hform
  have hmapping : w.edges.mapping = mapping f.edges := (mapping_perm hnodup hperm.symm).symm
  rw [data, VertexForm.data, hmapping, hvalue, hhalted]

variable [Value V]

/-- **A decode keeps the representation** of the edges. -/
theorem strategy_decodeInto (old : Vertex I V E) (input : Bytes) :
    (old.decodeInto input).target.edges.strategy = old.edges.strategy := by
  unfold Vertex.decodeInto
  dsimp only
  split
  · rfl
  · split
    · rfl
    · split
      · exact Edges.strategy_decodeInto _ _
      · exact Edges.strategy_decodeInto _ _

variable [LawfulId I] [LawfulCodec V] [LawfulCodec E] [LawfulRefill I] [LawfulRefill V]

/-- **What was read** is the words of a vertex. The edges that are kept are those that were read,
and a container that keeps them encoded or sorted decides in which order. -/
theorem form_of_decodeInto {old : Vertex I V E} {input : Bytes}
    (h : (old.decodeInto input).outcome = .ok ()) :
    ∃ f : VertexForm I V E, input = f.body ++ (old.decodeInto input).rest
      ∧ (f.edges.map Prod.fst).Nodup
      ∧ let w := (old.decodeInto input).target
        w.edges.Lawful ∧ w.edges.toList.Perm f.edges
          ∧ (old.edges.strategy = .lazy → w.edges.toList = f.edges)
          ∧ w.form = { f with edges := w.edges.toList } := by
  obtain ⟨w, pairs, middle, rest, hdecode, -, hinput, hholds, hedges⟩ := fields_of_decodeInto h
  rw [hdecode]
  obtain ⟨es, hread, hlawful, hperm⟩ := Edges.decodeInto_of_holds hholds old.edges
  rw [hedges] at hread
  rw [← (Refill.mk.inj hread).2.1] at hlawful hperm
  refine ⟨⟨w.id, w.value, pairs, w.halted⟩, ?_, hholds.nodup, hlawful, hperm, ?_, rfl⟩
  · rw [hinput, hholds.bytes, VertexForm.body, Section.encode]
    simp only [List.append_assoc]
    rfl
  · exact fun hlazy => Edges.toList_of_lazy hlazy hholds hedges

/-- **Vertices go there and back.** Every vertex that operations made is read over every other, with
all that it says and nothing of what follows it. And whatever a vertex was read from is what it is
written as, by a target that keeps edges encoded; one that keeps them sorted puts the edges into the
order of their targets. -/
theorem round_trip :
    (∀ (v old : Vertex I V E) (rest : Bytes), v.Reached → v.encode.length < wordLimit → ∃ w,
      old.decodeInto (v.encode ++ rest) = ⟨.ok (), w, rest⟩
        ∧ w.edges.strategy = old.edges.strategy ∧ w.id = v.id ∧ w.data = v.data)
    ∧ (∀ (old : Vertex I V E) (input : Bytes), (old.decodeInto input).outcome = .ok () →
      ∃ (f : VertexForm I V E) (w : Vertex I V E) (rest : Bytes),
        old.decodeInto input = ⟨.ok (), w, rest⟩ ∧ input = f.body ++ rest
          ∧ (f.edges.map Prod.fst).Nodup
          ∧ w.edges.strategy = old.edges.strategy ∧ w.id = f.id ∧ w.data = f.data
          ∧ (old.edges.strategy = .lazy → w.encode = f.body)
          ∧ (old.edges.strategy = .sorted → ∃ edges, edges.Perm f.edges
            ∧ SortedEdges.Ascending edges ∧ w.encode = { f with edges }.body)) := by
  constructor
  · intro v old rest hv hlen
    obtain ⟨w, hdecode, halike⟩ := decodeInto_encode hv.lawful hlen old rest
    have hstrategy := old.strategy_decodeInto (v.encode ++ rest)
    rw [hdecode] at hstrategy
    exact ⟨w, hdecode, hstrategy, halike.id, halike.data_eq hv.lawful⟩
  · intro old input h
    obtain ⟨f, hinput, hnodup, hlawful, hperm, hlazy, hform⟩ := form_of_decodeInto h
    have hstrategy := old.strategy_decodeInto input
    -- the decode succeeded, so that only what it left is of interest
    generalize hdecode : old.decodeInto input = refill at *
    obtain ⟨outcome, w, rest⟩ := refill
    dsimp only at h hinput hlawful hperm hlazy hform hstrategy
    obtain rfl := h
    have hencode := encode_eq_body hlawful
    rw [hform] at hencode
    have hid : w.id = f.id := congrArg VertexForm.id hform
    have hdata := data_eq_of_form hform hperm hnodup
    refine ⟨f, w, rest, rfl, hinput, hnodup, hstrategy, hid, hdata, fun hs => ?_, fun hs => ?_⟩
    · rw [hencode, hlazy hs]
    · exact ⟨w.edges.toList, hperm, hlawful.ascending (hstrategy.trans hs), hencode⟩

/-- Vertex 1 with two edges, the one to the greater target in front. -/
def unordered : Vertex UInt64 UInt64 UInt64 := (withEdges 1 10 .hashed [(3, 4), (2, 5)]).halt

theorem round_trip_unordered :
    let ordering : Vertex UInt64 UInt64 UInt64 := .new 7 70 .sorted
    let keeping : Vertex UInt64 UInt64 UInt64 := .withEdges 7 70 .lazy [(8, 9)]
    unordered.Reached ∧ unordered.encode.length < wordLimit
      ∧ (∃ w, ordering.decodeInto (unordered.encode ++ [5]) = ⟨.ok (), w, [5]⟩
        ∧ w.edges.strategy = .sorted ∧ w.id = 1 ∧ w.data = ⟨10, mapping [(3, 4), (2, 5)], true⟩)
      ∧ (keeping.decodeInto unordered.encode).outcome = .ok ()
      ∧ (keeping.decodeInto unordered.encode).target.encode
        ++ (keeping.decodeInto unordered.encode).rest = unordered.encode
      ∧ ∃ f : VertexForm UInt64 UInt64 UInt64, f.body <+: unordered.encode ∧ ∃ edges,
        edges.Perm f.edges ∧ SortedEdges.Ascending edges
          ∧ (ordering.decodeInto unordered.encode).target.encode = { f with edges }.body := by
  intro ordering keeping
  obtain ⟨hthere, hback⟩ := round_trip (I := UInt64) (V := UInt64) (E := UInt64)
  have hreached : unordered.Reached := .halt (.withEdges _ _ _ _)
  have hlen : unordered.encode.length < wordLimit := by decide +kernel
  have hkept : (keeping.decodeInto unordered.encode).outcome = .ok () := by rfl
  have hordered : (ordering.decodeInto unordered.encode).outcome = .ok () := by
    obtain ⟨w, hread, _⟩ := hthere unordered ordering [] hreached hlen
    rw [List.append_nil] at hread
    rw [hread]
  refine ⟨hreached, hlen, hthere unordered ordering [5] hreached hlen, hkept, ?_, ?_⟩
  · obtain ⟨f, w, rest, hread, hinput, _, _, _, _, hlazy, _⟩ := hback keeping _ hkept
    rw [hread, hlazy rfl]
    exact hinput.symm
  · obtain ⟨f, w, rest, hread, hinput, _, _, _, _, _, hsorted⟩ := hback ordering _ hordered
    rw [hread]
    exact ⟨f, ⟨rest, hinput.symm⟩, hsorted rfl⟩

end Vertex

end Superstep
