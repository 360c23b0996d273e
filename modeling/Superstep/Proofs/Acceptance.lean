import Superstep.Proofs.Debris

/-!
# Superstep — all strategies accept the same sections

A container finds a repeated target in its own way: in the map that it fills, among neighbours when
the edges have been sorted, or in a set of targets that it keeps aside. Two of these stop in the
middle of a section and one at its end. They agree on which bytes they accept all the same:
`Section.Spells` says in terms of the decoders alone that a count and as many edges stand at the
front of some bytes, and distinct targets are all that has to be added (**`Section.holds_iff`**).

* **`Section.row_pair_iff`** — edges that decode one after the other are encoded edges;
* **`Edges.same_sections`** — which sections are accepted, and what is read off them, whatever the
  container and whatever was in it.
-/

namespace Superstep

/-- The decoder reads these values off `input`, one after the other, and leaves `rest`. -/
inductive Decoder.Row {α : Type} (d : Decoder α) : Bytes → List α → Bytes → Prop where
  | nil (input : Bytes) : Row d input [] input
  | cons {input middle rest : Bytes} {a : α} {as : List α} (first : d.run input = (.ok a, middle))
      (others : Row d middle as rest) : Row d input (a :: as) rest

variable {I E : Type} [VertexId I] [Value E]

namespace Section

/-- `input` begins with a count of 32 bits and as many edges, which decode one after the other;
`rest` is behind them. Targets may be repeated. -/
def Spells (input : Bytes) (pairs : List (I × E)) (rest : Bytes) : Prop :=
  ∃ body, (Decoder.word 4).run input = (.ok pairs.length, body) ∧ Decoder.Row pair body pairs rest

variable [LawfulId I] [LawfulCodec E]

/-- **Edges that decode are encoded edges**, in front of what is left. -/
theorem row_pair_iff {body rest : Bytes} {pairs : List (I × E)} :
    Decoder.Row pair body pairs rest ↔ body = encodePairs pairs ++ rest ∧ Readable pairs := by
  constructor
  · intro h
    induction h with
    | nil input => exact ⟨rfl, fun _ hmem => by cases hmem⟩
    | @cons input middle rest edge pairs first _ ih =>
      obtain ⟨rfl, hreads⟩ := of_pair first
      obtain ⟨rfl, hreadable⟩ := ih
      exact ⟨by rw [encodePairs_cons, List.append_assoc], hreadable.cons hreads⟩
  · rintro ⟨rfl, hreadable⟩
    induction pairs with
    | nil => exact .nil rest
    | cons edge pairs ih =>
      have hedge := run_pair_eq (hreadable edge List.mem_cons_self) (encodePairs pairs ++ rest)
      rw [encodePairs_cons, List.append_assoc]
      exact .cons hedge (ih hreadable.tail)

theorem spells_iff {input rest : Bytes} {pairs : List (I × E)} : Spells input pairs rest ↔
    input = encode pairs ++ rest ∧ pairs.length < wordLimit ∧ Readable pairs := by
  constructor
  · rintro ⟨body, hcount, hrow⟩
    obtain ⟨hfew, rfl⟩ := Decoder.run_word_eq_ok.1 hcount
    obtain ⟨rfl, hreadable⟩ := row_pair_iff.1 hrow
    exact ⟨by rw [encode, List.append_assoc], hfew, hreadable⟩
  · rintro ⟨rfl, hfew, hreadable⟩
    refine ⟨encodePairs pairs ++ rest, ?_, row_pair_iff.2 ⟨rfl, hreadable⟩⟩
    exact Decoder.run_word_eq_ok.2 ⟨hfew, by rw [encode, List.append_assoc]⟩

/-- **A section is what its decoders say**, with targets that are distinct. The room that the count
asks for is there when the edges are. -/
theorem holds_iff {input rest : Bytes} {pairs : List (I × E)} :
    Holds input pairs rest ↔ Spells input pairs rest ∧ (pairs.map Prod.fst).Nodup := by
  rw [spells_iff]
  constructor
  · exact fun h => ⟨⟨h.bytes, h.few, h.readable⟩, h.nodup⟩
  · exact fun ⟨⟨hbytes, hfew, hreadable⟩, hnodup⟩ => ⟨hbytes, hfew, hnodup, hreadable⟩

/-- Bytes spell one row of edges at the most. -/
theorem Spells.unique {input rest rest' : Bytes} {pairs pairs' : List (I × E)}
    (h : Spells input pairs rest) (h' : Spells input pairs' rest') :
    pairs = pairs' ∧ rest = rest' := by
  obtain ⟨hbytes, hfew, hreadable⟩ := spells_iff.1 h
  obtain ⟨hbytes', hfew', hreadable'⟩ := spells_iff.1 h'
  exact encode_inj hreadable hfew hreadable' hfew' (hbytes.symm.trans hbytes')

end Section

namespace Edges

variable [LawfulId I] [LawfulCodec E]

/-- **All strategies accept the same sections.** Whatever a container is and whatever was in it, it
accepts the bytes if and only if they begin with a count and as many edges that decode, with targets
that are pairwise distinct. So if one container accepts them, then every other does, both stop at
the same place, which is behind the last edge, and hold the same map: the edges of the section, as
many as its count says, each under its target. -/
theorem same_sections (input : Bytes) :
    (∀ old : Edges I E, (old.decodeInto input).outcome = .ok () ↔
      ∃ (pairs : List (I × E)) (rest : Bytes),
        Section.Spells input pairs rest ∧ (pairs.map Prod.fst).Nodup)
    ∧ ∀ old other : Edges I E, (old.decodeInto input).outcome = .ok () →
      let read := old.decodeInto input
      let read' := other.decodeInto input
      read'.outcome = .ok () ∧ read'.rest = read.rest
        ∧ read.target.strategy = old.strategy ∧ read'.target.strategy = other.strategy
        ∧ read'.target.mapping = read.target.mapping
        ∧ (∀ target, read'.target.get? target = read.target.get? target)
        ∧ ∃ pairs : List (I × E), Section.Spells input pairs read.rest
          ∧ Lists pairs read.target.mapping
          ∧ read.target.toList.Perm pairs ∧ read'.target.toList.Perm pairs
          ∧ read.target.count = pairs.length ∧ read'.target.count = pairs.length := by
  have haccepts : ∀ old : Edges I E, (old.decodeInto input).outcome = .ok () ↔
      ∃ (pairs : List (I × E)) (rest : Bytes), Section.Holds input pairs rest := by
    intro old
    -- one direction for any strategy that accepts, the other for any to be tried
    constructor
    · intro hok
      obtain ⟨pairs, hholds⟩ := holds_of_decodeInto hok
      exact ⟨pairs, _, hholds⟩
    · rintro ⟨pairs, rest, hholds⟩
      obtain ⟨es, hdecode, -⟩ := decodeInto_of_holds hholds old
      rw [hdecode]
  refine ⟨fun old => ?_, fun old other hok => ?_⟩
  · simp only [haccepts, Section.holds_iff]
  · obtain ⟨pairs, rest, hholds⟩ := (haccepts old).1 hok
    obtain ⟨es, hdecode, hlawful, hperm⟩ := decodeInto_of_holds hholds old
    obtain ⟨es', hdecode', hlawful', hperm'⟩ := decodeInto_of_holds hholds other
    have hstrategy := strategy_decodeInto old input
    have hstrategy' := strategy_decodeInto other input
    rw [hdecode] at hstrategy ⊢
    rw [hdecode'] at hstrategy' ⊢
    have hmapping : es'.mapping = es.mapping :=
      mapping_eq_of_perm hlawful (hperm'.trans hperm.symm)
    -- a section in another order is another list, but its map is the same
    have hlists : Lists pairs es.mapping := by
      rw [mapping, mapping_perm (nodup_toList hlawful) hperm]
      exact lists_mapping hholds.nodup
    refine ⟨rfl, rfl, hstrategy, hstrategy', hmapping, fun target => ?_, pairs,
      (Section.holds_iff.1 hholds).1, hlists, hperm, hperm', ?_, ?_⟩
    · rw [get?_eq hlawful', get?_eq hlawful, hmapping]
    · rw [hlawful.kept.count_eq, hperm.length_eq]
    · rw [hlawful'.kept.count_eq, hperm'.length_eq]

/-- Edges out of order are accepted by all containers, and a target twice by none. -/
theorem same_sections_unordered :
    let whole := Section.encode ([(3, 30), (1, 10)] : List (UInt64 × UInt64)) ++ [9]
    (∀ old : Edges UInt64 UInt64,
      (old.decodeInto whole).outcome = .ok () ∧ (old.decodeInto whole).rest = [9]
        ∧ (old.decodeInto whole).target.get? 3 = some 30
        ∧ (old.decodeInto whole).target.toList.Perm [(3, 30), (1, 10)])
    ∧ ∀ old : Edges UInt64 UInt64, (old.decodeInto (Section.encode doubled)).outcome ≠ .ok () := by
  intro whole
  have hsmall : ∀ pairs : List (UInt64 × UInt64), (Section.encodePairs pairs).length < wordLimit →
      pairs.length < wordLimit → ∀ rest, Section.Spells (Section.encode pairs ++ rest) pairs rest :=
    fun pairs hpairs hfew rest => Section.spells_iff.2 ⟨rfl, hfew, Section.readable_of_lt hpairs⟩
  constructor
  · intro old
    have hspells := hsmall [(3, 30), (1, 10)] (by decide) (by decide) [9]
    have hok := ((same_sections whole).1 old).2 ⟨_, _, hspells, by decide⟩
    obtain ⟨-, -, -, -, -, -, pairs, hread, hlists, hperm, -⟩ := (same_sections whole).2 old old hok
    obtain ⟨rfl, hrest⟩ := hread.unique hspells
    refine ⟨hok, hrest, ?_, hperm⟩
    rw [get?_eq (lawful_decodeInto hok)]
    exact (hlists.mem_iff 3 30).1 (by decide)
  · intro old hok
    obtain ⟨pairs, rest, hspells, hnodup⟩ := ((same_sections _).1 old).1 hok
    have hspells' := hsmall doubled (by decide) (by decide) []
    rw [List.append_nil] at hspells'
    obtain ⟨rfl, -⟩ := hspells.unique hspells'
    exact absurd hnodup (by decide)

end Edges

end Superstep
