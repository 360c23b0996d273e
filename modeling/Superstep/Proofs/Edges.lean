import Superstep.Edges.Basic
import Superstep.Proofs.Sorted

/-!
# Superstep — edge containers are maps

`Edges.Lawful` says that a container holds what its representation is made for: a list in order,
or bytes that are the encoded form of edges with distinct targets. Every operation keeps it, and
does to the finite map behind the container (`Edges.mapping`) what its name says
(**`add_spec`**, **`remove_spec`**, **`get?_eq`**). Every container reads the sections and nothing
else, and reads off a section the map that it holds (**`decodeInto_of_holds`**,
**`holds_of_decodeInto`**); so a decode that succeeds leaves a lawful container, and what any
container wrote is read back by any other (**`decodeInto_encode`**).
-/

namespace Superstep

variable {I E : Type} [VertexId I]

namespace Table

/-- A table contains the targets of its map. -/
theorem contains_iff_mem_mapping {t : Table I E} {target : I} :
    t.contains target = true ↔ target ∈ t.mapping := by
  rw [contains_iff_mem_keys]
  exact mem_mapping.symm

/-- Edges with new targets are listed behind those that are there. -/
theorem toList_foldl_insert {pairs : List (I × E)} (t : Table I E)
    (hnodup : (pairs.map Prod.fst).Nodup) (hnew : ∀ e ∈ pairs, t.contains e.1 = false) :
    (pairs.foldl (fun t e => t.insert e.1 e.2) t).toList = t.toList ++ pairs := by
  induction pairs generalizing t with
  | nil => exact (List.append_nil _).symm
  | cons e pairs ih =>
    obtain ⟨hfirst, hrest⟩ := List.nodup_cons.1 hnodup
    -- the first edge makes none of the others known
    have hothers := contains_insert_of_notMem Prod.fst e.2 hfirst
      fun other hother => hnew other (List.mem_cons_of_mem _ hother)
    rw [List.foldl_cons, ih (t.insert e.1 e.2) hrest hothers,
      toList_insert_of_not_contains t e.2 (hnew e List.mem_cons_self), List.append_assoc]
    rfl

theorem toList_ofList {pairs : List (I × E)} (h : (pairs.map Prod.fst).Nodup) :
    (ofList pairs).toList = pairs := by
  rw [ofList, toList_foldl_insert empty h fun _ _ => rfl]
  rfl

end Table

variable [Value E]

/-! ## Encoded edges

A container of encoded edges is the bytes of a section and the count that stands in front of them,
until it is asked for a change. Then it becomes a table, and the bytes are out of use for good. So
there is something to prove about it only while it is encoded, and every lemma splits on
`isMaterialized`. -/

namespace LazyEdges

/-- Bytes that are in use are the encoded form of as many edges as are counted, with distinct
targets. -/
def Lawful (s : LazyEdges I E) : Prop :=
  s.isMaterialized = false → ∃ pairs : List (I × E), pairs.length = s.encodedCount
    ∧ s.encoded = Section.encodePairs pairs ∧ Section.Readable pairs ∧ (pairs.map Prod.fst).Nodup

theorem lawful_of_nil {s : LazyEdges I E} (hcount : s.encodedCount = 0) (hbytes : s.encoded = []) :
    s.Lawful :=
  fun _ => ⟨[], hcount.symm, hbytes, fun _ hmem => (by cases hmem), .nil⟩

theorem toList_of_encoded {s : LazyEdges I E} (h : s.isMaterialized = false) :
    s.toList = Section.scan s.encodedCount s.encoded := by
  rw [toList, h]
  rfl

theorem toList_of_materialized {s : LazyEdges I E} (h : s.isMaterialized = true) :
    s.toList = s.pairs.toList :=
  if_pos h

/-- The bytes of lawful edges hold what scanning them finds. -/
theorem lawful_iff {s : LazyEdges I E} : s.Lawful ↔ (s.isMaterialized = false →
    s.toList.length = s.encodedCount ∧ s.encoded = Section.encodePairs s.toList
      ∧ Section.Readable s.toList ∧ (s.toList.map Prod.fst).Nodup) := by
  constructor
  · intro h hencoded
    obtain ⟨pairs, hlength, hbytes, hreadable, hnodup⟩ := h hencoded
    have hscan := Section.scan_encodePairs hreadable []
    rw [List.append_nil, hlength, ← hbytes, ← toList_of_encoded hencoded] at hscan
    rw [hscan]
    exact ⟨hlength, hbytes, hreadable, hnodup⟩
  · exact fun h hencoded => ⟨_, h hencoded⟩

theorem nodup_toList {s : LazyEdges I E} (h : s.Lawful) : (s.toList.map Prod.fst).Nodup := by
  cases hstate : s.isMaterialized with
  | false => exact (lawful_iff.1 h hstate).2.2.2
  | true =>
    rw [toList_of_materialized hstate]
    exact s.pairs.nodup

theorem count_eq {s : LazyEdges I E} (h : s.Lawful) : s.count = s.toList.length := by
  cases hstate : s.isMaterialized with
  | false =>
    rw [(lawful_iff.1 h hstate).1, count, hstate]
    rfl
  | true =>
    rw [toList_of_materialized hstate, count, hstate]
    rfl

theorem encode_eq {s : LazyEdges I E} (h : s.Lawful) : s.encode = Section.encode s.toList := by
  cases hstate : s.isMaterialized with
  | false =>
    obtain ⟨hcount, hbytes, _⟩ := lawful_iff.1 h hstate
    rw [Section.encode, hcount, ← hbytes, encode, hstate]
    rfl
  | true =>
    rw [encode, hstate, toList_of_materialized hstate]
    rfl

/-! ### Changes -/

theorem isMaterialized_materialize (s : LazyEdges I E) : s.materialize.isMaterialized = true := by
  rw [materialize]
  split
  · next hstate => exact hstate
  · rfl

/-- **Materializing loses nothing and moves nothing**: the table lists what the bytes held. -/
theorem toList_materialize {s : LazyEdges I E} (h : s.Lawful) :
    s.materialize.pairs.toList = s.toList := by
  cases hstate : s.isMaterialized with
  | false =>
    have hnodup := nodup_toList h
    rw [toList_of_encoded hstate] at hnodup ⊢
    rw [materialize, hstate]
    exact Table.toList_ofList hnodup
  | true => rw [materialize, if_pos hstate, toList_of_materialized hstate]

theorem mapping_materialize {s : LazyEdges I E} (h : s.Lawful) :
    s.materialize.pairs.mapping = mapping s.toList := by
  rw [Table.mapping, toList_materialize h]

/-- Once there is a list, it is all that counts. -/
theorem lawful_changed (s : LazyEdges I E) (pairs : Table I E) :
    ({ s.materialize with pairs } : LazyEdges I E).Lawful := by
  intro hencoded
  replace hencoded : s.materialize.isMaterialized = false := hencoded
  rw [isMaterialized_materialize] at hencoded
  cases hencoded

theorem toList_changed (s : LazyEdges I E) (pairs : Table I E) :
    ({ s.materialize with pairs } : LazyEdges I E).toList = pairs.toList :=
  toList_of_materialized (s := { s.materialize with pairs }) s.isMaterialized_materialize

/-- A removal that finds nothing leaves the bytes in use. -/
theorem lawful_remove {s : LazyEdges I E} (h : s.Lawful) (target : I) :
    (s.remove target).2.Lawful := by
  unfold remove
  split
  · exact h
  · exact lawful_changed s _

/-! ### Decoding -/

/-- **A set of targets finds what a map of edges finds**, at the same place. -/
theorem check_eq_gather {seen : List I} {table : Table I E}
    (h : ∀ target, target ∈ seen ↔ table.contains target = true) (n : Nat) (input : Bytes) :
    (check E n seen input).outcome = (Section.gather n table input).outcome
      ∧ (check E n seen input).rest = (Section.gather n table input).rest := by
  -- both take the pairs one by one, and stop at the same one
  induction n generalizing seen table input with
  | zero => exact ⟨rfl, rfl⟩
  | succ n ih =>
    rw [check, Section.gather]
    cases (Section.pair (I := I) (E := E)).run input with
    | mk outcome rest =>
      cases outcome with
      | error e => exact ⟨rfl, rfl⟩
      | ok edge =>
        dsimp only
        by_cases hknown : edge.1 ∈ seen
        · rw [if_pos hknown, if_pos ((h edge.1).1 hknown)]
          exact ⟨rfl, rfl⟩
        · rw [if_neg hknown, if_neg fun hmem => hknown ((h edge.1).2 hmem)]
          -- the target that is now seen is the one that is now in the table
          refine ih (fun target => ?_) rest
          rw [List.mem_cons, h, Table.contains_iff_mem_keys, Table.contains_iff_mem_keys,
            Table.mem_keys_iff, Table.mem_keys_iff]
          simp only [Table.get?_insert]
          split <;> simp [*]

/-- A check that begins with no targets. -/
theorem check_nil_eq_gather (n : Nat) (input : Bytes) :
    (check E n ([] : List I) input).outcome = (Section.gather n (.empty : Table I E) input).outcome
      ∧ (check E n ([] : List I) input).rest = (Section.gather n (.empty : Table I E) input).rest :=
  check_eq_gather (fun _ => by simp [Table.contains]) n input

def holding (pairs : List (I × E)) : LazyEdges I E :=
  ⟨Section.encodePairs pairs, pairs.length, .empty, false, []⟩

theorem toList_holding {pairs : List (I × E)} (h : Section.Readable pairs) :
    (holding pairs).toList = pairs := by
  have hscan := Section.scan_encodePairs h []
  rwa [List.append_nil] at hscan

/-- **The bytes of a section are kept as they are**, and nothing that was in the storage before. -/
theorem decode_of_holds [LawfulId I] [LawfulCodec E] {input rest : Bytes}
    {pairs : List (I × E)} (h : Section.Holds input pairs rest) (s : LazyEdges I E) :
    s.decode input = ⟨.ok (), holding pairs, rest⟩ := by
  obtain ⟨table, hgather, _⟩ :=
    Section.gather_encodePairs h.readable h.nodup .empty (fun _ _ => rfl) rest
  obtain ⟨houtcome, hrest⟩ :=
    check_nil_eq_gather (I := I) (E := E) pairs.length (Section.encodePairs pairs ++ rest)
  rw [hgather] at houtcome hrest
  rw [decode, h.run_count]
  dsimp only
  rw [houtcome, hrest]
  dsimp only
  -- what was consumed is the section, which is then cut out of the input
  rw [List.length_append, Nat.add_sub_cancel, List.take_left]
  rfl

/-- A section that cannot be read leaves no edges. -/
theorem lawful_of_decode_error {s : LazyEdges I E} {input : Bytes} {e : Corruption}
    (h : (s.decode input).outcome = .error e) : (s.decode input).target.Lawful := by
  unfold decode at h ⊢
  dsimp only at h ⊢
  split at h
  · exact lawful_of_nil rfl rfl
  · split at h
    · exact lawful_of_nil rfl rfl
    · cases h

end LazyEdges

/-! ## Containers

The three strategies side by side. `Lawful` is the invariant of each of them, and `mapping` the map
that a container stands for. Every lemma below is one case for a strategy, and what is in the case
was proved where the strategy is defined. `Kept` is the part of the invariant that outlives a decode
that fails. -/

namespace Edges

/-- The container holds what its representation is made for. -/
def Lawful : Edges I E → Prop
  | hashed _ => True
  | sorted list => SortedEdges.Ascending list.pairs
  | lazy edges => edges.Lawful

/-- Bytes that the container keeps encoded can be read. This is all that is left when a decode
failed: a list may then be out of order and repeat targets. -/
def Kept : Edges I E → Prop
  | lazy edges => edges.Lawful
  | _ => True

theorem Lawful.kept {es : Edges I E} (h : es.Lawful) : es.Kept := by
  cases es with
  | hashed table => exact trivial
  | sorted list => exact trivial
  | lazy edges => exact h

def mapping (es : Edges I E) : Mapping I E := Superstep.mapping es.toList

/-- Containers begin lawful. -/
theorem lawful_empty (strategy : EdgeStrategy) : (empty strategy : Edges I E).Lawful := by
  cases strategy with
  | hashed => exact trivial
  | sorted => exact .nil
  | lazy => exact LazyEdges.lawful_of_nil rfl rfl

theorem lawful_clear (es : Edges I E) : es.clear.Lawful := by
  cases es with
  | hashed table => exact trivial
  | sorted list => exact .nil
  | lazy edges => exact LazyEdges.lawful_of_nil rfl rfl

theorem mapping_empty (strategy : EdgeStrategy) : (empty strategy : Edges I E).mapping = ∅ := by
  cases strategy <;> rfl

theorem mapping_clear (es : Edges I E) : es.clear.mapping = ∅ := by
  cases es <;> rfl

/-- **A decode keeps the representation**, also when it fails. -/
theorem strategy_decodeInto (es : Edges I E) (input : Bytes) :
    (es.decodeInto input).target.strategy = es.strategy := by
  cases es <;> rfl

/-- **Every container is encoded as the section of what it lists**, in the order it lists it. -/
theorem Kept.encode_eq {es : Edges I E} (h : es.Kept) : es.encode = Section.encode es.toList := by
  cases es with
  | hashed table => rfl
  | sorted list => rfl
  | lazy edges => exact LazyEdges.encode_eq h

theorem Kept.count_eq {es : Edges I E} (h : es.Kept) : es.count = es.toList.length := by
  cases es with
  | hashed table => rfl
  | sorted list => rfl
  | lazy edges => exact LazyEdges.count_eq h

theorem encode_eq {es : Edges I E} (h : es.Lawful) : es.encode = Section.encode es.toList :=
  h.kept.encode_eq

/-- The length of an encoded container does not depend on the order. -/
theorem length_encode_eq_of_perm {es es' : Edges I E} (h : es.Lawful) (h' : es'.Lawful)
    (hperm : es'.toList.Perm es.toList) : es'.encode.length = es.encode.length := by
  rw [encode_eq h, encode_eq h', Section.encode, Section.encode, List.length_append,
    List.length_append, BigEndian.length_encode, BigEndian.length_encode,
    Section.length_encodePairs_perm hperm]

variable [LawfulId I]

theorem nodup_toList {es : Edges I E} (h : es.Lawful) : (es.toList.map Prod.fst).Nodup := by
  cases es with
  | hashed table => exact table.nodup
  | sorted list => exact SortedEdges.Ascending.nodup h
  | lazy edges => exact LazyEdges.nodup_toList h

theorem mapping_eq_of_perm {es es' : Edges I E} (h : es.Lawful)
    (hperm : es'.toList.Perm es.toList) : es'.mapping = es.mapping :=
  (mapping_perm (nodup_toList h) hperm.symm).symm

theorem count_eq {es : Edges I E} (h : es.Lawful) : es.count = es.mapping.keys.card := by
  rw [mapping, card_mapping (nodup_toList h)]
  exact h.kept.count_eq

theorem get?_eq {es : Edges I E} (h : es.Lawful) (target : I) :
    es.get? target = es.mapping.lookup target := by
  cases es with
  | hashed table => exact (table.lookup_mapping target).symm
  | sorted list => exact SortedEdges.get?_eq h target
  | lazy edges => exact (lookup_mapping edges.toList target).symm

/-- **Adding an edge** is an insertion, and says whether the target is new. -/
theorem add_spec {es : Edges I E} (h : es.Lawful) (target : I) (value : E) :
    ((es.add target value).1 = true ↔ target ∉ es.mapping) ∧ (es.add target value).2.Lawful
      ∧ (es.add target value).2.mapping = es.mapping.insert target value := by
  cases es with
  | hashed table =>
    refine ⟨?_, trivial, table.mapping_insert target value⟩
    show (!table.contains target) = true ↔ _
    rw [Bool.not_eq_true', ← Bool.not_eq_true, Table.contains_iff_mem_mapping]
    rfl
  | sorted list => exact SortedEdges.add_spec h target value
  | lazy edges =>
    -- the first change makes a table of the bytes
    have hmap := LazyEdges.mapping_materialize h
    refine ⟨?_, edges.lawful_changed _, ?_⟩
    · show (!edges.materialize.pairs.contains target) = true ↔ _
      rw [Bool.not_eq_true', ← Bool.not_eq_true, Table.contains_iff_mem_mapping, hmap]
      rfl
    · show Superstep.mapping (LazyEdges.toList _) = _
      rw [LazyEdges.toList_changed, ← Table.mapping, Table.mapping_insert, hmap]
      rfl

/-- **Removing an edge** is an erasure, and returns its value. -/
theorem remove_spec {es : Edges I E} (h : es.Lawful) (target : I) :
    (es.remove target).1 = es.mapping.lookup target ∧ (es.remove target).2.Lawful
      ∧ (es.remove target).2.mapping = es.mapping.erase target := by
  cases es with
  | hashed table =>
    exact ⟨(table.lookup_mapping target).symm, trivial, table.mapping_erase target⟩
  | sorted list => exact SortedEdges.remove_spec h target
  | lazy edges =>
    have hlawful : (lazy edges).Lawful := h
    have hget : edges.get? target = (mapping (lazy edges)).lookup target := get?_eq hlawful target
    cases hfound : edges.get? target with
    | none =>
      -- what is absent leaves the bytes as they are
      have hremove : (lazy edges).remove target = (none, lazy edges) := by
        rw [remove, LazyEdges.remove, hfound]
        rfl
      rw [hremove]
      have habsent : (mapping (lazy edges)).lookup target = none := by rw [← hget, hfound]
      exact ⟨habsent.symm, h, (erase_mapping_of_lookup_eq_none habsent).symm⟩
    | some value =>
      have hremove : (lazy edges).remove target = (some value,
          lazy { edges.materialize with pairs := edges.materialize.pairs.erase target }) := by
        rw [remove, LazyEdges.remove, hfound]
        rfl
      rw [hremove]
      refine ⟨hget ▸ hfound.symm, edges.lawful_changed _, ?_⟩
      show Superstep.mapping (LazyEdges.toList _) = _
      rw [LazyEdges.toList_changed, ← Table.mapping, Table.mapping_erase,
        LazyEdges.mapping_materialize h]
      rfl

theorem lawful_addAll {es : Edges I E} (h : es.Lawful) (edges : List (I × E)) :
    (es.addAll edges).Lawful := by
  induction edges generalizing es with
  | nil => exact h
  | cons edge edges ih => exact ih (add_spec h edge.1 edge.2).2.1

theorem lawful_ofList (strategy : EdgeStrategy) (edges : List (I × E)) :
    (ofList strategy edges).Lawful :=
  lawful_addAll (lawful_empty strategy) edges

/-! ## Decoding

In one direction a section is given, and each container reads it. In the other a decode is given
that succeeded, and what it read was a section. Lawfulness follows from both: what was read is a
section, and a container that reads one is lawful afterwards. -/

variable [LawfulCodec E]

/-- **A section is read by every container**, as the edges that it holds. -/
theorem decodeInto_of_holds {input rest : Bytes} {pairs : List (I × E)}
    (h : Section.Holds input pairs rest) (old : Edges I E) :
    ∃ es, old.decodeInto input = ⟨.ok (), es, rest⟩ ∧ es.Lawful ∧ es.toList.Perm pairs := by
  -- the old edges are gone before anything is read, so that only the strategy counts
  cases old with
  | hashed _ =>
    obtain ⟨table, hgather, hlist⟩ :=
      Section.gather_encodePairs h.readable h.nodup .empty (fun _ _ => rfl) rest
    replace hlist : table.toList = pairs := hlist
    refine ⟨.hashed table, ?_, trivial, .of_eq hlist⟩
    rw [decodeInto, decodeHashed, h.run_count]
    dsimp only
    rw [hgather]
  | sorted _ =>
    have hdecode := SortedEdges.decode_of_holds h
    refine ⟨.sorted ⟨pairs.mergeSort SortedEdges.inOrder⟩, ?_, ?_, List.mergeSort_perm _ _⟩
    · rw [decodeInto, hdecode]
    · have hascending := SortedEdges.ascending_decode (congrArg Refill.outcome hdecode)
      rwa [hdecode] at hascending
  | lazy edges =>
    refine ⟨.lazy (.holding pairs), ?_, ?_, .of_eq (LazyEdges.toList_holding h.readable)⟩
    · rw [decodeInto, LazyEdges.decode_of_holds h]
    · exact fun _ => ⟨pairs, rfl, rfl, h.readable, h.nodup⟩

/-- **What one container wrote is read back by any other**, as the same edges. -/
theorem decodeInto_encode {es : Edges I E} (h : es.Lawful) (hlen : es.encode.length < wordLimit)
    (old : Edges I E) (rest : Bytes) :
    ∃ es', old.decodeInto (es.encode ++ rest) = ⟨.ok (), es', rest⟩ ∧ es'.Lawful
      ∧ es'.toList.Perm es.toList := by
  rw [encode_eq h] at hlen ⊢
  rw [Section.encode, List.length_append] at hlen
  exact decodeInto_of_holds (Section.holds_encode (nodup_toList h) (by omega) rest) old

/-- **What any container reads is a section.** -/
theorem holds_of_decodeInto {es : Edges I E} {input : Bytes}
    (h : (es.decodeInto input).outcome = .ok ()) :
    ∃ pairs : List (I × E), Section.Holds input pairs (es.decodeInto input).rest := by
  -- an edge table is gathered by two of the three strategies
  have hgathered : ∀ {n : Nat} {body : Bytes}, (Section.count I E).run input = (.ok n, body) →
      (Section.gather n (Table.empty (K := I) (V := E)) body).outcome = .ok () →
      ∃ pairs : List (I × E), Section.Holds input pairs
        (Section.gather n (Table.empty (K := I) (V := E)) body).rest := by
    intro n body hcount hgather
    rw [Section.count, Decoder.run_lengthPrefix_eq_ok] at hcount
    obtain ⟨hfew, rfl, _⟩ := hcount
    obtain ⟨pairs, rfl, hreadable, hlist, hbody⟩ := Section.of_gather hgather
    have hnodup := (Section.gather pairs.length (Table.empty (K := I) (V := E)) body).target.nodup
    rw [hlist] at hnodup
    refine ⟨pairs, ?_, hfew, hnodup, hreadable⟩
    rw [Section.encode, List.append_assoc, ← hbody]
  unfold decodeInto at h ⊢
  cases es with
  | hashed _ =>
    dsimp only at h ⊢
    unfold decodeHashed at h ⊢
    split at h
    · cases h
    · next n body hcount => exact hgathered hcount h
  | sorted _ => exact SortedEdges.holds_of_decode h
  | lazy edges =>
    dsimp only at h ⊢
    unfold LazyEdges.decode at h ⊢
    dsimp only at h ⊢
    split at h
    · cases h
    · next n body hcount =>
      obtain ⟨houtcome, hrest⟩ := LazyEdges.check_nil_eq_gather (I := I) (E := E) n body
      rw [houtcome, hrest] at h ⊢
      split at h
      · cases h
      · next hgather => exact hgathered hcount hgather

/-- **A decode that succeeds leaves a lawful container**, whatever was read. -/
theorem lawful_decodeInto {es : Edges I E} {input : Bytes}
    (h : (es.decodeInto input).outcome = .ok ()) : (es.decodeInto input).target.Lawful := by
  obtain ⟨pairs, hholds⟩ := holds_of_decodeInto h
  obtain ⟨es', hdecode, hlawful, _⟩ := decodeInto_of_holds hholds es
  rwa [hdecode]

end Edges

end Superstep
