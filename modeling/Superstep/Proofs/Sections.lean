import Superstep.Edges.Section
import Superstep.Proofs.Codecs
import Superstep.Proofs.Table

/-!
# Superstep — what edge sections hold

Three functions read the edges of a section: `gather` into a map, `collect` into a list and `scan`
without an error. All of them read back what `encodePairs` wrote (**`gather_encodePairs`**,
**`collect_encodePairs`**, **`scan_encodePairs`**), and what the first two accept was written so
(**`of_gather`**, **`of_collect`**). `Holds` says which edges are in a section at the front of some
bytes; there is one such list at the most (**`Holds.unique`**), because encoded edges can be told
apart (**`encode_inj`**).

A section of less than 4 GiB has fewer than 2 ^ 32 edges, although the shortest encoded form of an
edge may be empty: an id without bytes is the only id of its type (**`length_lt`**).
-/

namespace Superstep.Section

variable {I E : Type} [VertexId I] [Value E]

/-- Every one of the edges is read back from its encoded form. -/
def Readable (pairs : List (I × E)) : Prop := ∀ edge ∈ pairs, Reads pair (encodePair edge) edge

theorem Readable.tail {edge : I × E} {pairs : List (I × E)} (h : Readable (edge :: pairs)) :
    Readable pairs :=
  fun e he => h e (List.mem_cons_of_mem _ he)

theorem Readable.cons {edge : I × E} {pairs : List (I × E)} (hs : Readable pairs)
    (h : Reads pair (encodePair edge) edge) : Readable (edge :: pairs) := by
  intro other hother
  rcases List.mem_cons.1 hother with rfl | hother
  · exact h
  · exact hs other hother

theorem encodePairs_cons (edge : I × E) (pairs : List (I × E)) :
    encodePairs (edge :: pairs) = encodePair edge ++ encodePairs pairs := rfl

/-- The order of the edges does not tell in the length. -/
theorem length_encodePairs_perm {pairs pairs' : List (I × E)} (h : pairs.Perm pairs') :
    (encodePairs pairs).length = (encodePairs pairs').length :=
  (h.flatMap_right encodePair).length_eq

theorem length_encodePair_le {edge : I × E} {pairs : List (I × E)} (h : edge ∈ pairs) :
    (encodePair edge).length ≤ (encodePairs pairs).length := by
  obtain ⟨before, behind, rfl⟩ := List.append_of_mem h
  simp only [encodePairs, List.flatMap_append, List.flatMap_cons, List.length_append]
  omega

/-! ## Reading what was written

Each of the readers goes over the pairs one by one, and so do the proofs. The rest of the input is
kept general on the way, since it has the pairs to come in it. -/

theorem run_pair_eq {bytes : Bytes} {edge : I × E} (h : Reads pair bytes edge) (rest : Bytes) :
    pair.run (bytes ++ rest) = (.ok edge, rest) := h rest

/-- **A list is read back.** -/
theorem collect_encodePairs {pairs : List (I × E)} (h : Readable pairs) (rest : Bytes) :
    collect pairs.length (encodePairs pairs ++ rest) = ⟨.ok (), pairs, rest⟩ := by
  induction pairs with
  | nil => rfl
  | cons edge pairs ih =>
    have hedge := run_pair_eq (h edge List.mem_cons_self) (encodePairs pairs ++ rest)
    rw [encodePairs_cons, List.append_assoc, List.length_cons, collect, hedge]
    dsimp only
    rw [ih h.tail]

/-- **A scan finds the edges**, and no error because there is none. -/
theorem scan_encodePairs {pairs : List (I × E)} (h : Readable pairs) (rest : Bytes) :
    scan pairs.length (encodePairs pairs ++ rest) = pairs := by
  induction pairs with
  | nil => rfl
  | cons edge pairs ih =>
    have hedge := run_pair_eq (h edge List.mem_cons_self) (encodePairs pairs ++ rest)
    rw [scan, encodePairs_cons, List.append_assoc, List.length_cons, Decoder.scan]
    rw [Decoder.run] at hedge
    rw [hedge]
    dsimp only
    rw [← scan, ih h.tail]

/-- **A map is read back**, behind the edges that it has already. -/
theorem gather_encodePairs {pairs : List (I × E)} (h : Readable pairs)
    (hnodup : (pairs.map Prod.fst).Nodup) (table : Table I E)
    (hnew : ∀ edge ∈ pairs, table.contains edge.1 = false) (rest : Bytes) :
    ∃ table', gather pairs.length table (encodePairs pairs ++ rest) = ⟨.ok (), table', rest⟩
      ∧ table'.toList = table.toList ++ pairs := by
  induction pairs generalizing table with
  | nil => exact ⟨table, rfl, (List.append_nil _).symm⟩
  | cons edge pairs ih =>
    obtain ⟨hfirst, hnodup⟩ := List.nodup_cons.1 hnodup
    have hedge := run_pair_eq (h edge List.mem_cons_self) (encodePairs pairs ++ rest)
    have hcontains := hnew edge List.mem_cons_self
    have hothers := Table.contains_insert_of_notMem Prod.fst edge.2 hfirst
      fun other hother => hnew other (List.mem_cons_of_mem _ hother)
    obtain ⟨table', hgather, hlist⟩ := ih h.tail hnodup (table.insert edge.1 edge.2) hothers
    refine ⟨table', ?_, ?_⟩
    · rw [encodePairs_cons, List.append_assoc, List.length_cons, gather, hedge]
      dsimp only
      rw [if_neg (by rw [hcontains]; exact Bool.false_ne_true)]
      exact hgather
    · rw [hlist, Table.toList_insert_of_not_contains table edge.2 hcontains, List.append_assoc]
      rfl

/-! ## Counts

A count stands in front of the pairs. It is refused when the input is too short for as many of the
shortest pairs, which never happens with a section that was written. -/

theorem run_count {n : Nat} {body : Bytes} (hn : n < wordLimit)
    (hlen : n * pairMinLen I E ≤ body.length) :
    (count I E).run (BigEndian.encode 4 n ++ body) = (.ok n, body) :=
  Decoder.run_lengthPrefix_eq_ok.2 ⟨hn, rfl, hlen⟩

/-- An id that takes no bytes is read off every input, so that there is no other. -/
theorem eq_of_encode_eq_nil {a b : I} (ha : Codec.encode a = [])
    (hareads : Reads Codec.decode (Codec.encode a) a)
    (hbreads : Reads Codec.decode (Codec.encode b) b) : a = b := by
  have hareads' := hareads (Codec.encode b)
  have hbreads' := hbreads []
  rw [ha, List.nil_append] at hareads'
  rw [List.append_nil, hareads'] at hbreads'
  exact Except.ok.inj (Prod.mk.inj hbreads').1

variable [LawfulId I]

/-- **A section of less than 4 GiB has a count of 32 bits.** -/
theorem length_lt {pairs : List (I × E)} (hnodup : (pairs.map Prod.fst).Nodup)
    (h : (encodePairs pairs).length < wordLimit) : pairs.length < wordLimit := by
  by_cases hnil : ∃ edge ∈ pairs, Codec.encode edge.1 = []
  -- there is only one target then, and targets are distinct
  · obtain ⟨edge, hedge, hempty⟩ := hnil
    have hreads : ∀ other ∈ pairs, Reads Codec.decode (Codec.encode other.1) other.1 := by
      intro other hother
      have hle := length_encodePair_le hother
      rw [encodePair, List.length_append] at hle
      exact LawfulCodec.reads other.1 (by omega)
    have hsame : ∀ a ∈ pairs.map Prod.fst, a = edge.1 := by
      intro a ha
      obtain ⟨other, hother, rfl⟩ := List.mem_map.1 ha
      exact (eq_of_encode_eq_nil hempty (hreads edge hedge) (hreads other hother)).symm
    have hone : (pairs.map Prod.fst).length ≤ 1 := by
      rw [List.eq_replicate_of_mem hsame] at hnodup
      exact List.nodup_replicate.1 hnodup
    rw [List.length_map] at hone
    exact Nat.lt_of_le_of_lt hone (by decide)
  · -- otherwise every edge takes a byte at the least
    have hle : ∀ l : List (I × E), l ⊆ pairs → l.length ≤ (encodePairs l).length := by
      intro l hl
      induction l with
      | nil => exact Nat.zero_le _
      | cons edge l ih =>
        have hedge : Codec.encode edge.1 ≠ [] :=
          fun hempty => hnil ⟨edge, hl List.mem_cons_self, hempty⟩
        have hpos := List.length_pos_iff.2 hedge
        have := ih fun e he => hl (List.mem_cons_of_mem _ he)
        rw [encodePairs_cons, encodePair, List.length_append, List.length_append, List.length_cons]
        omega
    exact Nat.lt_of_le_of_lt (hle pairs (List.Subset.refl _)) h

/-! ## What was read

The other direction: from a reader that succeeded to the bytes that it was given. A codec has one
encoded form for each value, so that what was read tells the bytes. -/

variable [LawfulCodec E]

theorem minLen_le_encodePair (edge : I × E) : pairMinLen I E ≤ (encodePair edge).length := by
  have hid := LawfulCodec.minLen_le edge.1
  have hvalue := LawfulCodec.minLen_le edge.2
  rw [encodePair, List.length_append, pairMinLen]
  omega

theorem minLen_le_encodePairs (pairs : List (I × E)) :
    pairs.length * pairMinLen I E ≤ (encodePairs pairs).length :=
  Reads.mul_le_length_flatMap fun edge _ => minLen_le_encodePair edge

theorem reads_pair {edge : I × E} (h : (encodePair edge).length < wordLimit) :
    Reads pair (encodePair edge) edge := by
  rw [encodePair, List.length_append] at h
  have hid := LawfulCodec.reads edge.1 (by omega)
  have hvalue := LawfulCodec.reads edge.2 (by omega)
  exact hid.bind (hvalue.map fun value => (edge.1, value))

/-- In a section that is not too long every edge can be read back. -/
theorem readable_of_lt {pairs : List (I × E)} (h : (encodePairs pairs).length < wordLimit) :
    Readable pairs :=
  fun _ hedge => reads_pair (Nat.lt_of_le_of_lt (length_encodePair_le hedge) h)

/-- A pair that is read was encoded so. -/
theorem of_pair {input rest : Bytes} {edge : I × E} (h : pair.run input = (.ok edge, rest)) :
    input = encodePair edge ++ rest ∧ Reads pair (encodePair edge) edge := by
  obtain ⟨target, middle, htarget, h⟩ := Decoder.run_bind_eq_ok.1 h
  obtain ⟨value, left, hvalue, h⟩ := Decoder.run_bind_eq_ok.1 h
  obtain ⟨rfl, rfl⟩ := Decoder.run_pure_eq_ok.1 h
  obtain ⟨rfl, hreads⟩ := LawfulCodec.of_decode htarget
  obtain ⟨rfl, hreads'⟩ := LawfulCodec.of_decode hvalue
  refine ⟨(List.append_assoc _ _ _).symm, hreads.bind (hreads'.map fun value => (target, value))⟩

/-- **What a map accepts was written**, behind the edges that it has already. -/
theorem of_gather {n : Nat} {table : Table I E} {input : Bytes}
    (h : (gather n table input).outcome = .ok ()) :
    ∃ pairs, pairs.length = n ∧ Readable pairs
      ∧ (gather n table input).target.toList = table.toList ++ pairs
      ∧ input = encodePairs pairs ++ (gather n table input).rest := by
  induction n generalizing input table with
  | zero => exact ⟨[], rfl, fun _ hmem => (by cases hmem), (List.append_nil _).symm, rfl⟩
  | succ n ih =>
    rw [gather] at h ⊢
    split at h
    · cases h
    · next target value rest hpair =>
      -- a target that is there already is refused
      split at h
      · cases h
      · next hnew =>
        obtain ⟨rfl, hreads⟩ := of_pair hpair
        obtain ⟨pairs, hlength, hreadable, hlist, hinput⟩ := ih h
        rw [if_neg hnew]
        refine ⟨(target, value) :: pairs, by rw [List.length_cons, hlength], ?_, ?_, ?_⟩
        · exact hreadable.cons hreads
        · rw [hlist, Table.toList_insert_of_not_contains table value (Bool.eq_false_iff.2 hnew),
            List.append_assoc]
          rfl
        · rw [encodePairs_cons, List.append_assoc, ← hinput]

/-- **What a list accepts was written**, repeated targets included. -/
theorem of_collect {n : Nat} {input : Bytes}
    (h : (collect (I := I) (E := E) n input).outcome = .ok ()) :
    (collect (I := I) (E := E) n input).target.length = n
      ∧ Readable (collect (I := I) (E := E) n input).target
      ∧ input = encodePairs (collect (I := I) (E := E) n input).target
        ++ (collect (I := I) (E := E) n input).rest := by
  induction n generalizing input with
  | zero => exact ⟨rfl, fun _ hmem => (by cases hmem), rfl⟩
  | succ n ih =>
    rw [collect] at h ⊢
    split at h
    · cases h
    · next edge rest hpair =>
      obtain ⟨rfl, hreads⟩ := of_pair hpair
      obtain ⟨hlength, hreadable, hinput⟩ := ih h
      refine ⟨congrArg (· + 1) hlength, hreadable.cons hreads, ?_⟩
      · show _ = encodePairs (edge :: _) ++ _
        rw [encodePairs_cons, List.append_assoc, ← hinput]

/-- The count of a section that was written is accepted. -/
theorem run_count_encode {pairs : List (I × E)} (hfew : pairs.length < wordLimit) (rest : Bytes) :
    (count I E).run (encode pairs ++ rest) = (.ok pairs.length, encodePairs pairs ++ rest) := by
  have hmin := minLen_le_encodePairs pairs
  rw [encode, List.append_assoc]
  refine run_count hfew ?_
  rw [List.length_append]
  omega

/-- Encoded edges can be told apart, even those with a target that is repeated. -/
theorem encode_inj {pairs pairs' : List (I × E)} {rest rest' : Bytes} (h : Readable pairs)
    (hfew : pairs.length < wordLimit) (h' : Readable pairs') (hfew' : pairs'.length < wordLimit)
    (heq : encode pairs ++ rest = encode pairs' ++ rest') : pairs = pairs' ∧ rest = rest' := by
  have hcount := run_count_encode hfew rest
  rw [heq, run_count_encode hfew' rest'] at hcount
  obtain ⟨hlength, hbody⟩ := Prod.mk.inj hcount
  have hcollect := collect_encodePairs h rest
  rw [← Except.ok.inj hlength, ← hbody, collect_encodePairs h' rest'] at hcollect
  cases hcollect
  exact ⟨rfl, rfl⟩

/-! ## Sections at the front of some bytes

What a container has to do with its input is said by `Holds` from here on, and no longer by a
reader. -/

/-- `input` begins with a section of these edges, and `rest` is behind it. Targets are distinct,
the count fits its 32 bits, and every edge is read back. -/
structure Holds (input : Bytes) (pairs : List (I × E)) (rest : Bytes) : Prop where
  bytes : input = encode pairs ++ rest
  few : pairs.length < wordLimit
  nodup : (pairs.map Prod.fst).Nodup
  readable : Readable pairs

/-- A section of less than 4 GiB holds what it was made of. -/
theorem holds_encode {pairs : List (I × E)} (hnodup : (pairs.map Prod.fst).Nodup)
    (h : (encodePairs pairs).length < wordLimit) (rest : Bytes) :
    Holds (encode pairs ++ rest) pairs rest :=
  ⟨rfl, length_lt hnodup h, hnodup, readable_of_lt h⟩

namespace Holds

variable {input rest rest' : Bytes} {pairs pairs' : List (I × E)}

theorem run_count (h : Holds input pairs rest) :
    (count I E).run input = (.ok pairs.length, encodePairs pairs ++ rest) :=
  h.bytes ▸ run_count_encode h.few rest

/-- **A section says one thing.** -/
theorem unique (h : Holds input pairs rest) (h' : Holds input pairs' rest') :
    pairs = pairs' ∧ rest = rest' :=
  encode_inj h.readable h.few h'.readable h'.few (h.bytes.symm.trans h'.bytes)

end Holds

end Superstep.Section
