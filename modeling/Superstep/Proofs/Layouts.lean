import Superstep.Partition.Layout
import Superstep.Proofs.Vertices

/-!
# Superstep — the layout of a partition is read back

`Layout.packed` is the byte string in which some vertices are kept as a partition. Reading it
gives one record for each of them, in order, whatever the records are made of
(**`read_packed`**): `accept` is the only thing that the two kinds of partitions do differently.
-/

namespace Superstep.Layout

variable {I V E : Type} [VertexId I] [Value V] [Value E]

def packedEntry (v : Vertex I V E) : Bytes := (entryPieces v.id (Blob.framed v.encode)).flatten

def packed (id : PartitionId) (vertices : List (Vertex I V E)) : Bytes :=
  (header id vertices.length).flatten ++ vertices.flatMap packedEntry

theorem run_located {α : Type} {d : Decoder α} {input rest : Bytes} {a : α}
    (h : d.run input = (.ok a, rest)) (id : PartitionId) :
    (located id d).run input = (.ok a, rest) := by
  rw [Decoder.run] at h
  rw [Decoder.run, located, Decoder.mapError, h]

theorem of_run_located {α : Type} {d : Decoder α} {id : PartitionId} {input rest : Bytes} {a : α}
    (h : (located id d).run input = (.ok a, rest)) : d.run input = (.ok a, rest) := by
  unfold Decoder.run located Decoder.mapError at h
  split at h
  · next hrun =>
    cases h
    exact hrun
  · cases h

theorem reads_located {α : Type} {d : Decoder α} {bytes : Bytes} {a : α} (h : Reads d bytes a)
    (id : PartitionId) : Reads (located id d) bytes a :=
  fun rest => run_located (h rest) id

/-- **The header is accepted** when there is room for as many entries as it counts. -/
theorem run_readHeader_eq_ok {bytes rest : Bytes} {id : PartitionId} {count : Nat} :
    (readHeader I V).run bytes = (.ok (id, count), rest)
      ↔ bytes = BigEndian.encode 4 id.val.toNat ++ (BigEndian.encode 4 count ++ rest)
        ∧ count < wordLimit ∧ count * minEntryLen I V ≤ rest.length := by
  constructor
  · intro h
    obtain ⟨word, middle, hword, h⟩ := Decoder.run_bind_eq_ok.1 h
    obtain ⟨count', rest', hcount, h⟩ := Decoder.run_bind_eq_ok.1 h
    obtain ⟨heq, rfl⟩ := Decoder.run_pure_eq_ok.1 h
    obtain ⟨hfew, hmiddle, hguard⟩ := Decoder.run_lengthPrefix_eq_ok.1 (of_run_located hcount)
    cases heq
    refine ⟨?_, hfew, hguard⟩
    rw [Decoder.run_word32_eq_ok.1 hword, hmiddle]
  · rintro ⟨rfl, hfew, hguard⟩
    have hcount := run_located (Decoder.run_lengthPrefix_eq_ok.2 ⟨hfew, rfl, hguard⟩) id
    refine Decoder.run_bind_eq_ok.2 ⟨_, _, Reads.word32 id.val _, ?_⟩
    refine Decoder.run_bind_eq_ok.2 ⟨_, _, hcount, ?_⟩
    exact Decoder.run_pure _ _

variable [LawfulId I]

/-- The id of a vertex is read off the front of its record. -/
theorem reads_id {v : Vertex I V E} (h : Blob.totalLen v.encode < wordLimit) :
    Reads Codec.decode (Codec.encode v.id) v.id := by
  rw [Blob.totalLen, Vertex.encode] at h
  simp only [List.length_append] at h
  exact LawfulCodec.reads v.id (by omega)

theorem run_id_encode {v : Vertex I V E} (h : Blob.totalLen v.encode < wordLimit) :
    (Codec.decode.run v.encode).1 = .ok v.id := by
  have hrun := reads_id h (Codec.encode v.value ++ (v.edges.encode ++ Codec.encode v.halted))
  rw [Vertex.encode]
  simp only [List.append_assoc]
  rw [hrun]

/-- A vertex has the id that is read off the front of its blob. -/
theorem id_eq_of_body {v : Vertex I V E} {record : Bytes} {key : I}
    (h : Blob.totalLen v.encode < wordLimit) (hbody : Blob.body (Blob.framed v.encode) = .ok record)
    (hkey : (Codec.decode.run record).1 = .ok key) : v.id = key := by
  rw [Blob.body_framed h] at hbody
  obtain rfl := Except.ok.inj hbody
  rw [run_id_encode h] at hkey
  exact Except.ok.inj hkey

/-- **An entry is read back.** -/
theorem reads_entry {v : Vertex I V E} (h : v.Storable) (id : PartitionId) :
    Reads (entry I id) (packedEntry v) (v.id, Blob.framed v.encode) := by
  have hlen := Blob.length_framed v.encode
  have hlimit : (Blob.framed v.encode).length < BigEndian.limit 4 := hlen ▸ h.fits
  have hbytes : packedEntry v
      = Codec.encode v.id ++ (BigEndian.encode 4 (Blob.framed v.encode).length
        ++ (Blob.framed v.encode ++ ([] ++ ([] ++ [])))) := by
    simp [packedEntry, entryPieces]
  have hlong : ¬ (Blob.framed v.encode).length < Blob.headerLen := by
    rw [hlen, Blob.totalLen]
    omega
  -- one field after the other, and then the checks, which read nothing
  rw [hbytes]
  refine (reads_located (reads_id h.fits) id).bind ?_
  refine (reads_located (Reads.word_of_lt hlimit) id).bind ?_
  rw [if_neg hlong]
  refine (reads_located (Reads.take _) id).bind ?_
  refine (reads_located (Reads.ofExcept (Blob.body_framed h.fits)) id).bind ?_
  refine (reads_located (Reads.ofExcept (run_id_encode h.fits)) id).bind ?_
  rw [if_pos rfl]
  exact .pure _

/-- **The entries are read back** behind those that are staged already. -/
theorem entries_packed {R : Type} (accept : Bytes → Except Error R) (record : Vertex I V E → R)
    {vertices : List (Vertex I V E)} (hstorable : ∀ v ∈ vertices, v.Storable)
    (haccept : ∀ v ∈ vertices, accept (Blob.framed v.encode) = .ok (record v))
    (hnodup : (vertices.map Vertex.id).Nodup) (id : PartitionId) (staged : Table I R)
    (hnew : ∀ v ∈ vertices, staged.contains v.id = false) :
    ∃ table, entries id accept vertices.length staged (vertices.flatMap packedEntry)
        = (.ok table, vertices.length)
      ∧ table.toList = staged.toList ++ vertices.map fun v => (v.id, record v) := by
  induction vertices generalizing staged with
  | nil => exact ⟨staged, rfl, (List.append_nil _).symm⟩
  | cons v vertices ih =>
    obtain ⟨hfirst, hrest⟩ := List.nodup_cons.1 hnodup
    have hcontains := hnew v List.mem_cons_self
    have hothers := Table.contains_insert_of_notMem Vertex.id (record v) hfirst
      fun w hw => hnew w (List.mem_cons_of_mem _ hw)
    -- the others are staged behind this one
    obtain ⟨table, hentries, hlist⟩ := ih (fun w hw => hstorable w (List.mem_cons_of_mem _ hw))
      (fun w hw => haccept w (List.mem_cons_of_mem _ hw)) hrest _ hothers
    have hrun := reads_entry (hstorable v List.mem_cons_self) id (vertices.flatMap packedEntry)
    refine ⟨table, ?_, ?_⟩
    · rw [List.flatMap_cons, List.length_cons, entries, hrun]
      dsimp only
      rw [if_neg (by rw [hcontains]; exact Bool.false_ne_true), haccept v List.mem_cons_self]
      dsimp only
      rw [hentries]
    · rw [hlist, Table.toList_insert_of_not_contains staged (record v) hcontains, List.append_assoc]
      rfl

variable [LawfulCodec V]

theorem minEntryLen_le {v : Vertex I V E} (h : v.Storable) :
    minEntryLen I V ≤ (packedEntry v).length := by
  have hid := LawfulCodec.minLen_le v.id
  have hvalue := LawfulCodec.minLen_le v.value
  have hhalted : (Codec.encode v.halted).length = 1 := rfl
  have hedges : 4 ≤ v.edges.encode.length := by
    rw [Edges.encode_eq h.lawful, Section.encode, List.length_append, BigEndian.length_encode]
    omega
  simp only [packedEntry, entryPieces, List.flatten_cons, List.flatten_nil, List.length_append,
    List.length_nil, BigEndian.length_encode, Blob.length_framed, Blob.totalLen, Vertex.encode,
    minEntryLen, Vertex.minLen]
  omega

theorem length_packedEntries_le {vertices : List (Vertex I V E)}
    (h : ∀ v ∈ vertices, v.Storable) :
    vertices.length * minEntryLen I V ≤ (vertices.flatMap packedEntry).length :=
  Reads.mul_le_length_flatMap fun v hv => minEntryLen_le (h v hv)

theorem run_readHeader {vertices : List (Vertex I V E)} (h : ∀ v ∈ vertices, v.Storable)
    (hfew : vertices.length < wordLimit) (id : PartitionId) :
    (readHeader I V).run (packed id vertices)
      = (.ok (id, vertices.length), vertices.flatMap packedEntry) := by
  refine run_readHeader_eq_ok.2 ⟨?_, hfew, length_packedEntries_le h⟩
  simp [packed, header]

/-- **A partition is read back**, with one record for each vertex. -/
theorem read_packed {R : Type} (accept : Bytes → Except Error R) (record : Vertex I V E → R)
    {vertices : List (Vertex I V E)} (hstorable : ∀ v ∈ vertices, v.Storable)
    (haccept : ∀ v ∈ vertices, accept (Blob.framed v.encode) = .ok (record v))
    (hnodup : (vertices.map Vertex.id).Nodup) (hfew : vertices.length < wordLimit)
    (id : PartitionId) :
    ∃ table, read I V accept (packed id vertices) = (.ok (id, table), vertices.length)
      ∧ table.toList = vertices.map fun v => (v.id, record v) := by
  obtain ⟨table, hentries, hlist⟩ :=
    entries_packed accept record hstorable haccept hnodup id .empty (fun _ _ => rfl)
  refine ⟨table, ?_, hlist⟩
  rw [read, run_readHeader hstorable hfew id]
  dsimp only
  rw [hentries]
  rfl

end Superstep.Layout
