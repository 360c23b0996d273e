import Superstep.Proofs.Vertices

/-!
# Superstep — what the records of a partition stand for

`Records.Represents` relates the records of either kind to a finite map from ids to what the
vertices say: both have the same ids, and each record holds what the map says of its id. Every
change of the records is the change of the map that goes by its name, and none of them fails
(**`put_spec`**, **`save_of_put`**, **`Represents.remove`**, **`merge_spec`**).

Long operations walk the records in order. For them `Represents.listing` gives the vertices that
are kept, one for each id.
-/

namespace Superstep

/-- The values of a table, by way of its keys. -/
theorem Table.map_get?_keys {K V W : Type} [DecidableEq K] (t : Table K V) (f : V → W) :
    t.keys.map (fun k => (t.get? k).map f) = (t.values.map f).map some := by
  rw [keys, values, List.map_map, List.map_map, List.map_map]
  refine List.map_congr_left ?_
  rintro ⟨k, v⟩ hmem
  exact congrArg (Option.map f) (mem_toList_iff.1 hmem)

namespace Records

variable {I V E : Type}

theorem nodup_ids (r : Records I V E) : r.ids.Nodup := by
  cases r with
  | blobs table => exact table.nodup
  | vertices table => exact table.nodup

theorem length_ids (r : Records I V E) : r.ids.length = r.size := by
  cases r with
  | blobs table => exact table.length_keys
  | vertices table => exact table.length_keys

variable [VertexId I]

theorem contains_eq_isSome (r : Records I V E) (id : I) : r.contains id = (r.get? id).isSome := by
  cases r with
  | blobs table => rw [contains, get?, Option.isSome_map, Table.contains_eq_isSome]
  | vertices table => rw [contains, get?, Option.isSome_map, Table.contains_eq_isSome]

theorem contains_iff_mem_ids {r : Records I V E} {id : I} : r.contains id = true ↔ id ∈ r.ids := by
  cases r with
  | blobs table => exact table.contains_iff_mem_keys id
  | vertices table => exact table.contains_iff_mem_keys id

theorem map_get?_ids (r : Records I V E) : r.ids.map r.get? = r.toList.map some := by
  cases r with
  | blobs table => exact table.map_get?_keys Record.blob
  | vertices table => exact table.map_get?_keys Record.vertex

theorem exists_get?_of_mem_ids {r : Records I V E} {id : I} (h : id ∈ r.ids) :
    ∃ record ∈ r.toList, r.get? id = some record := by
  have hmem : r.get? id ∈ r.toList.map some := by
    rw [← map_get?_ids]
    exact List.mem_map_of_mem h
  obtain ⟨record, hrecord, heq⟩ := List.mem_map.1 hmem
  exact ⟨record, hrecord, heq.symm⟩

theorem mem_toList_of_get? {r : Records I V E} {id : I} {record : Record I V E}
    (h : r.get? id = some record) : record ∈ r.toList := by
  have hid : id ∈ r.ids := by
    rw [← contains_iff_mem_ids, contains_eq_isSome, h]
    rfl
  obtain ⟨record', hmem, hget⟩ := exists_get?_of_mem_ids hid
  rw [h] at hget
  exact Option.some.inj hget ▸ hmem

theorem get?_eq_none_of_notMem_ids {r : Records I V E} {id : I} (h : id ∉ r.ids) :
    r.get? id = none := by
  rw [← Option.not_isSome_iff_eq_none, ← contains_eq_isSome, contains_iff_mem_ids]
  exact h

/-- A partition of blobs has a blob for each of its ids. -/
theorem exists_blob {r : Records I V E} (h : r.kind = .byteArray) {id : I} {record : Record I V E}
    (hget : r.get? id = some record) : ∃ bytes, record = .blob bytes
      ∧ r.blob? id = some (some bytes) := by
  cases r with
  | blobs table =>
    obtain ⟨bytes, hbytes, rfl⟩ := Option.map_eq_some_iff.1 hget
    exact ⟨bytes, rfl, congrArg some hbytes⟩
  | vertices table => cases h

/-- Only partitions of blobs have blobs. -/
theorem kind_of_blob {r : Records I V E} {id : I} {bytes : Bytes}
    (h : r.get? id = some (.blob bytes)) : r.kind = .byteArray := by
  cases r with
  | blobs table => rfl
  | vertices table =>
    obtain ⟨v, -, hv⟩ := Option.map_eq_some_iff.1 h
    cases hv

/-- A partition of decoded vertices has one for each of its ids. -/
theorem exists_vertex {r : Records I V E} (h : r.kind = .simple) {id : I} {record : Record I V E}
    (hget : r.get? id = some record) : ∃ v, record = .vertex v := by
  cases r with
  | blobs table => cases h
  | vertices table =>
    obtain ⟨v, -, rfl⟩ := Option.map_eq_some_iff.1 hget
    exact ⟨v, rfl⟩

theorem blob?_of_absent {r : Records I V E} (h : r.kind = .byteArray) {id : I}
    (hget : r.get? id = none) : r.blob? id = some none := by
  cases r with
  | blobs table => exact congrArg some (Option.map_eq_none_iff.1 hget)
  | vertices table => cases h

theorem get?_remove (r : Records I V E) (id id' : I) :
    (r.remove id).get? id' = if id' = id then none else r.get? id' := by
  cases r with
  | blobs table =>
    rw [remove, get?, Table.get?_erase, apply_ite (Option.map Record.blob)]
    rfl
  | vertices table =>
    rw [remove, get?, Table.get?_erase, apply_ite (Option.map Record.vertex)]
    rfl

theorem kind_remove (r : Records I V E) (id : I) : (r.remove id).kind = r.kind := by
  cases r <;> rfl

theorem get?_blobs_insert (table : Table I Bytes) (id id' : I) (bytes : Bytes) :
    (blobs (table.insert id bytes) : Records I V E).get? id'
      = if id' = id then some (.blob bytes) else (blobs table).get? id' := by
  rw [get?, Table.get?_insert, apply_ite (Option.map Record.blob)]
  rfl

theorem get?_vertices_insert (table : Table I (Vertex I V E)) (id id' : I) (v : Vertex I V E) :
    (vertices (table.insert id v)).get? id'
      = if id' = id then some (.vertex v) else (vertices table).get? id' := by
  rw [get?, Table.get?_insert, apply_ite (Option.map Record.vertex)]
  rfl

/-- Records of one kind can be merged. -/
theorem exists_merge {r other : Records I V E} (hkind : other.kind = r.kind) :
    ∃ r', r.merge other = .ok r' ∧ r'.kind = r.kind := by
  cases r with
  | blobs mine =>
    cases other with
    | blobs theirs => exact ⟨_, rfl, rfl⟩
    | vertices theirs => cases hkind
  | vertices mine =>
    cases other with
    | blobs theirs => cases hkind
    | vertices theirs => exact ⟨_, rfl, rfl⟩

/-- **What is merged in wins.** -/
theorem get?_merge {r r' other : Records I V E} (h : r.merge other = .ok r') (id : I) :
    r'.get? id = (other.get? id).or (r.get? id) := by
  cases r with
  | blobs mine =>
    cases other with
    | blobs theirs =>
      cases h
      rw [get?, Table.get?_union, Option.map_or]
      rfl
    | vertices theirs => cases h
  | vertices mine =>
    cases other with
    | blobs theirs => cases h
    | vertices theirs =>
      cases h
      rw [get?, Table.get?_union, Option.map_or]
      rfl

/-- A merge has the ids of both. -/
theorem mem_ids_merge {r r' other : Records I V E} (h : r.merge other = .ok r') {id : I} :
    id ∈ r'.ids ↔ id ∈ other.ids ∨ id ∈ r.ids := by
  simp only [← contains_iff_mem_ids, contains_eq_isSome, get?_merge h, Option.isSome_or,
    Bool.or_eq_true]

variable [Value V] [Value E]

/-- The records stand for this map. -/
def Represents (r : Records I V E) (m : Mapping I (VertexData I V E)) : Prop :=
  ∀ id, Option.Rel (fun record d => record.Holds id d) (r.get? id) (m.lookup id)

theorem represents_empty (kind : PartitionKind) :
    (empty kind : Records I V E).Represents ∅ := by
  intro id
  cases kind <;> exact .none

variable {r : Records I V E} {m : Mapping I (VertexData I V E)}

/-! ## Questions

Both sides have the same ids, so a question about one is a question about the other. The listing
fixes an order: that of the table, in which the records are gone through. -/

/-- A record is there exactly when the map has its id. -/
theorem Represents.contains_iff (h : r.Represents m) (id : I) :
    r.contains id = true ↔ id ∈ m := by
  rw [contains_eq_isSome, ← Finmap.lookup_isSome]
  have hid := h id
  generalize r.get? id = record at hid
  generalize m.lookup id = d at hid
  cases hid with
  | some _ => exact Iff.rfl
  | none => exact Iff.rfl

theorem Represents.ids_eq (h : r.Represents m) : (r.ids : Multiset I) = m.keys.val := by
  refine (Multiset.Nodup.ext (Multiset.coe_nodup.2 r.nodup_ids) m.keys.nodup).2 fun id => ?_
  rw [Multiset.mem_coe, Finset.mem_val, Finmap.mem_keys, ← h.contains_iff id, contains_iff_mem_ids]

theorem Represents.size_eq (h : r.Represents m) : r.size = m.keys.card := by
  rw [Finset.card, ← h.ids_eq, Multiset.coe_card, length_ids]

/-- The vertices that some of the records keep. -/
theorem Represents.listing_of {ids : List I} {records : List (Record I V E)} (h : r.Represents m)
    (heq : ids.map r.get? = records.map some) : ∃ vertices : List (Vertex I V E),
      vertices.map Vertex.id = ids
        ∧ (∀ v ∈ vertices, v.Storable ∧ m.lookup v.id = some v.data
          ∧ ∃ record, r.get? v.id = some record ∧ record.IsOf v)
        ∧ List.Forall₂ (fun record v => record.IsOf v) records vertices := by
  induction ids generalizing records with
  | nil =>
    cases records with
    | nil => exact ⟨[], rfl, by simp, .nil⟩
    | cons record records => cases heq
  | cons id ids ih =>
    cases records with
    | nil => cases heq
    | cons record records =>
      obtain ⟨hrecord, heq⟩ := List.cons.inj heq
      obtain ⟨vertices, hids, hvertices, hforall⟩ := ih heq
      have hid := h id
      rw [hrecord] at hid
      -- the record stands for what the map has under this id
      generalize hd : m.lookup id = d at hid
      cases hid with
      | some hholds =>
        obtain ⟨v, hof, hstorable, rfl, rfl⟩ := hholds
        refine ⟨v :: vertices, congrArg (v.id :: ·) hids, ?_, .cons hof hforall⟩
        intro w hw
        rcases List.mem_cons.1 hw with rfl | hw
        · exact ⟨hstorable, hd, record, hrecord, hof⟩
        · exact hvertices w hw

/-- **The vertices that are kept**, in the order of their ids. -/
theorem Represents.listing (h : r.Represents m) : ∃ vertices : List (Vertex I V E),
      vertices.map Vertex.id = r.ids
        ∧ (∀ v ∈ vertices, v.Storable ∧ m.lookup v.id = some v.data
          ∧ ∃ record, r.get? v.id = some record ∧ record.IsOf v)
        ∧ List.Forall₂ (fun record v => record.IsOf v) r.toList vertices :=
  h.listing_of r.map_get?_ids

/-- The vertices that are kept have all the entries of the map. -/
theorem Represents.eq_mapping (h : r.Represents m) {vertices : List (Vertex I V E)}
    (hids : vertices.map Vertex.id = r.ids)
    (hvertices : ∀ v ∈ vertices, m.lookup v.id = some v.data) :
    ((vertices.map fun v => (v.id, v.data)).map Prod.fst).Nodup
      ∧ m = mapping (vertices.map fun v => (v.id, v.data)) := by
  have hkeys : (vertices.map fun v => (v.id, v.data)).map Prod.fst = r.ids := by
    rw [List.map_map]
    exact hids
  have hnodup : ((vertices.map fun v => (v.id, v.data)).map Prod.fst).Nodup :=
    hkeys ▸ r.nodup_ids
  refine ⟨hnodup, Finmap.ext_lookup fun id => Option.ext fun d => ?_⟩
  rw [lookup_mapping_eq_some_iff hnodup]
  constructor
  -- an id of the map has a record, and so a vertex in the list
  · intro hlookup
    have hmem : id ∈ r.ids := by
      rw [← contains_iff_mem_ids, h.contains_iff id, Finmap.mem_iff]
      exact ⟨d, hlookup⟩
    rw [← hids] at hmem
    obtain ⟨v, hv, rfl⟩ := List.mem_map.1 hmem
    rw [hvertices v hv] at hlookup
    cases hlookup
    exact List.mem_map_of_mem hv
  · intro hmem
    obtain ⟨v, hv, heq⟩ := List.mem_map.1 hmem
    cases heq
    exact hvertices v hv

/-! ## Changes

Storing a vertex may fail for a vertex that does not fit. What the map stands for does fit, so none
of these fails. -/

/-- A record is stored in the place of another or of none. -/
theorem Represents.insert {r' : Records I V E} {v : Vertex I V E} (h : r.Represents m)
    (record : Record I V E) (hof : record.IsOf v) (hv : v.Storable)
    (hget : ∀ id, r'.get? id = if id = v.id then some record else r.get? id) :
    r'.Represents (m.insert v.id v.data) := by
  intro id
  rw [hget, lookup_insert_mapping]
  split
  · next heq => exact .some ⟨v, hof, hv, heq.symm, rfl⟩
  · exact h id

/-- **Removing a record** is an erasure. -/
theorem Represents.remove (h : r.Represents m) (id : I) :
    (r.remove id).Represents (m.erase id) := by
  intro id'
  rw [get?_remove, lookup_erase_mapping]
  split
  · exact .none
  · exact h id'

/-- **Storing a vertex** is an insertion. -/
theorem put_spec (h : r.Represents m) {v : Vertex I V E} (hv : v.Storable) :
    ∃ r', r.put v = .ok r' ∧ r'.kind = r.kind ∧ r'.Represents (m.insert v.id v.data) := by
  cases r with
  | blobs table =>
    have hblob : Blob.encode v = .ok (Blob.framed v.encode) := Blob.encode_eq hv.fits
    refine ⟨.blobs (table.insert v.id (Blob.framed v.encode)), by rw [put, hblob]; rfl, rfl, ?_⟩
    exact h.insert (.blob (Blob.framed v.encode)) rfl hv
      fun id => get?_blobs_insert table v.id id _
  | vertices table =>
    refine ⟨.vertices (table.insert v.id v), rfl, rfl, ?_⟩
    exact h.insert (.vertex v) rfl hv fun id => get?_vertices_insert table v.id id v

/-- **Writing a vertex back** is storing it, if it fits. -/
theorem save_of_put {r' : Records I V E} {v : Vertex I V E} (h : r.put v = .ok r') :
    r.save v = (.ok (), r') := by
  cases r with
  | blobs table =>
    obtain ⟨blob, hblob, hput⟩ := bind_eq_ok_iff.1 h
    cases hput
    obtain ⟨hfits, rfl⟩ := Blob.of_encode hblob
    -- it makes no difference whether there was a blob to overwrite
    rw [save]
    cases table.get? v.id with
    | some old =>
      dsimp only
      rw [Blob.overwrite_of_fits hfits]
    | none =>
      dsimp only
      rw [hblob]
  | vertices table =>
    cases h
    rfl

/-- **A vertex that is too long is not written back**, but overwrites the blob that is there. -/
theorem save_of_long {table : Table I Bytes} {v : Vertex I V E}
    (h : wordLimit ≤ Blob.totalLen v.encode) :
    (blobs table : Records I V E).save v
      = (.error (.invalidArgument (.recordTooLong (Blob.totalLen v.encode))),
        if table.contains v.id then blobs (table.insert v.id (Blob.unsealed v.encode))
        else blobs table) := by
  rw [save, Table.contains_eq_isSome]
  cases table.get? v.id with
  | some old =>
    dsimp only
    rw [Blob.overwrite_of_long h]
    rfl
  | none =>
    dsimp only
    rw [Blob.encode_of_long h]
    rfl

/-- **Merging records of one kind** is a union. -/
theorem merge_spec {other : Records I V E} {m' : Mapping I (VertexData I V E)}
    (h : r.Represents m) (h' : other.Represents m') (hkind : other.kind = r.kind) :
    ∃ r', r.merge other = .ok r' ∧ r'.kind = r.kind ∧ r'.Represents (m' ∪ m) := by
  obtain ⟨r', hmerge, hsame⟩ := exists_merge hkind
  refine ⟨r', hmerge, hsame, fun id => ?_⟩
  rw [get?_merge hmerge, lookup_union_mapping]
  have hother := h' id
  generalize other.get? id = record at hother
  generalize m'.lookup id = d at hother
  cases hother with
  | some hholds => exact .some hholds
  | none => exact h id

end Records

end Superstep
