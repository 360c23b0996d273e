import Mathlib.Algebra.BigOperators.Group.Multiset.Basic
import Mathlib.Algebra.Ring.Nat
import Superstep.Partition.History
import Superstep.Proofs.Layouts
import Superstep.Proofs.Records

/-!
# Superstep — partitions of both kinds are one finite map

A `Shard` is what a partition stands for: its id, and a finite map from the ids of the vertices to
what they say. `Partition.Implements` relates it to a partition of either kind. Here is what each
operation of a partition does to the shard, and what it answers.

Lookups go through the scratch vertex and decode over whatever it holds, so that the lemmas speak
of any scratch vertex.

* **`bring_spec`** — a record that is brought into the scratch vertex arrives there;
* **`edgeCount_spec`** — counting the edges finds all of them;
* **`toBytes_eq`** — writing succeeds and gives the layout of the vertices;
* **`readRecords_spec`** — reading that layout gives the same vertices, as records of either kind;
* **`replace_spec`** — a partition is replaced by a copy of another, whatever their kinds are.
-/

namespace Superstep

/-- What a partition stands for. -/
structure Shard (I V E : Type) where
  id : PartitionId
  /-- What its vertices say, by their ids. -/
  vertices : Mapping I (VertexData I V E)

namespace Partition

variable {I V E : Type} [VertexId I] [Value V] [Value E]

/-- The partition is of this kind and stands for this shard. -/
structure Implements (p : Partition I V E) (kind : PartitionKind) (s : Shard I V E) : Prop where
  kind : p.kind = kind
  id : p.id = s.id
  records : p.records.Represents s.vertices

/-- The scratch vertex and the signals stand for nothing. -/
theorem Implements.of_eq {p q : Partition I V E} {kind : PartitionKind} {s : Shard I V E}
    (h : p.Implements kind s) (hid : q.id = p.id) (hrecords : q.records = p.records) :
    q.Implements kind s := by
  refine ⟨?_, hid.trans h.id, hrecords ▸ h.records⟩
  rw [Partition.kind, hrecords]
  exact h.kind

omit [Value E] in
theorem kind_new (id : PartitionId) (config : PartitionConfig) :
    (new id config : Partition I V E).kind = config.kind := by
  rw [Partition.kind, new]
  cases config.kind <;> rfl

theorem implements_new (id : PartitionId) (config : PartitionConfig) :
    (new id config : Partition I V E).Implements config.kind ⟨id, ∅⟩ :=
  ⟨kind_new id config, rfl, Records.represents_empty config.kind⟩

def report (v : Vertex I V E) : I × VertexData I V E := (v.id, v.data)

variable {p : Partition I V E} {kind : PartitionKind} {s : Shard I V E}

section Lookup

variable [LawfulId I] [LawfulCodec V] [LawfulCodec E]

/-- **A record that is brought into the scratch vertex arrives there**, and nothing else
changes. -/
theorem bring_spec {record : Option (Record I V E)} {id : I} {d : Option (VertexData I V E)}
    (h : Option.Rel (fun record d => record.Holds id d) record d) (p : Partition I V E) :
    ∃ w, p.bring record = (.ok d.isSome, { p with scratch := w })
      ∧ ∀ said, d = some said → report w = (id, said) := by
  cases h with
  | none => exact ⟨p.scratch, rfl, fun _ hsaid => by cases hsaid⟩
  | @some record d hholds =>
    obtain ⟨w, hload, _, rfl, rfl⟩ := hholds.load p.scratch
    refine ⟨w, ?_, fun said hsaid => by cases hsaid; rfl⟩
    rw [bring, hload]
    rfl

/-- The scratch vertex is then the answer. -/
theorem answer_spec {record : Option (Record I V E)} {id : I} {d : Option (VertexData I V E)}
    (h : Option.Rel (fun record d => record.Holds id d) record d) (hp : p.Implements kind s) :
    (answer (p.bring record)).1.map (Option.map report) = .ok (d.map fun said => (id, said))
      ∧ (answer (p.bring record)).2.Implements kind s := by
  obtain ⟨w, hbring, hreport⟩ := bring_spec h p
  rw [hbring]
  refine ⟨?_, hp.of_eq rfl rfl⟩
  cases d with
  | none => rfl
  | some said => exact congrArg (fun found => Except.ok (some found)) (hreport said rfl)

theorem get_spec (h : p.Implements kind s) (id : I) :
    (p.get id).1.map (Option.map report) = .ok ((s.vertices.lookup id).map fun d => (id, d))
      ∧ (p.get id).2.Implements kind s :=
  answer_spec (h.records id) h

theorem load_spec (h : p.Implements kind s) (id : I) :
    (p.load id).1 = .ok (s.vertices.lookup id).isSome ∧ (p.load id).2.Implements kind s := by
  obtain ⟨w, hload, _⟩ := bring_spec (h.records id) p
  rw [load, hload]
  exact ⟨rfl, h.of_eq rfl rfl⟩

theorem put_spec (h : p.Implements kind s) {v : Vertex I V E} (hv : v.Storable) :
    (p.put v).1.map (Option.map report)
        = .ok ((s.vertices.lookup v.id).map fun d => (v.id, d))
      ∧ (p.put v).2.Implements kind { s with vertices := s.vertices.insert v.id v.data } := by
  obtain ⟨records, hput, hkind, hrepresents⟩ := Records.put_spec h.records hv
  rw [put, hput]
  exact answer_spec (h.records v.id) ⟨hkind.trans h.kind, h.id, hrepresents⟩

theorem remove_spec (h : p.Implements kind s) (id : I) :
    (p.remove id).1.map (Option.map report) = .ok ((s.vertices.lookup id).map fun d => (id, d))
      ∧ (p.remove id).2.Implements kind { s with vertices := s.vertices.erase id } :=
  answer_spec (h.records id)
    ⟨(Records.kind_remove p.records id).trans h.kind, h.id, h.records.remove id⟩

/-- The edges of the vertices that records keep are counted, through any scratch vertex. -/
theorem countEdges_spec {records : List (Record I V E)} {vertices : List (Vertex I V E)}
    (h : List.Forall₂ (fun record v => record.IsOf v) records vertices)
    (hstorable : ∀ v ∈ vertices, v.Storable) (scratch : Vertex I V E) :
    (countEdges records scratch).1 = .ok (vertices.map fun v => v.edges.mapping.keys.card).sum := by
  -- the scratch vertex is what the blobs before leave in it
  induction h generalizing scratch with
  | nil => rfl
  | @cons record v records vertices hof _ ih =>
    have hv := hstorable v List.mem_cons_self
    have hrest := ih fun w hw => hstorable w (List.mem_cons_of_mem _ hw)
    cases record with
    | vertex w =>
      cases hof
      rw [countEdges]
      dsimp only
      rw [hrest, List.map_cons, List.sum_cons, Edges.count_eq hv.lawful]
      rfl
    | blob bytes =>
      cases hof
      obtain ⟨w, hdecode, halike⟩ := Blob.decodeInto_framed hv scratch
      have hcount : w.edges.count = v.edges.mapping.keys.card := by
        rw [Edges.count_eq halike.lawful, Edges.mapping_eq_of_perm hv.lawful halike.edges]
      rw [countEdges, hdecode]
      dsimp only
      rw [hrest, List.map_cons, List.sum_cons, hcount]
      rfl

def edgeTotal (m : Mapping I (VertexData I V E)) : Nat :=
  (m.entries.map fun e => e.2.edges.keys.card).sum

/-- **Counting the edges finds all of them.** -/
theorem edgeCount_spec (h : p.Implements kind s) :
    p.edgeCount.1 = .ok (edgeTotal s.vertices) ∧ p.edgeCount.2.Implements kind s := by
  obtain ⟨vertices, hids, hvertices, hforall⟩ := h.records.listing
  refine ⟨?_, h.of_eq rfl rfl⟩
  have hcount := countEdges_spec hforall (fun v hv => (hvertices v hv).1) p.scratch
  obtain ⟨hnodup, heq⟩ := h.records.eq_mapping hids fun v hv => (hvertices v hv).2.1
  have htotal : edgeTotal s.vertices = (vertices.map fun v => v.edges.mapping.keys.card).sum := by
    rw [edgeTotal, heq, entries_mapping hnodup, Multiset.map_coe, Multiset.sum_coe, List.map_map,
      List.map_map]
    rfl
  rw [htotal]
  exact hcount

end Lookup

/-! ## Changes

A change of the records is the change of the map under the same id, and the kind decides only how
the record is kept. -/

theorem save_spec (h : p.Implements kind s) {v : Vertex I V E} (hv : v.Storable) :
    (p.save v).1 = .ok ()
      ∧ (p.save v).2.Implements kind { s with vertices := s.vertices.insert v.id v.data } := by
  obtain ⟨records, hput, hkind, hrepresents⟩ := Records.put_spec h.records hv
  rw [save, Records.save_of_put hput]
  exact ⟨rfl, hkind.trans h.kind, h.id, hrepresents⟩

/-- **Merging partitions of one kind** is a union, in which what is merged in wins. -/
theorem merge_spec {q : Partition I V E} {t : Shard I V E} (h : p.Implements kind s)
    (hq : q.Implements kind t) : (p.merge q).1 = .ok ()
      ∧ (p.merge q).2.Implements kind { s with vertices := t.vertices ∪ s.vertices } := by
  obtain ⟨records, hmerge, hkind, hrepresents⟩ :=
    Records.merge_spec h.records hq.records (hq.kind.trans h.kind.symm)
  rw [merge, hmerge]
  exact ⟨rfl, hkind.trans h.kind, h.id, hrepresents⟩

/-! ## Writing

Entries are written one after another, each from the record that is there at the moment. The blob of
an inline record is made for this, and that of an encoded one is there. -/

theorem writePieces_unlimited (pieces : List Bytes) (written : Bytes) :
    writePieces ⟨written, none⟩ pieces = (.ok (), ⟨written ++ pieces.flatten, none⟩) := by
  induction pieces generalizing written with
  | nil => rw [writePieces, List.flatten_nil, List.append_nil]
  | cons piece pieces ih =>
    rw [writePieces, List.flatten_cons, ← List.append_assoc, ← ih (written ++ piece)]
    rfl

theorem entryNow_eq {records : Records I V E} {v : Vertex I V E} {record : Record I V E}
    (hget : records.get? v.id = some record) (hblob : record.toBlob = .ok (Blob.framed v.encode))
    (hfits : Blob.totalLen v.encode < wordLimit) (id : PartitionId) :
    entryNow id records v.id = .ok (Layout.entryPieces v.id (Blob.framed v.encode)) := by
  rw [← Blob.length_framed] at hfits
  simp only [entryNow, hget, hblob, bind, Except.bind, pure, Except.pure, if_pos hfits]

/-- The records are written as these vertices, which are listed in the order of their ids. -/
structure WrittenAs (p : Partition I V E) (vertices : List (Vertex I V E)) : Prop where
  ids : vertices.map Vertex.id = p.ids
  storable : ∀ v ∈ vertices, v.Storable
  blobs : ∀ v ∈ vertices, ∃ record, p.records.get? v.id = some record
    ∧ record.toBlob = .ok (Blob.framed v.encode)

/-- As many vertices are written as there are records. -/
theorem WrittenAs.length_eq {vertices : List (Vertex I V E)} (h : p.WrittenAs vertices) :
    vertices.length = p.size := by
  rw [← List.length_map Vertex.id, h.ids, Partition.ids, Records.length_ids]
  rfl

/-- **The entries are written** one behind the other. -/
theorem writeEntries_spec {records : Records I V E} {vertices : List (Vertex I V E)}
    (hstorable : ∀ v ∈ vertices, v.Storable)
    (hblobs : ∀ v ∈ vertices, ∃ record, records.get? v.id = some record
      ∧ record.toBlob = .ok (Blob.framed v.encode)) (id : PartitionId) (written : Bytes) :
    writeEntries id (vertices.map Vertex.id) [] records ⟨written, none⟩
      = ⟨.ok (), records, ⟨written ++ vertices.flatMap Layout.packedEntry, none⟩,
        vertices.length⟩ := by
  induction vertices generalizing written with
  | nil => simp [writeEntries, Sink.flush]
  | cons v vertices ih =>
    obtain ⟨record, hget, hblob⟩ := hblobs v List.mem_cons_self
    have hfits := (hstorable v List.mem_cons_self).fits
    rw [List.map_cons, writeEntries, entryNow_eq hget hblob hfits id]
    dsimp only
    rw [writePieces_unlimited]
    dsimp only
    have hrest := ih (fun w hw => hstorable w (List.mem_cons_of_mem _ hw))
      (fun w hw => hblobs w (List.mem_cons_of_mem _ hw)) (written ++ Layout.packedEntry v)
    rw [List.append_assoc] at hrest
    rw [List.headD_nil, List.tail_nil, Records.editAll, List.foldl_nil]
    exact congrArg (fun later : Written I V E => { later with signals := later.signals + 1 }) hrest

/-- **Writing succeeds**, gives the layout of the vertices, and signals each of them. -/
theorem toBytes_eq {vertices : List (Vertex I V E)} (h : p.WrittenAs vertices)
    (hfew : vertices.length < wordLimit) : p.toBytes
      = (.ok (Layout.packed p.id vertices), { p with signals := p.signals + vertices.length }) := by
  have hkeys : p.ids = vertices.map Vertex.id := h.ids.symm
  have hlength : p.ids.length = vertices.length := by rw [hkeys, List.length_map]
  have hentries := writeEntries_spec h.storable h.blobs p.id
    (Layout.header p.id vertices.length).flatten
  have hwritten : p.writeAmid [] .unlimited = ⟨.ok (), p.records,
      ⟨Layout.packed p.id vertices, none⟩, vertices.length⟩ := by
    rw [writeAmid]
    dsimp only
    rw [hlength, if_pos hfew, Sink.unlimited, writePieces_unlimited, hkeys]
    exact hentries
  rw [toBytes, writeTo, hwritten]
  rfl

/-- A partition that stands for a shard can be written. -/
theorem toBytes_spec (h : p.Implements kind s) (hfew : s.vertices.keys.card < wordLimit) :
    ∃ vertices : List (Vertex I V E), p.toBytes.1 = .ok (Layout.packed p.id vertices)
      ∧ (∀ v ∈ vertices, v.Storable)
      ∧ ((vertices.map fun v => (v.id, v.data)).map Prod.fst).Nodup
      ∧ s.vertices = mapping (vertices.map fun v => (v.id, v.data)) := by
  obtain ⟨vertices, hids, hvertices, _⟩ := h.records.listing
  have hstorable : ∀ v ∈ vertices, v.Storable := fun v hv => (hvertices v hv).1
  have hwritten : p.WrittenAs vertices := by
    refine ⟨hids, hstorable, fun v hv => ?_⟩
    obtain ⟨hv, _, record, hget, hof⟩ := hvertices v hv
    exact ⟨record, hget, hof.toBlob hv⟩
  have hlength : vertices.length < wordLimit := by
    rw [← List.length_map Vertex.id, hids, Records.length_ids, h.records.size_eq]
    exact hfew
  refine ⟨vertices, ?_, hstorable, h.records.eq_mapping hids fun v hv => (hvertices v hv).2.1⟩
  rw [toBytes_eq hwritten hlength]

/-- More vertices than the 32-bit count can say are refused. -/
theorem toBytes_of_many (hmany : ¬ p.size < wordLimit) :
    p.toBytes.1 = .error (.invalidArgument (.tooManyEntries p.id)) := by
  have hlong : ¬ p.ids.length < wordLimit := by
    rw [ids, Records.length_ids]
    exact hmany
  rw [toBytes, writeTo, writeAmid]
  dsimp only
  rw [if_neg hlong]
  rfl

theorem toBytes_refused (h : p.Implements kind s) (hmany : ¬ s.vertices.keys.card < wordLimit) :
    p.toBytes.1 = .error (.invalidArgument (.tooManyEntries s.id)) := by
  rw [← h.records.size_eq] at hmany
  rw [toBytes_of_many hmany, h.id]

/-! ## Reading

Reading stages one entry at a time, and keeps its record in the form of the kind: the blob itself,
or the vertex that it is decoded to. For what a partition has written all of this succeeds. -/

/-- Records that are read are of the kind that reads them. -/
theorem kind_readRecords {kind : PartitionKind} {strategy : EdgeStrategy} {bytes : Bytes}
    {id : PartitionId} {records : Records I V E}
    (h : (readRecords kind strategy bytes).1 = .ok (id, records)) : records.kind = kind := by
  cases kind with
  | byteArray =>
    obtain ⟨read, _, hrecords⟩ := map_eq_ok_iff.1 h
    cases hrecords
    rfl
  | simple =>
    obtain ⟨read, _, hrecords⟩ := map_eq_ok_iff.1 h
    cases hrecords
    rfl

/-- A partition that was received has nothing of its own but its id and its records. -/
theorem of_ofBytes {bytes : Bytes} {config : PartitionConfig} {p : Partition I V E}
    (h : ofBytes bytes config = .ok p) : p.scratch = .blank config.edgeStrategy
      ∧ p.strategy = config.edgeStrategy ∧ p.kind = config.kind := by
  have hkind : (new default config : Partition I V E).kind = config.kind := kind_new default config
  have hmap : Except.map (fun _ => ((new default config : Partition I V E).readBytes bytes).2)
      ((new default config : Partition I V E).readBytes bytes).1 = .ok p := h
  obtain ⟨_, hread, rfl⟩ := map_eq_ok_iff.1 hmap
  unfold readBytes at hread ⊢
  generalize hfound : readRecords (I := I) (V := V) (E := E)
    (new default config : Partition I V E).kind (new default config : Partition I V E).strategy
    bytes = found at hread ⊢
  obtain ⟨read, staged⟩ := found
  cases read with
  | error e => cases hread
  | ok read => exact ⟨rfl, rfl, (kind_readRecords (congrArg Prod.fst hfound)).trans hkind⟩

/-- A table with one record for each vertex stands for what the vertices say. -/
theorem represents_of_listing {records : Records I V E} {vertices : List (Vertex I V E)}
    (hids : records.ids = vertices.map Vertex.id)
    (hnodup : ((vertices.map fun v => (v.id, v.data)).map Prod.fst).Nodup)
    (hget : ∀ v ∈ vertices, ∃ record, records.get? v.id = some record ∧ record.Holds v.id v.data) :
    records.Represents (mapping (vertices.map fun v => (v.id, v.data))) := by
  intro id
  by_cases hmem : id ∈ vertices.map Vertex.id
  · obtain ⟨v, hv, rfl⟩ := List.mem_map.1 hmem
    obtain ⟨record, hrecord, hholds⟩ := hget v hv
    have hlookup : (mapping (vertices.map fun v => (v.id, v.data))).lookup v.id = some v.data :=
      (lookup_mapping_eq_some_iff hnodup).2 (List.mem_map_of_mem hv)
    rw [hrecord, hlookup]
    exact .some hholds
  · have hnone := Records.get?_eq_none_of_notMem_ids (hids ▸ hmem)
    have hlookup : (mapping (vertices.map fun v => (v.id, v.data))).lookup id = none := by
      rw [Finmap.lookup_eq_none, mem_mapping, List.map_map]
      exact hmem
    rw [hnone, hlookup]
    exact .none

theorem replace_refused {q : Partition I V E} {other : PartitionKind} {t : Shard I V E}
    (hq : q.Implements other t) (hmany : ¬ t.vertices.keys.card < wordLimit) :
    p.replace q = (.error (.invalidArgument (.tooManyEntries t.id)), p) := by
  rw [replace, toBytes_refused hq hmany]

section Reading

variable [LawfulId I] [LawfulCodec V]

/-- The blob of a vertex is decoded to a vertex that is alike. -/
theorem decodeRecord_framed [LawfulCodec E] {v : Vertex I V E} (h : v.Storable)
    (strategy : EdgeStrategy) :
    ∃ w, decodeRecord strategy (Blob.framed v.encode) = .ok w ∧ w.Alike v := by
  obtain ⟨w, hdecode, halike⟩ := Blob.decodeInto_framed h (Vertex.blank strategy)
  refine ⟨w, ?_, halike⟩
  rw [decodeRecord, hdecode]
  rfl

/-- **The layout is read back**, as records of either kind. Blobs are kept as they are. -/
theorem readRecords_spec [LawfulCodec E] {vertices : List (Vertex I V E)}
    (hstorable : ∀ v ∈ vertices, v.Storable) (hfew : vertices.length < wordLimit)
    (hnodup : (vertices.map Vertex.id).Nodup) (id : PartitionId)
    (kind : PartitionKind) (strategy : EdgeStrategy) : ∃ records : Records I V E,
      readRecords kind strategy (Layout.packed id vertices) = (.ok (id, records), vertices.length)
        ∧ records.kind = kind ∧ records.ids = vertices.map Vertex.id
        ∧ ∀ v ∈ vertices, ∃ record, records.get? v.id = some record ∧ record.Holds v.id v.data
          ∧ ∀ blob, record = .blob blob → blob = Blob.framed v.encode := by
  cases kind with
  | byteArray =>
    obtain ⟨table, hread, hlist⟩ := Layout.read_packed (fun blob => .ok blob)
      (fun v : Vertex I V E => Blob.framed v.encode) hstorable (fun _ _ => rfl) hnodup hfew id
    refine ⟨.blobs table, by rw [readRecords, hread]; rfl, rfl, ?_, fun v hv => ?_⟩
    · rw [Records.ids, Table.keys, hlist, List.map_map]
      rfl
    · have hget : table.get? v.id = some (Blob.framed v.encode) := by
        rw [← Table.mem_toList_iff, hlist]
        exact List.mem_map_of_mem hv
      refine ⟨.blob (Blob.framed v.encode), by rw [Records.get?, hget]; rfl, ?_, ?_⟩
      · exact ⟨v, rfl, hstorable v hv, rfl, rfl⟩
      · rintro blob ⟨⟩
        rfl
  -- blobs are decoded, each over a vertex of its own
  | simple =>
    choose! restored hrestored using fun v (hv : v ∈ vertices) =>
      decodeRecord_framed (hstorable v hv) strategy
    obtain ⟨table, hread, hlist⟩ := Layout.read_packed (decodeRecord strategy) restored
      hstorable (fun v hv => (hrestored v hv).1) hnodup hfew id
    refine ⟨.vertices table, by rw [readRecords, hread]; rfl, rfl, ?_, fun v hv => ?_⟩
    · rw [Records.ids, Table.keys, hlist, List.map_map]
      rfl
    · have hget : table.get? v.id = some (restored v) := by
        rw [← Table.mem_toList_iff, hlist]
        exact List.mem_map_of_mem hv
      have halike := (hrestored v hv).2
      refine ⟨.vertex (restored v), by rw [Records.get?, hget]; rfl, ?_, fun blob heq => ?_⟩
      · exact ⟨restored v, rfl, halike.storable (hstorable v hv), halike.id,
          halike.data_eq (hstorable v hv).lawful⟩
      · cases heq

/-- A partition takes over the layout of some vertices. -/
theorem readBytes_packed [LawfulCodec E] {vertices : List (Vertex I V E)}
    (hstorable : ∀ v ∈ vertices, v.Storable) (hfew : vertices.length < wordLimit)
    (hnodup : (vertices.map Vertex.id).Nodup) (id : PartitionId) (q : Partition I V E) :
    ∃ records, q.readBytes (Layout.packed id vertices)
        = (.ok (), { q with id, records, signals := q.signals + vertices.length })
      ∧ records.kind = q.kind ∧ records.ids = vertices.map Vertex.id
      ∧ ∀ v ∈ vertices, ∃ record, records.get? v.id = some record ∧ record.Holds v.id v.data
        ∧ ∀ blob, record = .blob blob → blob = Blob.framed v.encode := by
  obtain ⟨records, hread, hspec⟩ :=
    readRecords_spec hstorable hfew hnodup id q.kind q.strategy
  refine ⟨records, ?_, hspec⟩
  rw [readBytes, hread]

/-- **Replacing a partition** by a copy of another succeeds, whatever their kinds are. -/
theorem replace_spec [LawfulCodec E] {q : Partition I V E} {other : PartitionKind} {t : Shard I V E}
    (h : p.Implements kind s) (hq : q.Implements other t)
    (hfew : t.vertices.keys.card < wordLimit) :
    (p.replace q).1 = .ok () ∧ (p.replace q).2.Implements kind t := by
  obtain ⟨vertices, hbytes, hstorable, hnodup, hvertices⟩ := toBytes_spec hq hfew
  have hlength : vertices.length < wordLimit := by
    rw [hvertices, card_mapping hnodup, List.length_map] at hfew
    exact hfew
  have hids : (vertices.map Vertex.id).Nodup := by
    rw [List.map_map] at hnodup
    exact hnodup
  obtain ⟨records, hread, hkind, hkeys, hget⟩ := readBytes_packed hstorable hlength hids q.id p
  have hrepresents := represents_of_listing hkeys hnodup fun v hv => by
    obtain ⟨record, hrecord, hholds, _⟩ := hget v hv
    exact ⟨record, hrecord, hholds⟩
  rw [replace, hbytes]
  dsimp only
  rw [hread]
  exact ⟨rfl, hkind.trans h.kind, hq.id, hvertices ▸ hrepresents⟩

end Reading

end Partition

end Superstep
