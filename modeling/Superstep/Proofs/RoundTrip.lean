import Superstep.Proofs.Partitions
import Superstep.Proofs.Reached

/-!
# Superstep — a partition is restored from its bytes

Whatever the kinds of two partitions are and whatever the one to be replaced holds, it takes over
the vertices of the other from its serialized form (**`restored`**). The vertices need to decode
(`Record.Decodes`), no more: containers that a failed decode left out of order are written as they
are and read back in order.
-/

namespace Superstep

variable {I V E : Type} [VertexId I] [Value V] [Value E]

/-- The record is a blob that decodes, or a vertex whose blob does. Its edges can be counted in 32
bits. -/
structure Record.Decodes (r : Record I V E) : Prop where
  blob : ∃ blob, r.toBlob = .ok blob
    ∧ (Blob.decode blob : Except Corruption (Vertex I V E)).isOk = true
  counted : ∀ v, r = .vertex v → v.edges.count < wordLimit

namespace Partition

/-- What became of `q` is `p`, in the kind of `q`. -/
structure Restored (p q q' : Partition I V E) : Prop where
  kind : q'.kind = q.kind
  id : q'.id = p.id
  ids : q'.ids.Perm p.ids
  vertices : ∀ id, ∃ found, (p.get id).1.map (Option.map report) = .ok found
    ∧ (q'.get id).1.map (Option.map report) = .ok found ∧ (found.isSome = true ↔ id ∈ p.ids)
  blobs : p.kind = .byteArray → q.kind = .byteArray →
    ∀ id, q'.records.blob? id = p.records.blob? id
  signals : q'.signals = q.signals + p.size

/-- A lookup of a record that loads finds its vertex. -/
theorem get_of_load {p : Partition I V E} {id : I} {record : Record I V E} {w : Vertex I V E}
    (hget : p.records.get? id = some record) (hload : record.load p.scratch = (.ok (), w)) :
    (p.get id).1 = .ok (some w) := by
  rw [get, load, hget, bring, hload]
  rfl

/-- A lookup of an id that has no record finds nothing. -/
theorem get_of_absent {p : Partition I V E} {id : I} (h : p.records.get? id = none) :
    (p.get id).1 = .ok none := by
  rw [get, load, h]
  rfl

section Listing

variable [LawfulId I] [LawfulCodec V] [LawfulCodec E]

/-- A partition with one record for each vertex of the list is what the list was written from. -/
theorem restored_of_listing {p q q' : Partition I V E} {vertices : List (Vertex I V E)}
    (hwritten : p.WrittenAs vertices)
    (hget : ∀ v ∈ vertices, ∃ w, (p.get v.id).1 = .ok (some w) ∧ report w = report v)
    (hkind : q'.kind = q.kind) (hid : q'.id = p.id) (hsignals : q'.signals = q.signals + p.size)
    (hids : q'.ids = vertices.map Vertex.id)
    (hrecords : ∀ v ∈ vertices, ∃ record, q'.records.get? v.id = some record
      ∧ record.Holds v.id v.data ∧ ∀ blob, record = .blob blob → blob = Blob.framed v.encode) :
    Restored p q q' := by
  refine ⟨hkind, hid, .of_eq (hids.trans hwritten.ids), fun id => ?_, fun hp hq id => ?_, hsignals⟩
  · by_cases hmem : id ∈ vertices.map Vertex.id
    · obtain ⟨v, hv, rfl⟩ := List.mem_map.1 hmem
      obtain ⟨w, hw, hreport⟩ := hget v hv
      obtain ⟨record, hrecord, hholds, _⟩ := hrecords v hv
      obtain ⟨w', hload, _, hvid, hdata⟩ := hholds.load q'.scratch
      refine ⟨some (report v), ?_, ?_, iff_of_true rfl (hwritten.ids ▸ hmem)⟩
      · rw [hw]
        exact congrArg (fun found => Except.ok (some found)) hreport
      · rw [get_of_load hrecord hload]
        show Except.ok (some (w'.id, w'.data)) = _
        rw [hvid, hdata]
        rfl
    · have habsent := Records.get?_eq_none_of_notMem_ids (hids ▸ hmem)
      rw [hwritten.ids] at hmem
      refine ⟨none, ?_, ?_, iff_of_false Bool.false_ne_true hmem⟩
      · rw [get_of_absent (Records.get?_eq_none_of_notMem_ids hmem)]
        rfl
      · rw [get_of_absent habsent]
        rfl
  · by_cases hmem : id ∈ vertices.map Vertex.id
    -- both blobs are that of the listed vertex
    · obtain ⟨v, hv, rfl⟩ := List.mem_map.1 hmem
      obtain ⟨record, hrecord, hblob⟩ := hwritten.blobs v hv
      obtain ⟨bytes, rfl, hbytes⟩ := Records.exists_blob hp hrecord
      obtain ⟨record', hrecord', _, hblob'⟩ := hrecords v hv
      obtain ⟨bytes', rfl, hbytes'⟩ := Records.exists_blob (hkind.trans hq) hrecord'
      rw [hbytes, hbytes', hblob' bytes' rfl]
      exact congrArg (fun bytes => some (some bytes)) (Except.ok.inj hblob).symm
    · have habsent := Records.get?_eq_none_of_notMem_ids (hids ▸ hmem)
      rw [hwritten.ids] at hmem
      rw [Records.blob?_of_absent hp (Records.get?_eq_none_of_notMem_ids hmem)]
      exact Records.blob?_of_absent (hkind.trans hq) habsent

/-- A partition that was written as some vertices is read back by a partition of either kind. -/
theorem restored_of_writtenAs {p q : Partition I V E} {vertices : List (Vertex I V E)}
    (hwritten : p.WrittenAs vertices)
    (hget : ∀ v ∈ vertices, ∃ w, (p.get v.id).1 = .ok (some w) ∧ report w = report v)
    (hfew : p.size < wordLimit) :
    p.toBytes = (.ok (Layout.packed p.id vertices), { p with signals := p.signals + p.size })
      ∧ (q.readBytes (Layout.packed p.id vertices)).1 = .ok ()
      ∧ Restored p q (q.readBytes (Layout.packed p.id vertices)).2 := by
  have hsize : vertices.length = p.size := hwritten.length_eq
  have hfew' : vertices.length < wordLimit := hsize ▸ hfew
  have hbytes := toBytes_eq hwritten hfew'
  have hnodup : (vertices.map Vertex.id).Nodup := hwritten.ids ▸ p.records.nodup_ids
  obtain ⟨records, hreadBytes, hkind, hids, hrecords⟩ :=
    readBytes_packed hwritten.storable hfew' hnodup p.id q
  rw [hsize] at hbytes hreadBytes
  refine ⟨hbytes, by rw [hreadBytes], ?_⟩
  rw [hreadBytes]
  exact restored_of_listing hwritten hget hkind rfl rfl hids hrecords

end Listing

end Partition

variable [LawfulId I] [LawfulCodec V] [LawfulCodec E] [LawfulRefill I] [LawfulRefill V]

/-- **A record that decodes is a vertex**, in writing and to lookups. -/
theorem Record.Decodes.spec {r : Record I V E} {id : I} (h : r.Decodes) (hfiled : r.Filed id) :
    ∃ v : Vertex I V E, v.Storable ∧ v.id = id ∧ r.toBlob = .ok (Blob.framed v.encode)
      ∧ ∀ scratch, ∃ w, r.load scratch = (.ok (), w)
        ∧ Partition.report w = Partition.report v := by
  obtain ⟨blob, hblob, hdecode⟩ := h.blob
  obtain ⟨w, hdecode⟩ : ∃ w : Vertex I V E, Blob.decode blob = .ok w := by
    cases hread : (Blob.decode blob : Except Corruption (Vertex I V E)) with
    | ok w => exact ⟨w, rfl⟩
    | error e =>
      rw [hread] at hdecode
      cases hdecode
  obtain ⟨v, hv, rfl, -, -⟩ := Blob.of_decodeInto (Blob.decodeInto_of_decode hdecode)
  refine ⟨v, hv, ?_⟩
  -- a blob is the framed form of the vertex; a decoded vertex is encoded as that vertex
  cases r with
  | blob bytes =>
    cases hblob
    have hshort : (Blob.framed v.encode).length < wordLimit := by
      rw [Blob.length_framed]
      exact hv.fits
    obtain ⟨record, hbody, hkey⟩ := hfiled.sealed hshort
    refine ⟨Layout.id_eq_of_body hv.fits hbody hkey, rfl, fun scratch => ?_⟩
    obtain ⟨w, hload, halike⟩ := Blob.decodeInto_framed hv scratch
    refine ⟨w, hload, ?_⟩
    rw [Partition.report, Partition.report, halike.id, halike.data_eq hv.lawful]
  | vertex w =>
    obtain ⟨rfl, hkept⟩ := hfiled.of_vertex
    obtain ⟨hfits, hframed⟩ := Blob.of_encode hblob
    have hencode : w.encode = v.encode := (Blob.framed_inj hv.fits hfits hframed).symm
    obtain ⟨hid, hdata⟩ := Vertex.data_eq_of_encode_eq hv hkept (h.counted w rfl) hencode
    refine ⟨hid.symm, hblob, fun scratch => ⟨w, rfl, ?_⟩⟩
    rw [Partition.report, Partition.report, hid, hdata]

namespace Partition

/-- The vertices that a partition is written as, when all of its records decode. -/
theorem exists_writtenAs {p : Partition I V E} (hp : p.Reached)
    (hdecodes : ∀ record ∈ p.records.toList, record.Decodes) :
    ∃ vertices, p.WrittenAs vertices ∧ ∀ v ∈ vertices, ∃ w, (p.get v.id).1 = .ok (some w)
      ∧ report w = report v := by
  have hspec : ∀ id ∈ p.ids, ∃ v : Vertex I V E, v.Storable ∧ v.id = id
      ∧ (∃ record, p.records.get? id = some record ∧ record.toBlob = .ok (Blob.framed v.encode))
      ∧ ∃ w, (p.get id).1 = .ok (some w) ∧ report w = report v := by
    intro id hid
    obtain ⟨record, hmem, hget⟩ := Records.exists_get?_of_mem_ids hid
    obtain ⟨v, hv, hvid, hblob, hload⟩ := (hdecodes record hmem).spec (hp.filed id record hget)
    obtain ⟨w, hload, hreport⟩ := hload p.scratch
    exact ⟨v, hv, hvid, ⟨record, hget, hblob⟩, w, get_of_load hget hload, hreport⟩
  -- one vertex for each id, in the order in which the ids are listed
  choose! vertexOf hstorable hids hblobs hget using hspec
  refine ⟨p.ids.map vertexOf, ⟨?_, ?_, ?_⟩, ?_⟩
  · rw [List.map_map]
    exact (List.map_congr_left hids).trans (List.map_id p.ids)
  · intro v hv
    obtain ⟨id, hid, rfl⟩ := List.mem_map.1 hv
    exact hstorable id hid
  · intro v hv
    obtain ⟨id, hid, rfl⟩ := List.mem_map.1 hv
    rw [hids id hid]
    exact hblobs id hid
  · intro v hv
    obtain ⟨id, hid, rfl⟩ := List.mem_map.1 hv
    rw [hids id hid]
    exact hget id hid

/-- **Every partition is restored from its bytes**, by a partition of either kind that loses what it
had. Each side signals every vertex once. -/
theorem restored {p q : Partition I V E} (hp : p.Reached)
    (hdecodes : ∀ record ∈ p.records.toList, record.Decodes) (hfew : p.size < wordLimit) :
    ∃ bytes, p.toBytes = (.ok bytes, { p with signals := p.signals + p.size })
      ∧ (q.readBytes bytes).1 = .ok () ∧ Restored p q (q.readBytes bytes).2 := by
  obtain ⟨vertices, hwritten, hget⟩ := exists_writtenAs hp hdecodes
  exact ⟨Layout.packed p.id vertices, restored_of_writtenAs hwritten hget hfew⟩

def checkpointed : Partition UInt64 UInt64 UInt64 :=
  let first :=
    (new ⟨3⟩ ⟨1, .sorted, .simple⟩).perform (.put (.withEdges 1 10 .lazy [(2, 3), (3, 4)]))
  (first.2.perform (.put (.withEdges 2 20 .sorted [(1, 5)]))).2

theorem reached_checkpointed : checkpointed.Reached := by
  refine .perform (.perform (.new _ _) _ ?_) _ ?_
  · rintro v ⟨⟩
    exact ⟨.lazy, [.add 2 3, .add 3 4], rfl⟩
  · rintro v ⟨⟩
    exact ⟨.sorted, [.add 1 5], rfl⟩

theorem decodes_checkpointed : ∀ record ∈ checkpointed.records.toList, record.Decodes := by
  have hrecords : checkpointed.records.toList = [.vertex (.withEdges 1 10 .lazy [(2, 3), (3, 4)]),
      .vertex (.withEdges 2 20 .sorted [(1, 5)])] := rfl
  have hvertex : ∀ v : Vertex UInt64 UInt64 UInt64, Blob.totalLen v.encode < wordLimit →
      (Blob.decode (Blob.framed v.encode) : Except Corruption (Vertex UInt64 UInt64 UInt64)).isOk →
      v.edges.count < wordLimit → (Record.vertex v).Decodes := by
    intro v hfits hok hfew
    refine ⟨⟨_, Blob.encode_eq hfits, hok⟩, ?_⟩
    rintro w ⟨⟩
    exact hfew
  intro record hmem
  rw [hrecords, List.mem_cons, List.mem_singleton] at hmem
  rcases hmem with rfl | rfl
  · exact hvertex _ (by decide +kernel) (by decide +kernel) (by decide)
  · exact hvertex _ (by decide +kernel) (by decide +kernel) (by decide)

def replaced : Partition UInt64 UInt64 UInt64 :=
  ((new ⟨8⟩ ⟨1, .lazy, .byteArray⟩).perform (.put (.new 9 90 .hashed))).2

theorem restored_replaced : checkpointed.Reached
    ∧ (∀ record ∈ checkpointed.records.toList, record.Decodes) ∧ checkpointed.size < wordLimit
    ∧ ∃ bytes, checkpointed.toBytes.1 = .ok bytes ∧
      let read := replaced.readBytes bytes
      read.1 = .ok () ∧ read.2.id = ⟨3⟩ ∧ read.2.kind = .byteArray ∧ read.2.ids.Perm [1, 2]
        ∧ (read.2.get 1).1.map (Option.map report)
          = .ok (some (1, ⟨10, mapping [(2, 3), (3, 4)], false⟩))
        ∧ (read.2.get 9).1.map (Option.map report) = .ok none
        ∧ read.2.signals = 2 := by
  refine ⟨reached_checkpointed, decodes_checkpointed, by decide, ?_⟩
  obtain ⟨bytes, hbytes, hread, hrestored⟩ := restored (q := replaced) reached_checkpointed
    decodes_checkpointed (by decide)
  refine ⟨bytes, by rw [hbytes], hread, hrestored.id, hrestored.kind, hrestored.ids, ?_, ?_,
    hrestored.signals⟩
  · obtain ⟨found, hfound, hget, _⟩ := hrestored.vertices 1
    exact hget.trans (hfound.symm.trans rfl)
  · obtain ⟨found, hfound, hget, _⟩ := hrestored.vertices 9
    exact hget.trans (hfound.symm.trans rfl)

end Partition

end Superstep
