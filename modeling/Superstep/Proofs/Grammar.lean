import Superstep.Proofs.RoundTrip

/-!
# Superstep — the grammar of a serialized partition

`Grammatical bytes id forms` says in so many words what a serialized partition is: its id, the
number of its entries, then for each vertex its id, the length of its blob and the blob, and
nothing more. `Framed` says less: there the blobs are any byte strings.

* **`Layout.run_entry_eq_ok`**, **`Layout.entries_eq_ok_iff`**, **`Layout.read_eq_ok_iff`** — what
  the reader of the layout accepts, whatever records are made of the blobs;
* **`Layout.Framed.grammatical`** — what is framed is grammatical when its blobs decode;
* **`Partition.readBytes_grammar`** — a partition of decoded vertices reads the grammar and nothing
  else, and a partition of blobs differs from it in blobs that do not decode.
-/

namespace Superstep

variable {I V E : Type} [VertexId I] [Value V] [Value E]

/-- A vertex in the words of its encoded form. -/
structure VertexForm (I V E : Type) where
  id : I
  value : V
  /-- The edges in the order in which they are written. -/
  edges : List (I × E)
  halted : Bool

namespace VertexForm

variable (f : VertexForm I V E)

/-- The id, the value, the number of edges, target and value of each, and a byte for the flag. -/
def body : Bytes :=
  Codec.encode f.id ++ Codec.encode f.value ++ BigEndian.encode 4 f.edges.length
    ++ f.edges.flatMap (fun edge => Codec.encode edge.1 ++ Codec.encode edge.2)
    ++ [if f.halted then 1 else 0]

/-- The body behind the length of the whole. -/
def blob : Bytes := BigEndian.encode 4 (4 + f.body.length) ++ f.body

/-- The blob behind its key and its length. -/
def entry : Bytes := Codec.encode f.id ++ BigEndian.encode 4 f.blob.length ++ f.blob

/-- What the vertex says beside its id. -/
def data : VertexData I V E := ⟨f.value, mapping f.edges, f.halted⟩

/-- No target occurs twice, and the length of the blob fits its fields. -/
structure Proper : Prop where
  targets : (f.edges.map Prod.fst).Nodup
  fits : f.blob.length < wordLimit

end VertexForm

/-- `bytes` are the id, the number of entries, and these entries, with no key twice. -/
structure Grammatical (bytes : Bytes) (id : PartitionId) (forms : List (VertexForm I V E)) :
    Prop where
  bytes : bytes = BigEndian.encode 4 id.val.toNat ++ BigEndian.encode 4 forms.length
    ++ forms.flatMap VertexForm.entry
  few : forms.length < wordLimit
  proper : ∀ f ∈ forms, f.Proper
  keys : (forms.map VertexForm.id).Nodup

namespace Layout

/-- An entry as it stands in a serialized partition, whatever its blob is. -/
def entryBytes (entry : I × Bytes) : Bytes :=
  Codec.encode entry.1 ++ BigEndian.encode 4 entry.2.length ++ entry.2

/-- `bytes` are the id, the number of entries, and entries with these keys and blobs. -/
structure Framed (bytes : Bytes) (id : PartitionId) (entries : List (I × Bytes)) : Prop where
  bytes : bytes = BigEndian.encode 4 id.val.toNat ++ BigEndian.encode 4 entries.length
    ++ entries.flatMap entryBytes
  few : entries.length < wordLimit
  short : ∀ entry ∈ entries, entry.2.length < wordLimit
  keys : (entries.map Prod.fst).Nodup

/-- The blob declares its length, and its record begins with the key. -/
def Keyed (entry : I × Bytes) : Prop :=
  ∃ record, Blob.body entry.2 = .ok record ∧ (Codec.decode.run record).1 = .ok entry.1

/-- Entries as a partition of blobs reads them: every blob has its key in it, and there is room for
as many vertices with values in `V`. -/
structure Readable (V : Type) [Value V] (bytes : Bytes) (id : PartitionId)
    (entries : List (I × Bytes)) : Prop extends Framed bytes id entries where
  keyed : ∀ entry ∈ entries, Keyed entry
  room : entries.length * minEntryLen I V ≤ (entries.flatMap entryBytes).length

/-- A blob that has its key in it declares its length, which is a word. -/
theorem Keyed.length_lt {entry : I × Bytes} (h : Keyed entry) : entry.2.length < wordLimit := by
  obtain ⟨record, hbody, _⟩ := h
  obtain ⟨hfits, hblob⟩ := Blob.of_body hbody
  rw [hblob, Blob.length_framed]
  exact hfits

/-! ## What the reader accepts

The reader stages entries one by one, and what it has staged is part of its state: a key is refused
because of the entries before it. `Listing` says of an input which entries it consists of and what
is staged in the end, so that the induction can begin at any of them. -/

section Reader

/-- An entry together with the record that is made of its blob. -/
structure Accepted {R : Type} (accept : Bytes → Except Error R) (entry : (I × Bytes) × R) :
    Prop where
  keyed : Keyed entry.1
  record : accept entry.1.2 = .ok entry.2

variable {R : Type} {accept : Bytes → Except Error R}

/-- `input` consists of these entries, and `table` has their records behind the staged ones. No key
occurs twice, because `table` is a table. -/
structure Listing (accept : Bytes → Except Error R) (staged : Table I R) (input : Bytes)
    (found : List ((I × Bytes) × R)) (table : Table I R) : Prop where
  input : input = (found.map Prod.fst).flatMap entryBytes
  accepted : ∀ e ∈ found, Accepted accept e
  table : table.toList = staged.toList ++ found.map fun e => (e.1.1, e.2)

/-- The first entry is staged, and the others behind it. -/
theorem listing_cons {e : (I × Bytes) × R} {staged table : Table I R} {input : Bytes}
    {found : List ((I × Bytes) × R)} : Listing accept staged input (e :: found) table
      ↔ ∃ rest, input = entryBytes e.1 ++ rest ∧ Accepted accept e
        ∧ staged.contains e.1.1 = false
        ∧ Listing accept (staged.insert e.1.1 e.2) rest found table := by
  constructor
  · rintro ⟨hinput, haccepted, htable⟩
    -- a table has no key twice, so the first one was not there
    have hnew : staged.contains e.1.1 = false := by
      have hnodup := table.nodup
      rw [htable, List.map_append, List.map_cons] at hnodup
      have hnotMem := List.disjoint_of_nodup_append hnodup
      rw [← Bool.not_eq_true, Table.contains_iff_mem_keys]
      exact fun hmem => hnotMem hmem List.mem_cons_self
    refine ⟨_, hinput, haccepted e List.mem_cons_self, hnew, rfl,
      fun e he => haccepted e (List.mem_cons_of_mem _ he), ?_⟩
    rw [htable, Table.toList_insert_of_not_contains staged e.2 hnew, List.append_assoc]
    rfl
  · rintro ⟨rest, rfl, he, hnew, ⟨rfl, haccepted, htable⟩⟩
    refine ⟨rfl, fun other hmem => ?_, ?_⟩
    · rcases List.mem_cons.1 hmem with rfl | hmem
      · exact he
      · exact haccepted other hmem
    · rw [htable, Table.toList_insert_of_not_contains staged e.2 hnew, List.append_assoc]
      rfl

variable [LawfulId I]

/-- The key is read off the front of its entry, because it is read off the front of the record. -/
theorem Keyed.reads {entry : I × Bytes} (h : Keyed entry) :
    Reads Codec.decode (Codec.encode entry.1) entry.1 := by
  obtain ⟨record, _, hkey⟩ := h
  exact (LawfulCodec.of_decode (Prod.ext hkey rfl)).2

/-- **An entry is accepted** when its key, its length and its blob are there and agree. -/
theorem run_entry_eq_ok {id : PartitionId} {input rest : Bytes} {entry : I × Bytes} :
    (Layout.entry I id).run input = (.ok entry, rest)
      ↔ input = entryBytes entry ++ rest ∧ Keyed entry := by
  constructor
  · intro h
    obtain ⟨key, middle, hkey, hlater⟩ := Decoder.run_bind_eq_ok.1 h
    obtain ⟨outer, middle', houter, hlater⟩ := Decoder.run_bind_eq_ok.1 hlater
    obtain ⟨hinput, _⟩ := LawfulCodec.of_decode (of_run_located hkey)
    obtain ⟨_, hmiddle⟩ := Decoder.run_word_eq_ok.1 (of_run_located houter)
    split at hlater
    · cases hlater
    · obtain ⟨blob, _, hblob, hlater⟩ := Decoder.run_bind_eq_ok.1 hlater
      obtain ⟨record, _, hbody, hlater⟩ := Decoder.run_bind_eq_ok.1 hlater
      obtain ⟨embedded, _, hembedded, hlater⟩ := Decoder.run_bind_eq_ok.1 hlater
      obtain ⟨hrest, hlength⟩ := Decoder.run_take_eq_ok.1 (of_run_located hblob)
      obtain ⟨hrecord, rfl⟩ := Decoder.run_ofExcept_eq_ok.1 (of_run_located hbody)
      obtain ⟨hfront, rfl⟩ := Decoder.run_ofExcept_eq_ok.1 (of_run_located hembedded)
      split at hlater
      · next heq =>
        obtain ⟨rfl, rfl⟩ := Decoder.run_pure_eq_ok.1 hlater
        refine ⟨?_, record, hrecord, heq ▸ hfront⟩
        rw [hinput, hmiddle, hrest, entryBytes, hlength]
        simp only [List.append_assoc]
      · cases hlater
  · rintro ⟨rfl, hkeyed⟩
    have hkey := hkeyed.reads
    have hlt := hkeyed.length_lt
    obtain ⟨record, hbody, hembedded⟩ := hkeyed
    have hlong : ¬ entry.2.length < Blob.headerLen := by
      obtain ⟨_, hblob⟩ := Blob.of_body hbody
      rw [hblob, Blob.length_framed, Blob.totalLen]
      omega
    have hbytes : entryBytes entry = Codec.encode entry.1 ++ (BigEndian.encode 4 entry.2.length
        ++ (entry.2 ++ ([] ++ ([] ++ [])))) := by
      simp [entryBytes]
    rw [hbytes]
    -- one field after the other, and then the checks, which read nothing
    refine ((reads_located hkey id).bind ?_) rest
    refine (reads_located (Reads.word_of_lt hlt) id).bind ?_
    rw [if_neg hlong]
    refine (reads_located (Reads.take _) id).bind ?_
    refine (reads_located (Reads.ofExcept hbody) id).bind ?_
    refine (reads_located (Reads.ofExcept hembedded) id).bind ?_
    rw [if_pos rfl]
    exact .pure _

/-- At the end there has to be nothing. -/
theorem run_finish_located {id : PartitionId} {input : Bytes} :
    ((located id (Decoder.finish "partition")).run input).1 = .ok () ↔ input = [] := by
  constructor
  · intro h
    exact Decoder.run_finish_eq_ok.1 (congrArg Prod.fst (of_run_located (Prod.ext h rfl)))
  · intro h
    exact congrArg Prod.fst (run_located (Prod.ext (Decoder.run_finish_eq_ok.2 h) rfl) id)

/-- **Entries are accepted** one by one, and no key that is staged already. -/
theorem entries_eq_ok_iff {id : PartitionId} {n : Nat} {staged table : Table I R} {input : Bytes} :
    (entries id accept n staged input).1 = .ok table
      ↔ ∃ found, found.length = n ∧ Listing accept staged input found table := by
  -- on the entries that are still announced, for any that are staged already
  induction n generalizing staged input with
  | zero =>
    have hend : (entries id accept 0 staged input).1 = .ok table
        ↔ input = [] ∧ staged = table := by
      rw [← @run_finish_located id, entries]
      generalize ((located id (Decoder.finish "partition")).run input).1 = ended
      cases ended with
      | ok _ =>
        show (Except.ok staged : Except Error _) = .ok table ↔ _
        simp
      | error e => exact ⟨fun h => (by cases h), fun h => (by cases h.1)⟩
    rw [hend]
    constructor
    · rintro ⟨rfl, rfl⟩
      exact ⟨[], rfl, rfl, by simp, (List.append_nil _).symm⟩
    · rintro ⟨found, hlength, hlisting⟩
      obtain rfl := List.eq_nil_of_length_eq_zero hlength
      refine ⟨hlisting.input, Table.ext_toList ?_⟩
      rw [hlisting.table, List.map_nil, List.append_nil]
  | succ n ih =>
    constructor
    · intro h
      unfold entries at h
      split at h
      · cases h
      · next key blob rest hrun =>
        split at h
        · cases h
        · next hnew =>
          split at h
          · cases h
          · next record haccept =>
            obtain ⟨hinput, hkeyed⟩ := run_entry_eq_ok.1 hrun
            obtain ⟨found, hlength, hlisting⟩ := ih.1 h
            have hfresh : staged.contains key = false := Bool.eq_false_iff.2 hnew
            refine ⟨((key, blob), record) :: found, congrArg (· + 1) hlength, ?_⟩
            exact listing_cons.2 ⟨rest, hinput, ⟨hkeyed, haccept⟩, hfresh, hlisting⟩
    · rintro ⟨found, hlength, hlisting⟩
      cases found with
      | nil => cases hlength
      | cons e found =>
        obtain ⟨rest, hinput, he, hnew, hlisting⟩ := listing_cons.1 hlisting
        have hrun : (Layout.entry I id).run input = (.ok e.1, rest) :=
          run_entry_eq_ok.2 ⟨hinput, he.keyed⟩
        have hrest := ih.2 ⟨found, Nat.succ.inj hlength, hlisting⟩
        rw [entries, hrun]
        dsimp only
        rw [if_neg (by rw [hnew]; exact Bool.false_ne_true), he.record]
        exact hrest

/-- **The reader accepts** a partition whose entries are accepted, if there is room for as many
vertices as it says. -/
theorem read_eq_ok_iff {bytes : Bytes} {id : PartitionId} {table : Table I R} :
    (read I V accept bytes).1 = .ok (id, table)
      ↔ ∃ found : List ((I × Bytes) × R), Framed bytes id (found.map Prod.fst)
        ∧ found.length * minEntryLen I V ≤ ((found.map Prod.fst).flatMap entryBytes).length
        ∧ (∀ e ∈ found, Accepted accept e)
        ∧ table.toList = found.map fun e => (e.1.1, e.2) := by
  constructor
  · intro h
    unfold read at h
    split at h
    · cases h
    · next found count rest hheader =>
      obtain ⟨hbytes, hfew, hguard⟩ := run_readHeader_eq_ok.1 hheader
      cases hentries : (entries found accept count (Table.empty (K := I)) rest).1 with
      | error e =>
        dsimp only at h
        rw [hentries] at h
        cases h
      | ok staged =>
        dsimp only at h
        rw [hentries] at h
        cases h
        obtain ⟨found, rfl, hlisting⟩ := entries_eq_ok_iff.1 hentries
        have htable := hlisting.table
        rw [Table.toList_empty, List.nil_append] at htable
        refine ⟨found, ⟨?_, ?_, ?_, ?_⟩, hlisting.input ▸ hguard, hlisting.accepted, htable⟩
        · rw [hbytes, hlisting.input, List.length_map, List.append_assoc]
        · rw [List.length_map]
          exact hfew
        · intro entry hmem
          obtain ⟨e, he, rfl⟩ := List.mem_map.1 hmem
          exact (hlisting.accepted e he).keyed.length_lt
        · -- keys are distinct because their records are in one table
          have hnodup := table.nodup
          rw [htable, List.map_map] at hnodup
          rw [List.map_map]
          exact hnodup
  · rintro ⟨found, hframed, hguard, haccepted, htable⟩
    have hfew := hframed.few
    have hbytes := hframed.bytes
    rw [List.length_map] at hfew hbytes
    rw [List.append_assoc] at hbytes
    have hheader := (run_readHeader_eq_ok (I := I) (V := V)).2 ⟨hbytes, hfew, hguard⟩
    have hentries : (entries id accept found.length .empty _).1 = .ok table :=
      entries_eq_ok_iff.2 ⟨found, rfl, rfl, haccepted, htable⟩
    rw [read, hheader]
    dsimp only
    rw [hentries]
    rfl

end Reader

end Layout

/-! ## Vertices and their forms

A form is what a vertex says when the order of its edges counts. Forms are for the bytes, and
vertices for what is made of them. -/

namespace VertexForm

def vertex (f : VertexForm I V E) : Vertex I V E :=
  ⟨f.id, f.value, .hashed (.ofList f.edges), f.halted⟩

variable {f : VertexForm I V E}

theorem Proper.toList_edges (h : f.Proper) : f.vertex.edges.toList = f.edges :=
  Table.toList_ofList h.targets

/-- A proper form is what its vertex is encoded as. -/
theorem Proper.encode_vertex (h : f.Proper) : f.vertex.encode = f.body := by
  have hedges : f.vertex.edges.encode = Section.encode f.edges := by
    have hlawful : f.vertex.edges.Lawful := trivial
    rw [Edges.encode_eq hlawful, h.toList_edges]
  rw [Vertex.encode, hedges, body, Section.encode]
  simp only [List.append_assoc]
  rfl

theorem Proper.blob_vertex (h : f.Proper) : Blob.framed f.vertex.encode = f.blob := by
  rw [h.encode_vertex]
  rfl

/-- A vertex of a proper form can be stored. -/
theorem Proper.storable (h : f.Proper) : f.vertex.Storable := by
  refine ⟨trivial, ?_⟩
  rw [← Blob.length_framed, h.blob_vertex]
  exact h.fits

theorem Proper.data_vertex (h : f.Proper) : f.vertex.data = f.data := by
  rw [Vertex.data, Edges.mapping, h.toList_edges]
  rfl

end VertexForm

def Vertex.form (v : Vertex I V E) : VertexForm I V E := ⟨v.id, v.value, v.edges.toList, v.halted⟩

/-- The words are what the vertex is encoded as. -/
theorem Vertex.encode_eq_body {v : Vertex I V E} (h : v.edges.Lawful) : v.encode = v.form.body := by
  rw [Vertex.encode, Edges.encode_eq h, VertexForm.body, Section.encode]
  simp only [List.append_assoc]
  rfl

theorem Vertex.Storable.blob_form {v : Vertex I V E} (h : v.Storable) :
    v.form.blob = Blob.framed v.encode := by
  rw [Vertex.encode_eq_body h.lawful]
  rfl

/-- **A vertex that can be stored has a proper form.** -/
theorem Vertex.Storable.proper [LawfulId I] {v : Vertex I V E} (h : v.Storable) :
    v.form.Proper := by
  refine ⟨Edges.nodup_toList h.lawful, ?_⟩
  rw [h.blob_form, Blob.length_framed]
  exact h.fits

/-- Such a partition is the layout of its vertices. -/
theorem Grammatical.eq_packed {bytes : Bytes} {id : PartitionId} {forms : List (VertexForm I V E)}
    (h : Grammatical bytes id forms) :
    bytes = Layout.packed id (forms.map VertexForm.vertex) := by
  have hentries : (forms.map VertexForm.vertex).flatMap Layout.packedEntry
      = forms.flatMap VertexForm.entry := by
    rw [List.flatMap_map]
    refine List.flatMap_congr fun f hf => ?_
    have hblob := (h.proper f hf).blob_vertex
    rw [Layout.packedEntry, Layout.entryPieces, hblob]
    simp only [List.flatten_cons, List.flatten_nil, List.append_nil, VertexForm.entry,
      List.append_assoc]
    rfl
  rw [h.bytes, Layout.packed, hentries, Layout.header, List.length_map]
  simp

section Decoded

variable [LawfulId I] [LawfulCodec V] [LawfulCodec E] [LawfulRefill I] [LawfulRefill V]

/-- **Blobs that decode make the difference.** -/
theorem Layout.Framed.grammatical {bytes : Bytes} {id : PartitionId} {entries : List (I × Bytes)}
    (h : Framed bytes id entries) (hkeyed : ∀ entry ∈ entries, Keyed entry)
    (hdecodes : ∀ entry ∈ entries,
      ∃ old : Vertex I V E, (Blob.decodeInto old entry.2).1 = .ok ()) :
    ∃ forms : List (VertexForm I V E), Grammatical bytes id forms := by
  have hvertex : ∀ entry ∈ entries,
      ∃ v : Vertex I V E, v.Storable ∧ (v.form.id, v.form.blob) = entry := by
    intro entry hmem
    obtain ⟨record, hbody, hkey⟩ := hkeyed entry hmem
    obtain ⟨old, hdecode⟩ := hdecodes entry hmem
    obtain ⟨v, hv, hblob, _, _⟩ := Blob.of_decodeInto hdecode
    rw [hblob] at hbody
    have hid : v.id = entry.1 := id_eq_of_body hv.fits hbody hkey
    have hform : v.form.blob = entry.2 := hv.blob_form.trans hblob.symm
    exact ⟨v, hv, Prod.ext hid hform⟩
  choose! vertexOf hstorable hentry using hvertex
  have hentries : entries.map (fun e => ((vertexOf e).form.id, (vertexOf e).form.blob)) = entries :=
    (List.map_congr_left hentry).trans (List.map_id entries)
  refine ⟨entries.map fun e => (vertexOf e).form, ?_, ?_, ?_, ?_⟩
  · have hbytes := h.bytes
    rw [← hentries, List.length_map, List.flatMap_map] at hbytes
    rw [List.length_map, List.flatMap_map]
    exact hbytes
  · rw [List.length_map]
    exact h.few
  · intro f hmem
    obtain ⟨entry, hentry, rfl⟩ := List.mem_map.1 hmem
    exact (hstorable entry hentry).proper
  · have hkeys := h.keys
    rw [← hentries, List.map_map] at hkeys
    rw [List.map_map]
    exact hkeys

end Decoded

/-! ## Partitions

The two kinds differ in what they make of a blob. One decodes it and accepts the grammar; the other
keeps it and accepts what is framed, so that a blob without meaning is found out later. -/

namespace Partition

/-- The partition has these vertices and no others. -/
structure Keeps (p : Partition I V E) (id : PartitionId) (forms : List (VertexForm I V E)) :
    Prop where
  id : p.id = id
  ids : p.ids = forms.map VertexForm.id
  vertices : ∀ f ∈ forms, (p.get f.id).1.map (Option.map report) = .ok (some (f.id, f.data))

theorem readBytes_eq_ok_iff {p : Partition I V E} {bytes : Bytes} :
    (p.readBytes bytes).1 = .ok ()
      ↔ ∃ read, (readRecords (I := I) (V := V) (E := E) p.kind p.strategy bytes).1 = .ok read := by
  unfold readBytes
  cases readRecords (I := I) (V := V) (E := E) p.kind p.strategy bytes with
  | mk result staged =>
    cases result with
    | ok read => exact iff_of_true rfl ⟨read, rfl⟩
    | error e => exact iff_of_false (fun h => by cases h) (fun ⟨_, h⟩ => by cases h)

/-- A record is accepted if it decodes over a blank vertex. -/
theorem decodeRecord_eq_ok_iff {strategy : EdgeStrategy} {blob : Bytes} {v : Vertex I V E} :
    decodeRecord strategy blob = .ok v
      ↔ Blob.decodeInto (Vertex.blank strategy) blob = (.ok (), v) := by
  rw [decodeRecord]
  cases Blob.decodeInto (Vertex.blank strategy : Vertex I V E) blob with
  | mk outcome w =>
    cases outcome with
    | ok _ =>
      show (Except.ok w : Except Error (Vertex I V E)) = .ok v ↔ _
      simp
    | error e => exact iff_of_false (fun h => by cases h) (fun h => by cases h)

section Read

variable [LawfulId I]

/-- **A partition of blobs reads** what is framed, if the blobs have their keys in them. -/
theorem readBytes_byteArray_iff {p : Partition I V E} (hp : p.kind = .byteArray) {bytes : Bytes} :
    (p.readBytes bytes).1 = .ok ()
      ↔ ∃ id, ∃ entries : List (I × Bytes), Layout.Readable V bytes id entries := by
  rw [readBytes_eq_ok_iff, hp]
  constructor
  · rintro ⟨_, hread⟩
    obtain ⟨⟨id, table⟩, hread, _⟩ := map_eq_ok_iff.1 hread
    obtain ⟨found, hframed, hroom, haccepted, _⟩ := Layout.read_eq_ok_iff.1 hread
    refine ⟨id, found.map Prod.fst, hframed, ?_, ?_⟩
    · intro entry hmem
      obtain ⟨e, he, rfl⟩ := List.mem_map.1 hmem
      exact (haccepted e he).keyed
    · rw [List.length_map]
      exact hroom
  · rintro ⟨id, entries, h⟩
    have hmap : (entries.map fun entry => (entry, entry.2)).map Prod.fst = entries := by
      rw [List.map_map]
      exact List.map_id entries
    refine ⟨_, map_eq_ok_iff.2 ⟨(id, ⟨entries, h.keys⟩), Layout.read_eq_ok_iff.2
      ⟨entries.map fun entry => (entry, entry.2), ?_, ?_, ?_, ?_⟩, rfl⟩⟩
    · rw [hmap]
      exact h.toFramed
    · rw [hmap, List.length_map]
      exact h.room
    · intro e hmem
      obtain ⟨entry, hentry, rfl⟩ := List.mem_map.1 hmem
      exact ⟨h.keyed entry hentry, rfl⟩
    · rw [List.map_map]
      exact (List.map_id entries).symm

variable [LawfulCodec V] [LawfulCodec E]

/-- A partition keeps the forms if each of its records says what a form says. -/
theorem keeps_of_records {p : Partition I V E} {forms : List (VertexForm I V E)}
    (hids : p.records.ids = forms.map VertexForm.id)
    (hrecords : ∀ f ∈ forms, ∃ record, p.records.get? f.id = some record
      ∧ record.Holds f.id f.data) : p.Keeps p.id forms := by
  refine ⟨rfl, hids, fun f hf => ?_⟩
  obtain ⟨record, hget, hholds⟩ := hrecords f hf
  obtain ⟨w, hload, _, hid, hdata⟩ := hholds.load p.scratch
  rw [get_of_load hget hload]
  show Except.ok (some (w.id, w.data)) = _
  rw [hid, hdata]

/-- **The grammar is read** by partitions of either kind. -/
theorem readBytes_of_grammatical {bytes : Bytes} {id : PartitionId}
    {forms : List (VertexForm I V E)} (h : Grammatical bytes id forms) (p : Partition I V E) :
    (p.readBytes bytes).1 = .ok () ∧ (p.readBytes bytes).2.Keeps id forms := by
  have hstorable : ∀ v ∈ forms.map VertexForm.vertex, v.Storable := by
    intro v hmem
    obtain ⟨f, hf, rfl⟩ := List.mem_map.1 hmem
    exact (h.proper f hf).storable
  have hids : (forms.map VertexForm.vertex).map Vertex.id = forms.map VertexForm.id := by
    rw [List.map_map]
    rfl
  have hfew : (forms.map VertexForm.vertex).length < wordLimit := by
    rw [List.length_map]
    exact h.few
  obtain ⟨records, hread, -, hkeys, hrecords⟩ :=
    readBytes_packed hstorable hfew (hids ▸ h.keys) id p
  rw [h.eq_packed, hread]
  refine ⟨rfl, keeps_of_records (hkeys.trans hids) fun f hf => ?_⟩
  obtain ⟨record, hget, hholds, _⟩ := hrecords f.vertex (List.mem_map_of_mem hf)
  rw [(h.proper f hf).data_vertex] at hholds
  exact ⟨record, hget, hholds⟩

variable [LawfulRefill I] [LawfulRefill V]

/-- **A partition of vertices reads** the grammar, since every blob in it has to decode. -/
theorem readBytes_simple_iff {p : Partition I V E} (hp : p.kind = .simple) {bytes : Bytes} :
    (p.readBytes bytes).1 = .ok ()
      ↔ ∃ id, ∃ forms : List (VertexForm I V E), Grammatical bytes id forms := by
  constructor
  · rw [readBytes_eq_ok_iff, hp]
    rintro ⟨_, hread⟩
    obtain ⟨⟨id, table⟩, hread, _⟩ := map_eq_ok_iff.1 hread
    obtain ⟨found, hframed, _, haccepted, _⟩ := Layout.read_eq_ok_iff.1 hread
    refine ⟨id, hframed.grammatical ?_ ?_⟩
    · intro entry hmem
      obtain ⟨e, he, rfl⟩ := List.mem_map.1 hmem
      exact (haccepted e he).keyed
    · intro entry hmem
      obtain ⟨e, he, rfl⟩ := List.mem_map.1 hmem
      have hdecode := decodeRecord_eq_ok_iff.1 (haccepted e he).record
      exact ⟨_, congrArg Prod.fst hdecode⟩
  · rintro ⟨id, forms, h⟩
    exact (readBytes_of_grammatical h p).1

/-- **The grammar is what partitions of decoded vertices read.** Partitions of blobs read it too and
find the same vertices in it, and whatever else they read has a blob in it that does not decode,
over whichever vertex. -/
theorem readBytes_grammar (p q : Partition I V E) (hp : p.kind = .simple) (hq : q.kind = .byteArray)
    (bytes : Bytes) :
    ((p.readBytes bytes).1 = .ok ()
        ↔ ∃ id, ∃ forms : List (VertexForm I V E), Grammatical bytes id forms)
      ∧ (∀ id, ∀ forms : List (VertexForm I V E), Grammatical bytes id forms →
        (p.readBytes bytes).2.Keeps id forms
          ∧ (q.readBytes bytes).1 = .ok () ∧ (q.readBytes bytes).2.Keeps id forms)
      ∧ ((q.readBytes bytes).1 = .ok () → (p.readBytes bytes).1 ≠ .ok () →
        ∃ id, ∃ entries : List (I × Bytes), Layout.Readable V bytes id entries
          ∧ ∃ entry ∈ entries, ∀ old : Vertex I V E, (Blob.decodeInto old entry.2).1 ≠ .ok ()) := by
  refine ⟨readBytes_simple_iff hp, fun id forms h => ?_, fun hread hrefused => ?_⟩
  · exact ⟨(readBytes_of_grammatical h p).2, readBytes_of_grammatical h q⟩
  · obtain ⟨id, entries, h⟩ := (readBytes_byteArray_iff hq).1 hread
    refine ⟨id, entries, h, ?_⟩
    by_contra hall
    push Not at hall
    obtain ⟨forms, hforms⟩ := h.toFramed.grammatical h.keyed hall
    exact hrefused ((readBytes_simple_iff hp).2 ⟨id, forms, hforms⟩)

end Read

/-- Partition 7 with vertex 1, which has one edge and this byte for its flag. -/
def spelled (flag : UInt8) : Bytes :=
  [0, 0, 0, 7, 0, 0, 0, 1]
    ++ [0, 0, 0, 0, 0, 0, 0, 1] ++ [0, 0, 0, 41] ++ [0, 0, 0, 41]
    ++ [0, 0, 0, 0, 0, 0, 0, 1] ++ [0, 0, 0, 0, 0, 0, 0, 10]
    ++ [0, 0, 0, 1] ++ [0, 0, 0, 0, 0, 0, 0, 2] ++ [0, 0, 0, 0, 0, 0, 0, 3] ++ [flag]

/-- Any flag will do for a partition of blobs. -/
theorem readBytes_grammar_spelled :
    let p : Partition UInt64 UInt64 UInt64 := .new ⟨0⟩ ⟨1, .sorted, .simple⟩
    let q : Partition UInt64 UInt64 UInt64 := .new ⟨0⟩ ⟨1, .lazy, .byteArray⟩
    p.kind = .simple ∧ q.kind = .byteArray
      ∧ (p.readBytes (spelled 1)).1 = .ok ()
      ∧ (q.readBytes (spelled 1)).2.Keeps ⟨7⟩ [⟨1, 10, [(2, 3)], true⟩]
      ∧ (q.readBytes (spelled 2)).1 = .ok () ∧ (p.readBytes (spelled 2)).1 ≠ .ok ()
      ∧ ∃ id, ∃ entries : List (UInt64 × Bytes),
        Layout.Readable UInt64 (spelled 2) id entries ∧ ∃ entry ∈ entries,
          ∀ old : Vertex UInt64 UInt64 UInt64, (Blob.decodeInto old entry.2).1 ≠ .ok () := by
  intro p q
  have hgrammatical : Grammatical (spelled 1) ⟨7⟩
      [(⟨1, 10, [(2, 3)], true⟩ : VertexForm UInt64 UInt64 UInt64)] := by
    refine ⟨by decide +kernel, by decide, ?_, by decide⟩
    intro f hf
    rw [List.mem_singleton.1 hf]
    exact ⟨by decide, by decide +kernel⟩
  have hread : (q.readBytes (spelled 2)).1 = .ok () := by rfl
  have hrefused : (p.readBytes (spelled 2)).1 ≠ .ok () := by
    intro h
    have hok : (p.readBytes (spelled 2)).1.isOk = false := by decide +kernel
    rw [h] at hok
    cases hok
  obtain ⟨hiff, hkeeps, _⟩ := readBytes_grammar p q rfl rfl (spelled 1)
  obtain ⟨_, _, hblob⟩ := readBytes_grammar p q rfl rfl (spelled 2)
  refine ⟨rfl, rfl, hiff.2 ⟨_, _, hgrammatical⟩, (hkeeps _ _ hgrammatical).2.2, hread, hrefused, ?_⟩
  exact hblob hread hrefused

end Partition

end Superstep
