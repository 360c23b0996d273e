import Superstep.Partition.History
import Superstep.Proofs.Canonical
import Superstep.Proofs.EdgeCalls
import Superstep.Proofs.Records

/-!
# Superstep — which partitions there are

`Partition.Reached` says which partitions there are: those that come to be by the operations of a
partition and of its writers, failing ones included, with vertices whose edge containers came to be
by calls. Their records need not decode: a partition of blobs takes over what it reads as it is.

What can be said of every record is said once, for any property `P` of an id and its record
(`Records.Each`). A partition gets new records from two sources only, from what it reads and from
the vertices that it is given, so `P` holds throughout if it holds of those
(**`ReachedBy.each`**). Two properties are carried along this way:

* **`ReachedBy.filed`** — every record is filed under the id that it has in it, except that a blob
  may have been overwritten by a save that was refused;
* **`ReachedBy.sealed`** — there is no such blob if every vertex that was given fits.
-/

namespace Superstep

variable {I V E : Type} [VertexId I] [Value V] [Value E]

/-! ## Records that were left

A vertex that is given to a partition leaves a record, which is the vertex or its blob
(`Record.Stores`). There is one more that it can leave. When a vertex is written over the blob that
is there, the buffer is emptied and filled before its length is known, so a vertex that is too long
destroys the blob and does not become one (`Record.Spoiled`). -/

namespace Record

/-- The record is what storing `v` makes of it. -/
structure Stores (v : Vertex I V E) (r : Record I V E) : Prop where
  isOf : r.IsOf v
  fits : ∀ blob, r.toBlob = .ok blob → Blob.totalLen v.encode < wordLimit

/-- The record was a blob, and writing `v` over it was refused: it has all of `v`, which is too
long, and no length. -/
structure Spoiled (v : Vertex I V E) (r : Record I V E) : Prop where
  long : wordLimit ≤ Blob.totalLen v.encode
  eq_blob : r = .blob (Blob.unsealed v.encode)

/-- The record is what an operation with `v` leaves, refused ones included. -/
def Leaves (v : Vertex I V E) (r : Record I V E) : Prop := r.Stores v ∨ r.Spoiled v

/-- The record has this id in it, and what it keeps encoded can be read. -/
def Sealed (id : I) : Record I V E → Prop
  | blob bytes => ∃ record, Blob.body bytes = .ok record ∧ (Codec.decode.run record).1 = .ok id
  | vertex v => v.id = id ∧ v.edges.Kept

/-- The record is filed under its id, also when a refused save has spoiled it. -/
def Filed (id : I) (r : Record I V E) : Prop :=
  r.Sealed id ∨ ∃ v : Vertex I V E, v.id = id ∧ r.Spoiled v

/-- What was spoiled is too long for a blob. -/
theorem Spoiled.length_le {v : Vertex I V E} {bytes : Bytes}
    (h : (Record.blob bytes : Record I V E).Spoiled v) : wordLimit ≤ bytes.length := by
  cases h.eq_blob
  rw [Blob.length_unsealed]
  exact h.long

omit [Value V] in
/-- A sealed blob says its length in 32 bits. -/
theorem Sealed.length_lt {bytes : Bytes} {id : I}
    (h : (Record.blob bytes : Record I V E).Sealed id) : bytes.length < wordLimit := by
  obtain ⟨record, hbody, -⟩ := h
  obtain ⟨hfits, rfl⟩ := Blob.of_body hbody
  rw [Blob.length_framed]
  exact hfits

/-- A blob that is not too long was not spoiled. -/
theorem Filed.sealed {bytes : Bytes} {id : I} (h : (Record.blob bytes : Record I V E).Filed id)
    (hshort : bytes.length < wordLimit) : (Record.blob bytes : Record I V E).Sealed id := by
  refine h.resolve_right ?_
  rintro ⟨v, -, hspoiled⟩
  exact absurd hshort (Nat.not_lt.2 hspoiled.length_le)

/-- Only a blob can be spoiled. -/
theorem Filed.of_vertex {v : Vertex I V E} {id : I} (h : (Record.vertex v).Filed id) :
    v.id = id ∧ v.edges.Kept := by
  refine h.resolve_right ?_
  rintro ⟨w, -, hspoiled⟩
  cases hspoiled.eq_blob

section Stores

variable [LawfulId I] {v : Vertex I V E} {r : Record I V E}

/-- **A vertex that is stored is sealed** under its id. -/
theorem Stores.sealed (h : r.Stores v) (hv : v.edges.Kept) : r.Sealed v.id := by
  cases r with
  | blob bytes =>
    have hfits := h.fits bytes rfl
    obtain rfl : bytes = Blob.framed v.encode := h.isOf
    exact ⟨v.encode, Blob.body_framed hfits, Layout.run_id_encode hfits⟩
  | vertex w =>
    obtain rfl : w = v := h.isOf
    exact ⟨rfl, hv⟩

/-- **Whatever an operation leaves is filed**, be it refused. -/
theorem Leaves.filed (h : r.Leaves v) (hv : v.edges.Kept) : r.Filed v.id := by
  rcases h with hstores | hspoiled
  · exact .inl (hstores.sealed hv)
  · exact .inr ⟨v, rfl, hspoiled⟩

/-- A vertex that fits spoils nothing. -/
theorem Leaves.sealed (h : r.Leaves v) (hv : v.edges.Kept)
    (hfits : Blob.totalLen v.encode < wordLimit) : r.Sealed v.id :=
  (h.resolve_right fun hspoiled => absurd hfits (Nat.not_lt.2 hspoiled.long)).sealed hv

end Stores

end Record

/-! ## Every record

`Each P` says something of every record and the id it is filed under. An operation keeps it if
whatever the vertex of the operation leaves is as `P` says (`Accepts`): one record is put in the
place of one id, and the others stay. -/

namespace Records

def Each (P : I → Record I V E → Prop) (r : Records I V E) : Prop :=
  ∀ id record, r.get? id = some record → P id record

/-- Whatever `v` leaves is as `P` says. -/
def Accepts (P : I → Record I V E → Prop) (v : Vertex I V E) : Prop :=
  ∀ left, Record.Leaves v left → P v.id left

variable {P : I → Record I V E → Prop} {r r' other : Records I V E}

omit [Value V] [Value E] in
theorem each_empty (kind : PartitionKind) : (empty kind : Records I V E).Each P := by
  intro id record hget
  cases kind <;> cases hget

omit [Value V] [Value E] in
theorem Each.merge (h : r.Each P) (h' : other.Each P) (hmerge : r.merge other = .ok r') :
    r'.Each P := by
  intro id record hget
  rw [get?_merge hmerge, Option.or_eq_some_iff] at hget
  rcases hget with hget | ⟨_, hget⟩
  · exact h' id record hget
  · exact h id record hget

omit [Value V] [Value E] in
theorem Each.remove (h : r.Each P) (id : I) : (r.remove id).Each P := by
  intro id' record hget
  rw [get?_remove] at hget
  split at hget
  · cases hget
  · exact h id' record hget

omit [Value V] [Value E] in
theorem Each.replaced (h : r.Each P) {id : I} {left : Record I V E} (hleft : P id left)
    (hget : ∀ id', r'.get? id' = if id' = id then some left else r.get? id') : r'.Each P := by
  intro id' record hrecord
  rw [hget] at hrecord
  split at hrecord
  · next heq =>
    cases hrecord
    exact heq ▸ hleft
  · exact h id' record hrecord

/-- **Storing a vertex** puts one record in the place of its id. -/
theorem get?_put {v : Vertex I V E} (hput : r.put v = .ok r') : ∃ stored : Record I V E,
    stored.Stores v ∧ ∀ id, r'.get? id = if id = v.id then some stored else r.get? id := by
  cases r with
  | blobs table =>
    obtain ⟨blob, hblob, hr'⟩ := bind_eq_ok_iff.1 hput
    cases hr'
    obtain ⟨hfits, rfl⟩ := Blob.of_encode hblob
    refine ⟨.blob (Blob.framed v.encode), ⟨rfl, fun _ _ => hfits⟩, ?_⟩
    exact fun id => get?_blobs_insert table v.id id _
  | vertices table =>
    cases hput
    refine ⟨.vertex v, ⟨rfl, fun _ hblob => (Blob.of_encode hblob).1⟩, ?_⟩
    exact fun id => get?_vertices_insert table v.id id v

/-- **Writing a vertex back** puts one record in the place of its id, or is refused and does
nothing. -/
theorem get?_save (r : Records I V E) (v : Vertex I V E) : (r.save v).2 = r
    ∨ ∃ left : Record I V E, left.Leaves v
      ∧ ∀ id, (r.save v).2.get? id = if id = v.id then some left else r.get? id := by
  cases hput : r.put v with
  | ok r' =>
    rw [save_of_put hput]
    obtain ⟨stored, hstored, hget⟩ := get?_put hput
    exact .inr ⟨stored, .inl hstored, hget⟩
  | error e =>
    cases r with
    | vertices table => cases hput
    | blobs table =>
      -- only the length can be refused, and a blob that is there is overwritten then
      have hlong : wordLimit ≤ Blob.totalLen v.encode := by
        cases hblob : Blob.encode v with
        | ok blob =>
          rw [put, hblob] at hput
          cases hput
        | error e => exact Blob.long_of_encode hblob
      rw [save_of_long hlong]
      cases table.contains v.id with
      | false => exact .inl rfl
      | true => exact .inr ⟨_, .inr ⟨hlong, rfl⟩, fun id => get?_blobs_insert table v.id id _⟩

theorem Each.put (h : r.Each P) {v : Vertex I V E} (hv : Accepts P v) (hput : r.put v = .ok r') :
    r'.Each P := by
  obtain ⟨stored, hstored, hget⟩ := get?_put hput
  exact h.replaced (hv stored (.inl hstored)) hget

/-- A save that is refused leaves something as well, and this is what is accepted. -/
theorem Each.save (h : r.Each P) {v : Vertex I V E} (hv : Accepts P v) : (r.save v).2.Each P := by
  rcases r.get?_save v with hsame | ⟨left, hleft, hget⟩
  · rw [hsame]
    exact h
  · exact h.replaced (hv left hleft) hget

/-- **An edit** leaves a record of its vertex, removes one, or is refused and does nothing. -/
theorem Each.edit (h : r.Each P) {e : Edit I V E} (he : ∀ v ∈ (Call.edit e).stored?, Accepts P v) :
    (r.edit e).2.Each P := by
  cases e with
  | put v =>
    unfold Records.edit
    dsimp only
    split
    · next hput => exact h.put (he v rfl) hput
    · exact h
  | remove id => exact h.remove id
  | save v => exact h.save (he v rfl)

/-- And so do any edits, one after the other. -/
theorem Each.editAll (h : r.Each P) {edits : List (Edit I V E)}
    (hedits : ∀ e ∈ edits, ∀ v ∈ (Call.edit e).stored?, Accepts P v) :
    (r.editAll edits).Each P := by
  induction edits generalizing r with
  | nil => exact h
  | cons e edits ih =>
    have hfirst := h.edit (hedits e List.mem_cons_self)
    exact ih hfirst fun e he => hedits e (List.mem_cons_of_mem _ he)

def Filed (r : Records I V E) : Prop := r.Each fun id record => record.Filed id

def Sealed (r : Records I V E) : Prop := r.Each fun id record => record.Sealed id

end Records

/-! ## Operations

An operation of a partition puts a vertex into its records, takes one out, or leaves them. While a
partition is written, its writers make edits between any two entries. -/

omit [VertexId I] [Value V] [Value E] in
/-- What holds of all vertices that rounds of edits store holds of those of the first round. -/
theorem forall_headD {P : Vertex I V E → Prop} {rounds : List (List (Edit I V E))}
    (h : ∀ round ∈ rounds, ∀ e ∈ round, ∀ v ∈ (Call.edit e).stored?, P v) :
    ∀ e ∈ rounds.headD [], ∀ v ∈ (Call.edit e).stored?, P v := by
  cases rounds with
  | nil => exact fun e he => (by cases he)
  | cons round rounds => exact h round List.mem_cons_self

namespace Partition

variable {P : I → Record I V E → Prop} {p : Partition I V E}

/-- A record that is brought into the scratch vertex stays where it is. -/
theorem each_bring (h : p.records.Each P) (record : Option (Record I V E)) :
    (p.bring record).2.records.Each P := by
  cases record with
  | none => exact h
  | some record => exact h

/-- **A call** leaves what its vertex leaves. -/
theorem each_perform (h : p.records.Each P) {c : Call I V E}
    (hc : ∀ v ∈ c.stored?, Records.Accepts P v) : (p.perform c).2.records.Each P := by
  cases c with
  | put v =>
    show (p.put v).2.records.Each P
    unfold put
    split
    · exact h
    · next records hput =>
      exact each_bring (p := { p with records }) (h.put (hc v rfl) hput) _
  | remove id =>
    -- the vertex is taken out before its record is looked at
    exact each_bring (p := { p with records := p.records.remove id }) (h.remove id) _
  | save v => exact h.save (hc v rfl)
  | get id => exact each_bring h _
  | load id => exact each_bring h _
  | contains id => exact h
  | ids => exact h
  | size => exact h
  | edgeCount => exact h
  | edit e => exact h.edit hc

/-- Writers may edit the records behind each entry that is written. -/
theorem each_writeEntries {id : PartitionId} {keys : List I} {rounds : List (List (Edit I V E))}
    {records : Records I V E} (h : records.Each P)
    (hrounds : ∀ round ∈ rounds, ∀ e ∈ round, ∀ v ∈ (Call.edit e).stored?, Records.Accepts P v)
    (sink : Sink) : (writeEntries id keys rounds records sink).records.Each P := by
  induction keys generalizing rounds records sink with
  | nil => exact h
  | cons key keys ih =>
    unfold writeEntries
    split
    · exact h
    · split
      · exact h
      · exact ih (h.editAll (forall_headD hrounds)) (fun round hround => hrounds round
          (List.mem_of_mem_tail hround)) _

theorem each_writeAmid {rounds : List (List (Edit I V E))} (h : p.records.Each P)
    (hrounds : ∀ round ∈ rounds, ∀ e ∈ round, ∀ v ∈ (Call.edit e).stored?, Records.Accepts P v)
    (sink : Sink) : (p.writeAmid rounds sink).records.Each P := by
  unfold writeAmid
  dsimp only
  split
  · have hfirst := h.editAll (forall_headD hrounds)
    split
    · exact hfirst
    · exact each_writeEntries hfirst (fun round hround => hrounds round
        (List.mem_of_mem_tail hround)) _
  · exact h

end Partition

/-! ## Reading

The entries are staged one after another, and there is a result only if all of them were read. So
what holds of every entry that is accepted holds of every record of the result. -/

/-- What holds of every entry that is read, as it is accepted, holds of every record. -/
theorem Layout.of_entries {R : Type} {P : I → R → Prop} {id : PartitionId}
    {accept : Bytes → Except Error R}
    (hentry : ∀ {input rest : Bytes} {key : I} {blob : Bytes} {record : R},
      (entry I id).run input = (.ok (key, blob), rest) → accept blob = .ok record → P key record)
    {n : Nat} {staged table : Table I R} {input : Bytes}
    (hstaged : ∀ key record, staged.get? key = some record → P key record)
    (h : (entries id accept n staged input).1 = .ok table) :
    ∀ key record, table.get? key = some record → P key record := by
  induction n generalizing staged input with
  | zero =>
    have htable : staged = table := by
      unfold entries at h
      cases hend : ((located id (Decoder.finish "partition")).run input).1 with
      | error e =>
        rw [hend] at h
        cases h
      | ok _ =>
        rw [hend] at h
        cases h
        rfl
    exact htable ▸ hstaged
  | succ n ih =>
    unfold entries at h
    split at h
    · cases h
    · next key blob rest hread =>
      split at h
      · cases h
      · split at h
        · cases h
        · next record haccept =>
          -- the entry is staged, and the others are read behind it
          refine ih ?_ h
          intro key' record' hget
          rw [Table.get?_insert] at hget
          split at hget
          · next heq =>
            cases hget
            exact heq ▸ hentry hread haccept
          · exact hstaged key' record' hget

/-- **What is read** has records as each accepted entry has them. -/
theorem Layout.of_read {R : Type} {P : I → R → Prop} {accept : Bytes → Except Error R}
    (hentry : ∀ {id : PartitionId} {input rest : Bytes} {key : I} {blob : Bytes} {record : R},
      (entry I id).run input = (.ok (key, blob), rest) → accept blob = .ok record → P key record)
    {bytes : Bytes} {id : PartitionId} {table : Table I R}
    (h : (read I V accept bytes).1 = .ok (id, table)) :
    ∀ key record, table.get? key = some record → P key record := by
  unfold read at h
  split at h
  · cases h
  · next found count input _ =>
    dsimp only at h
    cases hentries : (entries found accept count (Table.empty (K := I)) input).1 with
    | error e =>
      rw [hentries] at h
      cases h
    | ok staged =>
      rw [hentries] at h
      cases h
      exact of_entries hentry (fun key record hget => by cases hget) hentries

/-- An entry that is read has its key in its blob. -/
theorem Layout.of_entry {id : PartitionId} {input rest blob : Bytes} {key : I}
    (h : (entry I id).run input = (.ok (key, blob), rest)) :
    ∃ record, Blob.body blob = .ok record ∧ (Codec.decode.run record).1 = .ok key := by
  obtain ⟨key', _, _, h⟩ := Decoder.run_bind_eq_ok.1 h
  obtain ⟨outer, _, _, h⟩ := Decoder.run_bind_eq_ok.1 h
  split at h
  · cases h
  · obtain ⟨blob', _, _, h⟩ := Decoder.run_bind_eq_ok.1 h
    obtain ⟨record, _, hbody, h⟩ := Decoder.run_bind_eq_ok.1 h
    obtain ⟨embedded, _, hembedded, h⟩ := Decoder.run_bind_eq_ok.1 h
    split at h
    · next heq =>
      obtain ⟨hentry, -⟩ := Decoder.run_pure_eq_ok.1 h
      cases hentry
      refine ⟨record, (Decoder.run_ofExcept_eq_ok.1 (of_run_located hbody)).1, ?_⟩
      rw [(Decoder.run_ofExcept_eq_ok.1 (of_run_located hembedded)).1, heq]
    · cases h

variable [LawfulId I] [LawfulCodec V] [LawfulCodec E] [LawfulRefill I] [LawfulRefill V]

/-- A vertex that was decoded has the id that stands in front of its record. -/
theorem Blob.id_of_decodeInto {old : Vertex I V E} {blob record : Bytes} {key : I}
    (h : (decodeInto old blob).1 = .ok ()) (hbody : body blob = .ok record)
    (hkey : (Codec.decode.run record).1 = .ok key) : (decodeInto old blob).2.id = key := by
  obtain ⟨v, hv, rfl, hid, -⟩ := of_decodeInto h
  exact hid.trans (Layout.id_eq_of_body hv.fits hbody hkey)

namespace Partition

/-- A vertex that was decoded is sealed under the id that stands in front of its record. -/
theorem sealed_decodeRecord {strategy : EdgeStrategy} {blob record : Bytes} {key : I}
    {v : Vertex I V E} (hbody : Blob.body blob = .ok record)
    (hkey : (Codec.decode.run record).1 = .ok key) (h : decodeRecord strategy blob = .ok v) :
    (Record.vertex v).Sealed key := by
  have hdecode : (Blob.decodeInto (Vertex.blank strategy : Vertex I V E) blob).1 = .ok ()
      ∧ (Blob.decodeInto (Vertex.blank strategy : Vertex I V E) blob).2 = v := by
    unfold decodeRecord at h
    generalize Blob.decodeInto (Vertex.blank strategy : Vertex I V E) blob = read at h ⊢
    obtain ⟨outcome, w⟩ := read
    cases outcome with
    | error e => cases h
    | ok _ => exact ⟨rfl, Except.ok.inj h⟩
  obtain ⟨hread, rfl⟩ := hdecode
  obtain ⟨-, -, -, -, hlawful⟩ := Blob.of_decodeInto hread
  exact ⟨Blob.id_of_decodeInto hread hbody hkey, hlawful.kept⟩

/-- **Whatever is read is sealed.** -/
theorem sealed_readRecords {kind : PartitionKind} {strategy : EdgeStrategy} {bytes : Bytes}
    {id : PartitionId} {records : Records I V E}
    (h : (readRecords kind strategy bytes).1 = .ok (id, records)) : records.Sealed := by
  intro key record hget
  unfold readRecords at h
  -- a blob is kept as it was read, and a vertex is what its blob decodes to
  cases kind with
  | byteArray =>
    dsimp only at h
    cases hread : (Layout.read I V (fun blob : Bytes => Except.ok blob) bytes).1 with
    | error e =>
      rw [hread] at h
      cases h
    | ok read =>
      rw [hread] at h
      cases h
      obtain ⟨blob, hblob, rfl⟩ := Option.map_eq_some_iff.1 hget
      refine Layout.of_read (P := fun key blob => (Record.blob blob : Record I V E).Sealed key)
        ?_ hread key blob hblob
      intro _ _ _ _ _ _ hentry haccept
      cases haccept
      exact Layout.of_entry hentry
  | simple =>
    dsimp only at h
    cases hread : (Layout.read I V (decodeRecord (I := I) (V := V) (E := E) strategy) bytes).1 with
    | error e =>
      rw [hread] at h
      cases h
    | ok read =>
      rw [hread] at h
      cases h
      obtain ⟨v, hv, rfl⟩ := Option.map_eq_some_iff.1 hget
      refine Layout.of_read (P := fun key v => (Record.vertex v : Record I V E).Sealed key)
        ?_ hread key v hv
      intro _ _ _ _ _ _ hentry haccept
      obtain ⟨record, hbody, hkey⟩ := Layout.of_entry hentry
      exact sealed_decodeRecord hbody hkey haccept

/-! ## All partitions

The vertices that a partition is given are up to its user, and the property says what is known of
them. Partitions that are merged in have come to be in the same way. -/

/-- The partitions that come to be when the vertices that are given are as `P` says. -/
inductive ReachedBy (P : Vertex I V E → Prop) : Partition I V E → Prop
  | new (id : PartitionId) (config : PartitionConfig) : ReachedBy P (.new id config)
  | observe {p : Partition I V E} (h : ReachedBy P p) : ReachedBy P p.observe
  | perform {p : Partition I V E} (h : ReachedBy P p) (c : Call I V E) (hc : ∀ v ∈ c.stored?, P v) :
    ReachedBy P (p.perform c).2
  | merge {p q : Partition I V E} (h : ReachedBy P p) (hq : ReachedBy P q) :
    ReachedBy P (p.merge q).2
  | readBytes {p : Partition I V E} (h : ReachedBy P p) (bytes : Bytes) :
    ReachedBy P (p.readBytes bytes).2
  | written {p : Partition I V E} (h : ReachedBy P p) {rounds : List (List (Edit I V E))}
    (hrounds : ∀ round ∈ rounds, ∀ e ∈ round, ∀ v ∈ (Call.edit e).stored?, P v)
    (sink : Sink) : ReachedBy P (p.afterWriting (p.writeAmid rounds sink))

abbrev Reached (p : Partition I V E) : Prop := p.ReachedBy fun v => v.edges.Arises

omit [LawfulId I] [LawfulCodec V] [LawfulCodec E] [LawfulRefill I] [LawfulRefill V] in
/-- The less is known of the vertices, the more partitions there are. -/
theorem ReachedBy.mono {P Q : Vertex I V E → Prop} {p : Partition I V E} (h : p.ReachedBy P)
    (hPQ : ∀ v, P v → Q v) : p.ReachedBy Q := by
  induction h with
  | new id config => exact .new id config
  | observe _ ih => exact ih.observe
  | perform _ c hc ih => exact ih.perform c fun v hv => hPQ v (hc v hv)
  | merge _ _ ih ihq => exact ih.merge ihq
  | readBytes _ bytes ih => exact ih.readBytes bytes
  | written _ hrounds sink ih =>
    exact ih.written (fun round hround e he v hv => hPQ v (hrounds round hround e he v hv)) sink

/-- **What holds of all that is read and of all that is left** holds of every record there is. -/
theorem ReachedBy.each {P : Vertex I V E → Prop} {Q : I → Record I V E → Prop}
    {p : Partition I V E} (h : p.ReachedBy P)
    (hread : ∀ id (record : Record I V E), record.Sealed id → Q id record)
    (hleft : ∀ v, P v → Records.Accepts Q v) : p.records.Each Q := by
  induction h with
  | new id config => exact Records.each_empty config.kind
  | observe _ ih => exact ih
  | perform _ c hc ih => exact each_perform ih fun v hv => hleft v (hc v hv)
  | merge _ _ ih ihq =>
    -- a merge that is refused leaves the partition as it was
    unfold Partition.merge
    split
    · next hmerge => exact ih.merge ihq hmerge
    · exact ih
  | readBytes _ bytes ih =>
    unfold Partition.readBytes
    dsimp only
    split
    · next hok =>
      exact fun id record hget => hread id record (sealed_readRecords hok id record hget)
    · exact ih
  | written _ hrounds sink ih =>
    exact each_writeAmid ih
      (fun round hround e he v hv => hleft v (hrounds round hround e he v hv)) sink

/-- **Every partition there is has filed its records.** -/
theorem ReachedBy.filed {p : Partition I V E} (h : p.Reached) : p.records.Filed :=
  h.each (fun _ _ hsealed => .inl hsealed) fun _ hv _ hleft => hleft.filed hv.kept

/-- **No record is spoiled** when every vertex that was given fits. -/
theorem ReachedBy.sealed {p : Partition I V E}
    (h : p.ReachedBy fun v => v.edges.Arises ∧ Blob.totalLen v.encode < wordLimit) :
    p.records.Sealed :=
  h.each (fun _ _ hsealed => hsealed) fun _ hv _ hleft => hleft.sealed hv.1.kept hv.2

end Partition

end Superstep
