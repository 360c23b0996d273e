import Superstep.Proofs.Grammar

/-!
# Superstep — a partition is written while writers change it

The ids are fixed when writing begins and the contents are not: each entry is made of the record
that its id has at its turn (`Records.after`). What is needed of the records is that every one of
them that fits a blob is the vertex of its key (`Record.Sound`), and edits keep that
(**`Records.Sound.after`**). A blob that a refused save has spoiled is too long, and stops the
writing (`Stopped.blobTooLong`). So what is written in the end is the layout of some vertices, one
for each id, although the partition need never have had all of them at once.

* **`Partition.entryNow_cases`** — an entry is made, or its record is absent or too long;
* **`Partition.writeEntries_amid`** — the entries that are written, and why there are no more;
* **`Partition.writeAmid_spec`** — the bytes, how they are read, and when writing fails.
-/

namespace Superstep

/-! ## Sinks

A sink takes all of a write or fails, and what it has taken stays. Its failures are its own, and no
other error has their form. -/

namespace Sink

variable {sink sink' : Sink} {bytes : Bytes}

/-- A write that succeeds adds its bytes. -/
theorem write_eq_ok (h : sink.write bytes = (.ok (), sink')) :
    sink'.written = sink.written ++ bytes := by
  unfold write at h
  split at h
  · cases h
    rfl
  · dsimp only at h
    split at h
    · cases h
      rfl
    · cases h

/-- A write fails for reasons of the sink. -/
theorem write_eq_error {e : Error} (h : sink.write bytes = (.error e, sink')) :
    ∃ text, e = .io text := by
  unfold write at h
  split at h
  · cases h
  · dsimp only at h
    split at h
    · cases h
    · cases h
      exact ⟨_, rfl⟩

theorem flush_eq_error {e : Error} (h : sink.flush = .error e) : ∃ text, e = .io text := by
  unfold flush at h
  split at h
  · cases h
    exact ⟨_, rfl⟩
  · cases h

end Sink

variable {I V E : Type} [VertexId I] [Value V] [Value E]

namespace Partition

/-- And so do several. -/
theorem writePieces_eq_ok {sink sink' : Sink} {pieces : List Bytes}
    (h : writePieces sink pieces = (.ok (), sink')) :
    sink'.written = sink.written ++ pieces.flatten := by
  induction pieces generalizing sink with
  | nil =>
    cases h
    exact (List.append_nil _).symm
  | cons piece pieces ih =>
    rw [writePieces] at h
    split at h
    · cases h
    · next hwrite =>
      rw [ih h, Sink.write_eq_ok hwrite, List.append_assoc, List.flatten_cons]

/-- Several writes fail for reasons of the sink. -/
theorem writePieces_eq_error {sink sink' : Sink} {pieces : List Bytes} {e : Error}
    (h : writePieces sink pieces = (.error e, sink')) : ∃ text, e = .io text := by
  induction pieces generalizing sink with
  | nil => cases h
  | cons piece pieces ih =>
    rw [writePieces] at h
    split at h
    · next hwrite =>
      cases h
      exact Sink.write_eq_error hwrite
    · exact ih h

end Partition

/-! ## Records that change

A record that is soundly filed is a vertex of its id, unless it is a blob that is too long to be
written. An edit leaves another such record or none. -/

/-- The record is `v`, in writing and to lookups. -/
structure Record.StandsFor (v : Vertex I V E) (r : Record I V E) : Prop where
  storable : v.Storable
  toBlob : r.toBlob = .ok (Blob.framed v.encode)
  load : ∀ scratch, ∃ w, r.load scratch = (.ok (), w) ∧ Partition.report w = Partition.report v

/-- The record is the vertex with this id, unless it is too long for a blob. -/
def Record.Sound (id : I) (r : Record I V E) : Prop :=
  ∀ blob, r.toBlob = .ok blob → blob.length < wordLimit →
    ∃ v : Vertex I V E, v.id = id ∧ r.StandsFor v

/-- A record that has no blob is too long for one. -/
theorem Record.of_toBlob_eq_error {r : Record I V E} {e : Error} (h : r.toBlob = .error e) :
    ∃ len, e = .invalidArgument (.recordTooLong len) := by
  cases r with
  | blob bytes => cases h
  | vertex v =>
    unfold toBlob Blob.encode at h
    dsimp only at h
    split at h
    · cases h
    · cases h
      exact ⟨_, rfl⟩

/-- Only what is kept as a blob can be a blob that is too long. -/
theorem Record.eq_blob_of_long {r : Record I V E} {blob : Bytes} (h : r.toBlob = .ok blob)
    (hlong : wordLimit ≤ blob.length) : r = .blob blob := by
  cases r with
  | blob bytes => exact congrArg Record.blob (Except.ok.inj h)
  | vertex v =>
    obtain ⟨hfits, rfl⟩ := Blob.of_encode h
    rw [Blob.length_framed] at hlong
    exact absurd hfits (Nat.not_lt.2 hlong)

namespace Records

/-- Every record that fits a blob is the vertex of its key. -/
def Sound (r : Records I V E) : Prop := r.Each fun id record => record.Sound id

/-- The records behind the first `n` rounds of edits. -/
def after (r : Records I V E) (rounds : List (List (Edit I V E))) (n : Nat) : Records I V E :=
  r.editAll (rounds.take n).flatten

/-- The edits of the first round come first. -/
theorem after_succ (r : Records I V E) (rounds : List (List (Edit I V E))) (n : Nat) :
    r.after rounds (n + 1) = (r.editAll (rounds.headD [])).after rounds.tail n := by
  cases rounds with
  | nil => simp [after, editAll]
  | cons round rounds => simp [after, editAll]

end Records

section Sound

variable [LawfulId I] [LawfulCodec V] [LawfulCodec E]

theorem Record.Stores.sound {v : Vertex I V E} {r : Record I V E} (h : r.Stores v)
    (hv : v.edges.Lawful) : r.Sound v.id := by
  intro blob hblob _
  have hstorable : v.Storable := ⟨hv, h.fits blob hblob⟩
  have hholds : r.Holds v.id v.data := ⟨v, h.isOf, hstorable, rfl, rfl⟩
  refine ⟨v, rfl, hstorable, h.isOf.toBlob hstorable, fun scratch => ?_⟩
  obtain ⟨w, hload, -, hid, hdata⟩ := hholds.load scratch
  exact ⟨w, hload, Prod.ext hid hdata⟩

/-- What a refused save has spoiled is too long. -/
theorem Record.Leaves.sound {v : Vertex I V E} {r : Record I V E} (h : r.Leaves v)
    (hv : v.edges.Lawful) : r.Sound v.id := by
  rcases h with hstores | hspoiled
  · exact hstores.sound hv
  · obtain rfl := hspoiled.eq_blob
    rintro _ ⟨⟩ hshort
    exact absurd hshort (Nat.not_lt.2 hspoiled.length_le)

/-- **Edits keep records sound**, those that are refused included. -/
theorem Records.Sound.editAll {r : Records I V E} (h : r.Sound) {edits : List (Edit I V E)}
    (hedits : ∀ e ∈ edits, ∀ v ∈ (Call.edit e).stored?, v.edges.Lawful) :
    (r.editAll edits).Sound :=
  Each.editAll h fun e he v hv _ hleft => hleft.sound (hedits e he v hv)

end Sound

/-! ## Entries

An entry is made of what its id has at its turn. Why there is no next one is known from the records
of that turn, so the reasons are stated with them. -/

/-- The layout of some vertices is a partition with their blobs. -/
theorem Layout.framed_packed {id : PartitionId} {vertices : List (Vertex I V E)}
    (h : ∀ v ∈ vertices, v.Storable) (hfew : vertices.length < wordLimit)
    (hnodup : (vertices.map Vertex.id).Nodup) :
    Framed (packed id vertices) id (vertices.map fun v => (v.id, Blob.framed v.encode)) := by
  have hentry : ∀ v : Vertex I V E, packedEntry v = entryBytes (v.id, Blob.framed v.encode) := by
    intro v
    simp [packedEntry, entryPieces, entryBytes]
  refine ⟨?_, by rwa [List.length_map], ?_, ?_⟩
  · rw [packed, List.length_map, List.flatMap_map, List.flatMap_congr fun v _ => hentry v]
    simp [header]
  · intro entry hmem
    obtain ⟨v, hv, rfl⟩ := List.mem_map.1 hmem
    show (Blob.framed v.encode).length < wordLimit
    rw [Blob.length_framed]
    exact (h v hv).fits
  · rw [List.map_map]
    exact hnodup

namespace Partition

/-- The vertices that were written in turn: one for each of the first ids, and each of them is the
record that its id had at its turn. -/
structure Entered (ids : List I) (turn : Nat → Records I V E) (vertices : List (Vertex I V E)) :
    Prop where
  ids : vertices.map Vertex.id <+: ids
  stored : ∀ (i : Nat) (v : Vertex I V E), vertices[i]? = some v →
    ∃ record, (turn i).get? v.id = some record ∧ record.StandsFor v

/-- Why writing came to its end with an error at turn `n`. -/
inductive Stopped (id : PartitionId) (ids : List I) (now : Records I V E) (n : Nat) : Error → Prop
  | sink (text : String) : Stopped id ids now n (.io text)
  /-- The vertex whose turn it is does not fit a blob. -/
  | tooLong {key : I} {record : Record I V E} {len : Nat} (hkey : ids[n]? = some key)
    (hget : now.get? key = some record)
    (hlong : record.toBlob = .error (.invalidArgument (.recordTooLong len))) :
    Stopped id ids now n (.invalidArgument (.recordTooLong len))
  /-- The blob whose turn it is has been overwritten by a vertex that does not fit. -/
  | blobTooLong {key : I} {blob : Bytes} (hkey : ids[n]? = some key)
    (hget : now.get? key = some (.blob blob)) (hlong : wordLimit ≤ blob.length) :
    Stopped id ids now n (.invalidArgument (.blobTooLong blob.length))
  /-- The vertex whose turn it is has been removed. -/
  | removed {key : I} (hkey : ids[n]? = some key) (hget : now.get? key = none) :
    Stopped id ids now n (.invalidArgument (.removedWhileWriting id (VertexId.text key)))

/-- How far writing came behind the bytes `before`: the vertices that were written, and why there
are no more of them. A sink that does not fail has all of them. -/
structure Progress (id : PartitionId) (ids : List I) (turn : Nat → Records I V E) (before : Bytes)
    (written : Written I V E) (vertices : List (Vertex I V E)) : Prop where
  signals : vertices.length = written.signals
  entered : Entered ids turn vertices
  all : written.outcome = .ok () → vertices.length = ids.length
  stopped : ∀ e, written.outcome = .error e →
    Stopped id ids (turn written.signals) written.signals e
  sink : (∀ text, written.outcome ≠ .error (.io text)) →
    written.sink.written = before ++ vertices.flatMap Layout.packedEntry

/-- `q` has the vertices of `p`, each as it was at its turn. -/
structure RestoredInTurn (p : Partition I V E) (turn : Nat → Records I V E) (q : Partition I V E) :
    Prop where
  id : q.id = p.id
  ids : q.ids.Perm p.ids
  vertices : ∀ (i : Nat) (key : I), p.ids[i]? = some key → ∃ said,
    (({ p with records := turn i } : Partition I V E).get key).1.map (Option.map report)
        = .ok (some said)
      ∧ (q.get key).1.map (Option.map report) = .ok (some said)

theorem Entered.nil {ids : List I} {turn : Nat → Records I V E} : Entered ids turn [] :=
  ⟨List.nil_prefix, fun _ _ h => by cases h⟩

theorem Entered.cons {ids : List I} {turn : Nat → Records I V E} {v : Vertex I V E}
    {vertices : List (Vertex I V E)} (h : Entered ids (fun i => turn (i + 1)) vertices)
    {record : Record I V E} (hget : (turn 0).get? v.id = some record) (hv : record.StandsFor v) :
    Entered (v.id :: ids) turn (v :: vertices) := by
  refine ⟨(List.prefix_cons_inj v.id).2 h.ids, fun i w hw => ?_⟩
  cases i with
  | zero =>
    cases hw
    exact ⟨record, hget, hv⟩
  | succ i => exact h.stored i w hw

/-- When all ids had their turn, the vertices have the ids. -/
theorem Entered.ids_eq {ids : List I} {turn : Nat → Records I V E} {vertices : List (Vertex I V E)}
    (h : Entered ids turn vertices) (hall : vertices.length = ids.length) :
    vertices.map Vertex.id = ids :=
  h.ids.eq_of_length (by rw [List.length_map, hall])

theorem Entered.storable {ids : List I} {turn : Nat → Records I V E}
    {vertices : List (Vertex I V E)} (h : Entered ids turn vertices) :
    ∀ v ∈ vertices, v.Storable := by
  intro v hv
  obtain ⟨i, hi⟩ := List.mem_iff_getElem?.1 hv
  obtain ⟨record, -, hstands⟩ := h.stored i v hi
  exact hstands.storable

theorem Stopped.cons {id : PartitionId} {ids : List I} {now : Records I V E} {n : Nat} {e : Error}
    (h : Stopped id ids now n e) (key : I) : Stopped id (key :: ids) now (n + 1) e := by
  cases h with
  | sink text => exact .sink text
  | tooLong hkey hget hlong => exact .tooLong hkey hget hlong
  | blobTooLong hkey hget hlong => exact .blobTooLong hkey hget hlong
  | removed hkey hget => exact .removed hkey hget

/-- **An entry is made**, unless its record is absent or too long. -/
theorem entryNow_cases {records : Records I V E} (h : records.Sound) (id : PartitionId) (key : I)
    (keys : List I) :
    (∃ record, ∃ v : Vertex I V E, records.get? key = some record ∧ v.id = key
      ∧ record.StandsFor v
      ∧ entryNow id records key = .ok (Layout.entryPieces key (Blob.framed v.encode)))
    ∨ ∃ e, entryNow id records key = .error e ∧ Stopped id (key :: keys) records 0 e := by
  cases hget : records.get? key with
  | none =>
    right
    refine ⟨_, ?_, .removed rfl hget⟩
    simp only [entryNow, hget]
    rfl
  | some record =>
    cases hblob : record.toBlob with
    | error e =>
      -- the vertex of a record can be too long, and so can a blob that a refused save left
      obtain ⟨len, rfl⟩ := Record.of_toBlob_eq_error hblob
      right
      refine ⟨_, ?_, .tooLong rfl hget hblob⟩
      simp only [entryNow, hget, hblob]
      rfl
    | ok blob =>
      by_cases hshort : blob.length < wordLimit
      · obtain ⟨v, rfl, hv⟩ := h key record hget blob hblob hshort
        left
        exact ⟨record, v, rfl, rfl, hv, entryNow_eq hget hv.toBlob hv.storable.fits id⟩
      · obtain rfl := Record.eq_blob_of_long hblob (Nat.not_lt.1 hshort)
        right
        refine ⟨_, ?_, .blobTooLong rfl hget (Nat.not_lt.1 hshort)⟩
        simp only [entryNow, hget, Record.toBlob]
        exact if_neg hshort

/-- Nothing was written, for this reason. -/
theorem Progress.of_error {id : PartitionId} {ids : List I} {turn : Nat → Records I V E}
    {before : Bytes} {e : Error} {records : Records I V E} {sink : Sink}
    (hstop : Stopped id ids (turn 0) 0 e)
    (hsink : (∀ text, e ≠ .io text) → sink.written = before) :
    Progress id ids turn before ⟨.error e, records, sink, 0⟩ [] := by
  refine ⟨rfl, .nil, fun hok => (by cases hok), ?_, fun hno => ?_⟩
  · rintro e ⟨⟩
    exact hstop
  · rw [hsink fun text heq => hno text (by rw [heq]), List.flatMap_nil, List.append_nil]

section Writing

variable [LawfulId I] [LawfulCodec V] [LawfulCodec E]

/-- **The entries that are written**, each made of the records as they are at its turn. -/
theorem writeEntries_amid {id : PartitionId} {keys : List I} {rounds : List (List (Edit I V E))}
    {records : Records I V E} (h : records.Sound)
    (hrounds : ∀ round ∈ rounds, ∀ e ∈ round, ∀ v ∈ (Call.edit e).stored?, v.edges.Lawful)
    (sink : Sink) : ∃ vertices, Progress id keys (records.after rounds) sink.written
      (writeEntries id keys rounds records sink) vertices := by
  -- on the ids that are left, with the edits that are still to come and the records as they are
  induction keys generalizing rounds records sink with
  | nil =>
    refine ⟨[], rfl, .nil, fun _ => rfl, fun e herror => ?_, fun _ => (List.append_nil _).symm⟩
    obtain ⟨text, rfl⟩ := Sink.flush_eq_error herror
    exact .sink text
  | cons key keys ih =>
    unfold writeEntries
    rcases entryNow_cases h id key keys with ⟨record, v, hget, rfl, hv, hentry⟩ | ⟨e, hentry, hstop⟩
    · rw [hentry]
      dsimp only
      cases hpieces : writePieces sink (Layout.entryPieces v.id (Blob.framed v.encode)) with
      | mk outcome sink' =>
        cases outcome with
        | error e =>
          obtain ⟨text, rfl⟩ := writePieces_eq_error hpieces
          exact ⟨[], .of_error (.sink text) fun hno => absurd rfl (hno text)⟩
        | ok _ =>
          -- the others are written behind this one, when its round of edits has been made
          have hnext := h.editAll (forall_headD hrounds)
          obtain ⟨vertices, hlater⟩ :=
            ih hnext (fun round hround => hrounds round (List.mem_of_mem_tail hround)) sink'
          refine ⟨v :: vertices, congrArg (· + 1) hlater.signals, ?_, ?_, ?_, ?_⟩
          · refine Entered.cons ?_ hget hv
            simpa only [Records.after_succ] using hlater.entered
          · exact fun hok => congrArg (· + 1) (hlater.all hok)
          · intro e herror
            dsimp only
            rw [Records.after_succ]
            exact (hlater.stopped e herror).cons v.id
          · intro hno
            dsimp only
            rw [hlater.sink hno, writePieces_eq_ok hpieces, List.flatMap_cons, List.append_assoc]
            rfl
    · rw [hentry]
      exact ⟨[], .of_error hstop fun _ => rfl⟩

/-- **The header and the entries**, if the entries can be counted. -/
theorem writeAmid_of_few {p : Partition I V E} (h : p.records.Sound)
    {rounds : List (List (Edit I V E))}
    (hrounds : ∀ round ∈ rounds, ∀ e ∈ round, ∀ v ∈ (Call.edit e).stored?, v.edges.Lawful)
    (hfew : p.size < wordLimit) (sink : Sink) :
    ∃ vertices, Progress p.id p.ids (fun i => p.records.after rounds (i + 1))
      (sink.written ++ (Layout.header p.id p.size).flatten) (p.writeAmid rounds sink) vertices := by
  have hlength : p.ids.length = p.size := p.records.length_ids
  have hfirst := h.editAll (forall_headD hrounds)
  simp only [Records.after_succ]
  unfold writeAmid
  dsimp only
  rw [hlength, if_pos hfew]
  cases hheader : writePieces sink (Layout.header p.id p.size) with
  | mk outcome sink' =>
    cases outcome with
    | error e =>
      obtain ⟨text, rfl⟩ := writePieces_eq_error hheader
      exact ⟨[], .of_error (.sink text) fun hno => absurd rfl (hno text)⟩
    | ok _ =>
      rw [← writePieces_eq_ok hheader]
      exact writeEntries_amid hfirst (fun round hround => hrounds round
        (List.mem_of_mem_tail hround)) sink'

/-- **What was written in turn is read** as the vertices of each turn, by partitions of either
kind. -/
theorem restoredInTurn_of_entered {p : Partition I V E} {turn : Nat → Records I V E}
    {vertices : List (Vertex I V E)} (h : Entered p.ids turn vertices)
    (hall : vertices.length = p.ids.length) (hfew : p.size < wordLimit) (q : Partition I V E) :
    (q.readBytes (Layout.packed p.id vertices)).1 = .ok ()
      ∧ RestoredInTurn p turn (q.readBytes (Layout.packed p.id vertices)).2 := by
  have hids := h.ids_eq hall
  have hcount : vertices.length < wordLimit := by
    rw [hall, ids, Records.length_ids]
    exact hfew
  have hnodup : (vertices.map Vertex.id).Nodup := hids ▸ p.records.nodup_ids
  obtain ⟨records, hread, -, hkeys, hrecords⟩ :=
    readBytes_packed h.storable hcount hnodup p.id q
  rw [hread]
  refine ⟨rfl, rfl, .of_eq (hkeys.trans hids), fun i key hkey => ?_⟩
  obtain ⟨v, hv, rfl⟩ : ∃ v, vertices[i]? = some v ∧ v.id = key := by
    rw [← hids, List.getElem?_map] at hkey
    exact Option.map_eq_some_iff.1 hkey
  -- the record of the turn and the one that was read are both this vertex
  obtain ⟨record, hget, hstands⟩ := h.stored i v hv
  obtain ⟨w, hload, hreport⟩ := hstands.load p.scratch
  obtain ⟨record', hget', hholds, -⟩ := hrecords v (List.mem_of_getElem? hv)
  obtain ⟨w', hload', -, hid, hdata⟩ := hholds.load q.scratch
  refine ⟨report v, ?_, ?_⟩
  · rw [get_of_load (p := { p with records := turn i }) hget hload]
    exact congrArg (fun said => Except.ok (some said)) hreport
  · rw [get_of_load (p := { q with id := p.id, records, signals := q.signals + vertices.length })
      hget' hload']
    exact congrArg (fun said => Except.ok (some said)) (Prod.ext hid hdata)

end Writing

/-- More vertices than the 32-bit count can say are refused before anything is written. -/
theorem writeAmid_of_many {p : Partition I V E} (hmany : ¬ p.size < wordLimit)
    (rounds : List (List (Edit I V E))) (sink : Sink) : p.writeAmid rounds sink
      = ⟨.error (.invalidArgument (.tooManyEntries p.id)), p.records, sink, 0⟩ := by
  have hlength : p.ids.length = p.size := p.records.length_ids
  unfold writeAmid
  dsimp only
  rw [hlength, if_neg hmany]

variable [LawfulId I] [LawfulCodec V] [LawfulCodec E] [LawfulRefill I] [LawfulRefill V]

/-- Records of which all decode that fit a blob are sound. -/
theorem Reached.sound {p : Partition I V E} (hp : p.Reached)
    (hdecodes : ∀ record ∈ p.records.toList, ∀ blob, record.toBlob = .ok blob →
      blob.length < wordLimit → record.Decodes) :
    p.records.Sound := by
  intro id record hget blob hblob hshort
  have hmem : record ∈ p.records.toList := Records.mem_toList_of_get? hget
  obtain ⟨v, hv, hid, htoBlob, hload⟩ :=
    (hdecodes record hmem blob hblob hshort).spec (hp.filed id record hget)
  exact ⟨v, hid, hv, htoBlob, hload⟩

/-- **A partition is written while writers change it.** Rounds of edits are made between the listing
of the ids and the first entry, and behind every entry. If writing succeeds, then the bytes are
those of a partition with exactly the listed ids, each with the vertex that it had at its turn, and
partitions of either kind read them. If it fails, then the sink failed, or there was something that
does not fit its length field, or the id whose turn it was had been removed; and then the entries
in front of it were written, and as many were signalled. Unless something failed to fit, or the sink
did, writing fails just if some id is absent at its turn. -/
theorem writeAmid_spec {p : Partition I V E} (hp : p.Reached)
    (hdecodes : ∀ record ∈ p.records.toList, ∀ blob, record.toBlob = .ok blob →
      blob.length < wordLimit → record.Decodes)
    {rounds : List (List (Edit I V E))}
    (hrounds : ∀ round ∈ rounds, ∀ e ∈ round, ∀ v ∈ (Call.edit e).stored?, v.Reached)
    (sink : Sink) :
    let written := p.writeAmid rounds sink
    let turn := fun i => p.records.after rounds (i + 1)
    (written.outcome = .ok () → written.signals = p.size ∧ ∃ vertices : List (Vertex I V E),
      let bytes := Layout.packed p.id vertices
      written.sink.written = sink.written ++ bytes
        ∧ Layout.Framed bytes p.id (vertices.map fun v => (v.id, Blob.framed v.encode))
        ∧ vertices.map Vertex.id = p.ids ∧ Entered p.ids turn vertices
        ∧ ∀ q : Partition I V E, (q.readBytes bytes).1 = .ok ()
          ∧ RestoredInTurn p turn (q.readBytes bytes).2)
    ∧ (∀ e, written.outcome = .error e →
      (¬ p.size < wordLimit ∧ e = .invalidArgument (.tooManyEntries p.id) ∧ written.sink = sink)
        ∨ (Stopped p.id p.ids (turn written.signals) written.signals e
          ∧ ((∀ text, e ≠ .io text) → ∃ vertices : List (Vertex I V E),
            vertices.length = written.signals ∧ Entered p.ids turn vertices
              ∧ written.sink.written = sink.written ++ (Layout.header p.id p.size).flatten
                ++ vertices.flatMap Layout.packedEntry)))
    ∧ ((∀ text, written.outcome ≠ .error (.io text)) →
      (∀ len, written.outcome ≠ .error (.invalidArgument (.recordTooLong len))) →
      (∀ len, written.outcome ≠ .error (.invalidArgument (.blobTooLong len))) →
      p.size < wordLimit → ((∃ e, written.outcome = .error e)
        ↔ ∃ (i : Nat) (key : I), p.ids[i]? = some key ∧ (turn i).get? key = none)) := by
  intro written turn
  have hlength : p.ids.length = p.size := p.records.length_ids
  by_cases hfew : p.size < wordLimit
  · obtain ⟨vertices, h⟩ := writeAmid_of_few (hp.sound hdecodes)
      (fun round hround e he v hv => (hrounds round hround e he v hv).lawful) hfew sink
    refine ⟨fun hok => ?_, fun e herror => .inr ⟨h.stopped e herror, fun hno => ?_⟩,
      fun hsink hfits hsealed _ => ⟨?_, ?_⟩⟩
    · have hids := h.entered.ids_eq (h.all hok)
      have hcount : vertices.length = p.size := (h.all hok).trans hlength
      have hwritten := h.sink fun text heq => by rw [hok] at heq; cases heq
      refine ⟨h.signals.symm.trans hcount, vertices, ?_, ?_, hids, h.entered, ?_⟩
      · rw [hwritten, Layout.packed, hcount, List.append_assoc]
      · exact Layout.framed_packed h.entered.storable (hcount ▸ hfew) (hids ▸ p.records.nodup_ids)
      · exact fun q => restoredInTurn_of_entered h.entered (h.all hok) hfew q
    · refine ⟨vertices, h.signals, h.entered, h.sink fun text heq => ?_⟩
      exact hno text (Except.error.inj (herror.symm.trans heq))
    · rintro ⟨e, herror⟩
      cases h.stopped e herror with
      | sink text => exact absurd herror (hsink text)
      | tooLong _ _ _ => exact absurd herror (hfits _)
      | blobTooLong _ _ _ => exact absurd herror (hsealed _)
      | removed hkey hget => exact ⟨_, _, hkey, hget⟩
    · rintro ⟨i, key, hkey, hget⟩
      refine exists_error_of_ne_ok fun _ hok => ?_
      -- every id was present when its entry was written
      have hids := h.entered.ids_eq (h.all hok)
      rw [← hids, List.getElem?_map] at hkey
      obtain ⟨v, hv, rfl⟩ := Option.map_eq_some_iff.1 hkey
      obtain ⟨record, hpresent, -⟩ := h.entered.stored i v hv
      rw [hget] at hpresent
      cases hpresent
  · have hmany := writeAmid_of_many hfew rounds sink
    have houtcome : written.outcome = .error (.invalidArgument (.tooManyEntries p.id)) :=
      congrArg Written.outcome hmany
    refine ⟨fun hok => ?_, fun e herror => .inl ⟨hfew, ?_, congrArg Written.sink hmany⟩,
      fun _ _ _ h => absurd h hfew⟩
    · rw [houtcome] at hok
      cases hok
    · rw [houtcome] at herror
      exact (Except.error.inj herror).symm

/-- Vertex 2 is removed in front of the first entry and is back at its turn; vertex 1 goes when it
has been written. -/
def swaps : List (List (Edit UInt64 UInt64 UInt64)) :=
  [[.put (.new 9 90 .hashed), .remove 2], [.remove 1, .put (.new 2 21 .lazy)]]

theorem reached_swaps : ∀ round ∈ swaps, ∀ e ∈ round, ∀ v ∈ (Call.edit e).stored?, v.Reached := by
  intro round hround e he v hv
  rcases List.mem_pair.1 hround with rfl | rfl
  · rcases List.mem_pair.1 he with rfl | rfl
    · cases hv
      exact .new _ _ _
    · cases hv
  · rcases List.mem_pair.1 he with rfl | rfl
    · cases hv
    · cases hv
      exact .new _ _ _

theorem writeAmid_spec_swaps :
    let written := checkpointed.writeAmid swaps .unlimited
    let early := checkpointed.writeAmid (swaps.take 1) .unlimited
    checkpointed.Reached
      ∧ (∀ record ∈ checkpointed.records.toList, ∀ blob, record.toBlob = .ok blob →
        blob.length < wordLimit → record.Decodes)
      ∧ (∀ round ∈ swaps, ∀ e ∈ round, ∀ v ∈ (Call.edit e).stored?, v.Reached)
      ∧ written.outcome = .ok () ∧ written.signals = 2
      ∧ (∀ q : Partition UInt64 UInt64 UInt64, let read := q.readBytes written.sink.written
        read.1 = .ok () ∧ read.2.id = ⟨3⟩ ∧ read.2.ids.Perm [1, 2]
          ∧ (read.2.get 1).1.map (Option.map report)
            = .ok (some (1, ⟨10, mapping [(2, 3), (3, 4)], false⟩))
          ∧ (read.2.get 2).1.map (Option.map report) = .ok (some (2, ⟨21, mapping [], false⟩)))
      ∧ early.outcome = .error (.invalidArgument (.removedWhileWriting ⟨3⟩ "2"))
      ∧ early.signals = 1
      ∧ (∃ (i : Nat) (key : UInt64), checkpointed.ids[i]? = some key
        ∧ (checkpointed.records.after (swaps.take 1) (i + 1)).get? key = none)
      ∧ ∃ vertices : List (Vertex UInt64 UInt64 UInt64), vertices.map Vertex.id <+: [1, 2]
        ∧ early.sink.written = [0, 0, 0, 3, 0, 0, 0, 2] ++ vertices.flatMap Layout.packedEntry := by
  intro written early
  have hdecodes : ∀ record ∈ checkpointed.records.toList, ∀ blob, record.toBlob = .ok blob →
      blob.length < wordLimit → record.Decodes :=
    fun record hmem _ _ _ => decodes_checkpointed record hmem
  have hok : written.outcome = .ok () := by rfl
  have hearly : early.outcome = .error (.invalidArgument (.removedWhileWriting ⟨3⟩ "2")) := by rfl
  obtain ⟨hwritten, -, -⟩ := writeAmid_spec reached_checkpointed hdecodes reached_swaps .unlimited
  obtain ⟨-, hfailed, hiff⟩ := writeAmid_spec reached_checkpointed hdecodes
    (fun round hround => reached_swaps round (List.mem_of_mem_take hround)) .unlimited
  obtain ⟨hsignals, vertices, hbytes, -, -, -, hread⟩ := hwritten hok
  rw [Sink.unlimited, List.nil_append] at hbytes
  refine ⟨reached_checkpointed, hdecodes, reached_swaps, hok, hsignals, fun q => ?_, hearly, ?_⟩
  · obtain ⟨haccepted, hrestored⟩ := hread q
    rw [← hbytes] at haccepted hrestored
    refine ⟨haccepted, hrestored.id, hrestored.ids, ?_, ?_⟩
    · obtain ⟨said, hturn, hget⟩ := hrestored.vertices 0 1 rfl
      exact hget.trans (hturn.symm.trans rfl)
    · obtain ⟨said, hturn, hget⟩ := hrestored.vertices 1 2 rfl
      exact hget.trans (hturn.symm.trans rfl)
  · rcases hfailed _ hearly with ⟨hmany, -⟩ | ⟨-, hfront⟩
    · exact absurd (by decide) hmany
    · obtain ⟨vertices, hcount, hentered, hsink⟩ := hfront fun text heq => by cases heq
      refine ⟨rfl, ?_, vertices, hentered.ids, hsink⟩
      have hsink' : ∀ text, early.outcome ≠ .error (.io text) := by
        rw [hearly]
        exact fun text heq => by cases heq
      have hfits : ∀ len, early.outcome ≠ .error (.invalidArgument (.recordTooLong len)) := by
        rw [hearly]
        exact fun len heq => by cases heq
      have hsealed : ∀ len, early.outcome ≠ .error (.invalidArgument (.blobTooLong len)) := by
        rw [hearly]
        exact fun len heq => by cases heq
      exact (hiff hsink' hfits hsealed (by decide)).1 ⟨_, hearly⟩

end Partition

end Superstep
