import Superstep.Proofs.Copies
import Superstep.Proofs.Grammar

/-!
# Superstep — partitions on a stream

A stream gives no length with a partition. `Layout.frame` finds the end by copying keys, lengths and
blobs without a look into them, and only then are the copied bytes read. The two ways through the
layout agree because both are about the same list of entries (`Layout.Framed`).

* **`Layout.copies_partition`** — the copier takes a partition and nothing behind it;
* **`Partition.readFrom_eq`** — reading from a stream is reading the bytes in front of it;
* **`Partition.readEach_eq`**, **`Partition.writeEach_eq`** — partitions back to back;
* **`Partition.self_delimiting`** — all of it, and that no partition is the beginning of another.
-/

namespace Superstep

/-- `left` is the stream `source` behind `bytes`. -/
structure Source.Behind (source : Source) (bytes : Bytes) (left : Source) : Prop where
  content : source.content = bytes ++ left.content
  position : left.position = source.position + bytes.length
  ending : left.ending = source.ending

theorem Source.behind_read {source : Source} {bytes rest : Bytes}
    (h : source.content = bytes ++ rest) : source.Behind bytes (source.read bytes.length).2 := by
  refine ⟨?_, source.position_read (by simp [h]), rfl⟩
  simp [(source.read_content _).2, h]

variable {I V E : Type} [VertexId I]

namespace Layout

/-- An entry is copied by its lengths, which are those of its parts. -/
theorem copies_entry [LawfulId I] [LawfulCopy I] {entry : I × Bytes} (h : Keyed entry) :
    Copies (copyEntry I) (entryBytes entry) () := by
  have hkey : Copies (Codec.copy I) (Codec.encode entry.1) () := LawfulCopy.copies (h.reads [])
  have hblob := (Copies.exact entry.2).map fun _ => ()
  rw [entryBytes, List.append_assoc]
  exact hkey.bind ((Copies.word32 h.length_lt).bind hblob)

/-- **A partition is copied entry by entry.** -/
theorem copies_partition [LawfulId I] [LawfulCopy I] {bytes : Bytes} {id : PartitionId}
    {entries : List (I × Bytes)} (h : Framed bytes id entries)
    (hkeyed : ∀ entry ∈ entries, Keyed entry) : Copies (copyPartition I) bytes () := by
  have hentries : ∀ piece ∈ entries.map entryBytes, Copies (copyEntry I) piece () := by
    intro piece hmem
    obtain ⟨entry, hentry, rfl⟩ := List.mem_map.1 hmem
    exact copies_entry (hkeyed entry hentry)
  have htimes := Copies.times hentries
  rw [List.length_map, ← List.flatMap_def] at htimes
  have hcount : BigEndian.decode (BigEndian.encode 4 entries.length) = entries.length := by
    rw [BigEndian.decode_encode]
    exact Nat.mod_eq_of_lt h.few
  rw [h.bytes]
  refine (Copies.exact_of_length (by simp)).bind ?_
  rw [List.drop_left' (BigEndian.length_encode 4 _), hcount]
  exact htimes.mapError _

/-- What is copied as a partition is framed, with the stream behind it. -/
theorem frame_eq {bytes rest : Bytes} (h : Copies (copyPartition I) bytes ()) {source : Source}
    (hcontent : source.content = bytes ++ rest) :
    frame I source = (.ok bytes, (source.read bytes.length).2) := by
  rw [frame, h source [] rest hcontent]
  rfl

/-- There is no header on a stream that has ended. -/
theorem frame_of_exhausted {source : Source} (hcontent : source.content = [])
    (hending : source.ending = .closed) :
    frame I source = (.error (.corruption (.streamEnded 0 8)), (source.read 8).2) := by
  have hpiece : (source.read 8).1 = [] := by simp [(source.read_content 8).1, hcontent]
  have hhead : (Copier.exact 8).run ⟨source, []⟩
      = (.error (.corruption (.streamEnded 0 8)), ⟨(source.read 8).2, []⟩) := by
    simp [Copier.run, Copier.exact, hpiece, hending]
  rw [frame, copyPartition, Copier.run_bind, hhead]
  rfl

end Layout

namespace Partition

variable [Value V] [Value E]

/-! ## Writing back to back

A sink keeps what was written before. So a partition writes behind others what it writes alone, and
the bytes of a row are those of its partitions one after the other. -/

/-- What is written does not depend on what the sink has already. -/
theorem writeEntries_unlimited (id : PartitionId) (keys : List I)
    (rounds : List (List (Edit I V E))) (records : Records I V E) (written : Bytes) :
    (writeEntries id keys rounds records ⟨written, none⟩).outcome
        = (writeEntries id keys rounds records .unlimited).outcome
      ∧ (writeEntries id keys rounds records ⟨written, none⟩).sink
        = ⟨written ++ (writeEntries id keys rounds records .unlimited).sink.written, none⟩ := by
  induction keys generalizing rounds records written with
  | nil => simp [writeEntries, Sink.flush, Sink.unlimited]
  | cons key keys ih =>
    unfold writeEntries
    cases entryNow id records key with
    | error e => simp [Sink.unlimited]
    | ok pieces =>
      have hbehind := ih rounds.tail (records.editAll (rounds.headD []))
      simp only [Sink.unlimited, writePieces_unlimited, List.nil_append] at hbehind ⊢
      rw [(hbehind (written ++ pieces.flatten)).1, (hbehind (written ++ pieces.flatten)).2,
        (hbehind pieces.flatten).1, (hbehind pieces.flatten).2]
      simp

theorem writeAmid_unlimited (p : Partition I V E) (rounds : List (List (Edit I V E)))
    (written : Bytes) :
    (p.writeAmid rounds ⟨written, none⟩).outcome = (p.writeAmid rounds .unlimited).outcome
      ∧ (p.writeAmid rounds ⟨written, none⟩).sink
        = ⟨written ++ (p.writeAmid rounds .unlimited).sink.written, none⟩ := by
  unfold writeAmid
  dsimp only
  split
  · have hentries := writeEntries_unlimited p.id p.ids rounds.tail
      (p.records.editAll (rounds.headD []))
    simp only [Sink.unlimited, writePieces_unlimited, List.nil_append] at hentries ⊢
    -- the header is in front of the entries in both sinks
    obtain ⟨houtcome, hsink⟩ := hentries (written ++ (Layout.header p.id p.ids.length).flatten)
    obtain ⟨houtcome', hsink'⟩ := hentries (Layout.header p.id p.ids.length).flatten
    rw [houtcome, hsink, houtcome', hsink']
    simp
  · simp [Sink.unlimited]

/-- A partition writes the same bytes behind others as alone. -/
theorem writeTo_unlimited {p : Partition I V E} {bytes : Bytes} (h : p.toBytes.1 = .ok bytes)
    (written : Bytes) : (p.writeTo ⟨written, none⟩).1 = .ok ⟨written ++ bytes, none⟩ := by
  obtain ⟨houtcome, hsink⟩ := p.writeAmid_unlimited [] written
  rw [toBytes, writeTo] at h
  rw [writeTo]
  dsimp only at h ⊢
  obtain ⟨sink, hwritten, rfl⟩ := map_eq_ok_iff.1 h
  obtain ⟨_, hok, rfl⟩ := map_eq_ok_iff.1 hwritten
  rw [houtcome, hsink, hok]
  rfl

def writeEach (partitions : List (Partition I V E)) (sink : Sink) : Except Error Sink :=
  partitions.foldlM (fun sink p => (p.writeTo sink).1) sink

/-- **A row is written as its parts.** -/
theorem writeEach_eq {row : List (Partition I V E × Bytes)}
    (h : ∀ e ∈ row, e.1.toBytes.1 = .ok e.2) (written : Bytes) :
    writeEach (row.map Prod.fst) ⟨written, none⟩
      = .ok ⟨written ++ row.flatMap Prod.snd, none⟩ := by
  induction row generalizing written with
  | nil => simp [writeEach, Pure.pure, Except.pure]
  | cons e row ih =>
    have hfirst := writeTo_unlimited (h e List.mem_cons_self) written
    have hothers := ih (fun e he => h e (List.mem_cons_of_mem _ he)) (written ++ e.2)
    rw [writeEach] at hothers
    rw [writeEach, List.map_cons, List.foldlM_cons, hfirst, List.flatMap_cons,
      ← List.append_assoc]
    exact hothers

/-! ## Reading back to back

Every read begins where the one before it ended. For a row that was written this is the start of a
partition; behind the last one the stream has ended, and a read says so. -/

/-- Lets one partition after the other read from the stream, whether the reads before it succeeded
or not. A partition may read twice: it is then in the list again, as the first read left it. -/
def readEach : List (Partition I V E) → Source →
    List (Except Error Unit × Partition I V E) × Source
  | [], source => ([], source)
  | p :: later, source =>
    let (outcome, p, source) := p.readFrom source
    let (results, source) := readEach later source
    ((outcome, p) :: results, source)

/-- One more read finds nothing and changes nothing. -/
theorem readFrom_of_exhausted (p : Partition I V E) {source : Source}
    (hcontent : source.content = []) (hending : source.ending = .closed) :
    p.readFrom source = (.error (.corruption (.streamEnded 0 8)), p, (source.read 8).2) := by
  rw [readFrom, Layout.frame_of_exhausted hcontent hending]

variable [LawfulId I] [LawfulCodec V] [LawfulCodec E] [LawfulRefill I] [LawfulRefill V]

/-- What a partition of either kind reads, a partition of blobs reads. -/
theorem exists_readable {p : Partition I V E} {bytes : Bytes} (h : (p.readBytes bytes).1 = .ok ()) :
    ∃ id, ∃ entries : List (I × Bytes), Layout.Readable V bytes id entries := by
  cases hkind : p.kind with
  | byteArray => exact (readBytes_byteArray_iff hkind).1 h
  | simple =>
    obtain ⟨id, forms, hforms⟩ := (readBytes_simple_iff hkind).1 h
    let q : Partition I V E := new id ⟨1, .hashed, .byteArray⟩
    exact (readBytes_byteArray_iff (p := q) rfl).1 (readBytes_of_grammatical hforms q).1

/-! ## Handing over

What one partition writes another reads, also one of the other kind. If all its records decode, then
nothing is lost on the way. -/

/-- What `p` writes, `q` reads. -/
def Passes (p q : Partition I V E) : Prop :=
  ∃ bytes, p.toBytes.1 = .ok bytes ∧ (q.readBytes bytes).1 = .ok ()

/-- `result` is what `q` makes of the bytes of `p`, and if all the records of `p` decode then it is
`p` in the kind of `q`. -/
structure HandedOver (p q : Partition I V E) (result : Except Error Unit × Partition I V E) :
    Prop where
  read : ∃ bytes, p.toBytes.1 = .ok bytes ∧ result = q.readBytes bytes
  ok : result.1 = .ok ()
  restored : p.Reached → (∀ record ∈ p.records.toList, record.Decodes) → p.size < wordLimit →
    Restored p q result.2

/-- A partition whose records all decode is read by every other. -/
theorem passes_of_decodes {p : Partition I V E} (q : Partition I V E) (hp : p.Reached)
    (hdecodes : ∀ record ∈ p.records.toList, record.Decodes) (hfew : p.size < wordLimit) :
    Passes p q := by
  obtain ⟨vertices, hwritten, hget⟩ := exists_writtenAs hp hdecodes
  obtain ⟨hbytes, hread, _⟩ := restored_of_writtenAs (q := q) hwritten hget hfew
  exact ⟨_, congrArg Prod.fst hbytes, hread⟩

/-- What is written and read is handed over. -/
theorem handedOver_of_toBytes {p q : Partition I V E} {bytes : Bytes}
    (hbytes : p.toBytes.1 = .ok bytes) (hread : (q.readBytes bytes).1 = .ok ()) :
    HandedOver p q (q.readBytes bytes) := by
  refine ⟨⟨bytes, hbytes, rfl⟩, hread, fun hp hdecodes hfew => ?_⟩
  obtain ⟨vertices, hwritten, hget⟩ := exists_writtenAs hp hdecodes
  obtain ⟨hpacked, _, hrestored⟩ := restored_of_writtenAs (q := q) hwritten hget hfew
  rw [hpacked] at hbytes
  rwa [Except.ok.inj hbytes] at hrestored

/-! ## Off a stream

From here on the bytes arrive on a stream, in pieces. The copier finds the end of a partition by the
lengths in it, and what it found is what is read. -/

variable [LawfulCopy I]

/-- What can be read as a partition is copied as one. -/
theorem copies_of_readBytes {p : Partition I V E} {bytes : Bytes}
    (h : (p.readBytes bytes).1 = .ok ()) : Copies (Layout.copyPartition I) bytes () := by
  obtain ⟨_, _, hreadable⟩ := exists_readable h
  exact Layout.copies_partition hreadable.toFramed hreadable.keyed

/-- **A partition is found** at the front of every stream that delivers it first. -/
theorem frame_of_readBytes {p : Partition I V E} {bytes rest : Bytes} {source : Source}
    (h : (p.readBytes bytes).1 = .ok ()) (hcontent : source.content = bytes ++ rest) :
    Layout.frame I source = (.ok bytes, (source.read bytes.length).2) :=
  Layout.frame_eq (copies_of_readBytes h) hcontent

/-- **Reading from a stream is reading the bytes** of the partition in front. -/
theorem readFrom_eq {p : Partition I V E} {bytes rest : Bytes} {source : Source}
    (h : (p.readBytes bytes).1 = .ok ()) (hcontent : source.content = bytes ++ rest) :
    p.readFrom source = (.ok (), (p.readBytes bytes).2, (source.read bytes.length).2) := by
  rw [readFrom, frame_of_readBytes h hcontent]
  dsimp only
  rw [h]

/-- **Partitions back to back are read one at a time.** -/
theorem readEach_eq {row : List (Partition I V E × Bytes)} {rest : Bytes} {source : Source}
    (h : ∀ e ∈ row, (e.1.readBytes e.2).1 = .ok ())
    (hcontent : source.content = row.flatMap Prod.snd ++ rest) :
    readEach (row.map Prod.fst) source = (row.map fun e => e.1.readBytes e.2,
      (source.read (row.flatMap Prod.snd).length).2) := by
  induction row generalizing source with
  | nil => simp [readEach]
  | cons e row ih =>
    have hok := h e List.mem_cons_self
    rw [List.flatMap_cons, List.append_assoc] at hcontent
    -- the first read leaves the stream at the start of the others
    have hbehind := (Source.behind_read hcontent).content
    rw [hcontent, List.append_cancel_left_eq] at hbehind
    have hothers := ih (fun e he => h e (List.mem_cons_of_mem _ he)) hbehind.symm
    rw [List.map_cons, readEach, readFrom_eq hok hcontent]
    dsimp only
    rw [hothers, source.read_add, ← List.length_append, ← List.flatMap_cons, List.map_cons, ← hok]

/-- **No partition is the beginning of another**, of whichever kinds they are read by. -/
theorem eq_of_isPrefix {p q : Partition I V E} {bytes bytes' : Bytes}
    (h : (p.readBytes bytes).1 = .ok ()) (h' : (q.readBytes bytes').1 = .ok ())
    (hfront : bytes <+: bytes') : bytes = bytes' :=
  (copies_of_readBytes h).eq_of_isPrefix (copies_of_readBytes h') hfront

/-- **What is written back to back is handed over one by one.** -/
theorem handedOver_of_writeEach {row : List (Partition I V E × Partition I V E)}
    (h : ∀ e ∈ row, Passes e.1 e.2) : ∃ bytes,
    writeEach (row.map Prod.fst) .unlimited = .ok ⟨bytes, none⟩
      ∧ ∀ (rest : Bytes) (source : Source), source.content = bytes ++ rest → ∃ results left,
        readEach (row.map Prod.snd) source = (results, left) ∧ source.Behind bytes left
          ∧ List.Forall₂ (fun e result => HandedOver e.1 e.2 result) row results := by
  -- every partition has its bytes, and the row has those of all of them
  choose! bytesOf hbytes hread using h
  have hwritten : ∀ e ∈ row.map fun e => (e.1, bytesOf e), e.1.toBytes.1 = .ok e.2 := by
    intro e hmem
    obtain ⟨e, he, rfl⟩ := List.mem_map.1 hmem
    exact hbytes e he
  have haccepted : ∀ e ∈ row.map fun e => (e.2, bytesOf e), (e.1.readBytes e.2).1 = .ok () := by
    intro e hmem
    obtain ⟨e, he, rfl⟩ := List.mem_map.1 hmem
    exact hread e he
  have hwrite := writeEach_eq hwritten []
  rw [List.map_map, List.flatMap_map, List.nil_append] at hwrite
  refine ⟨row.flatMap bytesOf, hwrite, fun rest source hcontent => ?_⟩
  have hfront := hcontent
  rw [← List.flatMap_map (fun e => (e.2, bytesOf e)) Prod.snd] at hfront
  have hreadEach := readEach_eq haccepted hfront
  rw [List.map_map, List.flatMap_map, List.map_map] at hreadEach
  refine ⟨_, _, hreadEach, Source.behind_read hcontent, ?_⟩
  rw [List.forall₂_map_right_iff, List.forall₂_same]
  exact fun e he => handedOver_of_toBytes (hbytes e he) (hread e he)

/-- **The layout is self-delimiting.** A partition on a stream is read like its bytes alone, and the
stream goes on behind it, in whatever pieces and with whatever interruptions it arrives; so
partitions that were written back to back are read one by one, and there is nothing but corruption
behind the last. Of two byte strings that are partitions, neither is the beginning of the other:
nothing can be cut off a partition or put behind it. -/
theorem self_delimiting :
    (∀ (p : Partition I V E) (bytes rest : Bytes) (source : Source),
      (p.readBytes bytes).1 = .ok () → source.content = bytes ++ rest → ∃ left,
        p.readFrom source = (.ok (), (p.readBytes bytes).2, left) ∧ source.Behind bytes left)
    ∧ (∀ (row : List (Partition I V E × Bytes)) (rest : Bytes) (source : Source),
      (∀ e ∈ row, (e.1.readBytes e.2).1 = .ok ()) →
      source.content = row.flatMap Prod.snd ++ rest → ∃ left,
        readEach (row.map Prod.fst) source = (row.map fun e => e.1.readBytes e.2, left)
          ∧ source.Behind (row.flatMap Prod.snd) left)
    ∧ (∀ row : List (Partition I V E × Partition I V E), (∀ e ∈ row, Passes e.1 e.2) → ∃ bytes,
      writeEach (row.map Prod.fst) .unlimited = .ok ⟨bytes, none⟩
        ∧ ∀ (rest : Bytes) (source : Source), source.content = bytes ++ rest → ∃ results left,
          readEach (row.map Prod.snd) source = (results, left) ∧ source.Behind bytes left
            ∧ List.Forall₂ (fun e result => HandedOver e.1 e.2 result) row results)
    ∧ (∀ p q : Partition I V E, p.Reached → (∀ record ∈ p.records.toList, record.Decodes) →
      p.size < wordLimit → Passes p q)
    ∧ (∀ (p : Partition I V E) (source : Source), source.content = [] → source.ending = .closed →
      ∃ cause left, p.readFrom source = (.error (.corruption cause), p, left))
    ∧ (∀ (p q : Partition I V E) (bytes bytes' : Bytes), (p.readBytes bytes).1 = .ok () →
      (q.readBytes bytes').1 = .ok () → bytes <+: bytes' → bytes = bytes')
    ∧ (∀ (p q : Partition I V E) (bytes more : Bytes), (p.readBytes bytes).1 = .ok () →
      more ≠ [] → ∃ e, (q.readBytes (bytes ++ more)).1 = .error e)
    ∧ (∀ (p q : Partition I V E) (bytes : Bytes) (n : Nat), (p.readBytes bytes).1 = .ok () →
      n < bytes.length → ∃ e, (q.readBytes (bytes.take n)).1 = .error e) := by
  refine ⟨?_, ?_, ?_, ?_, ?_, ?_, ?_, ?_⟩
  · intro p bytes rest source h hcontent
    exact ⟨_, readFrom_eq h hcontent, Source.behind_read hcontent⟩
  · intro row rest source h hcontent
    exact ⟨_, readEach_eq h hcontent, Source.behind_read hcontent⟩
  · intro row h
    exact handedOver_of_writeEach h
  · intro p q hp hdecodes hfew
    exact passes_of_decodes q hp hdecodes hfew
  · intro p source hcontent hending
    exact ⟨_, _, p.readFrom_of_exhausted hcontent hending⟩
  · intro p q bytes bytes' h h' hfront
    exact eq_of_isPrefix h h' hfront
  · intro p q bytes more h hmore
    refine exists_error_of_ne_ok fun _ hpadded => hmore ?_
    exact List.append_right_eq_self.1 (eq_of_isPrefix h hpadded (List.prefix_append _ _)).symm
  · intro p q bytes n h hn
    refine exists_error_of_ne_ok fun _ htruncated => ?_
    have hsame := congrArg List.length (eq_of_isPrefix htruncated h (List.take_prefix n bytes))
    rw [List.length_take_of_le hn.le] at hsame
    omega

def trickle (bytes : Bytes) : Source :=
  ⟨bytes.flatMap fun byte => [.interrupted, .data [byte]], .closed, 0⟩

theorem self_delimiting_trickle :
    let p : Partition UInt64 UInt64 UInt64 := .new ⟨0⟩ ⟨1, .sorted, .simple⟩
    let q : Partition UInt64 UInt64 UInt64 := .new ⟨0⟩ ⟨1, .lazy, .byteArray⟩
    (p.readBytes (spelled 1)).1 = .ok () ∧ (q.readBytes (spelled 2)).1 = .ok ()
      ∧ (∃ left, p.readFrom (trickle (spelled 1 ++ [5]))
          = (.ok (), (p.readBytes (spelled 1)).2, left)
        ∧ left.position = 61 ∧ left.content = [5])
      ∧ (∃ left, readEach [p, q] (trickle (spelled 1 ++ spelled 2))
          = ([p.readBytes (spelled 1), q.readBytes (spelled 2)], left)
        ∧ ∃ cause behind, (q.readBytes (spelled 2)).2.readFrom left
          = (.error (.corruption cause), (q.readBytes (spelled 2)).2, behind))
      ∧ (∃ bytes results left, writeEach [p, p] .unlimited = .ok ⟨bytes, none⟩
        ∧ readEach [q, p] (trickle bytes) = (results, left)
        ∧ List.Forall₂ (fun reader result => Restored p reader result.2) [q, p] results)
      ∧ ¬ spelled 1 <+: spelled 2
      ∧ (∃ e, (q.readBytes (spelled 1 ++ [0])).1 = .error e)
      ∧ ∃ e, (q.readBytes ((spelled 1).take 60)).1 = .error e := by
  intro p q
  have hp : (p.readBytes (spelled 1)).1 = .ok () := by
    have hok : (p.readBytes (spelled 1)).1.isOk = true := by decide +kernel
    cases hread : (p.readBytes (spelled 1)).1 with
    | ok _ => rfl
    | error e => rw [hread] at hok; cases hok
  have hq : (q.readBytes (spelled 2)).1 = .ok () := by rfl
  have hcontent : ∀ bytes, (trickle bytes).content = bytes := by
    intro bytes
    induction bytes with
    | nil => rfl
    | cons byte bytes ih => exact congrArg (byte :: ·) ih
  obtain ⟨hone, hrow, hwrite, hpasses, hexhausted, hfront, hpadded, htruncated⟩ :=
    self_delimiting (I := UInt64) (V := UInt64) (E := UInt64)
  have hreached : p.Reached := .new _ _
  have hdecodes : ∀ record ∈ p.records.toList, record.Decodes := fun _ hmem => nomatch hmem
  refine ⟨hp, hq, ?_, ?_, ?_, ?_, ?_, ?_⟩
  · obtain ⟨left, hread, hbehind⟩ := hone p _ [5] (trickle (spelled 1 ++ [5])) hp (hcontent _)
    have hleft := hbehind.content
    rw [hcontent, List.append_cancel_left_eq] at hleft
    exact ⟨left, hread, hbehind.position, hleft.symm⟩
  · have haccepted : ∀ e ∈ [(p, spelled 1), (q, spelled 2)], (e.1.readBytes e.2).1 = .ok () := by
      intro e he
      rcases List.mem_pair.1 he with rfl | rfl
      · exact hp
      · exact hq
    obtain ⟨left, hread, hbehind⟩ := hrow _ [] (trickle (spelled 1 ++ spelled 2)) haccepted
      (by rw [hcontent]; simp)
    have hleft := hbehind.content
    rw [hcontent] at hleft
    refine ⟨left, hread, hexhausted _ left ?_ hbehind.ending⟩
    simpa using hleft
  · have hrow : ∀ e ∈ [(p, q), (p, p)], Passes e.1 e.2 := by
      intro e he
      rcases List.mem_pair.1 he with rfl | rfl
      · exact hpasses p q hreached hdecodes (by decide)
      · exact hpasses p p hreached hdecodes (by decide)
    obtain ⟨bytes, hwritten, hread⟩ := hwrite _ hrow
    obtain ⟨results, left, hresults, -, hover⟩ := hread [] (trickle bytes) (by simp [hcontent])
    refine ⟨bytes, results, left, hwritten, hresults, ?_⟩
    cases hover with
    | cons hfirst hlater =>
      cases hlater with
      | cons hsecond hnone =>
        cases hnone
        exact .cons (hfirst.restored hreached hdecodes (by decide))
          (.cons (hsecond.restored hreached hdecodes (by decide)) .nil)
  · intro hspelled
    have hsame := hfront p q _ _ hp hq hspelled
    exact absurd hsame (by decide +kernel)
  · exact hpadded p q _ [0] hp (by simp)
  · exact htruncated p q _ 60 hp (by decide)

end Partition

end Superstep
