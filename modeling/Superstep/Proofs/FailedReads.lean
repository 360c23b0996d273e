import Superstep.Proofs.Grammar

/-!
# Superstep — a failed read changes nothing

A partition reads from a byte string or from a stream, whose arrivals may be cut anywhere, repeated
after interruptions, and end or fail at any offset. What it reads takes the place of what it had, as
a whole or not at all.

* **`readBytes_error_iff`** — what is outside the grammar is refused, wherever the fault is;
* **`failed_read_changes_nothing`** — a read that is refused leaves the partition as it was, but for
  the signals given on the way.
-/

namespace Superstep.Partition

variable {I V E : Type}

/-- The partitions differ in their signals at the most. -/
def Matches (p q : Partition I V E) : Prop := p = { q with signals := p.signals }

theorem Matches.refl (p : Partition I V E) : p.Matches p := rfl

variable [VertexId I] [Value V] [Value E]

/-! ## What is read

The records are read into a place of their own, together with the signals of the way there. Only
when all of them were read does the partition take them over. -/

/-- The byte string is a serialized partition, as far as this kind of partition looks into it. -/
def Admits (p : Partition I V E) (bytes : Bytes) : Prop :=
  match p.kind with
  | .simple => ∃ id, ∃ forms : List (VertexForm I V E), Grammatical bytes id forms
  | .byteArray => ∃ id, ∃ entries : List (I × Bytes), Layout.Readable V bytes id entries

/-- **What is refused is outside the grammar**, and the other way round. -/
theorem readBytes_error_iff [LawfulId I] [LawfulCodec V] [LawfulCodec E] [LawfulRefill I]
    [LawfulRefill V] (p : Partition I V E) (bytes : Bytes) :
    (∃ e, (p.readBytes bytes).1 = .error e) ↔ ¬ p.Admits bytes := by
  have hok : (p.readBytes bytes).1 = .ok () ↔ p.Admits bytes := by
    rw [Admits]
    cases hkind : p.kind with
    | simple => exact readBytes_simple_iff hkind
    | byteArray => exact readBytes_byteArray_iff hkind
  rw [← hok]
  cases (p.readBytes bytes).1 with
  | ok _ => exact iff_of_false (fun ⟨_, h⟩ => by cases h) (fun h => h rfl)
  | error e => exact iff_of_true ⟨e, rfl⟩ (fun h => by cases h)

/-- The partition with what was read in the place of what it had. -/
def replaceBy (p : Partition I V E) : Except Error (PartitionId × Records I V E) → Partition I V E
  | .ok (id, records) => { p with id, records }
  | .error _ => p

/-- **A read takes all or nothing.** What it takes depends on the kind and the strategy alone. -/
theorem readBytes_spec (p : Partition I V E) (bytes : Bytes) :
    (p.readBytes bytes).1 = (readRecords (I := I) (V := V) (E := E) p.kind p.strategy bytes).1.map
        (fun _ => ())
      ∧ (p.readBytes bytes).2.Matches (p.replaceBy (readRecords p.kind p.strategy bytes).1) := by
  unfold readBytes
  cases readRecords (I := I) (V := V) (E := E) p.kind p.strategy bytes with
  | mk read staged =>
    cases read with
    | ok read => exact ⟨rfl, rfl⟩
    | error e => exact ⟨rfl, rfl⟩

/-- **A refused byte string** leaves the partition alone. -/
theorem matches_of_readBytes_error {p : Partition I V E} {bytes : Bytes} {e : Error}
    (h : (p.readBytes bytes).1 = .error e) : (p.readBytes bytes).2.Matches p := by
  obtain ⟨houtcome, hmatches⟩ := readBytes_spec p bytes
  rw [houtcome] at h
  cases hread : (readRecords (I := I) (V := V) (E := E) p.kind p.strategy bytes).1 with
  | ok read =>
    rw [hread] at h
    cases h
  | error cause =>
    rw [hread] at hmatches
    exact hmatches

/-- **A refused stream** does too. Either there are no bytes to read, or it is their fault. -/
theorem matches_of_readFrom_error {p : Partition I V E} {source : Source} {e : Error}
    (h : (p.readFrom source).1 = .error e) : (p.readFrom source).2.1.Matches p := by
  unfold readFrom at h ⊢
  cases hframe : Layout.frame I source with
  | mk framed rest =>
    rw [hframe] at h
    cases framed with
    -- the stream ended, failed, or has no partition on it
    | error _ => exact .refl p
    | ok bytes => exact matches_of_readBytes_error h

/-- **A failed read changes nothing.** A byte string that is no serialized partition makes a read
fail; and whatever made it fail, in the bytes or in the stream, the partition keeps its id, its
records, its scratch vertex and its strategy. -/
theorem failed_read_changes_nothing [LawfulId I] [LawfulCodec V] [LawfulCodec E] [LawfulRefill I]
    [LawfulRefill V] (p : Partition I V E) :
    (∀ bytes, (∃ e, (p.readBytes bytes).1 = .error e) ↔ ¬ p.Admits bytes)
      ∧ (∀ bytes e, (p.readBytes bytes).1 = .error e →
        (p.readBytes bytes).2 = { p with signals := (p.readBytes bytes).2.signals })
      ∧ (∀ source e, (p.readFrom source).1 = .error e →
        (p.readFrom source).2.1 = { p with signals := (p.readFrom source).2.1.signals }) :=
  ⟨readBytes_error_iff p, fun _ _ h => matches_of_readBytes_error h,
    fun _ _ h => matches_of_readFrom_error h⟩

/-- What begins a partition of `n` vertices. -/
def announced (n : Nat) : Bytes := (Layout.header ⟨7⟩ n).flatten

/-- A vertex long enough for a second one to fail where it begins. -/
def longForm : VertexForm UInt64 UInt64 UInt64 := ⟨1, 10, [(2, 3), (4, 5), (6, 7)], true⟩

/-- One byte string for each place where a fault may be. -/
def faulty : List Bytes :=
  [[0, 0, 0, 7, 0],
    -- more vertices than there is room for, and a second one that ends in its key
    announced 3 ++ longForm.entry,
    announced 2 ++ longForm.entry ++ [0, 0, 0],
    -- lengths: the outer one is too long or too short, the inner one is another
    announced 1 ++ Codec.encode longForm.id ++ BigEndian.encode 4 200 ++ longForm.blob,
    announced 1 ++ Codec.encode longForm.id ++ BigEndian.encode 4 3 ++ longForm.blob,
    announced 1 ++ Codec.encode longForm.id ++ BigEndian.encode 4 longForm.blob.length
      ++ putWord32 longForm.blob 7,
    -- another id than the key, a key twice, and more than the announced entries
    announced 1 ++ Codec.encode (8 : UInt64) ++ BigEndian.encode 4 longForm.blob.length
      ++ longForm.blob,
    announced 2 ++ longForm.entry ++ longForm.entry,
    announced 1 ++ longForm.entry ++ [0]]

def holding (kind : PartitionKind) : Partition UInt64 UInt64 UInt64 :=
  ((new ⟨8⟩ ⟨1, .hashed, kind⟩).perform (.put (.new 9 90 .hashed))).2

/-- None of these is read, neither off a byte string nor off a stream, and what there was stays. -/
theorem failed_read_faulty :
    (∀ kind ∈ [PartitionKind.simple, .byteArray], ∀ bytes ∈ faulty,
      ((holding kind).readBytes bytes).1.isOk = false
        ∧ ((holding kind).readBytes bytes).2.Matches (holding kind))
    ∧ ((holding .simple).readBytes (spelled 2)).1.isOk = false
    ∧ ((holding .simple).readBytes (spelled 2)).2.Matches (holding .simple)
    ∧ ((holding .simple).readFrom
        ⟨[.data (announced 1), .interrupted], .fails "gone", 0⟩).2.1.Matches (holding .simple) := by
  have hkeeps : ∀ (p : Partition UInt64 UInt64 UInt64) (bytes : Bytes),
      (p.readBytes bytes).1.isOk = false → (p.readBytes bytes).2.Matches p := by
    intro p bytes hrefused
    cases hread : (p.readBytes bytes).1 with
    | ok _ =>
      rw [hread] at hrefused
      cases hrefused
    | error e => exact (failed_read_changes_nothing p).2.1 bytes e hread
  have hrefused : ∀ kind ∈ [PartitionKind.simple, .byteArray], ∀ bytes ∈ faulty,
      ((holding kind).readBytes bytes).1.isOk = false := by
    decide +kernel
  have hflag : ((holding .simple).readBytes (spelled 2)).1.isOk = false := by decide +kernel
  have hstream : ((holding .simple).readFrom
      ⟨[.data (announced 1), .interrupted], .fails "gone", 0⟩).1 = .error (.io "gone") := by rfl
  refine ⟨fun kind hkind bytes hbytes => ?_, hflag, hkeeps _ _ hflag, ?_⟩
  · exact ⟨hrefused kind hkind bytes hbytes, hkeeps _ _ (hrefused kind hkind bytes hbytes)⟩
  · exact (failed_read_changes_nothing (holding .simple)).2.2 _ _ hstream

end Superstep.Partition
