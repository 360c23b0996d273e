import Superstep.Partition.Walk
import Superstep.Proofs.Grammar

/-!
# Superstep — keys and contents agree

A partition keeps the id of a vertex twice, as the key of its record and inside the record. Every
record is filed under the id that it has in it, so that whatever a lookup brings into the scratch
vertex has the id that was asked for, also when the record came from bytes that nobody checked any
further.

There is one exception, which no lookup can see. A save that is refused because its vertex is too
long has already overwritten the blob of the id, and what is there then declares no length. It does
not load, and nothing but its size tells it from other blobs.

* **`Record.Filed.id_of_load`** — a record that can be loaded has the id of its key;
* **`Walk.next_cases`**, **`Walk.next_spec`** — a walk skips absent ids and yields the vertex of the
  next one;
* **`Partition.Reached.key_agrees`** — all lookups of all partitions there are, and which blobs
  declare their length;
* **`Partition.key_disagrees`** — a blob that does not.
-/

namespace Superstep

variable {I V E : Type} [VertexId I] [Value V] [Value E]

/-! ## Records

A sealed blob declares its length and begins with the id it is filed under. A spoiled one does not
declare any length, and for that reason does not load. -/

section Loading

variable [LawfulId I] [LawfulCodec V] [LawfulCodec E] [LawfulRefill I] [LawfulRefill V]

/-- **A record that can be loaded** has the id under which it is filed. -/
theorem Record.Filed.id_of_load {record : Record I V E} {id : I} (h : record.Filed id)
    {scratch w : Vertex I V E} (hload : record.load scratch = (.ok (), w)) : w.id = id := by
  cases record with
  | blob bytes =>
    rw [load] at hload
    rcases h with ⟨body, hbody, hkey⟩ | ⟨v, -, hspoiled⟩
    · have hid := Blob.id_of_decodeInto (congrArg Prod.fst hload) hbody hkey
      rwa [hload] at hid
    -- what was spoiled does not load
    · cases hspoiled.eq_blob
      rw [Blob.decodeInto_unsealed] at hload
      cases hload
  | vertex v =>
    cases hload
    exact h.of_vertex.1

end Loading

omit [Value V] in
/-- A sealed blob declares its length, and its record begins with the encoded id. -/
theorem Record.Sealed.of_blob [LawfulId I] {bytes : Bytes} {id : I}
    (h : (Record.blob bytes : Record I V E).Sealed id) :
    Blob.declaredLen bytes = .ok bytes.length
      ∧ ∃ body, Blob.body bytes = .ok body ∧ Codec.encode id <+: body := by
  obtain ⟨body, hbody, hkey⟩ := h
  constructor
  · obtain ⟨size, hsize, hif⟩ := bind_eq_ok_iff.1 hbody
    split at hif
    · next hlength => rw [hsize, hlength]
    · cases hif
  · obtain ⟨hinput, -⟩ := LawfulCodec.of_decode (Prod.ext hkey rfl)
    exact ⟨body, hbody, _, hinput.symm⟩

/-- A blob that is too long declares no length, and has the vertex that was to be saved. -/
theorem Record.Filed.of_long {bytes : Bytes} {id : I}
    (h : (Record.blob bytes : Record I V E).Filed id) (hlong : wordLimit ≤ bytes.length) :
    Blob.declaredLen bytes = .error (.blobTooSmall 0)
      ∧ ∃ v : Vertex I V E, v.id = id ∧ bytes = Blob.unsealed v.encode := by
  rcases h with hsealed | ⟨v, rfl, hspoiled⟩
  · exact absurd hsealed.length_lt (Nat.not_lt.2 hlong)
  · cases hspoiled.eq_blob
    exact ⟨Blob.declaredLen_unsealed v.encode, v, rfl, rfl⟩

namespace Partition

variable {p p' : Partition I V E}

/-! ## Lookups

A lookup that finds something has loaded the record into the scratch vertex, and the answer is the
scratch vertex. -/

theorem records_bring (p : Partition I V E) (record : Option (Record I V E)) :
    (p.bring record).2.records = p.records := by
  cases record <;> rfl

/-- A lookup that finds something has loaded the record. -/
theorem load_of_bring {record : Option (Record I V E)} (h : p.bring record = (.ok true, p')) :
    ∃ r, record = some r ∧ r.load p.scratch = (.ok (), p'.scratch) := by
  cases record with
  | none => cases h
  | some r =>
    refine ⟨r, rfl, ?_⟩
    rw [bring] at h
    generalize r.load p.scratch = loaded at h ⊢
    obtain ⟨outcome, scratch⟩ := loaded
    cases outcome with
    | error e => cases h
    | ok _ =>
      cases h
      rfl

/-- A lookup that finds nothing changes nothing. -/
theorem eq_none_of_bring {record : Option (Record I V E)} (h : p.bring record = (.ok false, p')) :
    record = none ∧ p' = p := by
  cases record with
  | none =>
    cases h
    exact ⟨rfl, rfl⟩
  | some r =>
    rw [bring] at h
    generalize r.load p.scratch = loaded at h
    obtain ⟨outcome, scratch⟩ := loaded
    cases outcome <;> cases h

omit [VertexId I] [Value V] [Value E] in
/-- A vertex that is answered is the scratch vertex. -/
theorem of_answer {result : Except Error Bool × Partition I V E} {v : Vertex I V E}
    (h : answer result = (.ok (some v), p')) : result = (.ok true, p') ∧ p'.scratch = v := by
  obtain ⟨outcome, q⟩ := result
  cases outcome with
  | error e => cases h
  | ok present =>
    cases present with
    | false => cases h
    | true =>
      cases h
      exact ⟨rfl, rfl⟩

section Filed

variable [LawfulId I] [LawfulCodec V] [LawfulCodec E] [LawfulRefill I] [LawfulRefill V]

/-- **What is brought into the scratch vertex** has the id under which it was filed, wherever the
record is now. -/
theorem id_scratch_of_bring {records : Records I V E} (h : records.Filed) {id : I}
    (hbring : p.bring (records.get? id) = (.ok true, p')) : p'.scratch.id = id := by
  obtain ⟨record, hget, hload⟩ := load_of_bring hbring
  exact (h id record hget).id_of_load hload

theorem id_of_answer {records : Records I V E} (h : records.Filed) {id : I} {v : Vertex I V E}
    (hanswer : answer (p.bring (records.get? id)) = (.ok (some v), p')) : v.id = id := by
  obtain ⟨hbring, rfl⟩ := of_answer hanswer
  exact id_scratch_of_bring h hbring

end Filed

end Partition

/-! ## Walks

A call of a walk looks for the next id that is there. It goes over those that are absent, and
answers for the first one that is not, whether it loads or not. -/

namespace Walk

/-- **A step of a walk** skips ids that are absent, and yields what the next one is, if there is
any. -/
theorem next_cases (w : Walk I) (p : Partition I V E) :
    (w.next p = (none, ⟨[]⟩, p) ∧ ∀ id ∈ w.keys, p.records.get? id = none)
    ∨ ∃ skipped key keys found, w.keys = skipped ++ key :: keys
      ∧ (∀ id ∈ skipped, p.records.get? id = none)
      ∧ w.next p = (some found, ⟨keys⟩, (p.load key).2) ∧ (p.get key).1 = found.map some := by
  rw [next]
  generalize w.keys = keys
  induction keys with
  | nil => exact .inl ⟨rfl, nofun⟩
  | cons key keys ih =>
    rw [next.go]
    split
    · next q hload =>
      refine .inr ⟨[], key, keys, .ok q.scratch, rfl, nofun, ?_, ?_⟩
      · rw [hload]
      · rw [Partition.get, hload]
        rfl
    · next q hload =>
      -- the partition is the same as long as nothing is found
      obtain ⟨habsent, rfl⟩ := Partition.eq_none_of_bring hload
      rcases ih with ⟨hend, hall⟩ | ⟨skipped, other, later, found, rfl, hskipped, hfound⟩
      · exact .inl ⟨hend, List.forall_mem_cons.2 ⟨habsent, hall⟩⟩
      · exact .inr ⟨key :: skipped, other, later, found, rfl,
          List.forall_mem_cons.2 ⟨habsent, hskipped⟩, hfound⟩
    · next e q hload =>
      refine .inr ⟨[], key, keys, .error e, rfl, nofun, ?_, ?_⟩
      · rw [hload]
      · rw [Partition.get, hload]
        rfl

section Filed

variable [LawfulId I] [LawfulCodec V] [LawfulCodec E] [LawfulRefill I] [LawfulRefill V]

/-- **A walk yields the vertex of the next id that is present.** -/
theorem next_spec {p p' : Partition I V E} (h : p.records.Filed) {w w' : Walk I}
    {v : Vertex I V E} (hnext : w.next p = (some (.ok v), w', p')) :
    ∃ skipped, w.keys = skipped ++ v.id :: w'.keys
      ∧ ∀ key ∈ skipped, p.records.get? key = none := by
  rcases w.next_cases p with ⟨hend, -⟩ | ⟨skipped, key, keys, found, hkeys, hskipped, hfound, hget⟩
  · rw [hend] at hnext
    cases hnext
  · rw [hfound] at hnext
    cases hnext
    obtain rfl : v.id = key := Partition.id_of_answer h (Prod.ext hget rfl)
    exact ⟨skipped, hkeys, hskipped⟩

/-- **A whole walk** yields vertices of the ids to be visited, in their order. -/
theorem ids_finish_sublist {p : Partition I V E} (h : p.records.Filed) (w : Walk I) :
    (((w.finish p).1.filterMap Except.toOption).map Vertex.id).Sublist w.keys := by
  rw [finish]
  generalize w.keys = keys
  induction keys generalizing p with
  | nil => exact .slnil
  | cons key keys ih =>
    -- a lookup leaves the records as they are
    have hkept : (p.load key).2.records.Filed := by
      rw [Partition.load, Partition.records_bring]
      exact h
    rw [finish.go]
    split
    · next q hload =>
      rw [hload] at hkept
      have hid : q.scratch.id = key := Partition.id_scratch_of_bring h hload
      have hlater := ih hkept
      rw [← hid]
      exact hlater.cons_cons q.scratch.id
    · next q hload =>
      rw [hload] at hkept
      exact (ih hkept).cons key
    · next e q hload =>
      rw [hload] at hkept
      exact (ih hkept).cons key

end Filed

end Walk

/-! ## Partitions

Every operation leads to a partition that is reached, so what was shown of records holds in all of
them. The one that spoils a blob is a save. -/

namespace Partition

/-- Reading off a stream is reading some bytes, or nothing. -/
theorem Reached.readFrom {p : Partition I V E} (h : p.Reached) (source : Source) :
    (p.readFrom source).2.1.Reached := by
  unfold Partition.readFrom
  split
  · exact h
  · next bytes left _ => exact h.readBytes bytes

/-- A lookup is a call. -/
theorem Reached.load {p : Partition I V E} (h : p.Reached) (id : I) : (p.load id).2.Reached :=
  h.perform (.load id) fun _ hv => by cases hv

theorem Reached.save {p : Partition I V E} (h : p.Reached) {v : Vertex I V E}
    (hv : v.edges.Arises) : (p.save v).2.Reached :=
  h.perform (.save v) fun _ hw => Option.some.inj hw ▸ hv

/-- A walk makes lookups. -/
theorem Reached.next {p : Partition I V E} (h : p.Reached) (w : Walk I) :
    (w.next p).2.2.Reached := by
  rcases w.next_cases p with ⟨hend, -⟩ | ⟨_, key, _, _, -, -, hfound, -⟩
  · rw [hend]
    exact h
  · rw [hfound]
    exact h.load key

/-- **A vertex that is too long is not saved, and destroys the blob of its id**: what is there then
declares no length, and cannot be looked up. -/
theorem save_of_long {p : Partition I V E} (hkind : p.kind = .byteArray) {v : Vertex I V E}
    (hid : v.id ∈ p.ids) (hlong : wordLimit ≤ Blob.totalLen v.encode) :
    let saved := p.save v
    saved.1 = .error (.invalidArgument (.recordTooLong (Blob.totalLen v.encode)))
      ∧ saved.2.records.get? v.id = some (.blob (Blob.unsealed v.encode))
      ∧ (saved.2.get v.id).1 = .error (.corruption (.blobTooSmall 0)) := by
  intro saved
  cases hrecords : p.records with
  | vertices table =>
    rw [kind, hrecords] at hkind
    cases hkind
  | blobs table =>
    have hpresent : table.contains v.id = true := by
      have hcontains : p.records.contains v.id = true := Records.contains_iff_mem_ids.2 hid
      rwa [hrecords] at hcontains
    have hsaved : saved
        = (.error (.invalidArgument (.recordTooLong (Blob.totalLen v.encode))),
          { p with records := .blobs (table.insert v.id (Blob.unsealed v.encode)) }) := by
      show p.save v = _
      rw [save, hrecords, Records.save_of_long hlong, if_pos hpresent]
    -- the length field was to be put in at the end, and is still zero
    have hget : saved.2.records.get? v.id = some (.blob (Blob.unsealed v.encode)) := by
      rw [hsaved]
      exact (Records.get?_blobs_insert table v.id v.id _).trans (if_pos rfl)
    refine ⟨by rw [hsaved], hget, ?_⟩
    rw [get, load, hget, bring, Record.load, Blob.decodeInto_unsealed]
    rfl

/-- In the partition afterwards a key and its blob disagree. -/
theorem Reached.disagrees_of_long {p : Partition I V E} (h : p.Reached)
    (hkind : p.kind = .byteArray) {v : Vertex I V E} (hv : v.edges.Arises) (hid : v.id ∈ p.ids)
    (hlong : wordLimit ≤ Blob.totalLen v.encode) :
    let saved := (p.save v).2
    saved.Reached ∧ saved.kind = .byteArray ∧ v.id ∈ saved.ids
      ∧ (∃ bytes, saved.records.get? v.id = some (.blob bytes)
        ∧ Blob.declaredLen bytes ≠ .ok bytes.length)
      ∧ (saved.get v.id).1.isOk = false := by
  intro saved
  obtain ⟨-, hblob, hget⟩ := save_of_long hkind hid hlong
  have hpresent : saved.records.contains v.id = true := by
    rw [Records.contains_eq_isSome, hblob]
    rfl
  refine ⟨h.save hv, Records.kind_of_blob hblob, Records.contains_iff_mem_ids.1 hpresent,
    ⟨_, hblob, ?_⟩, ?_⟩
  · rw [Blob.declaredLen_unsealed]
    exact nofun
  · rw [hget]
    rfl

variable [LawfulId I] [LawfulCodec V] [LawfulCodec E] [LawfulRefill I] [LawfulRefill V]

/-- **Keys and contents agree.** In every partition there is, whatever bytes it has read, the key of
a decoded vertex is its id. A blob that is shorter than 4 GiB declares its own length and begins
with its encoded key. Any other one is a vertex with the id of its key behind room for a length that
was not put in: a save of a vertex that is too long leaves that when it is refused, and there is
none if all vertices that were given fit. So a vertex that is loaded, got, removed or replaced has
the id that was asked for, and a walk yields the vertices of the ids that it looks up and skips only
ids that are absent. Reading off a stream and going on with a walk lead to partitions of this kind
again. -/
theorem Reached.key_agrees {p : Partition I V E} (h : p.Reached) :
    (p.kind = .simple → ∀ id ∈ p.ids, ∃ v, p.records.get? id = some (.vertex v) ∧ v.id = id)
    ∧ (p.kind = .byteArray → ∀ id ∈ p.ids, ∃ bytes, p.records.get? id = some (.blob bytes)
      ∧ (bytes.length < wordLimit → Blob.declaredLen bytes = .ok bytes.length
        ∧ ∃ body, Blob.body bytes = .ok body ∧ Codec.encode id <+: body)
      ∧ (wordLimit ≤ bytes.length → Blob.declaredLen bytes = .error (.blobTooSmall 0)
        ∧ ∃ v : Vertex I V E, v.id = id ∧ bytes = Blob.unsealed v.encode))
    ∧ (p.kind = .byteArray → ∀ v : Vertex I V E, v.id ∈ p.ids → wordLimit ≤ Blob.totalLen v.encode →
      (p.save v).1 = .error (.invalidArgument (.recordTooLong (Blob.totalLen v.encode)))
        ∧ (p.save v).2.records.get? v.id = some (.blob (Blob.unsealed v.encode))
        ∧ ((p.save v).2.get v.id).1 = .error (.corruption (.blobTooSmall 0)))
    ∧ ((p.ReachedBy fun v => v.edges.Arises ∧ Blob.totalLen v.encode < wordLimit) →
      ∀ id bytes, p.records.get? id = some (.blob bytes) → bytes.length < wordLimit)
    ∧ (∀ (id : I) (p' : Partition I V E), p.load id = (.ok true, p') → p'.scratch.id = id)
    ∧ (∀ (id : I) (v : Vertex I V E) (p' : Partition I V E),
      p.get id = (.ok (some v), p') → v.id = id)
    ∧ (∀ (id : I) (v : Vertex I V E) (p' : Partition I V E),
      p.remove id = (.ok (some v), p') → v.id = id)
    ∧ (∀ (v old : Vertex I V E) (p' : Partition I V E),
      p.put v = (.ok (some old), p') → old.id = v.id)
    ∧ (∀ (w w' : Walk I) (v : Vertex I V E) (p' : Partition I V E),
      w.next p = (some (.ok v), w', p') →
        ∃ skipped, w.keys = skipped ++ v.id :: w'.keys ∧ ∀ id ∈ skipped, id ∉ p.ids)
    ∧ (∀ w : Walk I, (((w.finish p).1.filterMap Except.toOption).map Vertex.id).Sublist w.keys)
    ∧ (∀ source : Source, (p.readFrom source).2.1.Reached)
    ∧ ∀ w : Walk I, (w.next p).2.2.Reached := by
  have hfiled : p.records.Filed := h.filed
  refine ⟨?_, ?_, fun hkind v hid => save_of_long hkind hid, ?_, ?_, ?_, ?_, ?_, ?_, ?_,
    h.readFrom, h.next⟩
  · intro hkind id hid
    obtain ⟨record, -, hget⟩ := Records.exists_get?_of_mem_ids hid
    obtain ⟨v, rfl⟩ := Records.exists_vertex hkind hget
    exact ⟨v, hget, (hfiled id _ hget).of_vertex.1⟩
  · intro hkind id hid
    obtain ⟨record, -, hget⟩ := Records.exists_get?_of_mem_ids hid
    obtain ⟨bytes, rfl, -⟩ := Records.exists_blob hkind hget
    have hrecord : (Record.blob bytes : Record I V E).Filed id := hfiled id _ hget
    -- short blobs were written or read as a whole; the long ones are what refused saves left
    exact ⟨bytes, hget, fun hshort => (hrecord.sealed hshort).of_blob, hrecord.of_long⟩
  · intro hfit id bytes hget
    exact (hfit.sealed id _ hget : (Record.blob bytes : Record I V E).Sealed id).length_lt
  · intro id p' hload
    exact id_scratch_of_bring hfiled hload
  · intro id v p' hget
    exact id_of_answer hfiled hget
  · intro id v p' hremove
    exact id_of_answer hfiled hremove
  · intro v old p' hput
    -- a vertex that is refused returns nothing
    unfold put at hput
    split at hput
    · cases hput
    · exact id_of_answer hfiled hput
  · intro w w' v p' hnext
    obtain ⟨skipped, hkeys, hskipped⟩ := Walk.next_spec hfiled hnext
    refine ⟨skipped, hkeys, fun id hmem hpresent => ?_⟩
    obtain ⟨record, -, hget⟩ := Records.exists_get?_of_mem_ids hpresent
    rw [hskipped id hmem] at hget
    cases hget
  · intro w
    exact Walk.ids_finish_sublist hfiled w

/-- A partition of blobs that took over a record that cannot be decoded, and then got a vertex. -/
def mixed : Partition UInt64 UInt64 UInt64 :=
  let q : Partition UInt64 UInt64 UInt64 := .new ⟨0⟩ ⟨1, .lazy, .byteArray⟩
  ((q.readBytes (spelled 2)).2.perform (.put (.new 5 50 .hashed))).2

theorem Reached.key_agrees_mixed :
    let p : Partition UInt64 UInt64 UInt64 := .new ⟨0⟩ ⟨1, .sorted, .simple⟩
    let w : Walk UInt64 := ⟨[4, 5, 1]⟩
    mixed.Reached ∧ mixed.ids = [1, 5] ∧ (mixed.load 1).1.isOk = false
      ∧ (∃ bytes, mixed.records.get? 1 = some (.blob bytes)
        ∧ Blob.declaredLen bytes = .ok bytes.length
        ∧ ∃ body, Blob.body bytes = .ok body ∧ Codec.encode (1 : UInt64) <+: body)
      ∧ (mixed.load 5).1 = .ok true ∧ (mixed.load 5).2.scratch.id = 5
      ∧ (∃ v q, mixed.get 5 = (.ok (some v), q) ∧ v.id = 5)
      ∧ (∃ v q, mixed.remove 5 = (.ok (some v), q) ∧ v.id = 5)
      ∧ (∃ old q, mixed.put (.new 5 51 .lazy) = (.ok (some old), q) ∧ old.id = 5)
      ∧ (∃ v w' q skipped, w.next mixed = (some (.ok v), w', q)
        ∧ [4, 5, 1] = skipped ++ v.id :: w'.keys ∧ ∀ id ∈ skipped, id ∉ mixed.ids)
      ∧ ∃ v, (p.readBytes (spelled 1)).2.records.get? 1 = some (.vertex v) ∧ v.id = 1 := by
  intro p w
  have hfits : mixed.ReachedBy fun v => v.edges.Arises ∧ Blob.totalLen v.encode < wordLimit := by
    refine .perform (.readBytes (.new _ _) (spelled 2)) _ ?_
    intro v hv
    cases hv
    exact ⟨⟨.hashed, [], rfl⟩, by decide +kernel⟩
  have hmixed : mixed.Reached := hfits.mono fun _ hv => hv.1
  obtain ⟨-, hblob, -, hshort, hload, hget, hremove, hput, hnext, -⟩ := hmixed.key_agrees
  have hp : (p.readBytes (spelled 1)).2.Reached := .readBytes (.new _ _) _
  refine ⟨hmixed, by rfl, by decide +kernel, ?_, by rfl, ?_, ?_, ?_, ?_, ?_, ?_⟩
  · obtain ⟨bytes, hbytes, hdeclares, -⟩ := hblob rfl 1 (by decide +kernel)
    exact ⟨bytes, hbytes, hdeclares (hshort hfits 1 bytes hbytes)⟩
  · exact hload 5 _ rfl
  · exact ⟨_, _, rfl, hget 5 _ _ rfl⟩
  · exact ⟨_, _, rfl, hremove 5 _ _ rfl⟩
  · exact ⟨_, _, rfl, hput (.new 5 51 .lazy) _ _ rfl⟩
  · obtain ⟨skipped, hkeys, hskipped⟩ := hnext w _ _ _ rfl
    exact ⟨_, _, _, skipped, rfl, hkeys, hskipped⟩
  · exact hp.key_agrees.1 (by decide +kernel) 1 (by decide +kernel)

/-- A text of 4 GiB. -/
def fourGiB : String := String.ofList (List.replicate wordLimit 'a')

/-- Its encoding is no shorter. -/
theorem le_length_encode_fourGiB : wordLimit ≤ (Codec.encode fourGiB).length := by
  have hletter : (String.utf8EncodeChar 'a').length = 1 := by decide
  have htext : (Utf8.encode fourGiB).length = wordLimit := by
    rw [fourGiB, Utf8.encode_ofList, List.length_flatMap, List.map_replicate, hletter,
      List.sum_replicate_nat, Nat.mul_one]
  have hencode : Codec.encode fourGiB
      = BigEndian.encode 4 (Utf8.encode fourGiB).length ++ Utf8.encode fourGiB := rfl
  rw [hencode, List.length_append, htext]
  exact Nat.le_add_left _ _

/-- **A blob that declares no length.** A vertex is stored, and then a save of one with the same id
and a value of 4 GiB is refused. The blob of the id has the vertex that was refused, behind four
bytes that are zero, and what was stored cannot be looked up any more. -/
theorem key_disagrees :
    let p : Partition UInt64 String UInt64 := .new ⟨0⟩ ⟨1, .lazy, .byteArray⟩
    let stored := (p.perform (.put (.new 5 "" .hashed))).2
    let v : Vertex UInt64 String UInt64 := .new 5 fourGiB .hashed
    let saved := (stored.save v).2
    stored.Reached ∧ (stored.get v.id).1.isOk = true
      ∧ saved.Reached ∧ saved.kind = .byteArray ∧ v.id ∈ saved.ids
      ∧ (∃ bytes, saved.records.get? v.id = some (.blob bytes)
        ∧ Blob.declaredLen bytes ≠ .ok bytes.length)
      ∧ (saved.get v.id).1.isOk = false := by
  intro p stored v saved
  have hstored : stored.Reached := by
    refine .perform (.new _ _) _ ?_
    rintro v ⟨⟩
    exact ⟨.hashed, [], rfl⟩
  have hid : v.id ∈ stored.ids := by
    show 5 ∈ stored.ids
    decide +kernel
  have hlong : wordLimit ≤ Blob.totalLen v.encode := by
    have hvalue : v.value = fourGiB := rfl
    have hlen := le_length_encode_fourGiB
    rw [Blob.totalLen, Vertex.encode, hvalue]
    simp only [List.length_append]
    omega
  exact ⟨hstored, by decide +kernel,
    hstored.disagrees_of_long rfl (v := v) ⟨.hashed, [], rfl⟩ hid hlong⟩

end Partition

end Superstep
