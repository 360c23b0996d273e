import Superstep.Partition.Records
import Superstep.Proofs.Edges

/-!
# Superstep — vertices and their blobs

`Vertex.data` is what counts of a vertex beside its id: the value, the edges as a map, and the
flag. `Vertex.Reached` says which vertices there are: those that successful operations make, in
any order. All of them have lawful edges (`Reached.lawful`), and that is all that storing them
takes, next to a blob of less than 4 GiB (`Vertex.Storable`).

* **`Vertex.decodeInto_encode`** — a vertex is read back over any other, debris included;
* **`Blob.decodeInto_framed`** — and so is its blob;
* **`Blob.overwrite_of_fits`**, **`Blob.overwrite_of_long`** — what a buffer becomes when a blob is
  written over it: the blob that is made anew, or, when the record is too long, no blob at all.
-/

namespace Superstep

/-- What a vertex says beside its id. -/
structure VertexData (I V E : Type) where
  value : V
  edges : Mapping I E
  halted : Bool

variable {I V E : Type} [VertexId I] [Value E]

namespace Vertex

def data (v : Vertex I V E) : VertexData I V E := ⟨v.value, v.edges.mapping, v.halted⟩

/-- `w` is `v` in another representation. -/
structure Alike (w v : Vertex I V E) : Prop where
  id : w.id = v.id
  value : w.value = v.value
  halted : w.halted = v.halted
  lawful : w.edges.Lawful
  edges : w.edges.toList.Perm v.edges.toList

theorem Alike.data_eq [LawfulId I] {w v : Vertex I V E} (h : Alike w v) (hv : v.edges.Lawful) :
    w.data = v.data := by
  rw [data, data, h.value, h.halted, Edges.mapping_eq_of_perm hv h.edges]

variable [Value V]

theorem Alike.length_encode_eq {w v : Vertex I V E} (h : Alike w v) (hv : v.edges.Lawful) :
    w.encode.length = v.encode.length := by
  rw [encode, encode, h.id, h.value, h.halted]
  simp only [List.length_append, Edges.length_encode_eq_of_perm hv h.lawful h.edges]

/-- The vertex can be kept as a blob. -/
structure Storable (v : Vertex I V E) : Prop where
  lawful : v.edges.Lawful
  fits : Blob.totalLen v.encode < wordLimit

/-- What is read back can be written again. -/
theorem Alike.storable {w v : Vertex I V E} (h : Alike w v) (hv : v.Storable) : w.Storable := by
  refine ⟨h.lawful, ?_⟩
  rw [Blob.totalLen, h.length_encode_eq hv.lawful]
  exact hv.fits

/-- The vertices that successful operations make. -/
inductive Reached : Vertex I V E → Prop
  | new (id : I) (value : V) (strategy : EdgeStrategy) : Reached (.new id value strategy)
  | withEdges (id : I) (value : V) (strategy : EdgeStrategy) (edges : List (I × E)) :
    Reached (.withEdges id value strategy edges)
  | reset {v : Vertex I V E} (h : Reached v) (id : I) (value : V) : Reached (v.reset id value)
  | setValue {v : Vertex I V E} (h : Reached v) (value : V) : Reached { v with value }
  | addEdge {v : Vertex I V E} (h : Reached v) (target : I) (value : E) :
    Reached (v.addEdge target value).2
  | removeEdge {v : Vertex I V E} (h : Reached v) (target : I) : Reached (v.removeEdge target).2
  | setEdges {v w : Vertex I V E} (h : Reached v) (hw : Reached w) :
    Reached { v with edges := w.edges }
  | clearEdges {v : Vertex I V E} (h : Reached v) : Reached { v with edges := v.edges.clear }
  | decodeEdges {v : Vertex I V E} (h : Reached v) {input : Bytes}
    (hdecode : (v.edges.decodeInto input).outcome = .ok ()) :
    Reached { v with edges := (v.edges.decodeInto input).target }
  | halt {v : Vertex I V E} (h : Reached v) : Reached v.halt
  | wake {v : Vertex I V E} (h : Reached v) : Reached v.wake
  | decodeInto {v : Vertex I V E} {input : Bytes}
    (hdecode : (v.decodeInto input).outcome = .ok ()) :
    Reached (v.decodeInto input).target

/-- A vertex is decoded when its fields are, one after the other. -/
theorem decodeInto_eq_ok_iff {v w : Vertex I V E} {input rest : Bytes} :
    v.decodeInto input = ⟨.ok (), w, rest⟩ ↔ ∃ front middle back,
      Codec.decodeInto v.id input = ⟨.ok (), w.id, front⟩
        ∧ Codec.decodeInto v.value front = ⟨.ok (), w.value, middle⟩
        ∧ v.edges.decodeInto middle = ⟨.ok (), w.edges, back⟩
        ∧ Codec.decodeInto v.halted back = ⟨.ok (), w.halted, rest⟩ := by
  constructor
  · intro h
    unfold Vertex.decodeInto at h
    dsimp only at h
    split at h
    · cases h
    · next hid =>
      split at h
      · cases h
      · next hvalue =>
        split at h
        · cases h
        · next hedges =>
          obtain ⟨hhalted, rfl, rfl⟩ := Refill.mk.inj h
          exact ⟨_, _, _, Refill.eq_of_outcome hid, Refill.eq_of_outcome hvalue,
            Refill.eq_of_outcome hedges, Refill.eq_of_outcome hhalted⟩
  · rintro ⟨front, middle, back, hid, hvalue, hedges, hhalted⟩
    unfold Vertex.decodeInto
    simp only [hid, hvalue, hedges, hhalted]

/-- Decoding a vertex is decoding it over a blank one. -/
theorem run_decode_eq_ok {input rest : Bytes} {v : Vertex I V E} :
    decode.run input = (.ok v, rest)
      ↔ (blank default : Vertex I V E).decodeInto input = ⟨.ok (), v, rest⟩ := by
  show ((decodeInto (blank default) input).outcome.map fun _ => _, _) = _ ↔ _
  cases decodeInto (blank default : Vertex I V E) input with
  | mk outcome target rest' =>
    cases outcome with
    | error e => exact iff_of_false nofun nofun
    | ok _ => simp [Except.map]

variable [LawfulId I] [LawfulCodec E]

/-- A decode that succeeds read the edges as well. -/
theorem lawful_decodeInto {v : Vertex I V E} {input : Bytes}
    (h : (v.decodeInto input).outcome = .ok ()) : (v.decodeInto input).target.edges.Lawful := by
  obtain ⟨_, _, _, -, -, hedges, -⟩ := decodeInto_eq_ok_iff.1 (Refill.eq_of_outcome h)
  have hlawful := Edges.lawful_decodeInto (congrArg Refill.outcome hedges)
  rwa [hedges] at hlawful

/-- **Every vertex there is has lawful edges.** -/
theorem Reached.lawful {v : Vertex I V E} (h : Reached v) : v.edges.Lawful := by
  induction h with
  | new _ _ strategy => exact Edges.lawful_empty strategy
  | withEdges _ _ strategy edges => exact Edges.lawful_ofList strategy edges
  | reset _ _ _ _ => exact Edges.lawful_clear _
  | setValue _ _ ih => exact ih
  | addEdge _ target value ih => exact (Edges.add_spec ih target value).2.1
  | removeEdge _ target ih => exact (Edges.remove_spec ih target).2.1
  | setEdges _ _ _ ih => exact ih
  | clearEdges _ _ => exact Edges.lawful_clear _
  | decodeEdges _ hdecode _ => exact Edges.lawful_decodeInto hdecode
  | halt _ ih => exact ih
  | wake _ ih => exact ih
  | decodeInto hdecode => exact lawful_decodeInto hdecode

variable [LawfulCodec V]

/-- **A vertex is read back**, whatever it is read over. -/
theorem decodeInto_encode {v : Vertex I V E} (hv : v.edges.Lawful)
    (hlen : v.encode.length < wordLimit) (old : Vertex I V E) (rest : Bytes) :
    ∃ w, old.decodeInto (v.encode ++ rest) = ⟨.ok (), w, rest⟩ ∧ Alike w v := by
  rw [encode] at hlen ⊢
  simp only [List.length_append] at hlen
  -- the four fields, each in front of what the later ones wrote
  obtain ⟨edges, hedges, hlawful, hperm⟩ := Edges.decodeInto_encode hv (by omega) old.edges
    (Codec.encode v.halted ++ rest)
  have hid := LawfulCodec.decodeInto_eq old.id (LawfulCodec.reads v.id (by omega)
    (Codec.encode v.value ++ (v.edges.encode ++ (Codec.encode v.halted ++ rest))))
  have hvalue := LawfulCodec.decodeInto_eq old.value (LawfulCodec.reads v.value (by omega)
    (v.edges.encode ++ (Codec.encode v.halted ++ rest)))
  have hhalted := LawfulCodec.decodeInto_eq old.halted (LawfulCodec.reads v.halted (by omega) rest)
  refine ⟨⟨v.id, v.value, edges, v.halted⟩, ?_, rfl, rfl, rfl, hlawful, hperm⟩
  unfold Vertex.decodeInto
  simp only [List.append_assoc, hid, hvalue, hedges, hhalted]

end Vertex

variable [Value V]

/-! ## Blobs

A blob is a length and a record. Decoding one reads the length, compares it with the bytes that are
there, and decodes the record over the old value. -/

namespace Blob

variable {α : Type} [Codec α]

/-- A record behind the length of its blob. -/
def framed (record : Bytes) : Bytes := BigEndian.encode headerLen (totalLen record) ++ record

theorem length_framed (record : Bytes) : (framed record).length = totalLen record := by
  rw [framed, List.length_append, BigEndian.length_encode, totalLen]

theorem encode_eq {a : α} (h : totalLen (Codec.encode a) < wordLimit) :
    encode a = .ok (framed (Codec.encode a)) := by
  rw [encode]
  exact if_pos h

/-- A blob that was made fits, and is its record behind the length. -/
theorem of_encode {a : α} {blob : Bytes} (h : encode a = .ok blob) :
    totalLen (Codec.encode a) < wordLimit ∧ blob = framed (Codec.encode a) := by
  unfold encode at h
  dsimp only at h
  split at h
  · next hfits =>
    cases h
    exact ⟨hfits, rfl⟩
  · cases h

/-- A record that is too long has no blob. -/
theorem encode_of_long {a : α} (h : wordLimit ≤ totalLen (Codec.encode a)) :
    encode a = .error (.invalidArgument (.recordTooLong (totalLen (Codec.encode a)))) := by
  rw [encode]
  exact if_neg (Nat.not_lt.2 h)

/-- Only a record that is too long is refused. -/
theorem long_of_encode {a : α} {e : Error} (h : encode a = .error e) :
    wordLimit ≤ totalLen (Codec.encode a) := by
  refine Nat.not_lt.1 fun hfits => ?_
  rw [encode_eq hfits] at h
  cases h

/-- A record behind room for a length that was never put in. -/
def unsealed (record : Bytes) : Bytes := List.replicate headerLen 0 ++ record

theorem length_unsealed (record : Bytes) : (unsealed record).length = totalLen record := by
  rw [unsealed, List.length_append, List.length_replicate, totalLen]

theorem overwrite_eq (buffer : Bytes) (a : α) : overwrite buffer a
    = if totalLen (Codec.encode a) < wordLimit then (.ok (), framed (Codec.encode a))
      else (.error (.invalidArgument (.recordTooLong (totalLen (Codec.encode a)))),
        unsealed (Codec.encode a)) := by
  have hunsealed : buffer.take 0 ++ List.replicate headerLen 0 ++ Codec.encode a
      = unsealed (Codec.encode a) := rfl
  unfold overwrite
  simp only [hunsealed, length_unsealed]
  split
  · next hlt =>
    -- the room for the length is as long as the length
    have hword : (UInt32.ofNat (totalLen (Codec.encode a))).toNat = totalLen (Codec.encode a) :=
      UInt32.toNat_ofNat_of_lt hlt
    rw [putWord32, hword]
    rfl
  · rfl

/-- **Room for the length and the length put in later make the blob.** -/
theorem overwrite_of_fits {a : α} (h : totalLen (Codec.encode a) < wordLimit) (buffer : Bytes) :
    overwrite buffer a = (.ok (), framed (Codec.encode a)) := by
  rw [overwrite_eq, if_pos h]

/-- **A record that is too long** is left in the buffer, and the length is not put in. -/
theorem overwrite_of_long {a : α} (h : wordLimit ≤ totalLen (Codec.encode a)) (buffer : Bytes) :
    overwrite buffer a = (.error (.invalidArgument (.recordTooLong (totalLen (Codec.encode a)))),
      unsealed (Codec.encode a)) := by
  rw [overwrite_eq, if_neg (Nat.not_lt.2 h)]

/-- A buffer becomes the blob that is made anew, or none when there is no such blob. -/
theorem encodeOver_eq (buffer : Bytes) (a : α) : encodeOver buffer a = encode a := by
  rw [encodeOver, overwrite_eq, encode]
  split <;> rfl

/-- What has no length declares that it has none. -/
theorem declaredLen_unsealed (record : Bytes) :
    declaredLen (unsealed record) = .error (.blobTooSmall 0) := by
  have htake : (unsealed record).take headerLen = List.replicate headerLen 0 := by
    rw [unsealed, List.take_left' List.length_replicate]
  have hfront : frontWord (unsealed record) = .ok 0 := by
    rw [frontWord, if_pos (by rw [length_unsealed, totalLen]; omega), htake]
    rfl
  rw [declaredLen, hfront]
  rfl

/-- It does not decode, over any value. -/
theorem decodeInto_unsealed (old : α) (record : Bytes) :
    decodeInto old (unsealed record) = (.error (.blobTooSmall 0), old) := by
  rw [decodeInto, body, declaredLen_unsealed]
  rfl

/-- The body of a framed record is the record. -/
theorem body_framed {record : Bytes} (h : totalLen record < wordLimit) :
    body (framed record) = .ok record := by
  have hlen := length_framed record
  have htake : (framed record).take headerLen = BigEndian.encode headerLen (totalLen record) := by
    rw [framed, List.take_left' (BigEndian.length_encode _ _)]
  have hfront : frontWord (framed record) = .ok (totalLen record) := by
    rw [frontWord, if_pos (by rw [hlen, totalLen]; omega), htake, BigEndian.decode_encode]
    exact congrArg Except.ok (Nat.mod_eq_of_lt h)
  have hdeclared : declaredLen (framed record) = .ok (totalLen record) := by
    rw [declaredLen, hfront]
    show (if totalLen record < headerLen then _ else _ : Except Corruption Nat) = _
    rw [if_neg (by rw [totalLen]; omega)]
    rfl
  rw [body, hdeclared]
  show (if totalLen record = (framed record).length then _ else _ : Except Corruption Bytes) = _
  rw [if_pos hlen.symm, framed, List.drop_left' (BigEndian.length_encode _ _)]
  rfl

/-- A blob decodes over a value when its record does, to the end. -/
theorem decodeInto_eq_ok_iff {old w : α} {blob : Bytes} : decodeInto old blob = (.ok (), w) ↔
    ∃ record, body blob = .ok record ∧ Codec.decodeInto old record = ⟨.ok (), w, []⟩ := by
  unfold decodeInto
  cases body blob with
  | error e => exact iff_of_false nofun nofun
  | ok record =>
    simp only [Except.ok.injEq, exists_eq_left']
    cases Codec.decodeInto old record with
    | mk outcome target rest =>
      cases outcome with
      | error e => exact iff_of_false nofun nofun
      | ok _ =>
        simp only [Prod.mk.injEq, Refill.mk.injEq, true_and, Decoder.run_finish_eq_ok]
        exact and_comm

theorem decode_eq_ok_iff {v : α} {blob : Bytes} : (decode blob : Except Corruption α) = .ok v ↔
    ∃ record, body blob = .ok record ∧ Codec.decode.run record = (.ok v, []) := by
  unfold decode
  simp only [bind_eq_ok_iff, Decoder.complete_eq_ok_iff]

/-- **A vertex is read back from its blob**, whatever it is read over. -/
theorem decodeInto_framed [LawfulId I] [LawfulCodec V] [LawfulCodec E] {v : Vertex I V E}
    (h : v.Storable) (old : Vertex I V E) :
    ∃ w, decodeInto old (framed v.encode) = (.ok (), w) ∧ w.Alike v := by
  have hlen : v.encode.length < wordLimit := by
    have hfits := h.fits
    rw [totalLen] at hfits
    omega
  obtain ⟨w, hdecode, halike⟩ := Vertex.decodeInto_encode h.lawful hlen old []
  rw [List.append_nil] at hdecode
  refine ⟨w, ?_, halike⟩
  have hrefill : (Codec.decodeInto old v.encode : Refill (Vertex I V E)) = ⟨.ok (), w, []⟩ :=
    hdecode
  rw [decodeInto, body_framed h.fits]
  dsimp only
  rw [hrefill]
  rfl

end Blob

/-! ## Records

A record is a vertex, or a blob of one. What it holds does not depend on which of them it is. -/

namespace Record

/-- The record keeps this vertex. -/
def IsOf (v : Vertex I V E) : Record I V E → Prop
  | blob bytes => bytes = Blob.framed v.encode
  | vertex w => w = v

/-- The record keeps a vertex of this id that says this. -/
def Holds (r : Record I V E) (id : I) (d : VertexData I V E) : Prop :=
  ∃ v, r.IsOf v ∧ v.Storable ∧ v.id = id ∧ v.data = d

theorem IsOf.toBlob {r : Record I V E} {v : Vertex I V E} (h : r.IsOf v) (hv : v.Storable) :
    r.toBlob = .ok (Blob.framed v.encode) := by
  cases r with
  | blob bytes => exact congrArg Except.ok h
  | vertex w =>
    cases h
    exact Blob.encode_eq hv.fits

/-- **What a record holds is brought into any scratch vertex.** -/
theorem Holds.load [LawfulId I] [LawfulCodec V] [LawfulCodec E] {r : Record I V E} {id : I}
    {d : VertexData I V E} (h : r.Holds id d) (scratch : Vertex I V E) :
    ∃ w, r.load scratch = (.ok (), w) ∧ w.Storable ∧ w.id = id ∧ w.data = d := by
  obtain ⟨v, hof, hv, rfl, rfl⟩ := h
  cases r with
  | blob bytes =>
    cases hof
    obtain ⟨w, hdecode, halike⟩ := Blob.decodeInto_framed hv scratch
    exact ⟨w, hdecode, halike.storable hv, halike.id, halike.data_eq hv.lawful⟩
  | vertex w =>
    cases hof
    exact ⟨v, rfl, hv, rfl, rfl⟩

end Record

end Superstep
