import Superstep.Proofs.Layouts

/-!
# Superstep — what can be read was written

A record that a decoder accepts is the encoded form of a vertex, byte for byte: every field has
one encoded form, and a section repeats no target. So a blob that decodes is the blob of a vertex
that can be stored (**`Blob.of_decodeInto`**), and the encoded form tells vertices apart by
everything that they say (**`Vertex.data_eq_of_encode_eq`**).
-/

namespace Superstep

variable {I V E : Type} [VertexId I] [Value V] [Value E]

/-- A blob that is decoded as a vertex of its own is decoded over a blank one. -/
theorem Blob.decodeInto_of_decode {blob : Bytes} {v : Vertex I V E} (h : Blob.decode blob = .ok v) :
    (Blob.decodeInto (Vertex.blank default : Vertex I V E) blob).1 = .ok () := by
  obtain ⟨record, hbody, hread⟩ := decode_eq_ok_iff.1 h
  rw [decodeInto_eq_ok_iff.2 ⟨record, hbody, Vertex.run_decode_eq_ok.1 hread⟩]

variable [LawfulId I] [LawfulCodec V] [LawfulCodec E]

namespace Vertex

variable [LawfulRefill I] [LawfulRefill V]

/-- A vertex is read field by field, each off what the one before left. -/
theorem fields_of_decodeInto {old : Vertex I V E} {input : Bytes}
    (h : (old.decodeInto input).outcome = .ok ()) :
    ∃ (w : Vertex I V E) (pairs : List (I × E)) (middle rest : Bytes),
      old.decodeInto input = ⟨.ok (), w, rest⟩ ∧ (Codec.decode.run input).1 = .ok w.id
        ∧ input = Codec.encode w.id ++ Codec.encode w.value ++ middle
        ∧ Section.Holds middle pairs (Codec.encode w.halted ++ rest)
        ∧ old.edges.decodeInto middle = ⟨.ok (), w.edges, Codec.encode w.halted ++ rest⟩ := by
  obtain ⟨front, middle, back, hid, hvalue, hedges, hhalted⟩ :=
    decodeInto_eq_ok_iff.1 (Refill.eq_of_outcome h)
  -- each field was read over an old one, and its bytes are those it is encoded in
  obtain ⟨hrun, hinput⟩ := LawfulRefill.of_eq_ok hid
  obtain ⟨-, hfront⟩ := LawfulRefill.of_eq_ok hvalue
  obtain ⟨-, hback⟩ := LawfulRefill.of_eq_ok hhalted
  obtain ⟨pairs, hholds⟩ := Edges.holds_of_decodeInto (congrArg Refill.outcome hedges)
  rw [hedges] at hholds
  rw [hback] at hholds hedges
  refine ⟨(old.decodeInto input).target, pairs, middle, _, Refill.eq_of_outcome h,
    congrArg Prod.fst hrun, hinput.trans ?_, hholds, hedges⟩
  rw [hfront, List.append_assoc]

/-- **What is read as a vertex is the encoded form of one.** Its edges are listed in the order in
which they were read. -/
theorem of_decodeInto {old : Vertex I V E} {input : Bytes}
    (h : (old.decodeInto input).outcome = .ok ()) : ∃ v : Vertex I V E, v.edges.Lawful
      ∧ input = v.encode ++ (old.decodeInto input).rest
      ∧ (Codec.decode.run input).1 = .ok v.id ∧ (old.decodeInto input).target.id = v.id := by
  obtain ⟨w, pairs, _, rest, hdecode, hid, hinput, hholds, _⟩ := fields_of_decodeInto h
  have hnodup := hholds.nodup
  rw [hdecode]
  refine ⟨⟨w.id, w.value, .hashed ⟨pairs, hnodup⟩, w.halted⟩, trivial, ?_, hid, rfl⟩
  rw [hinput, hholds.bytes]
  simp only [encode, List.append_assoc]
  rfl

end Vertex

/-- **The encoded form says everything that a vertex says.** One of the two may have its edges out
of order. -/
theorem Vertex.data_eq_of_encode_eq {v w : Vertex I V E} (hv : v.Storable) (hw : w.edges.Kept)
    (hfew : w.edges.count < wordLimit) (heq : w.encode = v.encode) :
    w.id = v.id ∧ w.data = v.data := by
  have hlen : v.encode.length < wordLimit := by
    have hfits := hv.fits
    rw [Blob.totalLen] at hfits
    omega
  have hlen' : w.encode.length < wordLimit := heq ▸ hlen
  have hbytes : v.encode = Codec.encode v.id ++ (Codec.encode v.value
      ++ (Section.encode v.edges.toList ++ Codec.encode v.halted)) := by
    simp only [encode, Edges.encode_eq hv.lawful, List.append_assoc]
  have hbytes' : w.encode = Codec.encode w.id ++ (Codec.encode w.value
      ++ (Section.encode w.edges.toList ++ Codec.encode w.halted)) := by
    simp only [encode, hw.encode_eq, List.append_assoc]
  rw [hbytes] at hlen heq
  rw [hbytes'] at hlen' heq
  simp only [List.length_append] at hlen hlen'
  obtain ⟨hid, heq⟩ := LawfulCodec.append_inj (by omega) (by omega) heq
  obtain ⟨hvalue, heq⟩ := LawfulCodec.append_inj (by omega) (by omega) heq
  -- the sections are those of the two lists of edges
  have hpairs : (Section.encodePairs v.edges.toList).length < wordLimit := by
    rw [Section.encode, List.length_append] at hlen
    omega
  have hpairs' : (Section.encodePairs w.edges.toList).length < wordLimit := by
    rw [Section.encode, List.length_append] at hlen'
    omega
  rw [hw.count_eq] at hfew
  obtain ⟨hedges, heq⟩ := Section.encode_inj (Section.readable_of_lt hpairs') hfew
    (Section.readable_of_lt hpairs) (Section.length_lt (Edges.nodup_toList hv.lawful) hpairs) heq
  have hhalted : Codec.encode w.halted ++ [] = Codec.encode v.halted ++ [] := by rw [heq]
  obtain ⟨hhalted, _⟩ := LawfulCodec.append_inj (by omega) (by omega) hhalted
  refine ⟨hid, ?_⟩
  rw [data, data, hvalue, hhalted, Edges.mapping, Edges.mapping, hedges]

namespace Blob

/-- A blob that declares its length is its record behind that length. -/
theorem of_body {blob record : Bytes} (h : body blob = .ok record) :
    totalLen record < wordLimit ∧ blob = framed record := by
  unfold body declaredLen frontWord at h
  simp only [bind, Except.bind, pure, Except.pure] at h
  split at h
  · cases h
  · next size hsize =>
    split at hsize
    · cases hsize
    · next word hword =>
      split at hsize
      · cases hsize
      · split at hword
        · next hlong =>
          cases hsize
          cases hword
          split at h
          · next hlength =>
            cases h
            -- what is declared is there, so that the four bytes in front spell the length of the
            -- whole
            have htotal : totalLen (blob.drop headerLen) = blob.length := by
              rw [totalLen, List.length_drop]
              omega
            have hfront : (blob.take headerLen).length = headerLen := List.length_take_of_le hlong
            have hlt := BigEndian.decode_lt (blob.take headerLen)
            rw [hlength, hfront] at hlt
            have hbytes := BigEndian.encode_decode (blob.take headerLen)
            rw [hlength, hfront] at hbytes
            refine ⟨htotal ▸ hlt, ?_⟩
            rw [framed, htotal, hbytes, List.take_append_drop]
          · cases h
        · cases hword

variable [LawfulRefill I] [LawfulRefill V]

/-- **A blob that decodes is the blob of a vertex.** -/
theorem of_decodeInto {old : Vertex I V E} {blob : Bytes}
    (h : (decodeInto old blob).1 = .ok ()) : ∃ v : Vertex I V E, v.Storable
      ∧ blob = framed v.encode ∧ (decodeInto old blob).2.id = v.id
      ∧ (decodeInto old blob).2.edges.Lawful := by
  obtain ⟨record, hbody, hdecode⟩ := decodeInto_eq_ok_iff.1 (Prod.ext h rfl)
  obtain ⟨hfits, hblob⟩ := of_body hbody
  have hread : old.decodeInto record = ⟨.ok (), (decodeInto old blob).2, []⟩ := hdecode
  have hlawful := Vertex.lawful_decodeInto (congrArg Refill.outcome hread)
  obtain ⟨v, hv, hrecord, -, hid⟩ := Vertex.of_decodeInto (congrArg Refill.outcome hread)
  rw [hread] at hlawful hrecord hid
  rw [List.append_nil] at hrecord
  subst hrecord
  exact ⟨v, ⟨hv, hfits⟩, hblob, hid, hlawful⟩

/-- A record can be told from its blob. -/
theorem framed_inj {record record' : Bytes} (h : totalLen record < wordLimit)
    (h' : totalLen record' < wordLimit) (heq : framed record = framed record') :
    record = record' := by
  have hbody := body_framed h
  rw [heq, body_framed h'] at hbody
  exact (Except.ok.inj hbody).symm

end Blob

end Superstep
