import Superstep.Message.Request
import Superstep.Proofs.Sections

/-!
# Superstep — message payloads

A batch is read twice: once when it arrives, by a decoder that checks it and throws the pairs away,
and once when its messages are delivered, by an iterator that ends at what it cannot read. Both go
through the same pairs (`Batch.Packs`), so what was checked is delivered to its end.

* **`Batch.Packs.yields`** — the iterator yields every pair and then nothing more;
* **`Batch.exists_packs_of_check`** — what the check accepts is packed pairs, those of no bytes
  included;
* **`Request.decode_messages_eq_ok_iff`** — which payloads are accepted;
* **`Request.payload_format`** — payloads there and back.
-/

namespace Superstep

variable {I M : Type}

namespace Batch

/-- The count and the length fit their fields. -/
structure Fits (b : Batch I M) : Prop where
  count : b.count < wordLimit
  bytes : b.bytes.length < wordLimit

def packed (b : Batch I M) : Bytes :=
  BigEndian.encode 4 b.count ++ (BigEndian.encode 4 b.bytes.length ++ b.bytes)

theorem encode_eq_ok_iff {b : Batch I M} {bytes : Bytes} :
    b.encode = .ok bytes ↔ b.Fits ∧ bytes = b.packed := by
  unfold encode
  split
  · next hmany => exact iff_of_false (fun h => by cases h) fun h => by have := h.1.count; omega
  · split
    · next hlong => exact iff_of_false (fun h => by cases h) fun h => by have := h.1.bytes; omega
    · next hfew hshort =>
      rw [Except.ok.injEq, List.append_assoc, eq_comm]
      exact (and_iff_right ⟨by omega, by omega⟩).symm

variable [VertexId I] [Value M]

/-- The batch is these pairs in this order, and each of them can be read. -/
structure Packs (b : Batch I M) (pairs : List (I × M)) : Prop where
  count : b.count = pairs.length
  bytes : b.bytes = Section.encodePairs pairs
  readable : Section.Readable pairs

/-! ## Packing

A batch that messages were added to is their pairs one after another, with their number in front. -/

theorem foldl_add (b : Batch I M) (pairs : List (I × M)) :
    pairs.foldl (fun b p => b.add p.1 p.2) b
      = ⟨b.count + pairs.length, b.bytes ++ Section.encodePairs pairs⟩ := by
  induction pairs generalizing b with
  | nil => simp [Section.encodePairs]
  | cons p pairs ih =>
    rw [List.foldl_cons, ih, add, Section.encodePairs_cons, Section.encodePair, List.length_cons]
    simp only [List.append_assoc, Nat.add_assoc, Nat.add_comm 1]

theorem ofList_eq (pairs : List (I × M)) :
    ofList pairs = ⟨pairs.length, Section.encodePairs pairs⟩ := by
  rw [ofList, foldl_add]
  simp [empty]

/-- **Adding packs.** -/
theorem packs_ofList_of_readable {pairs : List (I × M)} (h : Section.Readable pairs) :
    (ofList pairs).Packs pairs := by
  rw [ofList_eq]
  exact ⟨rfl, rfl, h⟩

/-- The pairs of a batch that is short enough can be read again. -/
theorem packs_ofList [LawfulId I] [LawfulCodec M] {pairs : List (I × M)}
    (h : (ofList pairs).bytes.length < wordLimit) : (ofList pairs).Packs pairs := by
  rw [ofList_eq] at h
  exact packs_ofList_of_readable (Section.readable_of_lt h)

/-! ## Iterating

The iterator reads a pair at a time. It ends where the number says, or where a pair cannot be
read. -/

/-- Asking again and again gives these pairs, and then nothing more however often. -/
inductive Unread.Yields : Unread → List (I × M) → Prop
  | ended {u : Unread} (h : u.next (I := I) (M := M) = (none, u)) : Yields u []
  | more {u later : Unread} {p : I × M} {pairs : List (I × M)} (h : u.next = (some p, later))
    (hlater : Yields later pairs) : Yields u (p :: pairs)

theorem yields_of_readable {pairs : List (I × M)} (h : Section.Readable pairs) :
    Unread.Yields ⟨pairs.length, Section.encodePairs pairs⟩ pairs := by
  induction pairs with
  | nil => exact .ended rfl
  | cons p pairs ih =>
    have hpair : (pair (I := I) (M := M)).run (Section.encodePairs (p :: pairs))
        = (.ok p, Section.encodePairs pairs) :=
      h p List.mem_cons_self (Section.encodePairs pairs)
    refine .more ?_ (ih h.tail)
    rw [Unread.next]
    dsimp only [List.length_cons]
    rw [hpair]

variable {b : Batch I M} {pairs : List (I × M)}

/-- **What is packed is delivered** to its end. -/
theorem Packs.yields (h : b.Packs pairs) : b.unread.Yields pairs := by
  rw [unread, h.count, h.bytes]
  exact yields_of_readable h.readable

/-- So the list of what it yields is the pairs. -/
theorem Packs.toList_eq (h : b.Packs pairs) : b.toList = pairs := by
  have hscan := Section.scan_encodePairs h.readable []
  rw [List.append_nil, ← h.count, ← h.bytes] at hscan
  exact hscan

/-! ## Checking

The check skips over as many pairs as the number says. A pair that takes no bytes is skipped as
often as the number says without another look, so the number is not bounded by the bytes. -/

/-- Packed pairs pass the check. -/
theorem Packs.check (h : b.Packs pairs) : ((check I M b.count).run b.bytes).1 = .ok () := by
  have hskip : ((pair (I := I) (M := M)).skip pairs.length).run (Section.encodePairs pairs ++ [])
      = (.ok (), []) := Reads.skip h.readable []
  rw [List.append_nil, ← h.count, ← h.bytes] at hskip
  rw [Batch.check, Decoder.run_bind, hskip]
  exact Decoder.run_finish_eq_ok.2 rfl

/-- What is skipped could have been read. -/
theorem of_skip [LawfulId I] [LawfulCodec M] {n : Nat} {input rest : Bytes}
    (h : ((pair (I := I) (M := M)).skip n).run input = (.ok (), rest)) :
    ∃ pairs : List (I × M), pairs.length = n ∧ Section.Readable pairs
      ∧ input = Section.encodePairs pairs ++ rest := by
  -- on the number of pairs, with whatever input is left for them
  induction n generalizing input with
  | zero =>
    obtain ⟨_, rfl⟩ := Decoder.run_pure_eq_ok.1 h
    exact ⟨[], rfl, fun _ hmem => (by cases hmem), rfl⟩
  | succ n ih =>
    rw [Decoder.run_skip_succ] at h
    split at h
    · cases h
    · next p middle hpair =>
      obtain ⟨hinput, hreads⟩ := Section.of_pair hpair
      split at h
      -- a pair of no bytes stands for all the others
      · next hidle =>
        obtain rfl := hidle
        cases h
        have hnil : Section.encodePair p = [] := List.append_left_eq_self.1 hinput.symm
        refine ⟨List.replicate (n + 1) p, List.length_replicate, ?_, ?_⟩
        · intro other hother
          rw [List.eq_of_mem_replicate hother]
          exact hreads
        · have hnone : Section.encodePairs (List.replicate (n + 1) p) = [] := by
            rw [Section.encodePairs, List.flatMap_eq_nil_iff]
            intro other hother
            rw [List.eq_of_mem_replicate hother, hnil]
          rw [hnone, List.nil_append]
      · obtain ⟨pairs, hlength, hreadable, hmiddle⟩ := ih h
        refine ⟨p :: pairs, by rw [List.length_cons, hlength], hreadable.cons hreads, ?_⟩
        rw [hinput, hmiddle, Section.encodePairs_cons, List.append_assoc]

/-- **What the check accepts is packed pairs.** -/
theorem exists_packs_of_check [LawfulId I] [LawfulCodec M] {count : Nat} {bytes : Bytes}
    (h : ((check I M count).run bytes).1 = .ok ()) :
    ∃ pairs, (⟨count, bytes⟩ : Batch I M).Packs pairs := by
  obtain ⟨_, rest, hskip, hfinish⟩ := Decoder.run_bind_eq_ok.1 (Prod.ext h rfl)
  obtain rfl := Decoder.run_finish_eq_ok.1 (congrArg Prod.fst hfinish)
  obtain ⟨pairs, hlength, hreadable, hbytes⟩ := of_skip hskip
  rw [List.append_nil] at hbytes
  exact ⟨pairs, hlength.symm, hbytes, hreadable⟩

/-! ## Encoding and decoding

A payload is a number of parts, and each part is an id and a batch, which begins with its count and
its length. Reading it back is reading each of them back. -/

/-- The batch can be sent: its lengths fit, and its bytes are packed pairs. -/
structure Sendable (b : Batch I M) : Prop where
  fits : b.Fits
  packs : ∃ pairs, b.Packs pairs

/-- The bytes of a batch, checked against its count. -/
def checked (I M : Type) [VertexId I] [Value M] (count : Nat) (bytes : Bytes) :
    Decoder (Batch I M) := do
  Decoder.ofExcept ((check I M count).run bytes).1
  return ⟨count, bytes⟩

/-- A batch is read where it was written, and no further. -/
theorem Sendable.reads_decode (h : b.Sendable) : Reads decode b.packed b := by
  obtain ⟨pairs, hpacks⟩ := h.packs
  have hchecked : Reads (checked I M b.count b.bytes) [] b :=
    (Reads.ofExcept hpacks.check).bind (Reads.pure b)
  have hbytes := Reads.prefixed h.fits.bytes hchecked
  rw [List.append_nil] at hbytes
  exact (Reads.word_of_lt h.fits.count).bind hbytes

/-- What is read as a batch is its encoding. -/
theorem of_decode [LawfulId I] [LawfulCodec M] {input rest : Bytes}
    (h : decode.run input = (.ok b, rest)) : input = b.packed ++ rest ∧ b.Sendable := by
  obtain ⟨count, middle, hcount, h⟩ := Decoder.run_bind_eq_ok.1 h
  obtain ⟨bytes, left, hlen, hmiddle, h⟩ :=
    (Decoder.run_prefixed_eq_ok (f := checked I M count)).1 h
  obtain ⟨hfew, hinput⟩ := Decoder.run_word_eq_ok.1 hcount
  obtain ⟨_, _, hcheck, h⟩ := Decoder.run_bind_eq_ok.1 h
  obtain ⟨haccepted, rfl⟩ := Decoder.run_ofExcept_eq_ok.1 hcheck
  obtain ⟨rfl, rfl⟩ := Decoder.run_pure_eq_ok.1 h
  refine ⟨?_, ⟨hfew, hlen⟩, exists_packs_of_check haccepted⟩
  rw [hinput, hmiddle, packed]
  simp only [List.append_assoc]

end Batch

namespace Request

def partBytes (part : PartitionId × Batch I M) : Bytes :=
  BigEndian.encode 4 part.1.val.toNat ++ part.2.packed

theorem encodePart_eq_ok_iff {part : PartitionId × Batch I M} {bytes : Bytes} :
    encodePart part = .ok bytes ↔ part.2.Fits ∧ bytes = partBytes part := by
  rw [encodePart, bind_eq_ok_iff]
  constructor
  · rintro ⟨batch, hbatch, ⟨⟩⟩
    obtain ⟨hfits, rfl⟩ := Batch.encode_eq_ok_iff.1 hbatch
    exact ⟨hfits, rfl⟩
  · rintro ⟨hfits, rfl⟩
    exact ⟨_, Batch.encode_eq_ok_iff.2 ⟨hfits, rfl⟩, rfl⟩

theorem mapM_encodePart_eq_ok_iff {parts : List (PartitionId × Batch I M)} {encoded : List Bytes} :
    parts.mapM encodePart = .ok encoded
      ↔ (∀ part ∈ parts, part.2.Fits) ∧ encoded = parts.map partBytes := by
  induction parts generalizing encoded with
  | nil => simp [Pure.pure, Except.pure, eq_comm]
  | cons part parts ih =>
    rw [List.mapM_cons, bind_eq_ok_iff, List.forall_mem_cons]
    constructor
    · rintro ⟨_, hpart, hlater⟩
      obtain ⟨_, hparts, ⟨⟩⟩ := bind_eq_ok_iff.1 hlater
      obtain ⟨hfits, rfl⟩ := encodePart_eq_ok_iff.1 hpart
      obtain ⟨hall, rfl⟩ := ih.1 hparts
      exact ⟨⟨hfits, hall⟩, rfl⟩
    · rintro ⟨⟨hfits, hall⟩, rfl⟩
      have hparts := ih.2 ⟨hall, rfl⟩
      exact ⟨_, encodePart_eq_ok_iff.2 ⟨hfits, rfl⟩, bind_eq_ok_iff.2 ⟨_, hparts, rfl⟩⟩

theorem encode_messages_eq_ok_iff {parts : List (PartitionId × Batch I M)} {payload : Bytes} :
    encode (.messages parts) = .ok payload ↔ parts.length < wordLimit
      ∧ (∀ part ∈ parts, part.2.Fits)
      ∧ payload = BigEndian.encode 4 parts.length ++ parts.flatMap partBytes := by
  rw [encode]
  split
  · next hmany => exact iff_of_false (fun h => by cases h) fun h => absurd h.1 (by omega)
  · next hfew =>
    dsimp only
    rw [bind_eq_ok_iff, List.flatMap_def]
    constructor
    · rintro ⟨_, hencoded, ⟨⟩⟩
      obtain ⟨hall, rfl⟩ := mapM_encodePart_eq_ok_iff.1 hencoded
      exact ⟨by omega, hall, rfl⟩
    · rintro ⟨_, hall, rfl⟩
      exact ⟨_, mapM_encodePart_eq_ok_iff.2 ⟨hall, rfl⟩, rfl⟩

theorem minPartLen_le (parts : List (PartitionId × Batch I M)) :
    parts.length * minPartLen ≤ (parts.flatMap partBytes).length := by
  refine Reads.mul_le_length_flatMap fun part _ => ?_
  simp only [partBytes, Batch.packed, List.length_append, BigEndian.length_encode, minPartLen]
  omega

variable [VertexId I] [Value M]

/-- Parts are read where they were written. -/
theorem reads_decodeParts {parts : List (PartitionId × Batch I M)}
    (h : ∀ part ∈ parts, part.2.Sendable) :
    Reads (decodeParts parts.length) (parts.flatMap partBytes) parts := by
  induction parts with
  | nil => exact Reads.pure []
  | cons part parts ih =>
    have hbatch := (h part List.mem_cons_self).reads_decode
    have hlater := (ih fun part hpart => h part (List.mem_cons_of_mem _ hpart)).map
      fun later => (part.1, part.2) :: later
    rw [List.flatMap_cons, partBytes, List.append_assoc]
    exact (Reads.word32 part.1.val).bind (hbatch.bind hlater)

/-- What is read as parts is their encoding. -/
theorem of_decodeParts [LawfulId I] [LawfulCodec M] {n : Nat} {input rest : Bytes}
    {parts : List (PartitionId × Batch I M)} (h : (decodeParts n).run input = (.ok parts, rest)) :
    parts.length = n ∧ input = parts.flatMap partBytes ++ rest
      ∧ ∀ part ∈ parts, part.2.Sendable := by
  induction n generalizing input parts with
  | zero =>
    obtain ⟨rfl, rfl⟩ := Decoder.run_pure_eq_ok.1 h
    exact ⟨rfl, rfl, fun _ hmem => (by cases hmem)⟩
  | succ n ih =>
    obtain ⟨id, _, hid, h⟩ := Decoder.run_bind_eq_ok.1 h
    obtain ⟨batch, _, hbatch, h⟩ := Decoder.run_bind_eq_ok.1 h
    obtain ⟨later, _, hlater, h⟩ := Decoder.run_bind_eq_ok.1 h
    obtain ⟨rfl, rfl⟩ := Decoder.run_pure_eq_ok.1 h
    -- the first part was encoded so, and so were the others
    obtain ⟨hlength, hleft, hothers⟩ := ih hlater
    obtain ⟨hmiddle, hsendable⟩ := Batch.of_decode hbatch
    refine ⟨congrArg (· + 1) hlength, ?_, ?_⟩
    · rw [Decoder.run_word32_eq_ok.1 hid, hmiddle, hleft, List.flatMap_cons, partBytes]
      simp only [List.append_assoc]
    · intro part hmem
      rcases List.mem_cons.1 hmem with rfl | hmem
      · exact hsendable
      · exact hothers part hmem

/-- **What is accepted** as messages is what can be sent. -/
theorem decode_messages_eq_ok_iff [LawfulId I] [LawfulCodec M] {payload : Bytes}
    {request : Request I M} :
    decode .sendWorkerMessages payload = .ok request ↔ ∃ parts, request = .messages parts
      ∧ parts.length < wordLimit ∧ (∀ part ∈ parts, part.2.Sendable)
      ∧ payload = BigEndian.encode 4 parts.length ++ parts.flatMap partBytes := by
  rw [decode, Decoder.complete_eq_ok_iff]
  constructor
  · intro h
    obtain ⟨count, _, hcount, h⟩ := Decoder.run_bind_eq_ok.1 h
    obtain ⟨parts, _, hparts, h⟩ := Decoder.run_bind_eq_ok.1 h
    obtain ⟨rfl, rfl⟩ := Decoder.run_pure_eq_ok.1 h
    obtain ⟨hfew, rfl, _⟩ := Decoder.run_lengthPrefix_eq_ok.1 hcount
    obtain ⟨rfl, hbody, hsendable⟩ := of_decodeParts hparts
    exact ⟨parts, rfl, hfew, hsendable, by rw [hbody, List.append_nil]⟩
  · rintro ⟨parts, rfl, hfew, hsendable, rfl⟩
    have hparts := (reads_decodeParts hsendable).map Request.messages
    have hread := Reads.lengthPrefix
      (f := fun count => do return messages (← decodeParts count)) hfew (minPartLen_le parts)
      hparts []
    rwa [List.append_nil] at hread

/-- **The format of payloads.** Batches that were packed by adding messages, and whose lengths fit,
are read as they were packed, and each yields the messages that were added, in order. What is read
as messages is written as it was read, and each of its batches yields as many messages as it
counts; their encoded forms are the bytes of the batch. -/
theorem payload_format [LawfulId I] [LawfulCodec M] :
    (∀ parts : List (PartitionId × List (I × M)), parts.length < wordLimit →
      (∀ part ∈ parts, (Batch.ofList part.2).Fits) →
      let request : Request I M := .messages (parts.map fun part => (part.1, .ofList part.2))
      (∃ payload, request.encode = .ok payload
          ∧ decode .sendWorkerMessages payload = .ok request)
        ∧ ∀ part ∈ parts, (Batch.ofList part.2).unread.Yields part.2
          ∧ (Batch.ofList part.2).toList = part.2)
    ∧ (∀ (payload : Bytes) (request : Request I M),
      decode .sendWorkerMessages payload = .ok request →
      request.encode = .ok payload ∧ ∃ parts, request = .messages parts ∧ ∀ part ∈ parts,
        ∃ pairs : List (I × M), part.2.unread.Yields pairs ∧ part.2.toList = pairs
          ∧ pairs.length = part.2.count ∧ Section.encodePairs pairs = part.2.bytes) := by
  constructor
  · intro parts hfew hfits request
    -- what was added is what is packed, since the bytes fit
    have hpacks : ∀ part ∈ parts, (Batch.ofList part.2).Packs part.2 :=
      fun part hpart => Batch.packs_ofList (hfits part hpart).bytes
    have hsendable : ∀ part ∈ parts.map fun part => (part.1, Batch.ofList part.2),
        part.2.Sendable := by
      intro part hmem
      obtain ⟨part, hpart, rfl⟩ := List.mem_map.1 hmem
      exact ⟨hfits part hpart, part.2, hpacks part hpart⟩
    have hfew' : (parts.map fun part => (part.1, Batch.ofList part.2)).length < wordLimit := by
      rwa [List.length_map]
    have hencode := encode_messages_eq_ok_iff.2
      ⟨hfew', fun part hpart => (hsendable part hpart).fits, rfl⟩
    have hdecode := decode_messages_eq_ok_iff.2 ⟨_, rfl, hfew', hsendable, rfl⟩
    refine ⟨⟨_, hencode, hdecode⟩, fun part hpart => ?_⟩
    exact ⟨(hpacks part hpart).yields, (hpacks part hpart).toList_eq⟩
  · intro payload request h
    obtain ⟨parts, rfl, hfew, hsendable, hpayload⟩ := decode_messages_eq_ok_iff.1 h
    refine ⟨encode_messages_eq_ok_iff.2
      ⟨hfew, fun part hpart => (hsendable part hpart).fits, hpayload⟩, parts, rfl, ?_⟩
    intro part hpart
    obtain ⟨pairs, hpacks⟩ := (hsendable part hpart).packs
    exact ⟨pairs, hpacks.yields, hpacks.toList_eq, hpacks.count.symm, hpacks.bytes.symm⟩

def greetings : List (UInt64 × UInt64) := [(7, 70), (5, 50), (7, 71)]

theorem payload_format_greetings :
    let parts := [((⟨4⟩ : PartitionId), greetings), (⟨4⟩, [])]
    let request : Request UInt64 UInt64 :=
      .messages (parts.map fun part => (part.1, .ofList part.2))
    (∀ part ∈ parts, (Batch.ofList part.2).Fits)
      ∧ (Batch.ofList greetings).unread.Yields greetings
      ∧ ∃ payload, request.encode = .ok payload
        ∧ decode .sendWorkerMessages payload = .ok request
        ∧ ∃ parts', request = .messages parts' ∧ ∀ part ∈ parts',
          ∃ pairs : List (UInt64 × UInt64), part.2.unread.Yields pairs ∧ part.2.toList = pairs
            ∧ pairs.length = part.2.count ∧ Section.encodePairs pairs = part.2.bytes := by
  intro parts request
  obtain ⟨hthere, hback⟩ := payload_format (I := UInt64) (M := UInt64)
  have hfits : ∀ part ∈ parts, (Batch.ofList part.2).Fits := by
    intro part hpart
    rcases List.mem_pair.1 hpart with rfl | rfl
    · exact ⟨by decide, by decide +kernel⟩
    · exact ⟨by decide, by decide⟩
  obtain ⟨⟨payload, hencode, hdecode⟩, hyields⟩ := hthere parts (by decide) hfits
  obtain ⟨_, hagain⟩ := hback payload request hdecode
  obtain ⟨hgreetings, _⟩ := hyields _ List.mem_cons_self
  exact ⟨hfits, hgreetings, payload, hencode, hdecode, hagain⟩

end Request

end Superstep
