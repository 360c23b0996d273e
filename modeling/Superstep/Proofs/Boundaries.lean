import Superstep.Proofs.Canonical
import Superstep.Proofs.Cuts
import Superstep.Proofs.Streams

/-!
# Superstep — copiers and decoders find the same boundary

A copier only follows lengths, and a decoder looks at contents and checks counts against what is
left. Yet whatever is copied as a value is enough to decide whether it is one (`Decides`): it is
read as a value or refused for what is in it, and never for want of bytes. Both sides are put
together of the same fields, so that cuts (`Copier.Cuts`) and decisions are carried from the scalars
to sections and vertices in step.

* **`Scalar.instDelimited`**, **`Section.cuts_copy`**, **`Vertex.cuts_copy`** — what is copied
  decides;
* **`Vertex.decode_eq`** — decoding over a blank vertex is decoding field by field;
* **`Vertex.copies_of_decode`** — what is decoded is copied;
* **`sameBoundary_supported`** — both ways, and what becomes of streams that end early.
-/

namespace Superstep

/-! ## Decisions

A decoder that wants more bytes cannot tell what they will be. One that refuses for another reason
would do so whatever comes behind. -/

/-- The input ended too early, or cannot hold what it declares. -/
def Corruption.isShortage : Corruption → Bool
  | overread _ _ => true
  | shortWord _ => true
  | lengthExceeds _ _ => true
  | streamEnded _ _ => true
  | inPartition _ cause => cause.isShortage
  | quoted cause => cause.isShortage
  | _ => false

section Decisions

variable {α β : Type}

/-- `d` refuses `bytes` for what is in them, whatever follows. -/
def Refuses (d : Decoder α) (bytes : Bytes) (cause : Corruption) : Prop :=
  cause.isShortage = false ∧ ∀ rest, (d.run (bytes ++ rest)).1 = .error cause

/-- `d` either reads exactly `bytes` or refuses them, whatever follows. -/
def Decides (d : Decoder α) (bytes : Bytes) : Prop :=
  (∃ a, Reads d bytes a) ∨ ∃ cause, Refuses d bytes cause

namespace Decides

theorem fail {cause : Corruption} (h : cause.isShortage = false) (bytes : Bytes) :
    Decides (Decoder.fail cause : Decoder α) bytes :=
  .inr ⟨cause, h, fun _ => rfl⟩

/-- **Decisions are made field by field**: of the first, and of the others when the first was
read. -/
theorem bind {d : Decoder α} {f : α → Decoder β} {bs cs : Bytes} (hd : Decides d bs)
    (hf : ∀ a, Reads d bs a → Decides (f a) cs) : Decides (d >>= f) (bs ++ cs) := by
  rcases hd with ⟨a, ha⟩ | ⟨cause, hcause, hrefuses⟩
  · rcases hf a ha with ⟨b, hb⟩ | ⟨cause, hcause, hrefuses⟩
    · exact .inl ⟨b, ha.bind hb⟩
    · refine .inr ⟨cause, hcause, fun rest => ?_⟩
      rw [List.append_assoc, Decoder.run_bind, ha]
      exact hrefuses rest
  · refine .inr ⟨cause, hcause, fun rest => ?_⟩
    have hrun := hrefuses (cs ++ rest)
    rw [List.append_assoc, Decoder.run_bind]
    generalize d.run (bs ++ (cs ++ rest)) = run at hrun
    obtain ⟨outcome, left⟩ := run
    cases hrun
    rfl

/-- A check of what was read takes no more bytes. -/
theorem check {d : Decoder α} {f : α → Decoder β} {bytes : Bytes} (hd : Decides d bytes)
    (hf : ∀ a, Decides (f a) []) : Decides (d >>= f) bytes := by
  have h := hd.bind fun a _ => hf a
  rwa [List.append_nil] at h

theorem map {d : Decoder α} {bytes : Bytes} (hd : Decides d bytes) (g : α → β) :
    Decides (do return g (← d)) bytes :=
  hd.check fun a => .inl ⟨g a, .pure (g a)⟩

/-- A count in front of items that take as many bytes as it asks for. -/
theorem lengthPrefix {minItem n : Nat} {f : Nat → Decoder β} {body : Bytes} (hn : n < wordLimit)
    (hlen : n * minItem ≤ body.length) (hf : Decides (f n) body) :
    Decides (Decoder.lengthPrefix minItem >>= f) (BigEndian.encode 4 n ++ body) := by
  rcases hf with ⟨b, hb⟩ | ⟨cause, hcause, hrefuses⟩
  · exact .inl ⟨b, .lengthPrefix hn hlen hb⟩
  · refine .inr ⟨cause, hcause, fun rest => ?_⟩
    have hroom : n * minItem ≤ (body ++ rest).length := by
      rw [List.length_append]
      omega
    rw [List.append_assoc, Decoder.run_bind,
      Decoder.run_lengthPrefix_eq_ok.2 ⟨hn, rfl, hroom⟩]
    exact hrefuses rest

end Decides

end Decisions

/-! ## Codecs

What a copier takes for one value is as long as its lengths say. A decoder given these bytes never
finds them too short, so it accepts them or refuses what is in them. -/

/-- What is copied as a value is enough to decide whether it is one. -/
class Delimited (α : Type) [Codec α] : Prop where
  cuts : (Codec.copy α).Cuts fun bytes _ =>
    Codec.minLen (α := α) ≤ bytes.length ∧ Decides (Codec.decode (α := α)) bytes

theorem Delimited.fixedWidth {α : Type} {width : Nat} {toNat : α → Nat} {ofNat : Nat → α} :
    @Delimited α (Codec.fixedWidth width toNat ofNat) := by
  let _ := Codec.fixedWidth width toNat ofNat
  refine ⟨((Copier.Cuts.exact width).map fun _ => ()).mono ?_⟩
  rintro _ _ ⟨bytes, ⟨rfl, rfl⟩, -⟩
  have hword : Reads (Decoder.word bytes.length) bytes (BigEndian.decode bytes) :=
    (Reads.take bytes).map BigEndian.decode
  exact ⟨Nat.le_refl _, .inl ⟨_, hword.map ofNat⟩⟩

instance : Delimited Bool where
  cuts := by
    refine ((Copier.Cuts.exact 1).map fun _ => ()).mono ?_
    rintro bytes _ ⟨_, ⟨hlength, rfl⟩, -⟩
    obtain ⟨byte, rfl⟩ := List.length_eq_one_iff.1 hlength
    refine ⟨Nat.le_refl _, ?_⟩
    have hbyte : Decides Decoder.byte [byte] := .inl ⟨byte, .byte byte⟩
    refine hbyte.check fun b => ?_
    split
    · exact .inl ⟨false, .pure false⟩
    · split
      · exact .inl ⟨true, .pure true⟩
      · exact .fail rfl []

instance : Delimited Unit where
  cuts := by
    refine (Copier.Cuts.pure ()).mono ?_
    rintro bytes _ ⟨rfl, -⟩
    exact ⟨Nat.le_refl _, .inl ⟨(), .pure ()⟩⟩

/-- Bytes are well-formed or not, without a look behind them. -/
theorem decides_utf8 (bytes : Bytes) : Decides (match Utf8.decode? bytes with
    | some text => pure text
    | none => Decoder.fail .badString : Decoder String) [] := by
  split
  · next text _ => exact .inl ⟨text, .pure text⟩
  · exact .fail rfl []

instance : Delimited String where
  cuts := by
    have hbody : ∀ n, Copier.Cuts (do let _ ← Copier.exact n) fun bytes _ => bytes.length = n := by
      intro n
      refine ((Copier.Cuts.exact n).map fun _ => ()).mono ?_
      rintro bytes _ ⟨_, ⟨hlength, rfl⟩, -⟩
      exact hlength
    refine (Copier.Cuts.word32.bind fun _ n _ => hbody n).mono ?_
    rintro bytes _ ⟨front, body, n, rfl, ⟨hn, rfl⟩, rfl⟩
    refine ⟨?_, .lengthPrefix hn (by rw [Nat.mul_one]) ?_⟩
    · rw [List.length_append, BigEndian.length_encode]
      exact Nat.le_add_right 4 _
    · have htake : Decides (Decoder.take body.length) body := .inl ⟨body, .take body⟩
      exact htake.check decides_utf8

instance Scalar.instDelimited : (s : Scalar) → @Delimited s.Carrier s.instValue.toCodec
  | i8 | i16 | i32 | i64 | u8 | u16 | u32 | u64 | f32 | f64 => .fixedWidth
  | bool => inferInstanceAs (Delimited Bool)
  | unit => inferInstanceAs (Delimited Unit)
  | string => inferInstanceAs (Delimited String)

instance Key.instDelimited : (k : Key) → @Delimited k.Carrier k.instVertexId.toCodec
  | i8 | i16 | i32 | i64 | u8 | u16 | u32 | u64 => .fixedWidth
  | bool => inferInstanceAs (Delimited Bool)
  | unit => inferInstanceAs (Delimited Unit)
  | string => inferInstanceAs (Delimited String)

/-! ## Sections

A section is copied by its number and then pair by pair, and it is read in the same way. A target
that comes twice is refused, and this is a refusal for what is in the bytes. -/

variable {I V E : Type} [VertexId I] [Value V] [Value E]

namespace Section

def copyPair (I E : Type) [VertexId I] [Value E] : Copier Unit := do
  Codec.copy (α := I)
  Codec.copy (α := E)

def gathered (n : Nat) (table : Table I E) : Decoder (Table I E) := fun input =>
  let read := gather n table input
  (read.outcome.map fun _ => read.target, read.rest)

theorem gathered_succ (n : Nat) (table : Table I E) :
    gathered (n + 1) table = pair >>= fun edge =>
      if table.contains edge.1 then Decoder.fail (.duplicateTarget (VertexId.text edge.1))
      else gathered n (table.insert edge.1 edge.2) := by
  funext input
  show (gathered (n + 1) table).run input = (pair >>= _ : Decoder (Table I E)).run input
  rw [Decoder.run_bind, Decoder.run, gathered, gather]
  cases (pair (I := I) (E := E)).run input with
  | mk outcome rest =>
    cases outcome with
    | error e => rfl
    | ok edge =>
      dsimp only
      by_cases hknown : table.contains edge.1 = true
      · rw [if_pos hknown, if_pos hknown]
        rfl
      · rw [if_neg hknown, if_neg hknown]
        rfl

def table : Decoder (Table I E) := count I E >>= fun n => gathered n .empty

theorem run_table (input : Bytes) : (table : Decoder (Table I E)).run input
    = ((Edges.decodeHashed (I := I) (E := E) input).outcome.map fun _ =>
        (Edges.decodeHashed (I := I) (E := E) input).target,
      (Edges.decodeHashed (I := I) (E := E) input).rest) := by
  rw [table, Decoder.run_bind, Edges.decodeHashed]
  cases (count I E).run input with
  | mk outcome rest =>
    cases outcome <;> rfl

/-- What is copied as an edge is enough to decide whether it is one. -/
theorem cuts_copyPair [Delimited I] [Delimited E] : (copyPair I E).Cuts fun bytes _ =>
    pairMinLen I E ≤ bytes.length ∧ Decides (pair (I := I) (E := E)) bytes := by
  refine (Delimited.cuts.bind fun _ _ _ => Delimited.cuts).mono ?_
  rintro bytes _ ⟨front, behind, _, rfl, ⟨hfront, hid⟩, hbehind, hvalue⟩
  constructor
  · rw [List.length_append, pairMinLen]
    omega
  · exact hid.bind fun target _ => hvalue.map fun value => (target, value)

theorem decides_gathered {pieces : List Bytes}
    (h : ∀ piece ∈ pieces, Decides (pair (I := I) (E := E)) piece) (table : Table I E) :
    Decides (gathered pieces.length table) pieces.flatten := by
  induction pieces generalizing table with
  | nil => exact .inl ⟨table, fun _ => rfl⟩
  | cons piece pieces ih =>
    rw [List.length_cons, gathered_succ, List.flatten_cons]
    refine (h piece List.mem_cons_self).bind fun edge _ => ?_
    split
    · exact .fail rfl _
    · exact ih (fun p hp => h p (List.mem_cons_of_mem _ hp)) _

/-- **What is copied as a section** is enough to decide whether it is one: every edge takes as many
bytes as the count asks for. -/
theorem cuts_copy [Delimited I] [Delimited E] : (Section.copy I E).Cuts fun bytes _ =>
    Decides (table : Decoder (Table I E)) bytes := by
  refine (Copier.Cuts.word32.bind fun _ n _ => .times cuts_copyPair n).mono ?_
  rintro bytes _ ⟨front, behind, _, rfl, ⟨hn, rfl⟩, pieces, rfl, rfl, hpieces⟩
  have hroom := Reads.mul_le_length_flatMap fun piece hmem => (hpieces piece hmem).1
  rw [List.flatMap_id'] at hroom
  exact .lengthPrefix hn hroom (decides_gathered (fun piece hmem => (hpieces piece hmem).2) _)

section Copied

variable [LawfulCopy I] [LawfulCopy E]

/-- A pair that is read is copied. -/
theorem copies_of_pair {input rest : Bytes} {edge : I × E} (h : pair.run input = (.ok edge, rest)) :
    Copies (copyPair I E) (encodePair edge) () := by
  obtain ⟨target, middle, htarget, hlater⟩ := Decoder.run_bind_eq_ok.1 h
  obtain ⟨value, left, hvalue, hend⟩ := Decoder.run_bind_eq_ok.1 hlater
  obtain ⟨rfl, rfl⟩ := Decoder.run_pure_eq_ok.1 hend
  exact (LawfulCopy.copies htarget).bind (LawfulCopy.copies hvalue)

variable [LawfulId I] [LawfulCodec E]

theorem copies_of_gathered {n : Nat} {staged read : Table I E} {input rest : Bytes}
    (h : (gathered n staged).run input = (.ok read, rest)) : ∃ pieces : List Bytes,
      pieces.length = n ∧ input = pieces.flatten ++ rest
        ∧ ∀ piece ∈ pieces, Copies (copyPair I E) piece () := by
  induction n generalizing staged input with
  | zero =>
    cases h
    exact ⟨[], rfl, rfl, fun _ hmem => by cases hmem⟩
  | succ n ih =>
    rw [gathered_succ] at h
    obtain ⟨edge, middle, hedge, hlater⟩ := Decoder.run_bind_eq_ok.1 h
    split at hlater
    · cases hlater
    · obtain ⟨pieces, rfl, rfl, hpieces⟩ := ih hlater
      obtain ⟨rfl, -⟩ := of_pair hedge
      refine ⟨encodePair edge :: pieces, rfl, ?_, fun piece hmem => ?_⟩
      · rw [List.flatten_cons, List.append_assoc]
      · rcases List.mem_cons.1 hmem with rfl | hmem
        · exact copies_of_pair hedge
        · exact hpieces piece hmem

/-- A section that is read is copied. -/
theorem copies_of_table {input rest : Bytes} {read : Table I E}
    (h : table.run input = (.ok read, rest)) :
    ∃ bytes, input = bytes ++ rest ∧ Copies (Section.copy I E) bytes () := by
  obtain ⟨n, middle, hcount, hlater⟩ := Decoder.run_bind_eq_ok.1 h
  obtain ⟨hn, rfl, -⟩ := Decoder.run_lengthPrefix_eq_ok.1 hcount
  obtain ⟨pieces, rfl, rfl, hpieces⟩ := copies_of_gathered hlater
  refine ⟨BigEndian.encode 4 pieces.length ++ pieces.flatten, ?_, ?_⟩
  · rw [List.append_assoc]
  · exact (Copies.word32 hn).bind (.times hpieces)

end Copied

end Section

/-! ## Vertices

Decoding a vertex is over an old one, with containers of several kinds. Over a blank one it is one
field after another, and then fields are compared with fields. -/

namespace Vertex

theorem decodeInto_blank (input : Bytes) : (blank default : Vertex I V E).edges.decodeInto input
    = ⟨(Edges.decodeHashed (I := I) (E := E) input).outcome,
      .hashed (Edges.decodeHashed (I := I) (E := E) input).target,
      (Edges.decodeHashed (I := I) (E := E) input).rest⟩ := rfl

/-- **A vertex is decoded field by field.** Decoding over a blank one comes to the same. -/
theorem decode_eq [Oblivious I] [Oblivious V] : (decode : Decoder (Vertex I V E)) =
    Codec.decode >>= fun id => Codec.decode >>= fun value => Section.table >>= fun table =>
      Codec.decode >>= fun halted => pure ⟨id, value, .hashed table, halted⟩ := by
  funext input
  show (decode : Decoder (Vertex I V E)).run input = (Codec.decode >>= _ : Decoder _).run input
  rw [Decoder.run_bind, Decoder.run, decode, decodeInto]
  dsimp only
  rw [Oblivious.decodeInto_eq_ofDecoder (α := I), Refill.ofDecoder]
  -- field by field; an error in one of them ends both sides at the same place
  cases (Codec.decode : Decoder I).run input with
  | mk outcome rest =>
    cases outcome with
    | error e => rfl
    | ok id =>
      dsimp only
      rw [Decoder.run_bind, Oblivious.decodeInto_eq_ofDecoder (α := V), Refill.ofDecoder]
      cases (Codec.decode : Decoder V).run rest with
      | mk outcome rest =>
        cases outcome with
        | error e => rfl
        | ok value =>
          dsimp only
          rw [Decoder.run_bind, Section.run_table, decodeInto_blank]
          generalize Edges.decodeHashed (I := I) (E := E) rest = read
          obtain ⟨outcome, table, rest⟩ := read
          cases outcome with
          | error e => rfl
          | ok _ =>
            dsimp only [Except.map]
            rw [Decoder.run_bind, Oblivious.decodeInto_eq_ofDecoder, Refill.ofDecoder]
            generalize (Codec.decode : Decoder Bool).run rest = read
            obtain ⟨outcome, rest⟩ := read
            cases outcome <;> rfl

/-- **What is copied as a vertex** is enough to decide whether it is one. -/
theorem cuts_copy [Oblivious I] [Oblivious V] [Delimited I] [Delimited V] [Delimited E] :
    (copy I V E).Cuts fun bytes _ => Decides (decode : Decoder (Vertex I V E)) bytes := by
  refine (Delimited.cuts.bind fun _ _ _ => Delimited.cuts.bind fun _ _ _ =>
    Section.cuts_copy.bind fun _ _ _ => Delimited.cuts).mono ?_
  rintro bytes _ ⟨idBytes, _, _, rfl, ⟨-, hid⟩, valueBytes, _, _, rfl, ⟨-, hvalue⟩,
    edgeBytes, flagBytes, _, rfl, hedges, -, hhalted⟩
  rw [decode_eq]
  exact hid.bind fun id _ => hvalue.bind fun value _ => hedges.bind fun table _ => hhalted.map _

/-- **A vertex that is decoded is copied.** -/
theorem copies_of_decode [Oblivious I] [Oblivious V] [LawfulId I] [LawfulCodec V] [LawfulCodec E]
    [LawfulCopy I] [LawfulCopy V] [LawfulCopy E] {input rest : Bytes} {v : Vertex I V E}
    (h : decode.run input = (.ok v, rest)) :
    ∃ bytes, input = bytes ++ rest ∧ Copies (copy I V E) bytes () := by
  rw [decode_eq] at h
  obtain ⟨id, _, hid, hlater⟩ := Decoder.run_bind_eq_ok.1 h
  obtain ⟨value, _, hvalue, hlater⟩ := Decoder.run_bind_eq_ok.1 hlater
  obtain ⟨table, _, hedges, hlater⟩ := Decoder.run_bind_eq_ok.1 hlater
  obtain ⟨halted, _, hhalted, hend⟩ := Decoder.run_bind_eq_ok.1 hlater
  obtain ⟨rfl, rfl⟩ := Decoder.run_pure_eq_ok.1 hend
  obtain ⟨edgeBytes, hmiddle, hcopies⟩ := Section.copies_of_table hedges
  refine ⟨Codec.encode id ++ (Codec.encode value ++ (edgeBytes ++ Codec.encode halted)), ?_, ?_⟩
  · rw [(LawfulCodec.of_decode hid).1, (LawfulCodec.of_decode hvalue).1, hmiddle,
      (LawfulCodec.of_decode hhalted).1]
    simp only [List.append_assoc]
  · exact (LawfulCopy.copies hid).bind ((LawfulCopy.copies hvalue).bind
      (hcopies.bind (LawfulCopy.copies hhalted)))

end Vertex

/-! ## The boundary

A stream may end early. A copier then says that bytes are missing and has taken those that were
there, up to the field that is cut. -/

/-- Copying a value off a stream ends where decoding it ends, whatever the stream delivers and in
whatever pieces. -/
structure SameBoundary (α : Type) [Codec α] : Prop where
  /-- What is decoded off the front of a stream is copied off it, and no more. -/
  copied : ∀ {input rest : Bytes} {a : α}, Codec.decode.run input = (.ok a, rest) →
    ∃ bytes, input = bytes ++ rest ∧ ∀ (source : Source) (out : Bytes), source.content = input →
      ∃ left, (Codec.copy α).run ⟨source, out⟩ = (.ok (), ⟨left, out ++ bytes⟩)
        ∧ source.Behind bytes left
  /-- What is copied is decoded, or refused for what is in it, whatever follows. -/
  decided : ∀ {source left : Source} {out out' : Bytes},
    (Codec.copy α).run ⟨source, out⟩ = (.ok (), ⟨left, out'⟩) →
      ∃ bytes, source.Behind bytes left ∧ out' = out ++ bytes ∧ Copies (Codec.copy α) bytes ()
        ∧ Decides (Codec.decode (α := α)) bytes
  /-- A stream that ends early is corrupt, and leaves whole pieces in the buffer. -/
  cut : ∀ {source left : Source} {out out' : Bytes} {e : Error}, source.ending = .closed →
    (Codec.copy α).run ⟨source, out⟩ = (.error e, ⟨left, out'⟩) →
      ∃ pieces part n, e = .corruption (.streamEnded part.length n) ∧ part.length < n
        ∧ source.content = pieces.flatten ++ part ∧ (Codec.copy α).Wants pieces
        ∧ out' = out ++ pieces.flatten
  /-- A stream that has only the beginning of what is copied ends early. -/
  short : ∀ {bytes : Bytes}, Copies (Codec.copy α) bytes () → ∀ (source : Source) (out : Bytes),
    source.content <+: bytes → source.content ≠ bytes →
      ∃ e, ((Codec.copy α).run ⟨source, out⟩).1 = .error e

theorem SameBoundary.of_cuts {α : Type} [Codec α]
    (hcopies : ∀ {input rest : Bytes} {a : α}, Codec.decode.run input = (.ok a, rest) →
      ∃ bytes, input = bytes ++ rest ∧ Copies (Codec.copy α) bytes ())
    (hcuts : (Codec.copy α).Cuts fun bytes _ => Decides (Codec.decode (α := α)) bytes) :
    SameBoundary α where
  copied h := by
    obtain ⟨bytes, hinput, hrun⟩ := hcopies h
    refine ⟨bytes, hinput, fun source out hcontent => ?_⟩
    rw [hinput] at hcontent
    exact ⟨_, hrun source out _ hcontent, Source.behind_read hcontent⟩
  decided {source left out out'} h := by
    obtain ⟨pieces, rest, hcontent, -, hend⟩ := hcuts source.content
    rcases hend with ⟨_, hrun, hdecides⟩ | ⟨n, hshort, hawaits⟩
    · rw [hrun source out rest hcontent] at h
      cases h
      exact ⟨pieces.flatten, Source.behind_read hcontent, rfl, hrun, hdecides⟩
    · rw [hawaits source out rest hcontent hshort] at h
      split at h
      · cases h
      · cases h
  cut {source left out out' e} hclosed h := by
    obtain ⟨pieces, rest, hcontent, hwants, hend⟩ := hcuts source.content
    rcases hend with ⟨_, hrun, -⟩ | ⟨n, hshort, hawaits⟩
    · rw [hrun source out rest hcontent] at h
      cases h
    · rw [hawaits source out rest hcontent hshort, hclosed] at h
      cases h
      exact ⟨pieces, rest, n, rfl, hshort, hcontent, hwants, rfl⟩
  short {bytes} hbytes source out hfront hne := by
    refine exists_error_of_ne_ok fun _ hok => ?_
    obtain ⟨pieces, rest, hcontent, -, hend⟩ := hcuts source.content
    rcases hend with ⟨_, hrun, -⟩ | ⟨n, hshort, hawaits⟩
    -- what is copied off the shorter stream would be copied off the longer one
    · have hpieces : pieces.flatten <+: source.content := ⟨rest, hcontent.symm⟩
      have hsame := hrun.eq_of_isPrefix hbytes (hpieces.trans hfront)
      rw [hsame] at hpieces
      exact hne (hfront.eq_of_length_le hpieces.length_le)
    · rw [hawaits source out rest hcontent hshort] at hok
      split at hok
      · cases hok
      · cases hok

/-- **Copiers and decoders find the same boundary**, for every scalar type and every type of
vertices that can be built from them. -/
theorem sameBoundary_supported : (∀ s : Scalar, SameBoundary s.Carrier)
    ∧ ∀ (k : Key) (v e : Scalar), SameBoundary (Vertex k.Carrier v.Carrier e.Carrier) := by
  constructor
  · intro s
    refine .of_cuts (fun {input rest a} h => ?_) ?_
    · exact ⟨Codec.encode a, (LawfulCodec.of_decode h).1, LawfulCopy.copies h⟩
    · exact Delimited.cuts.mono fun _ _ h => h.2
  · intro k v e
    exact .of_cuts Vertex.copies_of_decode Vertex.cuts_copy

/-- Vertex 1 with two edges to one target. -/
def doubled : Bytes :=
  [0, 0, 0, 0, 0, 0, 0, 1] ++ [0, 0, 0, 0, 0, 0, 0, 10] ++ [0, 0, 0, 2]
    ++ [0, 0, 0, 0, 0, 0, 0, 2] ++ [0, 0, 0, 0, 0, 0, 0, 3]
    ++ [0, 0, 0, 0, 0, 0, 0, 2] ++ [0, 0, 0, 0, 0, 0, 0, 4] ++ [1]

/-- It is copied whole and refused for its edges, and copied as far as the last whole piece. -/
theorem sameBoundary_supported_doubled :
    let copy := Codec.copy (Vertex UInt64 UInt64 UInt64)
    let whole : Source := ⟨[.data (doubled.take 25), .interrupted, .data (doubled.drop 25 ++ [7])],
      .closed, 0⟩
    let early : Source :=
      ⟨[.data (doubled.take 25), .interrupted, .data ((doubled.drop 25).take 5)], .closed, 0⟩
    copy.run ⟨whole, [9]⟩ = (.ok (), ⟨⟨[.data [7]], .closed, 53⟩, [9] ++ doubled⟩)
      ∧ (∃ cause, Refuses (Codec.decode (α := Vertex UInt64 UInt64 UInt64)) doubled cause)
      ∧ copy.run ⟨early, [9]⟩
        = (.error (.corruption (.streamEnded 2 8)), ⟨⟨[], .closed, 30⟩, [9] ++ doubled.take 28⟩)
      ∧ ∃ pieces, copy.Wants pieces ∧ pieces.flatten = doubled.take 28 := by
  intro copy whole early
  have hboundary : SameBoundary (Vertex UInt64 UInt64 UInt64) :=
    sameBoundary_supported.2 .u64 .u64 .u64
  have hall : copy.run ⟨whole, [9]⟩
      = (.ok (), ⟨⟨[.data [7]], .closed, 53⟩, [9] ++ doubled⟩) := by decide +kernel
  have hcut : copy.run ⟨early, [9]⟩ = (.error (.corruption (.streamEnded 2 8)),
      ⟨⟨[], .closed, 30⟩, [9] ++ doubled.take 28⟩) := by decide +kernel
  refine ⟨hall, ?_, hcut, ?_⟩
  · obtain ⟨bytes, -, hout, -, ⟨v, hreads⟩ | hrefuses⟩ := hboundary.decided hall
    · have hok :
        ((Codec.decode (α := Vertex UInt64 UInt64 UInt64)).run doubled).1.isOk = false := by
        decide +kernel
      have hrun := hreads []
      rw [← List.append_cancel_left hout, List.append_nil] at hrun
      rw [hrun] at hok
      cases hok
    · rwa [← List.append_cancel_left hout] at hrefuses
  · obtain ⟨pieces, part, n, -, -, -, hwants, hkept⟩ := hboundary.cut rfl hcut
    exact ⟨pieces, hwants, (List.append_cancel_left hkept).symm⟩

end Superstep
