import Superstep.Proofs.Reencoding

/-!
# Superstep — targets that are decoded over leak nothing

A value that is decoded over keeps its storage: a string its text, a container its map, its list or
its bytes, and one that keeps edges encoded a set of targets besides. Any of it may be left from a
decode that was given up half-way. Two runs on the same bytes are compared here, over two targets
that have nothing in common but their edge strategy (`Refill.Agrees`).

* **`LazyEdges.decode_agrees`**, **`Edges.decodeInto_agrees`** — every part of a container is
  cleared or written anew before a decode ends well;
* **`Vertex.decodeInto_agrees`** — so a vertex has nothing of its former fields then;
* **`Vertex.alike_of_decodeInto`** — and over targets of two strategies it is one vertex;
* **`reuse_leaks_nothing`** — scalars, strings and vertices, as records and in their blobs.
-/

namespace Superstep

/-! ## Ends of two runs

Two decodes of the same bytes are compared by how they end. While they fail, their targets may
differ: what was there before shows through in the fields that were not reached. -/

namespace Refill

variable {α : Type}

/-- Two runs end alike: with the same outcome, at the same place, and with the same value if they
succeed. -/
structure Agrees (r s : Refill α) : Prop where
  outcome : r.outcome = s.outcome
  rest : r.rest = s.rest
  target : r.outcome = .ok () → r.target = s.target

/-- Runs that end alike fail with one error or are the same in all. -/
theorem Agrees.cases {r s : Refill α} (h : r.Agrees s) :
    (∃ e, r.outcome = .error e ∧ s.outcome = .error e ∧ r.rest = s.rest)
      ∨ r = s ∧ s.outcome = .ok () := by
  obtain ⟨outcome, target, rest⟩ := r
  obtain ⟨houtcome, hrest, htarget⟩ := h
  dsimp only at houtcome hrest htarget
  subst houtcome hrest
  cases houtcome : s.outcome with
  | error e => exact .inl ⟨e, rfl, rfl, rfl⟩
  | ok _ =>
    obtain rfl := htarget houtcome
    exact .inr ⟨by rw [← houtcome], rfl⟩

/-- A run that ends like one that succeeds is that one. -/
theorem Agrees.eq_ok {r s : Refill α} (h : r.Agrees s) {v : α} {rest : Bytes}
    (hr : r = ⟨.ok (), v, rest⟩) : s = ⟨.ok (), v, rest⟩ := by
  rcases h.cases with ⟨e, herror, -⟩ | ⟨heq, -⟩
  · rw [hr] at herror
    cases herror
  · rw [← heq, hr]

end Refill

section Codecs

variable {α : Type} [Codec α]

/-- A codec that never looks at its target ends alike over any two. -/
theorem Oblivious.agrees [Oblivious α] (a b : α) (input : Bytes) :
    (Codec.decodeInto a input).Agrees (Codec.decodeInto b input) := by
  rw [decodeInto_eq_ofDecoder, decodeInto_eq_ofDecoder, Refill.ofDecoder, Refill.ofDecoder]
  cases (Codec.decode : Decoder α).run input with
  | mk outcome rest =>
    cases outcome with
    | error e => exact ⟨rfl, rfl, nofun⟩
    | ok value => exact ⟨rfl, rfl, fun _ => rfl⟩

namespace Blob

/-- **Blobs end alike when their records do.** -/
theorem decodeInto_agrees {a b : α}
    (h : ∀ input, (Codec.decodeInto a input).Agrees (Codec.decodeInto b input)) (blob : Bytes) :
    (decodeInto a blob).1 = (decodeInto b blob).1
      ∧ ((decodeInto a blob).1 = .ok () → (decodeInto a blob).2 = (decodeInto b blob).2) := by
  unfold decodeInto
  cases body blob with
  | error e => exact ⟨rfl, nofun⟩
  | ok record =>
    dsimp only
    rcases (h record).cases with ⟨e, ha, hb, -⟩ | ⟨heq, -⟩
    · rw [ha, hb]
      exact ⟨rfl, nofun⟩
    · rw [heq]
      exact ⟨rfl, fun _ => rfl⟩

end Blob

/-- **Values can be decoded over again and again.** `Alike` says which targets have to end alike,
and `Gives` what a target that was decoded over has to do with the value that is decoded afresh. -/
structure Reusable (α : Type) [Codec α] (Alike Gives : α → α → Prop) : Prop where
  agrees : ∀ {a b : α}, Alike a b → ∀ input,
    (Codec.decodeInto a input).Agrees (Codec.decodeInto b input)
  /-- What is accepted over some value is decoded. -/
  accepts : ∀ (old : α) {input : Bytes}, (Codec.decodeInto old input).outcome = .ok () →
    ∃ (v : α) (rest : Bytes), Codec.decode.run input = (.ok v, rest)
  decoded : ∀ (old : α) {input rest : Bytes} {v : α}, Codec.decode.run input = (.ok v, rest) →
    ∃ w, Codec.decodeInto old input = ⟨.ok (), w, rest⟩ ∧ Gives w v
  agrees_blob : ∀ {a b : α}, Alike a b → ∀ blob,
    (Blob.decodeInto a blob).1 = (Blob.decodeInto b blob).1
    ∧ ((Blob.decodeInto a blob).1 = .ok () →
      (Blob.decodeInto a blob).2 = (Blob.decodeInto b blob).2)
  accepts_blob : ∀ (old : α) {blob : Bytes}, (Blob.decodeInto old blob).1 = .ok () →
    ∃ v : α, Blob.decode blob = .ok v
  decoded_blob : ∀ (old : α) {blob : Bytes} {v : α}, Blob.decode blob = .ok v →
    ∃ w, Blob.decodeInto old blob = (.ok (), w) ∧ Gives w v

/-- What holds of records holds of their blobs. -/
theorem Reusable.of_records {Alike Gives : α → α → Prop}
    (agrees : ∀ {a b : α}, Alike a b → ∀ input,
      (Codec.decodeInto a input).Agrees (Codec.decodeInto b input))
    (accepts : ∀ (old : α) {input : Bytes}, (Codec.decodeInto old input).outcome = .ok () →
      ∃ (v : α) (rest : Bytes), Codec.decode.run input = (.ok v, rest))
    (decoded : ∀ (old : α) {input rest : Bytes} {v : α}, Codec.decode.run input = (.ok v, rest) →
      ∃ w, Codec.decodeInto old input = ⟨.ok (), w, rest⟩ ∧ Gives w v) :
    Reusable α Alike Gives where
  agrees := agrees
  accepts := accepts
  decoded := decoded
  agrees_blob halike := Blob.decodeInto_agrees (agrees halike)
  accepts_blob old blob h := by
    -- the length field is the same for both, so that only the record behind it counts
    obtain ⟨record, hbody, hrecord⟩ := Blob.decodeInto_eq_ok_iff.1 (Prod.ext h rfl)
    obtain ⟨v, rest, hrun⟩ := accepts old (congrArg Refill.outcome hrecord)
    obtain ⟨w, hdecode, -⟩ := decoded old hrun
    rw [hrecord] at hdecode
    cases hdecode
    exact ⟨v, Blob.decode_eq_ok_iff.2 ⟨record, hbody, hrun⟩⟩
  decoded_blob old blob v h := by
    obtain ⟨record, hbody, hrun⟩ := Blob.decode_eq_ok_iff.1 h
    obtain ⟨w, hdecode, hgives⟩ := decoded old hrun
    exact ⟨w, Blob.decodeInto_eq_ok_iff.2 ⟨record, hbody, hdecode⟩, hgives⟩

theorem Oblivious.reusable [Oblivious α] : Reusable α (fun _ _ => True) Eq := by
  refine .of_records (fun _ => agrees _ _) (fun old _ hok => ?_) fun old _ _ v hrun => ⟨v, ?_, rfl⟩
  · exact LawfulRefill.run_of_decodeInto old hok
  · rw [decodeInto_eq_ofDecoder, Refill.ofDecoder, hrun]

end Codecs

variable {I V E : Type} [VertexId I] [Value V] [Value E]

/-! ## Containers

The strategy is all that a decode takes over from its target. Within one strategy the two runs
therefore start from the same state as soon as the target is cleared. -/

/-- **No part of the storage is left over**: bytes, list and flag are cleared before a section is
looked at, and the set of targets before and behind it. -/
theorem LazyEdges.decode_agrees (s t : LazyEdges I E) (input : Bytes) :
    (s.decode input).Agrees (t.decode input) := by
  unfold decode
  dsimp only
  cases (Section.count I E).run input with
  | mk outcome start =>
    cases outcome with
    | error e => exact ⟨rfl, rfl, nofun⟩
    | ok n =>
      dsimp only
      cases (check (I := I) E n [] start).outcome with
      | error e => exact ⟨rfl, rfl, nofun⟩
      | ok _ => exact ⟨rfl, rfl, fun _ => rfl⟩

/-- **Containers of one strategy end alike.** -/
theorem Edges.decodeInto_agrees {a b : Edges I E} (h : a.strategy = b.strategy) (input : Bytes) :
    (a.decodeInto input).Agrees (b.decodeInto input) := by
  cases a with
  | hashed table =>
    cases b with
    | hashed table' => exact ⟨rfl, rfl, fun _ => rfl⟩
    | sorted | lazy => cases h
  | sorted list =>
    cases b with
    | sorted list' => exact ⟨rfl, rfl, fun _ => rfl⟩
    | hashed | lazy => cases h
  | lazy edges =>
    cases b with
    | lazy edges' =>
      obtain ⟨houtcome, hrest, htarget⟩ := edges.decode_agrees edges' input
      exact ⟨houtcome, hrest, fun hok => congrArg lazy (htarget hok)⟩
    | hashed | sorted => cases h

/-! ## Vertices

Four fields, each decoded from where the one before it ended. While the runs agree they stay at one
place, and at the first field that fails they stop together. -/

namespace Vertex

/-- **Vertices of one strategy end alike**, field by field. -/
theorem decodeInto_agrees [Oblivious I] [Oblivious V] {a b : Vertex I V E}
    (h : a.edges.strategy = b.edges.strategy) (input : Bytes) :
    (a.decodeInto input).Agrees (b.decodeInto input) := by
  unfold Vertex.decodeInto
  dsimp only
  rcases (Oblivious.agrees a.id b.id input).cases with ⟨e, ha, hb, hrest⟩ | ⟨heq, hok⟩
  · rw [ha, hb]
    exact ⟨rfl, hrest, nofun⟩
  rw [heq, hok]
  generalize Codec.decodeInto b.id input = id
  dsimp only
  rcases (Oblivious.agrees a.value b.value id.rest).cases with ⟨e, ha, hb, hrest⟩ | ⟨heq, hok⟩
  · rw [ha, hb]
    exact ⟨rfl, hrest, nofun⟩
  rw [heq, hok]
  generalize Codec.decodeInto b.value id.rest = value
  dsimp only
  rcases (Edges.decodeInto_agrees h value.rest).cases with ⟨e, ha, hb, hrest⟩ | ⟨heq, hok⟩
  · rw [ha, hb]
    exact ⟨rfl, hrest, nofun⟩
  rw [heq, hok]
  generalize b.edges.decodeInto value.rest = edges
  dsimp only
  obtain ⟨houtcome, hrest, htarget⟩ := Oblivious.agrees a.halted b.halted edges.rest
  exact ⟨houtcome, hrest, fun hok => by rw [htarget hok]⟩

variable [Oblivious I] [Oblivious V] [LawfulId I] [LawfulCodec E]

/-- **What one target takes every other takes**, as the same vertex in its own strategy. -/
theorem alike_of_decodeInto {a v : Vertex I V E} {input rest : Bytes}
    (h : a.decodeInto input = ⟨.ok (), v, rest⟩) (b : Vertex I V E) :
    ∃ w, b.decodeInto input = ⟨.ok (), w, rest⟩ ∧ w.Alike v := by
  obtain ⟨front, middle, back, hid, hvalue, hedges, hhalted⟩ := decodeInto_eq_ok_iff.1 h
  obtain ⟨pairs, hholds⟩ := Edges.holds_of_decodeInto (congrArg Refill.outcome hedges)
  rw [hedges] at hholds
  obtain ⟨edges, hread, hlawful, hperm⟩ := Edges.decodeInto_of_holds hholds b.edges
  obtain ⟨edges', hread', -, hperm'⟩ := Edges.decodeInto_of_holds hholds a.edges
  rw [hedges] at hread'
  cases hread'
  refine ⟨⟨v.id, v.value, edges, v.halted⟩, ?_, rfl, rfl, rfl, hlawful, hperm.trans hperm'.symm⟩
  exact decodeInto_eq_ok_iff.2 ⟨front, middle, back, (Oblivious.agrees _ _ _).eq_ok hid,
    (Oblivious.agrees _ _ _).eq_ok hvalue, hread, (Oblivious.agrees _ _ _).eq_ok hhalted⟩

/-- **Vertices can be decoded over again and again**, in any strategy. -/
theorem reusable :
    Reusable (Vertex I V E) (fun a b => a.edges.strategy = b.edges.strategy) Alike := by
  refine .of_records (fun hsame => decodeInto_agrees hsame) (fun old input hok => ?_)
    fun old input rest v hrun => ?_
  · obtain ⟨v, hread, -⟩ := alike_of_decodeInto (Refill.eq_of_outcome hok) (blank default)
    exact ⟨v, _, run_decode_eq_ok.2 hread⟩
  · exact alike_of_decodeInto (run_decode_eq_ok.1 hrun) old

end Vertex

/-- **Targets that are decoded over leak nothing.** Two targets of a scalar type, strings among
them, or two vertices whose edges are kept alike, end alike on the same bytes, whatever is in them:
both fail with one error at one place, or both have the same value at one place. It is the value
that is decoded afresh, for vertices up to the strategy of the edges, and targets fail where nothing
can be decoded. So it is with blobs. A scalar target fails as decoding does, and stays as it was
then. -/
theorem reuse_leaks_nothing [LawfulId I] [LawfulCodec E] [Oblivious I] [Oblivious V] :
    (∀ s : Scalar, Reusable s.Carrier (fun _ _ => True) Eq
      ∧ ∀ (old : s.Carrier) (input : Bytes),
        let refill := Codec.decodeInto old input
        let decoded := (Codec.decode : Decoder s.Carrier).run input
        refill.outcome = decoded.1.map (fun _ => ()) ∧ refill.rest = decoded.2
          ∧ ∀ e, refill.outcome = .error e → refill.target = old)
    ∧ Reusable (Vertex I V E) (fun a b => a.edges.strategy = b.edges.strategy) Vertex.Alike := by
  refine ⟨fun s => ⟨Oblivious.reusable, fun old input => ?_⟩, Vertex.reusable⟩
  dsimp only
  rw [Oblivious.decodeInto_eq_ofDecoder, Refill.ofDecoder]
  cases (Codec.decode : Decoder s.Carrier).run input with
  | mk outcome rest =>
    cases outcome with
    | error e => exact ⟨rfl, rfl, fun _ _ => rfl⟩
    | ok value => exact ⟨rfl, rfl, nofun⟩

/-- A vertex whose edges were changed, and one that was given up at the flag, take in a third. -/
theorem reuse_leaks_nothing_over_debris :
    let changed : Vertex UInt64 UInt64 UInt64 := .withEdges 7 70 .lazy [(8, 9)]
    let cut :=
      (Vertex.withEdges 3 30 .hashed [(4, 40)] : Vertex UInt64 UInt64 UInt64).encode.dropLast
    let debris := (changed.decodeInto (cut ++ [2])).target
    let text : Scalar.string.Carrier := "n"
    debris.id = 3 ∧ debris.edges.toList = [(4, 40)] ∧ changed.edges.toList = [(8, 9)]
      ∧ (∃ v w, Codec.decode.run (Vertex.unordered.encode ++ [5]) = (.ok v, [5])
        ∧ changed.decodeInto (Vertex.unordered.encode ++ [5]) = ⟨.ok (), w, [5]⟩
        ∧ debris.decodeInto (Vertex.unordered.encode ++ [5]) = ⟨.ok (), w, [5]⟩ ∧ w.Alike v)
      ∧ (∃ w, Blob.decodeInto debris (Blob.framed Vertex.unordered.encode) = (.ok (), w)
        ∧ Blob.decodeInto changed (Blob.framed Vertex.unordered.encode) = (.ok (), w))
      ∧ (Codec.decodeInto text [0, 0, 0, 1, 255]).outcome = .error .badString
      ∧ (Codec.decodeInto text [0, 0, 0, 1, 255]).target = text := by
  intro changed cut debris text
  obtain ⟨hscalars, hvertices⟩ := reuse_leaks_nothing (I := UInt64) (V := UInt64) (E := UInt64)
  have hkept : changed.edges.strategy = debris.edges.strategy :=
    (Vertex.strategy_decodeInto changed _).symm
  have hthird : Vertex.unordered.Storable :=
    ⟨(Vertex.Reached.halt (.withEdges _ _ _ _)).lawful, by decide +kernel⟩
  have hlen : Vertex.unordered.encode.length < wordLimit := by decide +kernel
  have hbad : (Codec.decodeInto text [0, 0, 0, 1, 255]).outcome = .error .badString := by rfl
  obtain ⟨v, hread, -⟩ := Vertex.decodeInto_encode hthird.lawful hlen (.blank default) [5]
  obtain ⟨w, hdecode, halike⟩ := hvertices.decoded changed (Vertex.run_decode_eq_ok.2 hread)
  obtain ⟨x, hblob, -⟩ := Blob.decodeInto_framed hthird changed
  refine ⟨by decide +kernel, by decide +kernel, by decide +kernel,
    ⟨v, w, Vertex.run_decode_eq_ok.2 hread, hdecode, ?_, halike⟩, ⟨x, ?_, hblob⟩, hbad, ?_⟩
  · exact (hvertices.agrees hkept (Vertex.unordered.encode ++ [5])).eq_ok hdecode
  · obtain ⟨houtcome, htarget⟩ := hvertices.agrees_blob hkept (Blob.framed Vertex.unordered.encode)
    rw [hblob] at houtcome htarget
    exact Prod.ext houtcome.symm (htarget rfl).symm
  · exact ((hscalars .string).2 text _).2.2 _ hbad

end Superstep
