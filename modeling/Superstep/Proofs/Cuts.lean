import Superstep.Proofs.Copies

/-!
# Superstep — where copiers stop

A copier follows lengths, so that every byte string falls into two parts for it: the pieces that it
takes, and a rest in front of which it is done, or which is too short for the piece that it wants
next (`Copier.Cuts`). In the second case it fails, and a stream that has simply ended leaves the
whole pieces in the buffer (`Copier.Awaits`). Cuts are put together like the copiers:

* **`Copier.Cuts.bind`**, **`Copier.Cuts.times`** — one copier behind the other;
* **`Copier.Cuts.exact`**, **`Copier.Cuts.word32`** — a piece of a given length.
-/

namespace Superstep.Copier

variable {α β : Type}

/-- Behind the bytes `before` the copier wants a piece of `n` bytes. It fails when the stream
delivers less than that, and takes no part of the piece if the stream has ended. -/
def Awaits (c : Copier α) (before : Bytes) (n : Nat) : Prop :=
  ∀ (source : Source) (out part : Bytes), source.content = before ++ part → part.length < n →
    c.run ⟨source, out⟩ = match source.ending with
      | .closed => (.error (.corruption (.streamEnded part.length n)),
        ⟨(source.read (before.length + n)).2, out ++ before⟩)
      | .fails text => (.error (.io text),
        ⟨(source.read (before.length + n)).2, out ++ before ++ part⟩)

/-- The copier wants these pieces, one behind the other. -/
inductive Wants (c : Copier α) : List Bytes → Prop
  | nil : Wants c []
  | snoc {pieces : List Bytes} {piece : Bytes} (h : Wants c pieces)
    (hnext : c.Awaits pieces.flatten piece.length) : Wants c (pieces ++ [piece])

/-- Every byte string begins with whole pieces that the copier wants. Either it is done behind them,
and `P` says what it has copied and what it gives, or the piece that it wants next is cut short. -/
def Cuts (c : Copier α) (P : Bytes → α → Prop) : Prop :=
  ∀ bytes : Bytes, ∃ pieces rest, bytes = pieces.flatten ++ rest ∧ c.Wants pieces
    ∧ ((∃ a, Copies c pieces.flatten a ∧ P pieces.flatten a)
      ∨ ∃ n, rest.length < n ∧ c.Awaits pieces.flatten n)

/-! ## Composition

A piece that the first copier wants, the composed one wants as well. Those of the second are wanted
behind everything that the first has taken. -/

theorem Awaits.bind {c : Copier α} {before : Bytes} {n : Nat} (h : c.Awaits before n)
    (f : α → Copier β) : (c >>= f).Awaits before n := by
  intro source out part hcontent hshort
  rw [run_bind, h source out part hcontent hshort]
  cases source.ending <;> rfl

/-- What is awaited behind a whole copy is awaited at its end. -/
theorem Awaits.behind {c : Copier α} {f : α → Copier β} {bytes before : Bytes} {a : α} {n : Nat}
    (hc : Copies c bytes a) (h : (f a).Awaits before n) :
    (c >>= f).Awaits (bytes ++ before) n := by
  intro source out part hcontent hshort
  rw [List.append_assoc] at hcontent
  have hleft : (source.read bytes.length).2.content = before ++ part := by
    simp [(source.read_content _).2, hcontent]
  rw [run_bind, hc source out _ hcontent]
  dsimp only
  rw [h _ _ part hleft hshort, source.ending_read, source.read_add, List.length_append,
    Nat.add_assoc, List.append_assoc]

theorem Wants.bind {c : Copier α} {pieces : List Bytes} (h : c.Wants pieces) (f : α → Copier β) :
    (c >>= f).Wants pieces := by
  induction h with
  | nil => exact .nil
  | snoc _ hnext ih => exact .snoc ih (hnext.bind f)

theorem Wants.behind {c : Copier α} {f : α → Copier β} {front pieces : List Bytes} {a : α}
    (hc : Copies c front.flatten a) (hfront : c.Wants front) (h : (f a).Wants pieces) :
    (c >>= f).Wants (front ++ pieces) := by
  induction h with
  | nil =>
    rw [List.append_nil]
    exact hfront.bind f
  | snoc _ hnext ih =>
    have hbehind := hnext.behind hc
    rw [← List.flatten_append] at hbehind
    rw [← List.append_assoc]
    exact .snoc ih hbehind

namespace Cuts

theorem mono {c : Copier α} {P Q : Bytes → α → Prop} (h : c.Cuts P)
    (himp : ∀ bytes a, P bytes a → Q bytes a) : c.Cuts Q := by
  intro bytes
  obtain ⟨pieces, rest, hbytes, hwants, ⟨a, hcopies, hP⟩ | hshort⟩ := h bytes
  · exact ⟨pieces, rest, hbytes, hwants, .inl ⟨a, hcopies, himp _ _ hP⟩⟩
  · exact ⟨pieces, rest, hbytes, hwants, .inr hshort⟩

theorem pure (a : α) : Cuts (Pure.pure a) fun bytes b => bytes = [] ∧ b = a :=
  fun bytes => ⟨[], bytes, rfl, .nil, .inl ⟨a, .pure a, rfl, rfl⟩⟩

/-- **One copier behind the other.** -/
theorem bind {c : Copier α} {f : α → Copier β} {P : Bytes → α → Prop} {Q : α → Bytes → β → Prop}
    (hc : c.Cuts P) (hf : ∀ bytes a, P bytes a → (f a).Cuts (Q a)) :
    (c >>= f).Cuts fun bytes b => ∃ front behind a, bytes = front ++ behind ∧ P front a
      ∧ Q a behind b := by
  intro bytes
  -- either the first copier is done and the second goes on, or it is cut and so is the whole
  obtain ⟨front, middle, hbytes, hfront, ⟨a, hcopies, hP⟩ | ⟨n, hshort, hawaits⟩⟩ := hc bytes
  · obtain ⟨pieces, rest, hmiddle, hpieces, hend⟩ := hf _ a hP middle
    refine ⟨front ++ pieces, rest, ?_, .behind hcopies hfront hpieces, ?_⟩
    · rw [hbytes, hmiddle, List.flatten_append, List.append_assoc]
    · rw [List.flatten_append]
      rcases hend with ⟨b, hcopies', hQ⟩ | ⟨n, hshort, hawaits⟩
      · exact .inl ⟨b, hcopies.bind hcopies', _, _, a, rfl, hP, hQ⟩
      · exact .inr ⟨n, hshort, hawaits.behind hcopies⟩
  · exact ⟨front, middle, hbytes, hfront.bind f, .inr ⟨n, hshort, hawaits.bind f⟩⟩

theorem map {c : Copier α} {P : Bytes → α → Prop} (hc : c.Cuts P) (g : α → β) :
    Cuts (do return g (← c)) fun bytes b => ∃ a, P bytes a ∧ b = g a := by
  have h := hc.bind (f := fun a => Pure.pure (g a)) fun _ a _ => pure (g a)
  refine h.mono ?_
  rintro bytes b ⟨front, behind, a, rfl, hP, rfl, rfl⟩
  rw [List.append_nil]
  exact ⟨a, hP, rfl⟩

/-! ## Pieces

All copiers are made of pieces of a known length. Such a piece is the only place at which one can be
cut. -/

/-- A piece that is cut short is not begun, and what is left of the stream decides the error. -/
theorem awaits_exact (n : Nat) : (Copier.exact n).Awaits [] n := by
  intro source out part hcontent hshort
  have hpiece : (source.read n).1 = part := by
    rw [(source.read_content n).1, hcontent, List.nil_append,
      List.take_of_length_le (Nat.le_of_lt hshort)]
  have hne : part.length ≠ n := Nat.ne_of_lt hshort
  cases hending : source.ending with
  | closed => simp [Copier.run, Copier.exact, hpiece, hne, hending]
  | fails text => simp [Copier.run, Copier.exact, hpiece, hne, hending]

/-- **A piece** is there or it is not. -/
theorem exact (n : Nat) :
    (Copier.exact n).Cuts fun bytes piece => bytes.length = n ∧ piece = bytes := by
  intro bytes
  by_cases hlong : n ≤ bytes.length
  · have hlength : (bytes.take n).length = n := List.length_take_of_le hlong
    have hwants : (Copier.exact n).Wants ([] ++ [bytes.take n]) := by
      refine .snoc .nil ?_
      rw [hlength]
      exact awaits_exact n
    have hflatten : [bytes.take n].flatten = bytes.take n := by simp
    refine ⟨[bytes.take n], bytes.drop n, by simp, hwants, .inl ⟨bytes.take n, ?_⟩⟩
    rw [hflatten]
    exact ⟨Copies.exact_of_length hlength, hlength, rfl⟩
  · exact ⟨[], bytes, rfl, .nil, .inr ⟨n, Nat.lt_of_not_le hlong, awaits_exact n⟩⟩

/-- A word is its four bytes. -/
theorem word32 :
    Copier.word32.Cuts fun bytes n => n < wordLimit ∧ bytes = BigEndian.encode 4 n := by
  refine ((exact 4).map BigEndian.decode).mono ?_
  rintro bytes n ⟨piece, ⟨hlength, rfl⟩, rfl⟩
  have hlt := BigEndian.decode_lt piece
  have hsame := BigEndian.encode_decode piece
  rw [hlength] at hlt hsame
  exact ⟨hlt, hsame.symm⟩

/-- **Repetitions** copy as many of what one run copies. -/
theorem times {c : Copier Unit} {P : Bytes → Unit → Prop} (h : c.Cuts P) (n : Nat) :
    (Copier.times c n).Cuts fun bytes _ => ∃ pieces : List Bytes, pieces.length = n
      ∧ bytes = pieces.flatten ∧ ∀ piece ∈ pieces, P piece () := by
  induction n with
  | zero =>
    refine (pure ()).mono ?_
    rintro bytes _ ⟨rfl, -⟩
    exact ⟨[], rfl, rfl, fun _ hmem => by cases hmem⟩
  | succ n ih =>
    rw [times_succ]
    refine (h.bind fun _ _ _ => ih).mono ?_
    rintro bytes _ ⟨front, behind, _, rfl, hfront, pieces, rfl, rfl, hpieces⟩
    refine ⟨front :: pieces, rfl, rfl, fun piece hmem => ?_⟩
    rcases List.mem_cons.1 hmem with rfl | hmem
    · exact hfront
    · exact hpieces piece hmem

end Cuts

end Superstep.Copier
