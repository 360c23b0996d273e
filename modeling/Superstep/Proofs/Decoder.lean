import Superstep.Bytes.Decoder

/-!
# Superstep — what decoders read

`Reads d bytes a` says that `d` reads exactly `bytes` and gives `a`, whatever follows them. It
is the one form in which a round trip is stated, because it composes: `Reads.bind` puts two
fields side by side, and `Reads.complete` closes a record that has to fill its input.

A length prefix looks ahead at what is left, so it has no such law of its own. It is read
together with the items behind it: `Reads.lengthPrefix`. Items that are only skipped are read as
well: `Reads.skip`.
-/

namespace Superstep

/-! ## Outcomes

What succeeds was a success in all its steps. These are about `Except` only, and are used on every
record that is taken apart. -/

section Outcomes

variable {ε α β : Type}

theorem map_eq_ok_iff {f : α → β} {e : Except ε α} {b : β} :
    e.map f = .ok b ↔ ∃ a, e = .ok a ∧ f a = b := by
  cases e with
  | ok a =>
    show Except.ok (f a) = _ ↔ _
    simp
  | error e => exact iff_of_false (fun h => by cases h) (fun ⟨_, h, _⟩ => by cases h)

theorem bind_eq_ok_iff {f : α → Except ε β} {e : Except ε α} {b : β} :
    e >>= f = .ok b ↔ ∃ a, e = .ok a ∧ f a = .ok b := by
  cases e with
  | ok a =>
    refine ⟨fun h => ⟨a, rfl, h⟩, ?_⟩
    rintro ⟨_, ⟨⟩, h⟩
    exact h
  | error e => exact iff_of_false (fun h => by cases h) (fun ⟨_, h, _⟩ => by cases h)

theorem exists_error_of_ne_ok {e : Except ε α} (h : ∀ a, e ≠ .ok a) :
    ∃ cause, e = .error cause := by
  cases e with
  | ok a => exact absurd rfl (h a)
  | error cause => exact ⟨cause, rfl⟩

end Outcomes

/-! ## Decoders

A decoder consumes the front of its input and leaves the rest. To read `bytes` is to do so for every
rest, and this is why two fields can be put side by side without looking at either of them again. -/

/-- `d` reads `bytes` off the front of every input that begins with them, and gives `a`. -/
def Reads {α : Type} (d : Decoder α) (bytes : Bytes) (a : α) : Prop :=
  ∀ rest, d.run (bytes ++ rest) = (.ok a, rest)

namespace Decoder

variable {α β : Type}

@[simp] theorem run_pure (a : α) (input : Bytes) :
    (pure a : Decoder α).run input = (.ok a, input) := rfl

theorem run_bind (d : Decoder α) (f : α → Decoder β) (input : Bytes) :
    (d >>= f).run input = match d.run input with
      | (.ok a, rest) => (f a).run rest
      | (.error e, rest) => (.error e, rest) := rfl

theorem run_skip_succ (d : Decoder α) (n : Nat) (input : Bytes) :
    (d.skip (n + 1)).run input = match d.run input with
      | (.error e, rest) => (.error e, rest)
      | (.ok _, rest) => if rest = input then (.ok (), input) else (d.skip n).run rest := rfl

/-- A run that leaves the input as it is can be repeated. -/
theorem run_skip_of_idle {d : Decoder α} {input : Bytes} {a : α} (h : d.run input = (.ok a, input))
    (n : Nat) : (d.skip n).run input = (.ok (), input) := by
  cases n with
  | zero => rfl
  | succ n => simp [run_skip_succ, h]

end Decoder

namespace Reads

variable {α β : Type}

/-! ## Composition

One lemma for each way in which decoders are put together. A proof of a round trip applies them in
the order of the fields. -/

theorem pure (a : α) : Reads (Pure.pure a : Decoder α) [] a := fun _ => rfl

/-- **One field behind the other.** -/
theorem bind {d : Decoder α} {f : α → Decoder β} {bs cs : Bytes} {a : α} {b : β}
    (hd : Reads d bs a) (hf : Reads (f a) cs b) : Reads (d >>= f) (bs ++ cs) b := by
  intro rest
  rw [List.append_assoc, Decoder.run_bind, hd (cs ++ rest)]
  exact hf rest

theorem map {d : Decoder α} {bs : Bytes} {a : α} (f : α → β) (hd : Reads d bs a) :
    Reads (do return f (← d)) bs (f a) := by
  have h := hd.bind (f := fun a => (Pure.pure (f a) : Decoder β)) (pure (f a))
  rwa [List.append_nil] at h

theorem ofExcept {a : α} {e : Except Corruption α} (h : e = .ok a) :
    Reads (Decoder.ofExcept e) [] a := by
  subst h
  exact pure a

/-- A record that fills its input is accepted as a whole. -/
theorem complete {d : Decoder α} {bytes : Bytes} {a : α} (hd : Reads d bytes a)
    (what : String) : d.complete what bytes = .ok a := by
  have h : d.run bytes = (.ok a, []) := by
    have := hd []
    rwa [List.append_nil] at this
  unfold Decoder.complete
  rw [Decoder.run_bind, h]
  rfl

/-! ## Fields

The fields that records are made of: words, bytes, and items behind their count. -/

theorem take (bytes : Bytes) : Reads (Decoder.take bytes.length) bytes bytes := by
  intro rest
  have hle : bytes.length ≤ (bytes ++ rest).length := by simp
  show Decoder.take bytes.length (bytes ++ rest) = _
  rw [Decoder.take, if_pos hle, List.take_left, List.drop_left]

theorem word (width n : Nat) :
    Reads (Decoder.word width) (BigEndian.encode width n) (n % BigEndian.limit width) := by
  have h := (take (BigEndian.encode width n)).map BigEndian.decode
  rw [BigEndian.length_encode, BigEndian.decode_encode] at h
  exact h

theorem word_of_lt {width n : Nat} (h : n < BigEndian.limit width) :
    Reads (Decoder.word width) (BigEndian.encode width n) n := by
  have hw := word width n
  rwa [Nat.mod_eq_of_lt h] at hw

theorem byte (b : UInt8) : Reads Decoder.byte [b] b := by
  have h := (take [b]).map fun bs => UInt8.ofNat (BigEndian.decode bs)
  have hb : UInt8.ofNat (BigEndian.decode [b]) = b := by
    simp [BigEndian.decode, BigEndian.limit]
  rw [hb] at h
  exact h

theorem word32 (n : UInt32) : Reads Decoder.word32 (BigEndian.encode 4 n.toNat) n := by
  have hn : n.toNat < BigEndian.limit 4 := n.toNat_lt
  have h := (word_of_lt hn).map UInt32.ofNat
  rw [UInt32.ofNat_toNat] at h
  exact h

theorem word64 (n : UInt64) : Reads Decoder.word64 (BigEndian.encode 8 n.toNat) n := by
  have hn : n.toNat < BigEndian.limit 8 := n.toNat_lt
  have h := (word_of_lt hn).map UInt64.ofNat
  rw [UInt64.ofNat_toNat] at h
  exact h

/-- **Repetitions read one item after the other.** They end early at an item of no bytes, and then
the items behind it have no bytes either. -/
theorem skip {d : Decoder α} {bytesOf : α → Bytes} {items : List α}
    (h : ∀ a ∈ items, Reads d (bytesOf a) a) :
    Reads (d.skip items.length) (items.flatMap bytesOf) () := by
  induction items with
  | nil => exact pure ()
  | cons a items ih =>
    intro rest
    have hothers := ih (fun a ha => h a (List.mem_cons_of_mem _ ha)) rest
    have hfirst := h a List.mem_cons_self (items.flatMap bytesOf ++ rest)
    rw [List.flatMap_cons, List.append_assoc, List.length_cons, Decoder.run_skip_succ, hfirst]
    dsimp only
    -- the first item may have no bytes, and then the repetitions stop at it
    by_cases hidle : items.flatMap bytesOf ++ rest = bytesOf a ++ (items.flatMap bytesOf ++ rest)
    · rw [if_pos hidle, ← hidle]
      rw [← hidle] at hfirst
      rwa [Decoder.run_skip_of_idle hfirst] at hothers
    · rw [if_neg hidle]
      exact hothers

/-- As many bytes as a count of items asks for. -/
theorem mul_le_length_flatMap {bytesOf : α → Bytes} {items : List α} {minItem : Nat}
    (h : ∀ a ∈ items, minItem ≤ (bytesOf a).length) :
    items.length * minItem ≤ (items.flatMap bytesOf).length := by
  induction items with
  | nil => simp
  | cons a items ih =>
    have hfirst := h a List.mem_cons_self
    have hothers := ih fun a ha => h a (List.mem_cons_of_mem _ ha)
    rw [List.flatMap_cons, List.length_append, List.length_cons, Nat.add_mul, Nat.one_mul]
    omega

/-- **A count and its items.** The count is accepted because the items behind it take at least
as many bytes as it asks for. -/
theorem lengthPrefix {minItem n : Nat} {f : Nat → Decoder β} {body : Bytes} {b : β}
    (hn : n < wordLimit) (hlen : n * minItem ≤ body.length) (hf : Reads (f n) body b) :
    Reads (Decoder.lengthPrefix minItem >>= f) (BigEndian.encode 4 n ++ body) b := by
  intro rest
  -- the decoder looks at the whole rest, of which the body is only the front
  have hleft : ¬ (body ++ rest).length < n * minItem := by
    rw [List.length_append]; omega
  have hprefix : (Decoder.lengthPrefix minItem).run (BigEndian.encode 4 n ++ (body ++ rest))
      = (.ok n, body ++ rest) := by
    unfold Decoder.lengthPrefix
    rw [Decoder.run_bind, word_of_lt hn (body ++ rest)]
    simp only [Decoder.run_bind]
    show (if (body ++ rest).length < n * minItem then _ else _ : Decoder Nat).run _ = _
    rw [if_neg hleft]
    rfl
  rw [List.append_assoc, Decoder.run_bind, hprefix]
  exact hf rest

/-- Bytes behind their length. -/
theorem prefixed {f : Bytes → Decoder β} {bytes rest : Bytes} {b : β}
    (hn : bytes.length < wordLimit) (hf : Reads (f bytes) rest b) :
    Reads (do f (← Decoder.take (← Decoder.lengthPrefix 1)))
      (BigEndian.encode 4 bytes.length ++ bytes ++ rest) b := by
  rw [List.append_assoc]
  exact lengthPrefix hn (by simp) ((take bytes).bind hf)

end Reads

end Superstep
