import Superstep.Proofs.Codecs

/-!
# Superstep — what copiers take off a stream

`Copies c bytes a` says that `c` takes exactly `bytes` off every stream that delivers them first,
puts them behind what the buffer has, and gives `a`. The stream may deliver them in pieces of any
lengths, with interruptions between them: all that a read depends on is what the stream delivers
in all (**`Source.read_content`**), and two reads in a row are one (**`Source.read_add`**). So
`Copies` composes like `Reads`.

* **`Copies.times`** — repetitions, those that copy nothing included;
* **`LawfulCopy`**, **`Scalar.instLawfulCopy`** — copying a value ends where decoding it ends.
-/

namespace Superstep

/-! ## Streams

A read of `n` bytes takes pieces off the stream until it has them, or nothing comes any more. The
pieces are lost in the result, which is a prefix of all that is delivered. -/

namespace Source

def delivered (arrivals : List Arrival) : Bytes :=
  arrivals.flatMap fun
    | .data bytes => bytes
    | .interrupted => []

@[simp] theorem delivered_interrupted (later : List Arrival) :
    delivered (.interrupted :: later) = delivered later := rfl

@[simp] theorem delivered_data (bytes : Bytes) (later : List Arrival) :
    delivered (.data bytes :: later) = bytes ++ delivered later := rfl

@[simp] theorem pull_zero (arrivals : List Arrival) : pull 0 arrivals = ([], arrivals) := by
  simp [pull]

/-- **A pull takes what is delivered first**, and leaves the rest. -/
theorem pull_spec (n : Nat) (arrivals : List Arrival) :
    (pull n arrivals).1 = (delivered arrivals).take n
      ∧ delivered (pull n arrivals).2 = (delivered arrivals).drop n := by
  fun_induction pull n arrivals with
  | case1 arrivals => simp
  | case2 n hn => simp [delivered]
  | case3 n later hn ih => exact ih
  | case4 n bytes later hn hlt =>
    -- the piece is cut, and its tail stays
    have hle : n ≤ bytes.length := Nat.le_of_lt hlt
    simp [List.take_append_of_le_length hle, List.drop_append_of_le_length hle]
  | case5 n bytes later hn hle more left hpull ih =>
    rw [hpull] at ih
    obtain ⟨hmore, hleft⟩ := ih
    have hwhole : bytes.length ≤ n := Nat.le_of_not_lt hle
    simp [List.take_append, List.drop_append, List.take_of_length_le hwhole,
      List.drop_of_length_le hwhole, ← hmore, ← hleft]

/-- Two pulls in a row are one. -/
theorem pull_add (m n : Nat) (arrivals : List Arrival) : pull (m + n) arrivals
    = ((pull m arrivals).1 ++ (pull n (pull m arrivals).2).1, (pull n (pull m arrivals).2).2) := by
  fun_induction pull m arrivals with
  | case1 arrivals => simp
  | case2 m hm => cases n <;> simp [pull]
  | case3 m later hm ih =>
    have hmn : m + n ≠ 0 := fun hzero => hm (by omega)
    simp [pull, ih]
  | case4 m bytes later hm hlt =>
    have hmn : m + n ≠ 0 := fun hzero => hm (by omega)
    cases n with
    | zero => simp [pull, hlt]
    | succ n =>
      -- the second pull goes on in the tail of the piece
      have hdrop : (bytes.drop m).length = bytes.length - m := List.length_drop
      by_cases hmore : m + (n + 1) < bytes.length
      · have hsecond : n + 1 < bytes.length - m := by omega
        simp [pull, hmore, hsecond, List.take_add]
      · have hsecond : ¬ n + 1 < bytes.length - m := by omega
        have hsub : m + (n + 1) - bytes.length = n + 1 - (bytes.length - m) := by omega
        simp [pull, hmore, hsecond, hsub, ← List.append_assoc]
  | case5 m bytes later hm hle more left hpull ih =>
    have hmn : m + n ≠ 0 := fun hzero => hm (by omega)
    have hlong : ¬ m + n < bytes.length := by omega
    have hsub : m + n - bytes.length = m - bytes.length + n := by omega
    simp [pull, hlong, hsub, ih, hpull]

variable (s : Source)

@[simp] theorem read_zero : s.read 0 = ([], s) := by
  simp [read]

/-- **What is read** depends on what the stream delivers in all, not on its pieces. -/
theorem read_content (n : Nat) :
    (s.read n).1 = s.content.take n ∧ (s.read n).2.content = s.content.drop n :=
  pull_spec n s.arrivals

/-- Over an interruption and into the next piece. -/
example : (Source.mk [.data [1, 2], .interrupted, .data [3, 4]] .closed 0).read 3
    = ([1, 2, 3], ⟨[.data [4]], .closed, 3⟩) := by decide

@[simp] theorem ending_read (n : Nat) : (s.read n).2.ending = s.ending := rfl

/-- A read that finds its bytes moves on by as many. -/
theorem position_read {n : Nat} (h : n ≤ s.content.length) :
    (s.read n).2.position = s.position + n := by
  show s.position + (s.read n).1.length = _
  rw [(s.read_content n).1, List.length_take_of_le h]

/-- **Two reads in a row are one.** -/
theorem read_add (m n : Nat) : ((s.read m).2.read n).2 = (s.read (m + n)).2 := by
  simp only [read, pull_add, List.length_append, Nat.add_assoc]

end Source

/-! ## Copiers

The buffer is kept behind, so a copier that puts bytes there does so whatever was there before. -/

/-- `c` takes `bytes` off the front of every stream that delivers them first, and gives `a`. -/
def Copies {α : Type} (c : Copier α) (bytes : Bytes) (a : α) : Prop :=
  ∀ (source : Source) (out rest : Bytes), source.content = bytes ++ rest →
    c.run ⟨source, out⟩ = (.ok a, ⟨(source.read bytes.length).2, out ++ bytes⟩)

namespace Copier

variable {α β : Type}

/-- Two copiers one after the other: the second goes on where the first has ended. -/
theorem run_bind (c : Copier α) (f : α → Copier β) (state : Copying) :
    (c >>= f).run state = match c.run state with
      | (.ok a, next) => (f a).run next
      | (.error e, next) => (.error e, next) := rfl

theorem run_times_succ (c : Copier Unit) (n : Nat) (state : Copying) :
    (times c (n + 1)).run state = match c.run state with
      | (.error e, next) => (.error e, next)
      | (.ok _, next) => if next = state then (.ok (), state) else (times c n).run next := rfl

/-- A run that leaves everything as it is can be repeated. -/
theorem run_times_of_idle {c : Copier Unit} {state : Copying}
    (h : c.run state = (.ok (), state)) (n : Nat) : (times c n).run state = (.ok (), state) := by
  cases n with
  | zero => rfl
  | succ n => simp [run_times_succ, h]

/-- **Repetitions are rows of runs**, although they end early when a run copies nothing. -/
theorem times_succ (c : Copier Unit) (n : Nat) : times c (n + 1) = c >>= fun _ => times c n := by
  funext state
  show (times c (n + 1)).run state = (c >>= fun _ => times c n).run state
  rw [run_times_succ, run_bind]
  cases hrun : c.run state with
  | mk outcome next =>
    cases outcome with
    | error e => rfl
    | ok _ =>
      dsimp only
      split
      · next hidle =>
        rw [hidle] at hrun ⊢
        exact (run_times_of_idle hrun n).symm
      · rfl

end Copier

namespace Copies

variable {α β : Type}

theorem pure (a : α) : Copies (Pure.pure a : Copier α) [] a := by
  intro source out rest _
  simp [Copier.run, Pure.pure]

/-- **Copying one thing after another** copies their bytes one after another. -/
theorem bind {c : Copier α} {f : α → Copier β} {bs cs : Bytes} {a : α} {b : β}
    (hc : Copies c bs a) (hf : Copies (f a) cs b) : Copies (c >>= f) (bs ++ cs) b := by
  intro source out rest hcontent
  rw [List.append_assoc] at hcontent
  have hleft : (source.read bs.length).2.content = cs ++ rest := by
    simp [(source.read_content _).2, hcontent]
  rw [Copier.run_bind, hc source out _ hcontent]
  dsimp only
  rw [hf _ _ rest hleft, source.read_add, List.length_append, List.append_assoc]

theorem map {c : Copier α} {bs : Bytes} {a : α} (f : α → β) (hc : Copies c bs a) :
    Copies (do return f (← c)) bs (f a) := by
  simpa using hc.bind (f := fun a => (Pure.pure (f a) : Copier β)) (pure (f a))

theorem mapError {c : Copier α} {bs : Bytes} {a : α} (hc : Copies c bs a) (f : Error → Error) :
    Copies (c.mapError f) bs a := by
  intro source out rest hcontent
  have hrun := hc source out rest hcontent
  rw [Copier.run] at hrun
  rw [Copier.run, Copier.mapError, hrun]

theorem exact (bytes : Bytes) : Copies (Copier.exact bytes.length) bytes bytes := by
  intro source out rest hcontent
  have hpiece : (source.read bytes.length).1 = bytes := by
    simp [(source.read_content _).1, hcontent]
  simp [Copier.run, Copier.exact, hpiece]

theorem exact_of_length {n : Nat} {bytes : Bytes} (h : bytes.length = n) :
    Copies (Copier.exact n) bytes bytes :=
  h ▸ exact bytes

theorem word32 {n : Nat} (h : n < wordLimit) : Copies Copier.word32 (BigEndian.encode 4 n) n := by
  have hword := (exact_of_length (BigEndian.length_encode 4 n)).map BigEndian.decode
  have hsame : BigEndian.decode (BigEndian.encode 4 n) = n := by
    rw [BigEndian.decode_encode]
    exact Nat.mod_eq_of_lt h
  rwa [hsame] at hword

/-- **Repetitions copy one piece after the other.** -/
theorem times {c : Copier Unit} {pieces : List Bytes} (h : ∀ piece ∈ pieces, Copies c piece ()) :
    Copies (Copier.times c pieces.length) pieces.flatten () := by
  induction pieces with
  | nil => exact pure ()
  | cons piece pieces ih =>
    rw [List.length_cons, Copier.times_succ, List.flatten_cons]
    exact (h piece List.mem_cons_self).bind (ih fun p hp => h p (List.mem_cons_of_mem _ hp))

/-- **No copied bytes are the beginning of others.** -/
theorem eq_of_isPrefix {c : Copier α} {bytes bytes' : Bytes} {a b : α} (h : Copies c bytes a)
    (h' : Copies c bytes' b) (hfront : bytes <+: bytes') : bytes = bytes' := by
  obtain ⟨more, rfl⟩ := hfront
  have hwhole : (Source.ofBytes (bytes ++ more)).content = bytes ++ more := by
    simp [Source.content, Source.ofBytes]
  have hrun := h' _ [] [] (hwhole.trans (List.append_nil _).symm)
  rw [h _ [] more hwhole] at hrun
  exact congrArg (fun result => result.2.out) hrun

end Copies

/-! ## Values

Each codec copies what it encodes. A composed one does so because its parts do, in the order in
which they are encoded. -/

/-- Copying a value ends where decoding it ends. -/
class LawfulCopy (α : Type) [Codec α] : Prop where
  copies : ∀ {input rest : Bytes} {a : α}, Codec.decode.run input = (.ok a, rest) →
    Copies (Codec.copy α) (Codec.encode a) ()

namespace LawfulCopy

theorem fixedWidth {α : Type} {width : Nat} {toNat : α → Nat} {ofNat : Nat → α} :
    @LawfulCopy α (Codec.fixedWidth width toNat ofNat) := by
  let _ := Codec.fixedWidth width toNat ofNat
  refine ⟨fun {_ _ a} _ => ?_⟩
  exact (Copies.exact_of_length (BigEndian.length_encode width (toNat a))).map fun _ => ()

end LawfulCopy

instance : LawfulCopy Bool where
  copies {_ _ a} _ := (Copies.exact [if a then 1 else 0]).map fun _ => ()

instance : LawfulCopy Unit where
  copies _ := .pure ()

instance : LawfulCopy String where
  copies {_ _ s} h := by
    have hbody := (Copies.exact (Utf8.encode s)).map fun _ => ()
    exact (Copies.word32 (of_decode_string h).2).bind hbody

/-- **Every scalar type is copied lawfully.** -/
instance Scalar.instLawfulCopy : (s : Scalar) → @LawfulCopy s.Carrier s.instValue.toCodec
  | i8 | i16 | i32 | i64 | u8 | u16 | u32 | u64 | f32 | f64 => .fixedWidth
  | bool => inferInstanceAs (LawfulCopy Bool)
  | unit => inferInstanceAs (LawfulCopy Unit)
  | string => inferInstanceAs (LawfulCopy String)

/-- **Every key type is copied lawfully.** -/
instance Key.instLawfulCopy : (k : Key) → @LawfulCopy k.Carrier k.instVertexId.toCodec
  | i8 | i16 | i32 | i64 | u8 | u16 | u32 | u64 => .fixedWidth
  | bool => inferInstanceAs (LawfulCopy Bool)
  | unit => inferInstanceAs (LawfulCopy Unit)
  | string => inferInstanceAs (LawfulCopy String)

instance : LawfulCopy UInt64 := .fixedWidth

end Superstep
