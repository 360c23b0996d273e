import Superstep.Edges.Calls
import Superstep.Proofs.Edges

/-!
# Superstep — what an edge container answers over its calls

`MapStep` says what each call means to a finite map from targets to values: adding inserts, removing
erases, and decoding takes the map over that the section holds. `Answer.Says` compares an answer
to the reply of the map; the order of edges does not count, neither in a listing nor in encoded
bytes.

* **`perform_of_mapStep`**, **`mapStep_of_perform`** — one call, from the map to the container and
  back;
* **`mapRun_of_run`**, **`run_of_mapRun`** — a whole run;
* **`Means`** — the map that a container has by the successful calls that made it;
* **`kept_perform`** — what is left of a container whatever fails;
* **`strategies_are_one_map`** — containers of all strategies give the answers of one map.
-/

namespace Superstep.Edges

/-- What a finite map replies to a call. -/
inductive Reply (I E : Type) where
  | isNew (new : Bool)
  | value (found : Option E)
  | number (n : Nat)
  | done
  /-- The edges of the map, in any order. -/
  | listed (m : Mapping I E)
  /-- A section of the edges of the map, in any order. -/
  | encoded (m : Mapping I E)
  | decoded (rest : Bytes)

variable {I E : Type}

/-- Whether the call was carried out. Only a decode can fail. -/
def Answer.isOk : Answer I E → Bool
  | .decoded (.error _) _ => false
  | _ => true

variable [VertexId I]

/-- The pairs are those of the map, each of its keys once. -/
structure Lists (pairs : List (I × E)) (m : Mapping I E) : Prop where
  nodup : (pairs.map Prod.fst).Nodup
  length : pairs.length = m.keys.card
  mem_iff : ∀ target value, (target, value) ∈ pairs ↔ m.lookup target = some value

theorem lists_mapping {pairs : List (I × E)} (h : (pairs.map Prod.fst).Nodup) :
    Lists pairs (Superstep.mapping pairs) :=
  ⟨h, (card_mapping h).symm, fun _ _ => (lookup_mapping_eq_some_iff h).symm⟩

variable [Value E]

/-- The answer is the reply, up to the order of edges. -/
inductive Answer.Says : Answer I E → Reply I E → Prop where
  | isNew (new : Bool) : Says (.isNew new) (.isNew new)
  | value (found : Option E) : Says (.value found) (.value found)
  | number (n : Nat) : Says (.number n) (.number n)
  | done : Says .done .done
  | listed {pairs : List (I × E)} {m : Mapping I E} (h : Lists pairs m) :
      Says (.listed pairs) (.listed m)
  | bytes {pairs : List (I × E)} {m : Mapping I E} (h : Lists pairs m) :
      Says (.bytes (Section.encode pairs)) (.encoded m)
  | decoded (rest : Bytes) : Says (.decoded (.ok ()) rest) (.decoded rest)

/-- What a call replies and what the map becomes. A decode has a meaning only where there is a
section. -/
inductive MapStep (m : Mapping I E) : Call I E → Reply I E → Mapping I E → Prop where
  | add (target : I) (value : E) :
      MapStep m (.add target value) (.isNew (m.lookup target).isNone) (m.insert target value)
  | remove (target : I) : MapStep m (.remove target) (.value (m.lookup target)) (m.erase target)
  | get (target : I) : MapStep m (.get target) (.value (m.lookup target)) m
  | count : MapStep m .count (.number m.keys.card) m
  | clear : MapStep m .clear .done ∅
  | list : MapStep m .list (.listed m) m
  | encode : MapStep m .encode (.encoded m) m
  | decode {input rest : Bytes} {pairs : List (I × E)} (h : Section.Holds input pairs rest) :
      MapStep m (.decode input) (.decoded rest) (Superstep.mapping pairs)

inductive MapRun : Mapping I E → List (Call I E) → List (Reply I E) → Mapping I E → Prop where
  | nil (m : Mapping I E) : MapRun m [] [] m
  | cons {m m' final : Mapping I E} {call : Call I E} {calls : List (Call I E)}
      {reply : Reply I E} {replies : List (Reply I E)} (first : MapStep m call reply m')
      (others : MapRun m' calls replies final) :
      MapRun m (call :: calls) (reply :: replies) final

/-- Calls of which none failed made the container, and this is the map that they mean. -/
def Means (es : Edges I E) (m : Mapping I E) : Prop :=
  ∃ strategy calls replies, MapRun ∅ calls replies m
    ∧ es = ((empty strategy : Edges I E).run calls).2

theorem means_empty (strategy : EdgeStrategy) : (empty strategy : Edges I E).Means ∅ :=
  ⟨strategy, [], [], .nil ∅, rfl⟩

theorem MapRun.concat {m m' final : Mapping I E} {calls : List (Call I E)} {call : Call I E}
    {replies : List (Reply I E)} {reply : Reply I E} (h : MapRun m calls replies m')
    (hlast : MapStep m' call reply final) :
    MapRun m (calls ++ [call]) (replies ++ [reply]) final := by
  induction h with
  | nil m => exact .cons hlast (.nil final)
  | cons first _ ih => exact .cons first (ih hlast)

theorem run_concat (es : Edges I E) (calls : List (Call I E)) (call : Call I E) :
    (es.run (calls ++ [call])).2 = ((es.run calls).2.perform call).2 := by
  induction calls generalizing es with
  | nil => rfl
  | cons first calls ih => exact ih (es.perform first).2

/-- One more call that means something to the map. -/
theorem Means.perform {es : Edges I E} {m m' : Mapping I E} {call : Call I E} {reply : Reply I E}
    (h : es.Means m) (hstep : MapStep m call reply m') : (es.perform call).2.Means m' := by
  obtain ⟨strategy, calls, replies, hrun, rfl⟩ := h
  exact ⟨strategy, _, _, hrun.concat hstep, (run_concat _ calls call).symm⟩

theorem Means.addAll {es : Edges I E} {m : Mapping I E} (h : es.Means m) (edges : List (I × E)) :
    ∃ m', (es.addAll edges).Means m' := by
  induction edges generalizing es m with
  | nil => exact ⟨m, h⟩
  | cons edge edges ih => exact ih (h.perform (.add edge.1 edge.2))

variable [LawfulId I]

theorem lists_toList {es : Edges I E} (h : es.Lawful) : Lists es.toList es.mapping :=
  lists_mapping (nodup_toList h)

variable [LawfulCodec E]

/-! ## Maps have one way to go

A map answers each call in one way, and decoding a section that holds a map has one result. So two
runs with the same calls agree in every reply. -/

theorem MapStep.unique {m m₁ m₂ : Mapping I E} {call : Call I E} {reply₁ reply₂ : Reply I E}
    (h₁ : MapStep m call reply₁ m₁) (h₂ : MapStep m call reply₂ m₂) :
    reply₁ = reply₂ ∧ m₁ = m₂ := by
  cases h₁ with
  | decode hold₁ =>
    cases h₂ with
    | decode hold₂ =>
      obtain ⟨rfl, rfl⟩ := hold₁.unique hold₂
      exact ⟨rfl, rfl⟩
  | _ => cases h₂; exact ⟨rfl, rfl⟩

theorem MapRun.unique {m m₁ m₂ : Mapping I E} {calls : List (Call I E)}
    {replies₁ replies₂ : List (Reply I E)} (h₁ : MapRun m calls replies₁ m₁)
    (h₂ : MapRun m calls replies₂ m₂) : replies₁ = replies₂ ∧ m₁ = m₂ := by
  induction h₁ generalizing replies₂ with
  | nil m =>
    cases h₂
    exact ⟨rfl, rfl⟩
  | cons first₁ _ ih =>
    cases h₂ with
    | cons first₂ others₂ =>
      obtain ⟨rfl, rfl⟩ := first₁.unique first₂
      obtain ⟨rfl, rfl⟩ := ih others₂
      exact ⟨rfl, rfl⟩

/-! ## One call

A lawful container has the answers of its map by the lemmas of `Edges`, one for each call. In the
other direction a call that succeeds is one that maps know. -/

/-- **A container does what its map does.** -/
theorem perform_of_mapStep {es : Edges I E} {call : Call I E} {reply : Reply I E}
    {m : Mapping I E} (hlawful : es.Lawful) (h : MapStep es.mapping call reply m) :
    (es.perform call).1.Says reply ∧ (es.perform call).2.Lawful
      ∧ (es.perform call).2.mapping = m := by
  cases h with
  | add target value =>
    obtain ⟨hnew, hafter, hmap⟩ := add_spec hlawful target value
    refine ⟨?_, hafter, hmap⟩
    -- an edge is new when the map has nothing under its target
    have hsaid : (es.mapping.lookup target).isNone = (es.add target value).1 := by
      rw [Bool.eq_iff_iff, hnew, Option.isNone_iff_eq_none, Finmap.lookup_eq_none]
    rw [hsaid]
    exact .isNew _
  | remove target =>
    obtain ⟨hfound, hafter, hmap⟩ := remove_spec hlawful target
    refine ⟨?_, hafter, hmap⟩
    rw [← hfound]
    exact .value _
  | get target =>
    refine ⟨?_, hlawful, rfl⟩
    rw [← get?_eq hlawful]
    exact .value _
  | count =>
    refine ⟨?_, hlawful, rfl⟩
    rw [← count_eq hlawful]
    exact .number _
  | clear => exact ⟨.done, lawful_clear es, mapping_clear es⟩
  | list => exact ⟨.listed (lists_toList hlawful), hlawful, rfl⟩
  | encode =>
    refine ⟨?_, hlawful, rfl⟩
    rw [perform, encode_eq hlawful]
    exact .bytes (lists_toList hlawful)
  | decode hholds =>
    obtain ⟨es', hdecode, hafter, hperm⟩ := decodeInto_of_holds hholds es
    rw [perform, hdecode]
    refine ⟨.decoded _, hafter, ?_⟩
    exact mapping_perm (nodup_toList hafter) hperm

/-- **What a container does has a meaning to its map**, unless it fails. -/
theorem mapStep_of_perform (es : Edges I E) {call : Call I E}
    (hok : (es.perform call).1.isOk = true) : ∃ reply m, MapStep es.mapping call reply m := by
  cases call with
  | add target value => exact ⟨_, _, .add target value⟩
  | remove target => exact ⟨_, _, .remove target⟩
  | get target => exact ⟨_, _, .get target⟩
  | count => exact ⟨_, _, .count⟩
  | clear => exact ⟨_, _, .clear⟩
  | list => exact ⟨_, _, .list⟩
  | encode => exact ⟨_, _, .encode⟩
  | decode input =>
    have hread : (es.decodeInto input).outcome = .ok () := by
      cases houtcome : (es.decodeInto input).outcome with
      | error e =>
        rw [perform, houtcome] at hok
        cases hok
      | ok _ => rfl
    obtain ⟨pairs, hholds⟩ := holds_of_decodeInto hread
    exact ⟨_, _, .decode hholds⟩

/-! ## Runs

Call by call. Only in the second direction is success needed: a decode that fails has no meaning to
a map. -/

/-- **A container follows its map** through a run. -/
theorem run_of_mapRun {es : Edges I E} {calls : List (Call I E)} {replies : List (Reply I E)}
    {final : Mapping I E} (hlawful : es.Lawful) (h : MapRun es.mapping calls replies final) :
    List.Forall₂ Answer.Says (es.run calls).1 replies ∧ (es.run calls).2.Lawful
      ∧ (es.run calls).2.mapping = final := by
  induction calls generalizing es replies with
  | nil =>
    cases h
    exact ⟨.nil, hlawful, rfl⟩
  | cons call calls ih =>
    cases h with
    | cons first others =>
      obtain ⟨hsaid, hafter, rfl⟩ := perform_of_mapStep hlawful first
      obtain ⟨hanswers, hfinal⟩ := ih hafter others
      exact ⟨.cons hsaid hanswers, hfinal⟩

/-- **A run that succeeds is one of the map.** -/
theorem mapRun_of_run {es : Edges I E} {calls : List (Call I E)} (hlawful : es.Lawful)
    (hok : ∀ answer ∈ (es.run calls).1, answer.isOk = true) :
    ∃ replies final, MapRun es.mapping calls replies final := by
  induction calls generalizing es with
  | nil => exact ⟨[], es.mapping, .nil _⟩
  | cons call calls ih =>
    obtain ⟨reply, m, hstep⟩ := mapStep_of_perform es (hok _ List.mem_cons_self)
    obtain ⟨_, hafter, hmap⟩ := perform_of_mapStep hlawful hstep
    have hothers : ∀ answer ∈ ((es.perform call).2.run calls).1, answer.isOk = true :=
      fun answer hmem => hok answer (List.mem_cons_of_mem _ hmem)
    obtain ⟨replies, final, hrun⟩ := ih hafter hothers
    rw [hmap] at hrun
    exact ⟨reply :: replies, final, .cons hstep hrun⟩

/-- A container that means a map is lawful. -/
theorem Means.lawful {es : Edges I E} {m : Mapping I E} (h : es.Means m) : es.Lawful := by
  obtain ⟨strategy, calls, replies, hrun, rfl⟩ := h
  rw [← mapping_empty strategy] at hrun
  exact (run_of_mapRun (lawful_empty strategy) hrun).2.1

theorem Means.mapping_eq {es : Edges I E} {m : Mapping I E} (h : es.Means m) : es.mapping = m := by
  obtain ⟨strategy, calls, replies, hrun, rfl⟩ := h
  rw [← mapping_empty strategy] at hrun
  exact (run_of_mapRun (lawful_empty strategy) hrun).2.2

/-- **Every container that successful calls made** is one of a map. -/
theorem exists_means {strategy : EdgeStrategy} {calls : List (Call I E)}
    (hok : ∀ answer ∈ ((empty strategy : Edges I E).run calls).1, answer.isOk = true) :
    ∃ m, ((empty strategy : Edges I E).run calls).2.Means m := by
  obtain ⟨replies, final, hrun⟩ := mapRun_of_run (lawful_empty strategy) hok
  rw [mapping_empty] at hrun
  exact ⟨final, strategy, calls, replies, hrun, rfl⟩

/-! ## Calls that fail

A decode that fails may leave a container in disorder. What it never leaves is an encoded section
that cannot be read, and later modules rely on that. -/

/-- The container came to be by calls. Decodes among them may have failed. -/
def Arises (es : Edges I E) : Prop :=
  ∃ strategy calls, es = ((empty strategy : Edges I E).run calls).2

theorem kept_decodeInto (es : Edges I E) (input : Bytes) : (es.decodeInto input).target.Kept := by
  cases houtcome : (es.decodeInto input).outcome with
  | ok _ => exact (lawful_decodeInto houtcome).kept
  | error e =>
    cases es with
    | hashed table => exact trivial
    | sorted list => exact trivial
    -- encoded bytes are kept only when all of them were read
    | lazy edges => exact LazyEdges.lawful_of_decode_error houtcome

/-- **Every call leaves readable bytes**, those that fail included. -/
theorem kept_perform {es : Edges I E} (h : es.Kept) (call : Call I E) :
    (es.perform call).2.Kept := by
  cases call with
  | add target value =>
    cases es with
    | hashed table => exact trivial
    | sorted list => exact trivial
    | lazy edges => exact edges.lawful_changed _
  | remove target =>
    cases es with
    | hashed table => exact trivial
    | sorted list => exact trivial
    | lazy edges => exact LazyEdges.lawful_remove h target
  | get target => exact h
  | count => exact h
  | clear => exact (lawful_clear es).kept
  | list => exact h
  | encode => exact h
  | decode input => exact kept_decodeInto es input

/-- So whatever calls there were, its bytes can be read. -/
theorem kept_run {es : Edges I E} (h : es.Kept) (calls : List (Call I E)) :
    (es.run calls).2.Kept := by
  induction calls generalizing es with
  | nil => exact h
  | cons call calls ih => exact ih (kept_perform h call)

theorem Arises.kept {es : Edges I E} (h : es.Arises) : es.Kept := by
  obtain ⟨strategy, calls, rfl⟩ := h
  exact kept_run (lawful_empty strategy).kept calls

/-! ## The strategies compared

The answers of one container settle what the map does, and every other container follows the same
map. -/

/-- **The strategies are one finite map.** Calls of which none fails with some strategy have a
meaning to the empty map, and every strategy answers as that map does. What the containers become
lists the map that it becomes, and their encoded forms are read as that map by every container. -/
theorem strategies_are_one_map {calls : List (Call I E)} {chosen : EdgeStrategy}
    (hok : ∀ answer ∈ ((empty chosen : Edges I E).run calls).1, answer.isOk = true) :
    ∃ replies final, MapRun ∅ calls replies final ∧ ∀ strategy,
      let ran := (empty strategy : Edges I E).run calls
      List.Forall₂ Answer.Says ran.1 replies ∧ Lists ran.2.toList final
        ∧ (ran.2.encode.length < wordLimit → ∀ before rest,
          MapStep before (.decode (ran.2.encode ++ rest)) (.decoded rest) final) := by
  obtain ⟨replies, final, hrun⟩ := mapRun_of_run (lawful_empty chosen) hok
  rw [mapping_empty] at hrun
  refine ⟨replies, final, hrun, fun strategy => ?_⟩
  have hrun' := hrun
  rw [← mapping_empty strategy] at hrun'
  obtain ⟨hsaid, hlawful, rfl⟩ := run_of_mapRun (lawful_empty strategy) hrun'
  refine ⟨hsaid, lists_toList hlawful, fun hlen before rest => ?_⟩
  rw [encode_eq hlawful] at hlen ⊢
  rw [Section.encode, List.length_append] at hlen
  exact .decode (Section.holds_encode (nodup_toList hlawful) (by omega) rest)

def others : List (UInt64 × UInt64) := [(7, 70), (2, 20)]

def refilled : List (Call UInt64 UInt64) :=
  [.add 3 30, .add 1 10, .add 3 31, .encode, .remove 1, .get 3, .remove 1,
    .decode ((ofList .hashed others).encode ++ [9]), .list, .add 2 21, .count]

theorem strategies_are_one_map_refilled :
    (∀ answer ∈ ((empty .lazy : Edges UInt64 UInt64).run refilled).1, answer.isOk = true) ∧
    ∀ strategy, List.Forall₂ Answer.Says ((empty strategy : Edges UInt64 UInt64).run refilled).1
      [.isNew true, .isNew true, .isNew false,
        .encoded (Superstep.mapping [(3, 31), (1, 10)]), .value (some 10), .value (some 31),
        .value none, .decoded [9], .listed (Superstep.mapping others),
        .isNew false, .number 2] := by
  have hok : ∀ answer ∈ ((empty .lazy : Edges UInt64 UInt64).run refilled).1,
      answer.isOk = true := by decide +kernel
  refine ⟨hok, fun strategy => ?_⟩
  obtain ⟨replies, final, hrun, hsaid⟩ := strategies_are_one_map hok
  -- the calls mean one thing to a map
  have hnodup : (others.map Prod.fst).Nodup := by decide
  have hholds := Section.holds_encode hnodup (by decide) [9]
  obtain ⟨rfl, -⟩ := hrun.unique
    (.cons (.add 3 30) (.cons (.add 1 10) (.cons (.add 3 31) (.cons .encode (.cons (.remove 1)
      (.cons (.get 3) (.cons (.remove 1) (.cons (.decode hholds) (.cons .list
        (.cons (.add 2 21) (.cons .count (.nil _))))))))))))
  exact (hsaid strategy).1

end Superstep.Edges
