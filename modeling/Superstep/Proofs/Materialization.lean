import Superstep.Proofs.Acceptance
import Superstep.Proofs.Reuse

/-!
# Superstep — edges that are kept encoded are a list

A container that keeps its edges encoded has two forms, with lookups, counts, listings and encoded
forms of their own. The first change makes it go over from the one to the other. Here both are
compared to one ordered association list, of which no other definition knows: it begins in the order
of the section, overwrites and deletes in place, and takes new targets in at its end.

* **`ListStep`**, **`ListRun`** — what such a list answers, and whether it was changed since it was
  read;
* **`listStep_perform`** — one call of a container, in either form;
* **`alike_perform`** — two containers of one list answer alike, whatever their forms;
* **`materialization_invisible`** — so no answer tells in which form a container is.
-/

namespace Superstep

/-! ## Ordered association lists

What these do is told without a table: a search from the front, an overwriting in place or at the
end, and a deletion. Tables are compared with them through their listing. -/

namespace Assoc

variable {K V : Type} [DecidableEq K]

/-- The value of the first pair with this key. -/
def find? : List (K × V) → K → Option V
  | [], _ => none
  | (key, value) :: pairs, k => if key = k then some value else find? pairs k

/-- Overwrites the value of a key in place. A new key goes to the end. -/
def put : List (K × V) → K → V → List (K × V)
  | [], k, v => [(k, v)]
  | (key, value) :: pairs, k, v =>
    if key = k then (key, v) :: pairs else (key, value) :: put pairs k v

/-- Takes the first pair with this key out, and closes the gap. -/
def delete : List (K × V) → K → List (K × V)
  | [], _ => []
  | (key, value) :: pairs, k => if key = k then pairs else (key, value) :: delete pairs k

theorem find?_eq (pairs : List (K × V)) (k : K) :
    find? pairs k = (pairs.find? fun e => e.1 = k).map Prod.snd := by
  induction pairs with
  | nil => rfl
  | cons e pairs ih =>
    by_cases h : e.1 = k
    · simp [find?, h]
    · simp [find?, h, ih]

theorem put_of_absent {pairs : List (K × V)} {k : K} (h : k ∉ pairs.map Prod.fst) (v : V) :
    put pairs k v = pairs ++ [(k, v)] := by
  induction pairs with
  | nil => rfl
  | cons e pairs ih =>
    obtain ⟨hfirst, hothers⟩ := List.ne_and_not_mem_of_not_mem_cons h
    rw [put, if_neg (Ne.symm hfirst), ih hothers]
    rfl

theorem delete_of_absent {pairs : List (K × V)} {k : K} (h : k ∉ pairs.map Prod.fst) :
    delete pairs k = pairs := by
  induction pairs with
  | nil => rfl
  | cons e pairs ih =>
    obtain ⟨hfirst, hothers⟩ := List.ne_and_not_mem_of_not_mem_cons h
    rw [delete, if_neg (Ne.symm hfirst), ih hothers]

/-- With distinct keys, every pair may be looked at. -/
theorem put_of_present {pairs : List (K × V)} (hnodup : (pairs.map Prod.fst).Nodup) {k : K}
    (h : k ∈ pairs.map Prod.fst) (v : V) :
    put pairs k v = pairs.map fun e => (e.1, if e.1 = k then v else e.2) := by
  induction pairs with
  | nil => cases h
  | cons e pairs ih =>
    obtain ⟨hfirst, hnodup⟩ := List.nodup_cons.1 hnodup
    rw [put, List.map_cons]
    by_cases hk : e.1 = k
    · -- the others have other keys
      have hothers : pairs.map (fun e => (e.1, if e.1 = k then v else e.2)) = pairs := by
        conv_rhs => rw [← List.map_id pairs]
        refine List.map_congr_left fun e' he' => ?_
        have hne : e'.1 ≠ k := fun heq => hfirst (hk ▸ heq ▸ List.mem_map_of_mem he')
        rw [if_neg hne]
        rfl
      rw [if_pos hk, if_pos hk, hothers]
    · rw [if_neg hk, if_neg hk, ih hnodup ((List.mem_cons.1 h).resolve_left (Ne.symm hk))]

/-- When no key comes twice, deleting one is filtering it out. -/
theorem delete_eq_filter {pairs : List (K × V)} (hnodup : (pairs.map Prod.fst).Nodup) (k : K) :
    delete pairs k = pairs.filter fun e => e.1 ≠ k := by
  induction pairs with
  | nil => rfl
  | cons e pairs ih =>
    obtain ⟨hfirst, hnodup⟩ := List.nodup_cons.1 hnodup
    rw [delete]
    by_cases hk : e.1 = k
    · have habsent : k ∉ pairs.map Prod.fst := hk ▸ hfirst
      rw [if_pos hk, List.filter_cons_of_neg (by simpa using hk), ← ih hnodup,
        delete_of_absent habsent]
    · rw [if_neg hk, List.filter_cons_of_pos (by simpa using hk), ih hnodup]

end Assoc

namespace Table

variable {K V : Type} [DecidableEq K]

theorem get?_eq_find? (t : Table K V) (k : K) : t.get? k = Assoc.find? t.toList k :=
  (Assoc.find?_eq t.toList k).symm

theorem contains_eq_find? (t : Table K V) (k : K) :
    t.contains k = (Assoc.find? t.toList k).isSome := by
  rw [contains_eq_isSome, get?_eq_find?]

/-- **A table is an ordered association list** under insertion. -/
theorem toList_insert (t : Table K V) (k : K) (v : V) :
    (t.insert k v).toList = Assoc.put t.toList k v := by
  cases h : t.contains k with
  | false =>
    have habsent : k ∉ t.toList.map Prod.fst :=
      fun hmem => by simp [(t.contains_iff_mem_keys k).2 hmem] at h
    rw [toList_insert_of_not_contains t v h, Assoc.put_of_absent habsent]
  | true =>
    rw [Assoc.put_of_present t.nodup ((t.contains_iff_mem_keys k).1 h)]
    simp only [insert, h, dif_pos, mapValues]

theorem toList_erase (t : Table K V) (k : K) : (t.erase k).toList = Assoc.delete t.toList k :=
  (Assoc.delete_eq_filter t.nodup k).symm

end Table

variable {I E : Type} [VertexId I] [Value E]

namespace Edges

/-! ## Calls of a list

No answer depends on the flag. It only says whether the list was changed since it was read, which
is when a container goes over to its other form. -/

/-- An ordered association list, and whether it was changed since it was read. -/
structure Listing (I E : Type) where
  pairs : List (I × E)
  changed : Bool

def Listing.empty : Listing I E := ⟨[], false⟩

/-- What an ordered association list answers to a call, and what becomes of it. -/
inductive ListStep : Listing I E → Call I E → Answer I E → Listing I E → Prop where
  | add (l : Listing I E) (target : I) (value : E) :
    ListStep l (.add target value) (.isNew (Assoc.find? l.pairs target).isNone)
      ⟨Assoc.put l.pairs target value, true⟩
  | remove {l : Listing I E} {target : I} {value : E}
    (h : Assoc.find? l.pairs target = some value) :
    ListStep l (.remove target) (.value (some value)) ⟨Assoc.delete l.pairs target, true⟩
  | removeAbsent {l : Listing I E} {target : I} (h : Assoc.find? l.pairs target = none) :
    ListStep l (.remove target) (.value none) l
  | get (l : Listing I E) (target : I) :
    ListStep l (.get target) (.value (Assoc.find? l.pairs target)) l
  | count (l : Listing I E) : ListStep l .count (.number l.pairs.length) l
  | clear (l : Listing I E) : ListStep l .clear .done .empty
  | list (l : Listing I E) : ListStep l .list (.listed l.pairs) l
  | encode (l : Listing I E) : ListStep l .encode (.bytes (Section.encode l.pairs)) l
  /-- The edges of a section, in its order. -/
  | decode (l : Listing I E) {input rest : Bytes} {pairs : List (I × E)}
    (h : Section.Spells input pairs rest) (hnodup : (pairs.map Prod.fst).Nodup) :
    ListStep l (.decode input) (.decoded (.ok ()) rest) ⟨pairs, false⟩
  /-- Bytes that are no section. -/
  | refuse (l : Listing I E) {input : Bytes} (e : Corruption) (rest : Bytes)
    (h : ∀ pairs left, Section.Spells (I := I) (E := E) input pairs left →
      ¬ (pairs.map Prod.fst).Nodup) :
    ListStep l (.decode input) (.decoded (.error e) rest) .empty

inductive ListRun : Listing I E → List (Call I E) → List (Answer I E) → Listing I E → Prop where
  | nil (l : Listing I E) : ListRun l [] [] l
  | cons {l l' final : Listing I E} {call : Call I E} {calls : List (Call I E)}
      {answer : Answer I E} {answers : List (Answer I E)} (first : ListStep l call answer l')
      (others : ListRun l' calls answers final) :
      ListRun l (call :: calls) (answer :: answers) final

end Edges

/-! ## One call

Each call of a container in either form is compared with the list, once for the encoded form and
once for the table. Changing an encoded one makes it a table first. -/

namespace LazyEdges

/-- What the container lists, and whether it has made a list of its bytes. -/
def listing (s : LazyEdges I E) : Edges.Listing I E := ⟨s.toList, s.isMaterialized⟩

theorem get?_eq_find? (s : LazyEdges I E) (target : I) :
    s.get? target = Assoc.find? s.toList target :=
  (Assoc.find?_eq s.toList target).symm

theorem lawful_materialize (s : LazyEdges I E) : s.materialize.Lawful :=
  lawful_changed s s.materialize.pairs

theorem toList_materialize_eq {s : LazyEdges I E} (h : s.Lawful) :
    s.materialize.toList = s.toList := by
  rw [toList_of_materialized s.isMaterialized_materialize, toList_materialize h]

/-- What becomes of a list that is changed. -/
theorem listing_changed (s : LazyEdges I E) (pairs : Table I E) :
    ({ s.materialize with pairs } : LazyEdges I E).listing = ⟨pairs.toList, true⟩ := by
  rw [listing, toList_changed]
  exact congrArg _ s.isMaterialized_materialize

theorem listing_add {s : LazyEdges I E} (h : s.Lawful) (target : I) (value : E) :
    (s.add target value).1 = (Assoc.find? s.toList target).isNone
      ∧ (s.add target value).2.listing = ⟨Assoc.put s.toList target value, true⟩ := by
  constructor
  · rw [add]
    dsimp only
    rw [Table.contains_eq_find?, toList_materialize h, Option.not_isSome]
  · rw [add]
    dsimp only
    rw [listing_changed, Table.toList_insert, toList_materialize h]

theorem remove_of_absent {s : LazyEdges I E} {target : I} (h : s.get? target = none) :
    s.remove target = (none, s) := by
  rw [remove, h]

theorem listing_remove {s : LazyEdges I E} (h : s.Lawful) {target : I} {value : E}
    (hfound : s.get? target = some value) :
    (s.remove target).1 = some value
      ∧ (s.remove target).2.listing = ⟨Assoc.delete s.toList target, true⟩ := by
  rw [remove, hfound]
  dsimp only
  rw [listing_changed, Table.toList_erase, toList_materialize h]
  exact ⟨rfl, rfl⟩

/-- A section that cannot be read leaves no edges, and no list. -/
theorem listing_of_decode_error {s : LazyEdges I E} {input : Bytes} {e : Corruption}
    (h : (s.decode input).outcome = .error e) : (s.decode input).target.listing = .empty := by
  unfold decode at h ⊢
  dsimp only at h ⊢
  split at h
  · rfl
  · split at h
    · rfl
    · cases h

end LazyEdges

namespace Edges

variable [LawfulId I] [LawfulCodec E]

/-- A decode of a container that keeps edges encoded, as a list has it. -/
theorem listStep_decode (s : LazyEdges I E) (l : Listing I E) (input : Bytes) :
    ListStep l (.decode input) (.decoded (s.decode input).outcome (s.decode input).rest)
      (s.decode input).target.listing := by
  have haccepts := (same_sections (I := I) (E := E) input).1 (lazy s)
  cases houtcome : (s.decode input).outcome with
  -- a section that could be read would have been accepted
  | error e =>
    have hrefused : ((lazy s).decodeInto input).outcome ≠ .ok () := by
      intro hok
      rw [decodeInto, houtcome] at hok
      cases hok
    rw [LazyEdges.listing_of_decode_error houtcome]
    exact .refuse l e _ fun pairs left hspells hnodup =>
      hrefused (haccepts.2 ⟨pairs, left, hspells, hnodup⟩)
  | ok _ =>
    obtain ⟨pairs, rest, hspells, hnodup⟩ := haccepts.1 houtcome
    have hholds := Section.holds_iff.2 ⟨hspells, hnodup⟩
    rw [LazyEdges.decode_of_holds hholds, LazyEdges.listing,
      LazyEdges.toList_holding hholds.readable]
    exact .decode l hspells hnodup

/-- **A container that keeps edges encoded does what a list does**, in either form. -/
theorem listStep_perform {s : LazyEdges I E} (h : s.Lawful) (call : Call I E) :
    ∃ s', ((lazy s).perform call).2 = lazy s' ∧ s'.Lawful
      ∧ ListStep s.listing call ((lazy s).perform call).1 s'.listing := by
  cases call with
  | add target value =>
    obtain ⟨hnew, hafter⟩ := LazyEdges.listing_add h target value
    refine ⟨_, rfl, s.lawful_changed _, ?_⟩
    show ListStep _ _ (.isNew (s.add target value).1) (s.add target value).2.listing
    rw [hnew, hafter]
    exact .add s.listing target value
  | remove target =>
    refine ⟨_, rfl, LazyEdges.lawful_remove h target, ?_⟩
    show ListStep _ _ (.value (s.remove target).1) (s.remove target).2.listing
    -- a removal that finds nothing must not make a list of the bytes
    cases hfound : s.get? target with
    | none =>
      rw [LazyEdges.remove_of_absent hfound]
      rw [LazyEdges.get?_eq_find?] at hfound
      exact .removeAbsent hfound
    | some value =>
      obtain ⟨hvalue, hafter⟩ := LazyEdges.listing_remove h hfound
      rw [hvalue, hafter]
      rw [LazyEdges.get?_eq_find?] at hfound
      exact .remove (l := s.listing) hfound
  | get target =>
    refine ⟨s, rfl, h, ?_⟩
    show ListStep _ _ (.value (s.get? target)) _
    rw [LazyEdges.get?_eq_find?]
    exact .get s.listing target
  | count =>
    refine ⟨s, rfl, h, ?_⟩
    show ListStep _ _ (.number s.count) _
    rw [LazyEdges.count_eq h]
    exact .count s.listing
  | clear => exact ⟨s.clear, rfl, LazyEdges.lawful_of_nil rfl rfl, .clear s.listing⟩
  | list => exact ⟨s, rfl, h, .list s.listing⟩
  | encode =>
    refine ⟨s, rfl, h, ?_⟩
    show ListStep _ _ (.bytes s.encode) _
    rw [LazyEdges.encode_eq h]
    exact .encode s.listing
  | decode input =>
    exact ⟨_, rfl, kept_decodeInto (lazy s) input, listStep_decode s s.listing input⟩

/-! ## Containers of one list -/

/-- A list has one answer to a call, unless the call fails. -/
theorem ListStep.unique {l₁ l₂ m₁ m₂ : Listing I E} {call : Call I E} {answer₁ answer₂ : Answer I E}
    (h₁ : ListStep l₁ call answer₁ m₁) (h₂ : ListStep l₂ call answer₂ m₂)
    (hpairs : l₁.pairs = l₂.pairs) (hok : answer₁.isOk = true) :
    answer₁ = answer₂ ∧ m₁.pairs = m₂.pairs := by
  cases h₁ with
  | add => cases h₂; exact ⟨by rw [hpairs], by rw [hpairs]⟩
  | get | count | list | encode => cases h₂; exact ⟨by rw [hpairs], hpairs⟩
  | clear => cases h₂; exact ⟨rfl, rfl⟩
  | remove hfound =>
    rw [hpairs] at hfound
    cases h₂ with
    | remove hfound' =>
      rw [hfound'] at hfound
      cases hfound
      exact ⟨rfl, by rw [hpairs]⟩
    | removeAbsent habsent =>
      rw [habsent] at hfound
      cases hfound
  | removeAbsent habsent =>
    rw [hpairs] at habsent
    cases h₂ with
    | remove hfound =>
      rw [hfound] at habsent
      cases habsent
    | removeAbsent _ => exact ⟨rfl, hpairs⟩
  | decode hspells hnodup =>
    cases h₂ with
    | decode hspells' _ =>
      -- a section spells one row of edges
      obtain ⟨rfl, rfl⟩ := hspells.unique hspells'
      exact ⟨rfl, rfl⟩
    | refuse _ _ hnone => exact absurd hnodup (hnone _ _ hspells)
  | refuse => cases hok

/-- **Containers of one list answer alike**, whatever their forms, and go on to be containers of one
list. -/
theorem alike_perform {s t : LazyEdges I E} (hs : s.Lawful) (ht : t.Lawful)
    (hlist : s.toList = t.toList) (call : Call I E) :
    ∃ s' t', ((lazy s).perform call).2 = lazy s' ∧ ((lazy t).perform call).2 = lazy t'
      ∧ s'.Lawful ∧ t'.Lawful ∧ s'.toList = t'.toList
      ∧ ((lazy s).perform call).1 = ((lazy t).perform call).1 := by
  obtain ⟨s', hperform, hlawful, hstep⟩ := listStep_perform hs call
  obtain ⟨t', hperform', hlawful', hstep'⟩ := listStep_perform ht call
  refine ⟨s', t', hperform, hperform', hlawful, hlawful', ?_⟩
  cases call with
  | decode input =>
    -- a decode does not look at what was there
    obtain ⟨houtcome, hrest, htarget⟩ := s.decode_agrees t input
    cases hperform
    cases hperform'
    refine ⟨?_, by rw [perform, perform, decodeInto, decodeInto, houtcome, hrest]⟩
    cases hok : (s.decode input).outcome with
    | ok _ => rw [htarget hok]
    | error e =>
      have hempty := LazyEdges.listing_of_decode_error hok
      have hempty' := LazyEdges.listing_of_decode_error (houtcome ▸ hok)
      exact congrArg Listing.pairs (hempty.trans hempty'.symm)
  | add | remove | get | count | clear | list | encode =>
    obtain ⟨hanswer, hpairs⟩ := hstep.unique hstep' hlist rfl
    exact ⟨hpairs, hanswer⟩

/-! ## Runs -/

/-- The container with a list in place of its bytes, as a change makes it. -/
def materialize : Edges I E → Edges I E
  | lazy s => lazy s.materialize
  | es => es

/-- Makes the calls in turn. In front of those that are marked the container makes a list of its
bytes, although nothing asks for it. -/
def runEarly (es : Edges I E) : List (Bool × Call I E) → List (Answer I E) × Edges I E
  | [] => ([], es)
  | (early, call) :: turns =>
    let (answer, es) := (if early then es.materialize else es).perform call
    let (answers, es) := es.runEarly turns
    (answer :: answers, es)

theorem listRun_run {s : LazyEdges I E} (h : s.Lawful) (calls : List (Call I E)) :
    ∃ s', ((lazy s).run calls).2 = lazy s' ∧ s'.Lawful
      ∧ ListRun s.listing calls ((lazy s).run calls).1 s'.listing := by
  induction calls generalizing s with
  | nil => exact ⟨s, rfl, h, .nil s.listing⟩
  | cons call calls ih =>
    obtain ⟨s', hperform, hlawful, hstep⟩ := listStep_perform h call
    obtain ⟨s'', hrun, hfinal, hothers⟩ := ih hlawful
    rw [← hperform] at hrun hothers
    exact ⟨s'', hrun, hfinal, .cons hstep hothers⟩

/-- **When the list is made does not matter**, as long as it is one of the same edges. -/
theorem alike_runEarly {s t : LazyEdges I E} (hs : s.Lawful) (ht : t.Lawful)
    (hlist : s.toList = t.toList) (turns : List (Bool × Call I E)) :
    ∃ s' t', ((lazy s).run (turns.map Prod.snd)).2 = lazy s' ∧ ((lazy t).runEarly turns).2 = lazy t'
      ∧ s'.Lawful ∧ t'.Lawful ∧ s'.toList = t'.toList
      ∧ ((lazy s).run (turns.map Prod.snd)).1 = ((lazy t).runEarly turns).1 := by
  -- the two differ in form at most, which holds again after every call
  induction turns generalizing s t with
  | nil => exact ⟨s, t, rfl, rfl, hs, ht, hlist, rfl⟩
  | cons turn turns ih =>
    obtain ⟨early, call⟩ := turn
    -- a list made early has the edges of the bytes
    obtain ⟨t₀, hform, hbefore, hlist'⟩ : ∃ t₀ : LazyEdges I E,
        (if early then (lazy t).materialize else lazy t) = lazy t₀ ∧ t₀.Lawful
          ∧ s.toList = t₀.toList := by
      cases early with
      | false => exact ⟨t, rfl, ht, hlist⟩
      | true =>
        exact ⟨t.materialize, rfl, t.lawful_materialize,
          hlist.trans (LazyEdges.toList_materialize_eq ht).symm⟩
    obtain ⟨s', t', hperform, hperform', hs', ht', hafter, hanswer⟩ :=
      alike_perform hs hbefore hlist' call
    obtain ⟨s'', t'', hrun, hrun', hs'', ht'', hfinal, hanswers⟩ := ih hs' ht' hafter
    rw [List.map_cons, run, runEarly, hform]
    dsimp only
    rw [hperform, hperform', hanswer, hanswers]
    exact ⟨s'', t'', hrun, hrun', hs'', ht'', hfinal, rfl⟩

/-- The call leaves the edges of the container as they are. -/
def Call.Quiet (es : Edges I E) : Call I E → Prop
  | .get _ | .count | .list | .encode => True
  | .remove target => es.get? target = none
  | .add _ _ | .clear | .decode _ => False

omit [LawfulId I] [LawfulCodec E] in
theorem Call.Quiet.perform_eq {s : LazyEdges I E} {call : Call I E} (h : call.Quiet (lazy s)) :
    ((lazy s).perform call).2 = lazy s := by
  cases call with
  | get | count | list | encode => rfl
  | remove target =>
    show lazy (s.remove target).2 = lazy s
    rw [LazyEdges.remove_of_absent h]
  | add | clear | decode => exact False.elim h

omit [LawfulId I] [LawfulCodec E] in
/-- **Only a change makes the container other than it is.** -/
theorem run_quiet (s : LazyEdges I E) {calls : List (Call I E)}
    (h : ∀ call ∈ calls, call.Quiet (lazy s)) : ((lazy s).run calls).2 = lazy s := by
  induction calls with
  | nil => rfl
  | cons call calls ih =>
    have hfirst := (h call List.mem_cons_self).perform_eq
    rw [run]
    dsimp only
    rw [hfirst]
    exact ih fun other hother => h other (List.mem_cons_of_mem _ hother)

/-- **The form in which edges are kept is invisible.** Take an empty container that keeps edges
encoded, and make any calls: sections may be decoded, with or without success, and edges looked up,
counted, listed, encoded, added and removed, before and after. Every answer is that of one ordered
association list, which begins with the edges of the last section in their order; the container has
made a list of its bytes if and only if the edges were changed since then; and it lists as many
edges as it counts. If it makes that list earlier, in front of any of the calls, then it gives the
same answers, and has the same edges and the same encoded form in the end.

Lookups, counts, listings, encodings and removals of absent targets leave every container as it is.
So after a section was read, the container stays encoded until the first change, and its encoded
form until then is that section. -/
theorem materialization_invisible :
    (∀ turns : List (Bool × Call I E),
      let calls := turns.map Prod.snd
      let ran := (empty .lazy : Edges I E).run calls
      let early := (empty .lazy : Edges I E).runEarly turns
      (∃ s, ran.2 = lazy s ∧ ListRun .empty calls ran.1 s.listing ∧ s.count = s.toList.length)
        ∧ early.1 = ran.1 ∧ early.2.toList = ran.2.toList ∧ early.2.count = ran.2.count
        ∧ early.2.encode = ran.2.encode)
    ∧ (∀ (s : LazyEdges I E) (calls : List (Call I E)), (∀ call ∈ calls, call.Quiet (lazy s)) →
      ((lazy s).run calls).2 = lazy s)
    ∧ ∀ (old : LazyEdges I E) (input : Bytes), (old.decode input).outcome = .ok () →
      let read := old.decode input
      read.target.isMaterialized = false ∧ read.target.encode ++ read.rest = input := by
  refine ⟨fun turns => ?_, run_quiet, fun old input hok => ?_⟩
  · have hempty : (LazyEdges.empty : LazyEdges I E).Lawful := LazyEdges.lawful_of_nil rfl rfl
    obtain ⟨s, hran, hs, hrun⟩ := listRun_run hempty (turns.map Prod.snd)
    obtain ⟨s', t, hran', hearly, -, ht, hlist, hanswers⟩ :=
      alike_runEarly hempty hempty rfl turns
    -- the two runs are of one container, with and without the flag
    obtain rfl : s = s' := by
      rw [hran] at hran'
      cases hran'
      rfl
    intro calls ran early
    have hran : ran.2 = lazy s := hran
    have hearly : early.2 = lazy t := hearly
    rw [hran, hearly]
    refine ⟨⟨s, rfl, hrun, LazyEdges.count_eq hs⟩, hanswers.symm, hlist.symm, ?_, ?_⟩
    · show t.count = s.count
      rw [LazyEdges.count_eq ht, LazyEdges.count_eq hs, hlist]
    · show t.encode = s.encode
      rw [LazyEdges.encode_eq ht, LazyEdges.encode_eq hs, hlist]
  · obtain ⟨pairs, rest, hspells, hnodup⟩ :=
      ((same_sections (I := I) (E := E) input).1 (lazy old)).1 hok
    have hholds := Section.holds_iff.2 ⟨hspells, hnodup⟩
    rw [LazyEdges.decode_of_holds hholds]
    exact ⟨rfl, hholds.bytes.symm⟩

def shuffled : Bytes := Section.encode [((7 : UInt64), (70 : UInt64)), (2, 20), (5, 50)] ++ [9]

/-- The section is read and its edges are changed. The list is made twice when nothing asks for it:
in front of a lookup, and when it is there already. -/
def hurried : List (Bool × Call UInt64 UInt64) :=
  [(false, .decode shuffled), (false, .remove 9), (true, .get 2), (false, .add 2 21),
    (true, .remove 7), (false, .add 3 30), (false, .list), (false, .encode)]

theorem materialization_invisible_hurried :
    let ran := (empty .lazy : Edges UInt64 UInt64).run (hurried.map Prod.snd)
    let early := (empty .lazy : Edges UInt64 UInt64).runEarly hurried
    let read := (LazyEdges.empty : LazyEdges UInt64 UInt64).decode shuffled
    early.1 = ran.1 ∧ early.2.toList = [(2, 21), (5, 50), (3, 30)]
      ∧ read.outcome = .ok () ∧ read.target.encode ++ [9] = shuffled
      ∧ (∀ call ∈ ([.get 2, .remove 9, .encode] : List (Call UInt64 UInt64)),
        call.Quiet (lazy read.target))
      ∧ ((lazy read.target).run [.get 2, .remove 9, .encode]).2 = lazy read.target := by
  intro ran early read
  obtain ⟨hruns, hquiet, hreads⟩ := materialization_invisible (I := UInt64) (E := UInt64)
  obtain ⟨-, hanswers, hlist, -⟩ := hruns hurried
  have hran : ran.2.toList = [(2, 21), (5, 50), (3, 30)] := by decide +kernel
  have hok : read.outcome = .ok () := by rfl
  have hrest : read.rest = [9] := by rfl
  have habsent : ∀ call ∈ ([.get 2, .remove 9, .encode] : List (Call UInt64 UInt64)),
      call.Quiet (lazy read.target) := by
    have hnone : (lazy read.target).get? 9 = none := by decide +kernel
    simp [Call.Quiet, hnone]
  exact ⟨hanswers, hlist.trans hran, hok, hrest ▸ (hreads .empty shuffled hok).2, habsent,
    hquiet read.target _ habsent⟩

end Edges

end Superstep
