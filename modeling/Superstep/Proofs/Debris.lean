import Superstep.Proofs.EdgeCalls

/-!
# Superstep — what a failed decode leaves of an edge container

A decode that fails has taken the former edges away and may have taken some of the section in. What
is left is a map again with two of the three strategies, whatever the bytes are. A list in target
order is put in order at the end only, so that it is left as it was read when the section breaks
off, and with its repeated targets when it has any.

* **`Tidy`**, **`lawful_decodeInto_iff`** — which bytes leave a container that holds what its
  strategy is made for: all of them, but for a list only a whole section, or one whose edges are
  in order as far as they can be read;
* **`Recovers`**, **`lawful_run`** — a list that was left out of order is a map again after it was
  cleared or read anew;
* **`one_map_after_failures`** — from there on the container answers as one finite map.
-/

namespace Superstep

variable {I E : Type} [VertexId I] [Value E]

namespace Section

/-- The edges that can be read behind the count of a section, as many as it counts at the most.
There are none when the count is refused. -/
def front (I E : Type) [VertexId I] [Value E] (input : Bytes) : List (I × E) :=
  match (count I E).run input with
  | (.error _, _) => []
  | (.ok n, rest) => scan n rest

/-- What was collected before it broke off is what a scan finds. -/
theorem collect_target (n : Nat) (input : Bytes) :
    (collect (I := I) (E := E) n input).target = scan n input := by
  induction n generalizing input with
  | zero => rfl
  | succ n ih =>
    rw [collect, scan, Decoder.scan]
    cases hpair : (pair (I := I) (E := E)).run input with
    | mk outcome rest =>
      rw [Decoder.run] at hpair
      rw [hpair]
      cases outcome with
      | error e => rfl
      | ok edge => exact congrArg (edge :: ·) (ih rest)

end Section

namespace SortedEdges

/-- **A list is in order after a decode** when a whole section was read, or when the edges that
were read stood in order. -/
theorem ascending_decode_iff [LawfulId I] (input : Bytes) :
    Ascending (decode (I := I) (E := E) input).target.pairs
      ↔ (decode (I := I) (E := E) input).outcome = .ok ()
        ∨ Ascending (Section.front I E input) := by
  rw [decode, Section.front]
  -- the three ways a decode ends: no count, a pair that cannot be read, a repeat found or none
  cases hcount : (Section.count I E).run input with
  | mk counted rest =>
    cases counted with
    | error e => exact iff_of_true .nil (Or.inr .nil)
    | ok n =>
      dsimp only
      rw [← Section.collect_target]
      generalize Section.collect (I := I) (E := E) n rest = read
      have hperm := (List.mergeSort_perm read.target inOrder).map Prod.fst
      split
      · exact (or_iff_right fun h => by cases h).symm
      · split
        -- a target that is repeated is in the way of every order
        · next target hrepeat =>
          have hnot : ¬ (read.target.map Prod.fst).Nodup := by
            intro hnodup
            rw [firstRepeat?_eq_none (hperm.nodup_iff.2 hnodup)] at hrepeat
            cases hrepeat
          refine iff_of_false (fun h => hnot (hperm.nodup_iff.1 h.nodup)) ?_
          rintro (h | h)
          · cases h
          · exact hnot h.nodup
        · next hnone =>
          exact iff_of_true (ascending_of_firstRepeat? (pairwise_mergeSort_inOrder _) hnone)
            (Or.inl rfl)

end SortedEdges

namespace Edges

/-! ## Which calls leave a map

A decode is tidy when it leaves a map whatever was there before. Where one is not, some later call
has to restore the container, and `Recovers` asks just this of a list of calls. -/

/-- Decoding these bytes leaves a container of the strategy a map, even if it fails: a list in
target order needs a whole section, or one whose edges are in order as far as they can be read. -/
def Tidy (I E : Type) [VertexId I] [Value E] (strategy : EdgeStrategy) (input : Bytes) : Prop :=
  strategy = .sorted →
    (∃ (pairs : List (I × E)) (rest : Bytes), Section.Holds input pairs rest)
      ∨ SortedEdges.Ascending (Section.front I E input)

/-- The call leaves a container of the strategy a map, whatever it was before. -/
def Call.Restores (strategy : EdgeStrategy) : Call I E → Prop
  | .clear => True
  | .decode input => Tidy I E strategy input
  | _ => False

/-- A decode that leaves the container no map is followed by a call that makes it one again. -/
def Recovers (strategy : EdgeStrategy) : List (Call I E) → Prop
  | [] => True
  | .decode input :: calls =>
    (Tidy I E strategy input ∨ ∃ call ∈ calls, call.Restores strategy) ∧ Recovers strategy calls
  | _ :: calls => Recovers strategy calls

/-- Only lists have to be made up for. -/
theorem recovers_of_ne {strategy : EdgeStrategy} (h : strategy ≠ .sorted)
    (calls : List (Call I E)) : Recovers strategy calls := by
  induction calls with
  | nil => exact trivial
  | cons call calls ih =>
    cases call with
    | decode input => exact ⟨Or.inl fun heq => absurd heq h, ih⟩
    | add | remove | get | count | clear | list | encode => exact ih

theorem strategy_perform (es : Edges I E) (call : Call I E) :
    (es.perform call).2.strategy = es.strategy := by
  cases call with
  | decode input => exact strategy_decodeInto es input
  | clear | add | remove => cases es <;> rfl
  | get | count | list | encode => rfl

theorem strategy_run (es : Edges I E) (calls : List (Call I E)) :
    (es.run calls).2.strategy = es.strategy := by
  induction calls generalizing es with
  | nil => rfl
  | cons call calls ih => exact (ih (es.perform call).2).trans (strategy_perform es call)

/-- For a list in target order, being lawful is being in order. -/
theorem lawful_iff_ascending {es : Edges I E} (h : es.strategy = .sorted) :
    es.Lawful ↔ SortedEdges.Ascending es.toList := by
  cases es with
  | sorted list => exact Iff.rfl
  | hashed | lazy => cases h

variable [LawfulId I] [LawfulCodec E]

/-! ## Single calls

Of the calls only two do not need a map to leave one. The others keep one that is there. -/

/-- **What tidy bytes leave**, and no others: a container that holds what it is made for. -/
theorem lawful_decodeInto_iff (es : Edges I E) (input : Bytes) :
    (es.decodeInto input).target.Lawful ↔ Tidy I E es.strategy input := by
  cases es with
  | hashed table => exact iff_of_true trivial fun h => by cases h
  | lazy edges => exact iff_of_true (kept_decodeInto (lazy edges) input) fun h => by cases h
  | sorted list =>
    refine (SortedEdges.ascending_decode_iff input).trans ?_
    rw [Tidy, strategy, forall_prop_of_true rfl]
    refine or_congr_left ⟨fun hok => ?_, fun ⟨pairs, rest, hholds⟩ => ?_⟩
    · obtain ⟨pairs, hholds⟩ := SortedEdges.holds_of_decode hok
      exact ⟨pairs, _, hholds⟩
    · rw [SortedEdges.decode_of_holds hholds]

/-- A call that restores leaves a map, out of whatever debris. -/
theorem Call.Restores.lawful {es : Edges I E} {call : Call I E} (h : call.Restores es.strategy) :
    (es.perform call).2.Lawful := by
  cases call with
  | clear => exact lawful_clear es
  | decode input => exact (lawful_decodeInto_iff es input).2 h
  | add | remove | get | count | list | encode => exact False.elim h

/-- A map stays one with every call except a decode that is not tidy. -/
theorem lawful_perform {es : Edges I E} (h : es.Lawful) {call : Call I E}
    (hcall : ∀ input, call = .decode input → Tidy I E es.strategy input) :
    (es.perform call).2.Lawful := by
  cases call with
  | add target value => exact (add_spec h target value).2.1
  | remove target => exact (remove_spec h target).2.1
  | get | count | list | encode => exact h
  | clear => exact lawful_clear es
  | decode input => exact (lawful_decodeInto_iff es input).2 (hcall input rfl)

/-! ## Runs

Between a decode that is not tidy and the call that restores, the container is no map. So the
induction carries an alternative: it is a map now, or one of the calls to come restores it. -/

/-- **A container is a map in the end** when every decode that left it otherwise was made up
for. -/
theorem lawful_run {es : Edges I E} {calls : List (Call I E)}
    (h : es.Lawful ∨ ∃ call ∈ calls, call.Restores es.strategy)
    (hrecovers : Recovers es.strategy calls) : (es.run calls).2.Lawful := by
  induction calls generalizing es with
  | nil =>
    rcases h with h | ⟨_, hmem, _⟩
    · exact h
    · cases hmem
  | cons call calls ih =>
    have hstrategy := strategy_perform es call
    -- after the call the container is a map, or one of the other calls will make it one
    have hnext : ((es.perform call).2.Lawful ∨ ∃ call ∈ calls, call.Restores es.strategy)
        ∧ Recovers es.strategy calls := by
      by_cases hrestores : call.Restores es.strategy
      · refine ⟨Or.inl hrestores.lawful, ?_⟩
        cases call with
        | decode input => exact hrecovers.2
        | clear => exact hrecovers
        | add | remove | get | count | list | encode => exact False.elim hrestores
      · cases call with
        | decode input => exact ⟨Or.inr (hrecovers.1.resolve_left hrestores), hrecovers.2⟩
        | clear => exact absurd trivial hrestores
        | add | remove | get | count | list | encode =>
          refine ⟨h.imp (fun h => lawful_perform h fun _ heq => by cases heq) ?_, hrecovers⟩
          rintro ⟨other, hmem, hother⟩
          rcases List.mem_cons.1 hmem with rfl | hmem
          · exact absurd hother hrestores
          · exact ⟨other, hmem, hother⟩
    rw [← hstrategy] at hnext
    exact ih hnext.1 hnext.2

/-- **Calls among which decodes fail leave one finite map.** Take a container of any strategy after
any calls, where decodes are given any bytes and may fail; only for a list in target order we ask
that a decode which is not tidy is followed, sooner or later, by a clearing or by a tidy decode.
Then the targets are distinct, and in strictly ascending order in such a list, which one more decode
leaves in order if and only if it is tidy; and there is a finite map that the container lists and
whose replies it gives to all later calls that mean something to a map. -/
theorem one_map_after_failures {strategy : EdgeStrategy} {calls : List (Call I E)}
    (h : strategy = .sorted → Recovers .sorted calls) :
    let es := ((empty strategy : Edges I E).run calls).2
    (es.toList.map Prod.fst).Nodup
      ∧ (strategy = .sorted → SortedEdges.Ascending es.toList ∧ ∀ input,
          (SortedEdges.Ascending (es.decodeInto input).target.toList ↔ Tidy I E .sorted input))
      ∧ ∃ m, Lists es.toList m ∧ ∀ more replies final, MapRun m more replies final →
          List.Forall₂ Answer.Says (es.run more).1 replies
            ∧ Lists (es.run more).2.toList final := by
  intro es
  have hempty : (empty strategy : Edges I E).strategy = strategy := by cases strategy <;> rfl
  have hstrategy : es.strategy = strategy := (strategy_run _ calls).trans hempty
  have hrecovers : Recovers strategy calls := by
    by_cases hsorted : strategy = .sorted
    · exact hsorted ▸ h hsorted
    · exact recovers_of_ne hsorted calls
  -- an empty container is a map, so that it is one in the end
  have hlawful : es.Lawful := lawful_run (Or.inl (lawful_empty strategy)) (hempty.symm ▸ hrecovers)
  refine ⟨nodup_toList hlawful, ?_, es.mapping, lists_toList hlawful, ?_⟩
  · rintro rfl
    refine ⟨(lawful_iff_ascending hstrategy).1 hlawful, fun input => ?_⟩
    have hafter : (es.decodeInto input).target.strategy = .sorted :=
      (strategy_perform es (.decode input)).trans hstrategy
    rw [← lawful_iff_ascending hafter, lawful_decodeInto_iff, hstrategy]
  · intro more replies final hrun
    obtain ⟨hsaid, hafter, rfl⟩ := run_of_mapRun hlawful hrun
    exact ⟨hsaid, lists_toList hafter⟩

def doubled : List (UInt64 × UInt64) := [(5, 50), (5, 51)]

/-- A list keeps a repeated target when it refuses the section. -/
theorem decodeInto_doubled :
    (empty .sorted : Edges UInt64 UInt64).decodeInto (Section.encode doubled)
      = ⟨.error (.duplicateTarget (VertexId.text (5 : UInt64))), sorted ⟨doubled⟩, []⟩ := by
  have hfew : doubled.length < wordLimit := by decide
  have hsmall : (Section.encodePairs doubled).length < wordLimit := by decide
  have hcount := Section.run_count_encode hfew []
  have hcollect := Section.collect_encodePairs (Section.readable_of_lt hsmall) []
  have hsort : doubled.mergeSort SortedEdges.inOrder = doubled :=
    List.mergeSort_of_pairwise (by decide)
  rw [List.append_nil] at hcount
  rw [empty, decodeInto, SortedEdges.decode, hcount]
  dsimp only
  rw [hcollect]
  dsimp only
  have hrepeat : SortedEdges.firstRepeat? doubled = some 5 := rfl
  rw [hsort, hrepeat]

/-- A list refuses a section and keeps a target twice, is cleared, and has edges of its own. -/
theorem one_map_after_failures_cleared :
    let calls : List (Call UInt64 UInt64) :=
      [.decode (Section.encode doubled), .remove 5, .clear, .add 7 70, .add 2 20]
    let es := ((empty .sorted).run calls).2
    Recovers .sorted calls ∧ es.toList = [(2, 20), (7, 70)] ∧ SortedEdges.Ascending es.toList
      ∧ List.Forall₂ Answer.Says (es.run [.get 7, .count]).1 [.value (some 70), .number 2] := by
  intro calls es
  have hrecovers : Recovers .sorted calls := ⟨Or.inr ⟨.clear, by simp, trivial⟩, trivial⟩
  have hlist : es.toList = [(2, 20), (7, 70)] := by
    simp only [es, calls, run, perform, decodeInto_doubled]
    decide +kernel
  obtain ⟨-, hascending, m, hlists, hrun⟩ := one_map_after_failures fun _ => hrecovers
  refine ⟨hrecovers, hlist, (hascending rfl).1, ?_⟩
  have hlookup : m.lookup 7 = some 70 := (hlists.mem_iff 7 70).1 (hlist ▸ by simp)
  have hcard : m.keys.card = 2 := hlists.length.symm.trans (congrArg List.length hlist)
  have hsaid := (hrun _ _ _ (.cons (.get 7) (.cons .count (.nil m)))).1
  rwa [hlookup, hcard] at hsaid

/-- After a decode that failed, a list may hold a target twice, so that it still has the target when
it was removed. -/
theorem twice_after_failure :
    let es := ((empty .sorted : Edges UInt64 UInt64).run [.decode (Section.encode doubled)]).2
    ¬ (es.toList.map Prod.fst).Nodup
      ∧ (es.remove 5).1 = some 51 ∧ (es.remove 5).2.get? 5 = some 50 := by
  simp only [run, perform, decodeInto_doubled]
  decide +kernel

end Edges

end Superstep
