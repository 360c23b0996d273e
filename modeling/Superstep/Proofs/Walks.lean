import Superstep.Proofs.Keys
import Superstep.Proofs.Reuse
import Superstep.Proofs.Snapshots

/-!
# Superstep — walks while writers write

A walk has a list of ids, which it made when it began, and looks each of them up when its turn
comes. What the ids have at that moment is up to the writers. The answers do not depend on the
lookups that came before, which have left something in the scratch vertex: a blob is decoded over
it, and nothing of that is left (**`Partition.Resembles.get_eq`**).

* **`Walk.next_looks`** — what one call does: which ids it looks at, and with what answers;
* **`Walk.nextAmid_looks`** — what the calls do, each with the records of its own moment;
* **`Partition.Reached.walk_amid`** — the calls look at each id once, and come to an end.
-/

namespace Superstep

variable {I V E : Type} [VertexId I] [Value V] [Value E]

/-! ## Kinds and strategies

An edit changes neither the kind of the records nor how the scratch vertex keeps its edges. These
are all that an answer depends on, besides the record itself. -/

namespace Records

theorem kind_put {r r' : Records I V E} {v : Vertex I V E} (h : r.put v = .ok r') :
    r'.kind = r.kind := by
  cases r with
  | blobs table =>
    obtain ⟨blob, -, hput⟩ := bind_eq_ok_iff.1 h
    cases hput
    rfl
  | vertices table =>
    cases h
    rfl

theorem kind_save (r : Records I V E) (v : Vertex I V E) : (r.save v).2.kind = r.kind := by
  cases r with
  | blobs table =>
    rw [save]
    split
    · rfl
    · split <;> rfl
  | vertices table => rfl

/-- Edits keep the kind of the records. -/
theorem kind_edit (r : Records I V E) (e : Edit I V E) : (r.edit e).2.kind = r.kind := by
  cases e with
  | put v =>
    rw [edit]
    split
    · next hput => exact kind_put hput
    · rfl
  | remove id => exact kind_remove r id
  | save v =>
    exact kind_save r v

/-- Edits keep the kind of the records. -/
theorem kind_editAll (r : Records I V E) (edits : List (Edit I V E)) :
    (r.editAll edits).kind = r.kind := by
  induction edits generalizing r with
  | nil => rfl
  | cons e edits ih => exact (ih (r.edit e).2).trans (kind_edit r e)

end Records

theorem Blob.strategy_decodeInto (old : Vertex I V E) (blob : Bytes) :
    (Blob.decodeInto old blob).2.edges.strategy = old.edges.strategy := by
  unfold Blob.decodeInto
  split
  · rfl
  · next record _ =>
    dsimp only
    split <;> exact old.strategy_decodeInto record

namespace Partition

/-- Lookups in `q` answer as they would in `p`, had it the same records. -/
structure Resembles (q p : Partition I V E) : Prop where
  kind : q.kind = p.kind
  /-- Vertices that are decoded get their strategy from the scratch vertex. -/
  strategy : p.kind = .byteArray → q.scratch.edges.strategy = p.scratch.edges.strategy

variable {p q : Partition I V E}

/-- Writers do not touch the scratch vertex. -/
theorem Resembles.editAll (h : q.Resembles p) (edits : List (Edit I V E)) :
    ({ q with records := q.records.editAll edits } : Partition I V E).Resembles p :=
  ⟨(Records.kind_editAll q.records edits).trans h.kind, h.strategy⟩

/-- A lookup leaves another vertex in the scratch vertex, but no other strategy for blobs. -/
theorem Resembles.load (h : q.Resembles p) (id : I) : (q.load id).2.Resembles p := by
  refine ⟨?_, fun hkind => ?_⟩
  · show (q.bring (q.records.get? id)).2.records.kind = _
    rw [records_bring]
    exact h.kind
  · refine Eq.trans ?_ (h.strategy hkind)
    show (q.bring (q.records.get? id)).2.scratch.edges.strategy = _
    cases hget : q.records.get? id with
    | none => rfl
    | some record =>
      obtain ⟨bytes, rfl, -⟩ := Records.exists_blob (h.kind.trans hkind) hget
      exact Blob.strategy_decodeInto q.scratch bytes

/-- The answer about a record that is there. -/
theorem answer_bring (p : Partition I V E) (r : Record I V E) : (answer (p.bring (some r))).1
    = (liftCorruption (r.load p.scratch).1).map fun _ => some (r.load p.scratch).2 := by
  rw [bring]
  generalize r.load p.scratch = loaded
  obtain ⟨outcome, scratch⟩ := loaded
  cases outcome <;> rfl

/-- **Lookups do not depend on those before.** -/
theorem Resembles.get_eq [Oblivious I] [Oblivious V] (h : q.Resembles p) (id : I) :
    (q.get id).1 = (({ p with records := q.records } : Partition I V E).get id).1 := by
  show (answer (q.bring (q.records.get? id))).1 = (answer (bring _ (q.records.get? id))).1
  cases hget : q.records.get? id with
  | none => rfl
  | some record =>
    cases record with
    | vertex v => rfl
    | blob bytes =>
      have hkind : p.kind = .byteArray := h.kind.symm.trans (Records.kind_of_blob hget)
      obtain ⟨houtcome, hvertex⟩ :=
        Blob.decodeInto_agrees (Vertex.decodeInto_agrees (h.strategy hkind)) bytes
      rw [answer_bring, answer_bring, Record.load, Record.load, ← houtcome]
      cases hdecode : (Blob.decodeInto q.scratch bytes).1 with
      | error e => rfl
      | ok _ => rw [hvertex hdecode]

/-- An id is absent when a lookup says so. -/
theorem get_eq_none_iff {id : I} : (p.get id).1 = .ok none ↔ p.records.get? id = none := by
  show (answer (p.bring (p.records.get? id))).1 = _ ↔ _
  cases p.records.get? id with
  | none => exact iff_of_true rfl rfl
  | some record =>
    rw [answer_bring]
    refine iff_of_false (fun h => ?_) nofun
    cases hload : (record.load p.scratch).1 <;> rw [hload] at h <;> cases h

end Partition

/-! ## Calls of a walk

What a call looked at is compared with fresh lookups of the records of its moment. The ids that are
left get fewer with each call that finds something. -/

namespace Walk

/-- What a call yields that looks at these ids, where `answer` says what they have: it skips absent
ids, and yields what the last one has, be it an error; or there is none. -/
inductive Looks (answer : I → Except Error (Option (Vertex I V E))) :
    List I → Option (Except Error (Vertex I V E)) → Prop
  | found {skipped : List I} {key : I} {result : Except Error (Vertex I V E)}
    (hskipped : ∀ id ∈ skipped, answer id = .ok none) (hkey : answer key = result.map some) :
    Looks answer (skipped ++ [key]) (some result)
  | ended {skipped : List I} (hskipped : ∀ id ∈ skipped, answer id = .ok none) :
    Looks answer skipped none

variable [Oblivious I] [Oblivious V]

/-- **What one call does**: it looks at ids from the front, as they are now, and finds nothing only
if it has looked at all of them. -/
theorem next_looks {p q : Partition I V E} (h : q.Resembles p) (w : Walk I) :
    ∃ looked, w.keys = looked ++ (w.next q).2.1.keys
      ∧ Looks (fun id => (({ p with records := q.records } : Partition I V E).get id).1) looked
        (w.next q).1
      ∧ ((w.next q).1 = none → (w.next q).2.1.keys = [])
      ∧ (w.next q).2.2.records = q.records ∧ (w.next q).2.2.Resembles p := by
  have habsent : ∀ id, q.records.get? id = none →
      (({ p with records := q.records } : Partition I V E).get id).1 = .ok none :=
    fun _ hget => Partition.get_eq_none_iff.2 hget
  rcases w.next_cases q with
    ⟨hend, hall⟩ | ⟨skipped, key, keys, found, hkeys, hskipped, hfound, hget⟩
  · rw [hend]
    exact ⟨w.keys, (List.append_nil _).symm, .ended fun id hid => habsent id (hall id hid),
      fun _ => rfl, rfl, h⟩
  · rw [hfound]
    refine ⟨skipped ++ [key], ?_, .found (fun id hid => habsent id (hskipped id hid)) ?_, nofun,
      Partition.records_bring q _, h.load key⟩
    · rw [hkeys, List.append_assoc]
      rfl
    · rw [← hget, h.get_eq]

omit [VertexId I] [Value V] [Value E] [Oblivious I] [Oblivious V] in
/-- What a call yields is what one of the ids has. -/
theorem Looks.exists_key {answer : I → Except Error (Option (Vertex I V E))} {looked : List I}
    {result : Except Error (Vertex I V E)} (h : Looks answer looked (some result)) :
    ∃ key ∈ looked, answer key = result.map some := by
  cases h with
  | found _ hkey => exact ⟨_, by simp, hkey⟩

/-- **What the calls do**: each goes on where the one before stopped, and finds the records as they
are at its turn. -/
theorem nextAmid_looks {p q : Partition I V E} (h : q.Resembles p) (w : Walk I)
    (rounds : List (List (Edit I V E))) :
    (w.nextAmid rounds q).1.length = rounds.length
      ∧ (w.nextAmid rounds q).2.2.records = q.records.after rounds rounds.length
      ∧ ∃ looked : List (List I), looked.length = rounds.length
        ∧ w.keys = looked.flatten ++ (w.nextAmid rounds q).2.1.keys
        ∧ ∀ k found, (w.nextAmid rounds q).1[k]? = some found → ∃ ids, looked[k]? = some ids
          ∧ (w.nextAmid (rounds.take k) q).2.1.keys
            = ids ++ (w.nextAmid (rounds.take (k + 1)) q).2.1.keys
          ∧ Looks (fun id => (({ p with records := q.records.after rounds (k + 1) } :
            Partition I V E).get id).1) ids found
          ∧ (found = none → (w.nextAmid (rounds.take (k + 1)) q).2.1.keys = []) := by
  -- over the calls; records and walk are those that the call before left
  induction rounds generalizing w q with
  | nil => exact ⟨rfl, rfl, [], rfl, rfl, nofun⟩
  | cons round rounds ih =>
    obtain ⟨first, hkeys, hlooks, hnone, hrecords, hnext⟩ := next_looks (h.editAll round) w
    obtain ⟨hlength, hlast, looked, hlooked, hall, hcalls⟩ :=
      ih hnext (w.next { q with records := q.records.editAll round }).2.1
    rw [hrecords] at hlast hcalls
    refine ⟨congrArg (· + 1) hlength, ?_, first :: looked, congrArg (· + 1) hlooked, ?_, ?_⟩
    · rw [List.length_cons, Records.after_succ]
      exact hlast
    · rw [hkeys, hall, List.flatten_cons, List.append_assoc]
      rfl
    · intro k found hfound
      rw [Records.after_succ]
      cases k with
      | zero =>
        cases hfound
        exact ⟨first, rfl, hkeys, hlooks, hnone⟩
      | succ k => exact hcalls k found hfound

end Walk

/-- Records stay filed in all rounds. -/
theorem Records.Filed.after [LawfulId I] {r : Records I V E} (h : r.Filed)
    {rounds : List (List (Edit I V E))}
    (hrounds : ∀ round ∈ rounds, ∀ e ∈ round, ∀ v ∈ (Call.edit e).stored?, v.edges.Kept) (n : Nat) :
    (r.after rounds n).Filed := by
  refine Each.editAll h fun e he v hv _ hleft => hleft.filed ?_
  obtain ⟨round, hround, hmem⟩ := List.mem_flatten.1 he
  exact hrounds round (List.mem_of_mem_take hround) e hmem v hv

/-- Calls come to an end when each that finds something has less before it than the one before. -/
theorem none_mem_of_lt {β : Type} {founds : List (Option β)} {left : Nat → Nat}
    (h : ∀ k b, founds[k]? = some (some b) → left (k + 1) < left k)
    (hmany : left 0 < founds.length) : none ∈ founds := by
  induction founds generalizing left with
  | nil => exact absurd hmany (Nat.not_lt_zero _)
  | cons found founds ih =>
    cases found with
    | none => exact List.mem_cons_self
    | some b =>
      have hless := h 0 b rfl
      rw [List.length_cons] at hmany
      have hrest := @ih (fun k => left (k + 1)) fun k b => h (k + 1) b
      exact List.mem_cons_of_mem _ (hrest (by omega))

namespace Partition

variable [LawfulId I] [LawfulCodec V] [LawfulCodec E] [Oblivious I] [Oblivious V]

/-- **A walk while writers write.** Take any partition there is, and any rounds of edits, each in
front of one call of a walk. The calls look at the ids that the partition had when the walk began:
each id once, some ids in each call and the rest in none yet. At its own moment a call skips the ids
that are absent and yields what the first one that is present has, a vertex or the error in its
place, just as a lookup at that moment would; the next call goes on behind it. So no vertex is
yielded that has an id which was not there at the beginning. A call that yields something leaves
fewer ids; one that yields nothing leaves none, and it comes after as many calls as there were ids
at the latest. -/
theorem Reached.walk_amid {p : Partition I V E} (hp : p.Reached)
    {rounds : List (List (Edit I V E))}
    (hrounds : ∀ round ∈ rounds, ∀ e ∈ round, ∀ v ∈ (Call.edit e).stored?, v.edges.Arises) :
    let founds := ((Walk.start p).nextAmid rounds p).1
    let walk := fun k => ((Walk.start p).nextAmid (rounds.take k) p).2.1
    let answer := fun k id =>
      (({ p with records := p.records.after rounds (k + 1) } : Partition I V E).get id).1
    p.ids.Nodup ∧ founds.length = rounds.length
      ∧ (∃ looked : List (List I), looked.length = rounds.length
        ∧ p.ids = looked.flatten ++ (walk rounds.length).keys
        ∧ ∀ k found, founds[k]? = some found → ∃ ids, looked[k]? = some ids
          ∧ (walk k).keys = ids ++ (walk (k + 1)).keys ∧ Walk.Looks (answer k) ids found)
      ∧ (∀ k v, founds[k]? = some (some (.ok v)) → v.id ∈ p.ids ∧ answer k v.id = .ok (some v))
      ∧ (∀ k result, founds[k]? = some (some result) →
        (walk (k + 1)).remaining < (walk k).remaining)
      ∧ (∀ k, founds[k]? = some none → (walk (k + 1)).remaining = 0)
      ∧ (p.ids.length < rounds.length → none ∈ founds)
      ∧ ((Walk.start p).nextAmid rounds p).2.2.records = p.records.after rounds rounds.length := by
  intro founds walk answer
  obtain ⟨hlength, hlast, looked, hlooked, hids, hcalls⟩ :=
    Walk.nextAmid_looks (p := p) ⟨rfl, fun _ => rfl⟩ (Walk.start p) rounds
  have hless : ∀ k result, founds[k]? = some (some result) →
      (walk (k + 1)).remaining < (walk k).remaining := by
    intro k result hfound
    obtain ⟨ids, -, hkeys, hlooks, -⟩ := hcalls k _ hfound
    -- what is yielded was looked up under some key, which is gone from the walk then
    obtain ⟨key, hkey, -⟩ := hlooks.exists_key
    have hpos := List.length_pos_of_mem hkey
    have hsplit : (walk k).remaining = ids.length + (walk (k + 1)).remaining :=
      (congrArg List.length hkeys).trans List.length_append
    omega
  refine ⟨p.records.nodup_ids, hlength, ⟨looked, hlooked, ?_, fun k found hfound => ?_⟩,
    fun k v hfound => ?_, hless, fun k hfound => ?_, fun hmany => ?_, hlast⟩
  · rw [show walk rounds.length = ((Walk.start p).nextAmid rounds p).2.1 by
      simp only [walk, List.take_length]]
    exact hids
  · obtain ⟨ids, hat, hkeys, hlooks, -⟩ := hcalls k found hfound
    exact ⟨ids, hat, hkeys, hlooks⟩
  · obtain ⟨ids, hat, -, hlooks, -⟩ := hcalls k _ hfound
    obtain ⟨key, hkey, hanswer⟩ := hlooks.exists_key
    -- the record was filed under its id at that moment, so that the vertex has the key's id
    have hfiled := hp.filed.after
      (fun round hround e he v hv => (hrounds round hround e he v hv).kept) (k + 1)
    obtain rfl : v.id = key := id_of_answer hfiled (Prod.ext hanswer rfl)
    refine ⟨?_, hanswer⟩
    show v.id ∈ (Walk.start p).keys
    rw [hids]
    exact List.mem_append_left _ (List.mem_flatten_of_mem (List.mem_of_getElem? hat) hkey)
  · obtain ⟨ids, -, -, -, hnone⟩ := hcalls k _ hfound
    exact congrArg List.length (hnone rfl)
  · have hfirst : (walk 0).remaining < founds.length := hmany.trans_eq hlength.symm
    exact @none_mem_of_lt _ founds (fun k => (walk k).remaining) hless hfirst

/-- Vertex 5 is removed in front of its turn and comes back behind it; vertex 6 is replaced. -/
def detours : List (List (Edit UInt64 UInt64 UInt64)) :=
  [[], [.remove 5, .remove 6, .put (.new 6 61 .hashed), .put (.new 9 90 .lazy)],
    [.put (.new 5 52 .hashed)], []]

/-- The id and the value of a vertex that was yielded, and nothing of an error. -/
def told (found : Option (Except Error (Vertex UInt64 UInt64 UInt64))) :
    Option (Option (UInt64 × UInt64)) :=
  found.map fun result => result.toOption.map fun v => (v.id, v.value)

theorem Reached.walk_amid_detours :
    let p := (mixed.perform (.put (.new 6 60 .hashed))).2
    let founds := ((Walk.start p).nextAmid detours p).1
    let walk := fun k => ((Walk.start p).nextAmid (detours.take k) p).2.1
    p.Reached ∧ p.ids = [1, 5, 6]
      ∧ (∀ round ∈ detours, ∀ e ∈ round, ∀ v ∈ (Call.edit e).stored?, v.edges.Arises)
      ∧ founds.map told = [some none, some (some (6, 61)), none, none]
      ∧ (∃ v, founds[1]? = some (some (.ok v)) ∧ v.id = 6 ∧ v.id ∈ p.ids)
      ∧ (∀ k result, founds[k]? = some (some result) →
        (walk (k + 1)).remaining < (walk k).remaining)
      ∧ none ∈ founds := by
  intro p founds walk
  have hnew : ∀ (id value : UInt64) (strategy : EdgeStrategy),
      (Vertex.new id value strategy : Vertex UInt64 UInt64 UInt64).edges.Arises :=
    fun _ _ strategy => ⟨strategy, [], rfl⟩
  have hreached : p.Reached := by
    refine .perform (.perform (.readBytes (.new _ _) (spelled 2)) _ ?_) _ ?_ <;>
    · intro v hv
      cases hv
      exact hnew _ _ _
  have hrounds : ∀ round ∈ detours, ∀ e ∈ round, ∀ v ∈ (Call.edit e).stored?, v.edges.Arises := by
    simp [detours, Call.stored?, hnew]
  have hids : p.ids = [1, 5, 6] := by decide +kernel
  have hfounds : founds.map told = [some none, some (some (6, 61)), none, none] := by decide +kernel
  have hat : founds[1]?.map told = some (some (some (6, 61))) := by
    rw [← List.getElem?_map, hfounds]
    rfl
  obtain ⟨-, -, -, hfound, hless, -, hnone, -⟩ := hreached.walk_amid hrounds
  obtain ⟨_, hsecond, hyields⟩ := Option.map_eq_some_iff.1 hat
  obtain ⟨result, rfl, hresult⟩ := Option.map_eq_some_iff.1 hyields
  refine ⟨hreached, hids, hrounds, hfounds, ?_, hless, hnone ?_⟩
  · cases result with
    | error e => cases hresult
    | ok v =>
      have hpair : (v.id, v.value) = (6, 61) := Option.some.inj hresult
      exact ⟨v, hsecond, congrArg Prod.fst hpair, (hfound 1 v hsecond).1⟩
  · rw [hids]
    decide

end Partition

end Superstep
