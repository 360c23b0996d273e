import Superstep.Partition.Workspace
import Superstep.Proofs.Records

/-!
# Superstep — merging partitions that have writers

Partitions share their records with writers, which outlive them. A merge takes the source out of the
workspace: the records are moved when no writer has them, and copied and left to the writers when
one does. Numbers stand for records here, and what the two ways have in common is that no partition
has the number of the source any more (**`Workspace.Reached.sound`**: different partitions have
different numbers, in every workspace that operations make).

* **`Workspace.merge_eq`** — a merge is one of the records alone, whoever has a writer;
* **`Workspace.get?_callAll`** — what calls of writers do to a partition: the edits of the writers
  that have its number, in their order, and nothing else;
* **`Workspace.merge_with_writers`** — both together, and merges one after the other.
-/

namespace Superstep

variable {I V E : Type}

/-! ## Merged records

A record of the result is the source's if it has one, and else the target's. The size follows from
the lookups, since two tables with the same lookups are one up to order. -/

/-- Records that are found under the same ids are equally many. -/
theorem Records.size_eq_of_get? [VertexId I] {r r' : Records I V E}
    (h : ∀ id, r.get? id = r'.get? id) : r.size = r'.size := by
  have hperm : r.ids.Perm r'.ids := by
    refine (List.perm_ext_iff_of_nodup r.nodup_ids r'.nodup_ids).2 fun id => ?_
    rw [← contains_iff_mem_ids, ← contains_iff_mem_ids, contains_eq_isSome, contains_eq_isSome, h]
  rw [← length_ids, hperm.length_eq, length_ids]

namespace Partition

variable [VertexId I]

/-- `m` is `a` with the records of `b` as well, which win. -/
structure MergeOf (a b m : Partition I V E) : Prop where
  desk : m.toDesk = a.toDesk
  kind : m.kind = a.kind
  record : ∀ id, m.records.get? id = (b.records.get? id).or (a.records.get? id)
  ids : m.ids.Nodup ∧ ∀ id, id ∈ m.ids ↔ id ∈ a.ids ∨ id ∈ b.ids
  size : m.size = (a.ids.toFinset ∪ b.ids.toFinset).card

/-- Partitions of one kind can be merged. -/
theorem exists_mergeOf {a b : Partition I V E} (h : a.kind = b.kind) :
    ∃ m, a.merge b = (.ok (), m) ∧ MergeOf a b m := by
  obtain ⟨records, hmerge, hkind⟩ := Records.exists_merge h.symm
  have hids : ∀ id, id ∈ records.ids ↔ id ∈ a.records.ids ∨ id ∈ b.records.ids :=
    fun id => (Records.mem_ids_merge hmerge).trans or_comm
  refine ⟨{ a with records }, ?_, rfl, hkind, Records.get?_merge hmerge,
    ⟨records.nodup_ids, hids⟩, ?_⟩
  · rw [merge, hmerge]
  · have hset : records.ids.toFinset = a.ids.toFinset ∪ b.ids.toFinset := by
      ext id
      simp only [List.mem_toFinset, Finset.mem_union, hids]
      rfl
    rw [← hset, List.toFinset_card_of_nodup records.nodup_ids, Records.length_ids]
    rfl

/-- Partitions of different kinds are not merged. -/
theorem merge_of_ne {a b : Partition I V E} (h : a.kind ≠ b.kind) :
    a.merge b = (.error (.kindMismatch a.kind b.kind), a) := by
  unfold merge Records.merge
  cases ha : a.records with
  | blobs mine =>
    cases hb : b.records with
    | blobs theirs => exact absurd (by rw [kind, kind, ha, hb]; rfl) h
    | vertices theirs => simp only [kind, ha, hb]
  | vertices mine =>
    cases hb : b.records with
    | blobs theirs => simp only [kind, ha, hb]
    | vertices theirs => exact absurd (by rw [kind, kind, ha, hb]; rfl) h

end Partition

namespace Workspace

/-! ## Whose records are whose

A partition is its desk and the number of its records, and a writer is a number alone. What a call
does depends on two names having one number, so the invariant says for which that can be. -/

/-- Different partitions have different records. -/
def Apart (w : Workspace I V E) : Prop :=
  ∀ {name name' number}, w.number? name = some number → w.number? name' = some number → name = name'

/-- The numbers of partitions and writers are those of records that exist, and a new number is taken
by nobody. -/
structure Sound (w : Workspace I V E) : Prop where
  present : ∀ {name number}, w.number? name = some number → (w.shared.get? number).isSome
  shared : ∀ {writer number}, w.writers.get? writer = some number → (w.shared.get? number).isSome
  below : ∀ {number}, (w.shared.get? number).isSome → number < w.next
  apart : w.Apart

variable {w w' : Workspace I V E}

/-- Another partition has another number. -/
theorem Apart.ne (h : w.Apart) {name other : String} {number n : Nat}
    (hnumber : w.number? name = some number) (hother : w.number? other = some n)
    (hne : other ≠ name) : n ≠ number := by
  rintro rfl
  exact hne (h hother hnumber)

/-- A partition is its desk and the records of its number. -/
theorem get?_eq_some_iff {name : String} {p : Partition I V E} : w.get? name = some p ↔
    ∃ number, w.partitions.get? name = some (p.toDesk, number)
      ∧ w.shared.get? number = some p.records := by
  unfold get?
  constructor
  · intro h
    obtain ⟨⟨desk, number⟩, hname, hrest⟩ := Option.bind_eq_some_iff.1 h
    obtain ⟨records, hrecords, hp⟩ := Option.bind_eq_some_iff.1 hrest
    cases hp
    exact ⟨number, hname, hrecords⟩
  · rintro ⟨number, hname, hrecords⟩
    rw [hname]
    show (w.shared.get? number).bind _ = _
    rw [hrecords]
    rfl

theorem number?_eq_some_iff {name : String} {number : Nat} :
    w.number? name = some number ↔ ∃ desk, w.partitions.get? name = some (desk, number) := by
  simp only [number?, Option.map_eq_some_iff, Prod.exists, exists_eq_right]

/-- The desk and the records of a partition that is there. -/
theorem get?_of_number? {name : String} {number : Nat} {p : Partition I V E}
    (hp : w.get? name = some p) (hnumber : w.number? name = some number) :
    w.partitions.get? name = some (p.toDesk, number) ∧ w.shared.get? number = some p.records := by
  obtain ⟨n, hname, hrecords⟩ := get?_eq_some_iff.1 hp
  rw [number?, hname] at hnumber
  cases hnumber
  exact ⟨hname, hrecords⟩

theorem exists_number? {name : String} {p : Partition I V E} (hp : w.get? name = some p) :
    ∃ number, w.number? name = some number := by
  obtain ⟨number, hname, -⟩ := get?_eq_some_iff.1 hp
  exact ⟨number, number?_eq_some_iff.2 ⟨_, hname⟩⟩

/-- What gives nobody other records than before leaves the workspace sound. -/
theorem Sound.of_kept (h : w.Sound)
    (hnames : ∀ {name number}, w'.number? name = some number → w.number? name = some number)
    (hwriters : ∀ {writer number}, w'.writers.get? writer = some number →
      (w.shared.get? number).isSome)
    (hshared : ∀ number, (w'.shared.get? number).isSome = (w.shared.get? number).isSome)
    (hnext : w'.next = w.next) : w'.Sound where
  present hname := by
    rw [hshared]
    exact h.present (hnames hname)
  shared hwriter := by
    rw [hshared]
    exact hwriters hwriter
  below hnumber := by
    rw [hshared] at hnumber
    rw [hnext]
    exact h.below hnumber
  apart hname hname' := h.apart (hnames hname) (hnames hname')

/-- Records that are written over are there before and after. -/
theorem isSome_get?_insert {shared : Table Nat (Records I V E)} {number : Nat}
    (h : (shared.get? number).isSome) (records : Records I V E) (n : Nat) :
    ((shared.insert number records).get? n).isSome = (shared.get? n).isSome := by
  rw [Table.get?_insert]
  split
  · next heq => rw [heq, h]; rfl
  · rfl

theorem sound_empty : (empty : Workspace I V E).Sound :=
  ⟨nofun, nofun, nofun, nofun⟩

theorem number?_add (name other : String) (p : Partition I V E) :
    (w.add name p).number? other = if other = name then some w.next else w.number? other := by
  rw [number?, add, Table.get?_insert, apply_ite (Option.map Prod.snd)]
  rfl

/-- The number of a new partition is nobody else's. -/
theorem Sound.add (h : w.Sound) (name : String) (p : Partition I V E) : (w.add name p).Sound := by
  -- every number that is taken is below the next one
  have hfresh : ∀ {other}, w.number? other ≠ some w.next :=
    fun hother => Nat.lt_irrefl _ (h.below (h.present hother))
  have hkept : ∀ {n}, (w.shared.get? n).isSome → ((w.add name p).shared.get? n).isSome := by
    intro n hn
    rw [Workspace.add, Table.get?_insert]
    split
    · rfl
    · exact hn
  refine ⟨fun {other n} hother => ?_, fun hwriter => hkept (h.shared hwriter), fun {n} hn => ?_,
    fun {other other' n} hother hother' => ?_⟩
  · rw [number?_add] at hother
    split at hother
    · cases hother
      rw [Workspace.add, Table.get?_insert_self]
      rfl
    · exact hkept (h.present hother)
  · rw [Workspace.add, Table.get?_insert] at hn
    split at hn
    · next heq => exact heq ▸ Nat.lt_succ_self _
    · exact Nat.lt_succ_of_lt (h.below hn)
  · rw [number?_add] at hother hother'
    split at hother <;> split at hother'
    · next heq heq' => rw [heq, heq']
    · cases hother
      exact absurd hother' hfresh
    · cases hother'
      exact absurd hother hfresh
    · exact h.apart hother hother'

/-! ## Partitions that are used

A partition is put back under its own number, so nobody else sees a change but its writers. -/

theorem update_eq {name : String} {number : Nat} (h : w.number? name = some number)
    (p : Partition I V E) : w.update name p = { w with
      shared := w.shared.insert number p.records
      partitions := w.partitions.insert name (p.toDesk, number) } := by
  obtain ⟨desk, hname⟩ := number?_eq_some_iff.1 h
  rw [update, hname]

theorem update_of_none {name : String} (h : w.number? name = none) (p : Partition I V E) :
    w.update name p = w := by
  rw [update, Option.map_eq_none_iff.1 h]

@[simp] theorem number?_update (name other : String) (p : Partition I V E) :
    (w.update name p).number? other = w.number? other := by
  cases hname : w.number? name with
  | none => rw [update_of_none hname]
  | some number =>
    rw [update_eq hname, number?, Table.get?_insert, apply_ite (Option.map Prod.snd), ← number?]
    split
    · next heq => rw [heq, hname]; rfl
    · rfl

@[simp] theorem writers_update (name : String) (p : Partition I V E) :
    (w.update name p).writers = w.writers := by
  cases hname : w.number? name with
  | none => rw [update_of_none hname]
  | some number => rw [update_eq hname]

theorem Sound.update (h : w.Sound) (name : String) (p : Partition I V E) :
    (w.update name p).Sound := by
  cases hname : w.number? name with
  | none => rwa [update_of_none hname]
  | some number =>
    refine h.of_kept (fun hother => ?_) (fun {writer _} hwriter => ?_) (fun n => ?_) ?_
    · rwa [number?_update] at hother
    · rw [update_eq hname] at hwriter
      exact h.shared hwriter
    · rw [update_eq hname]
      exact isSome_get?_insert (h.present hname) p.records n
    · rw [update_eq hname]

/-- **A partition that is put back is there**, and no other partition has changed. -/
theorem get?_update (h : w.Apart) {name : String} (hname : (w.number? name).isSome)
    (p : Partition I V E) (other : String) :
    (w.update name p).get? other = if other = name then some p else w.get? other := by
  obtain ⟨number, hnumber⟩ := Option.isSome_iff_exists.1 hname
  rw [update_eq hnumber]
  apply Option.ext
  intro q
  rw [get?_eq_some_iff]
  split
  · next heq =>
    subst heq
    simp only [Table.get?_insert_self, Option.some.injEq, Prod.mk.injEq]
    constructor
    · rintro ⟨n, ⟨hdesk, rfl⟩, hrecords⟩
      rw [Table.get?_insert_self] at hrecords
      cases p; cases q; cases hdesk; cases hrecords; rfl
    · rintro rfl
      exact ⟨number, ⟨rfl, rfl⟩, Table.get?_insert_self _ _ _⟩
  · next hne =>
    rw [get?_eq_some_iff]
    refine exists_congr fun n => ?_
    rw [Table.get?_insert_of_ne _ _ hne]
    refine and_congr_right fun hother => ?_
    -- the records of another partition have another number, and are not written over
    have hn := h.ne hnumber (number?_eq_some_iff.2 ⟨_, hother⟩) hne
    rw [Table.get?_insert_of_ne _ _ hn]

/-- A partition may be used in any way: it is put back with the number it had. -/
theorem Sound.withPartition {R : Type} (h : w.Sound) (name : String)
    (f : Partition I V E → R × Partition I V E) : (w.withPartition name f).2.Sound := by
  unfold Workspace.withPartition
  split
  · exact h
  · exact h.update name _

/-! ## Partitions that are taken out

The records go with the partition unless a writer has them. Those that stay belong to no partition,
and writers of them edit what nobody reads. -/

/-- Taking a partition out gives it as it was seen, and forgets its name. -/
theorem take_eq_some_iff {name : String} {p : Partition I V E} : w.take name = some (p, w') ↔
    w.get? name = some p ∧ ∃ number, w.number? name = some number ∧ w' = w.without name number := by
  constructor
  · intro h
    obtain ⟨⟨desk, number⟩, hname, hrest⟩ := Option.bind_eq_some_iff.1 h
    obtain ⟨records, hrecords, hp⟩ := Option.bind_eq_some_iff.1 hrest
    cases hp
    exact ⟨get?_eq_some_iff.2 ⟨number, hname, hrecords⟩, number,
      number?_eq_some_iff.2 ⟨desk, hname⟩, rfl⟩
  · rintro ⟨hp, number, hnumber, rfl⟩
    obtain ⟨hname, hrecords⟩ := get?_of_number? hp hnumber
    rw [take, hname]
    show (w.shared.get? number).bind _ = _
    rw [hrecords]
    rfl

theorem number?_without (name other : String) (number : Nat) :
    (w.without name number).number? other = if other = name then none else w.number? other := by
  rw [number?, without, Table.get?_erase, apply_ite (Option.map Prod.snd)]
  rfl

/-- The partitions that are left have the numbers they had. -/
theorem number?_of_without {name other : String} {number n : Nat}
    (h : (w.without name number).number? other = some n) :
    other ≠ name ∧ w.number? other = some n := by
  rw [number?_without] at h
  split at h
  · cases h
  · next hne => exact ⟨hne, h⟩

theorem Apart.without (h : w.Apart) (name : String) (number : Nat) :
    (w.without name number).Apart :=
  fun hother hother' => h (number?_of_without hother).2 (number?_of_without hother').2

/-- Other records are not moved, and those that a writer has are not either. -/
theorem shared_without {name : String} {number n : Nat}
    (h : n ≠ number ∨ ∃ writer, w.writers.get? writer = some number) :
    (w.without name number).shared.get? n = w.shared.get? n := by
  rw [without]
  split
  · rfl
  · next hfree =>
    rw [Table.get?_erase, if_neg]
    rintro rfl
    obtain ⟨writer, hwriter⟩ := h.resolve_left fun hne => hne rfl
    refine hfree (List.contains_iff_mem.2 ?_)
    exact List.mem_map.2 ⟨_, Table.mem_toList_iff.2 hwriter, rfl⟩

theorem isSome_of_without {name : String} {number n : Nat}
    (h : ((w.without name number).shared.get? n).isSome) : (w.shared.get? n).isSome := by
  rw [without] at h
  split at h
  · exact h
  · rw [Table.get?_erase] at h
    split at h
    · cases h
    · exact h

theorem Sound.without (h : w.Sound) {name : String} {number : Nat}
    (hnumber : w.number? name = some number) : (w.without name number).Sound := by
  refine ⟨fun {other n} hother => ?_, fun {writer n} hwriter => ?_,
    fun hn => h.below (isSome_of_without hn), Apart.without h.apart name number⟩
  · obtain ⟨hne, hbefore⟩ := number?_of_without hother
    have hn := Apart.ne h.apart hnumber hbefore hne
    rw [shared_without (Or.inl hn)]
    exact h.present hbefore
  · by_cases hn : n = number
    · rw [shared_without (Or.inr ⟨writer, hn ▸ hwriter⟩)]
      exact h.shared hwriter
    · rw [shared_without (Or.inl hn)]
      exact h.shared hwriter

/-- The other partitions stay as they are. -/
theorem get?_without (h : w.Apart) {name : String} {number : Nat}
    (hnumber : w.number? name = some number) {other : String} (hne : other ≠ name) :
    (w.without name number).get? other = w.get? other := by
  have hname : (w.without name number).partitions.get? other = w.partitions.get? other := by
    rw [without, Table.get?_erase, if_neg hne]
  apply Option.ext
  intro p
  rw [get?_eq_some_iff, get?_eq_some_iff, hname]
  refine exists_congr fun n => and_congr_right fun hother => ?_
  have hn := h.ne hnumber (number?_eq_some_iff.2 ⟨_, hother⟩) hne
  rw [shared_without (Or.inl hn)]

/-! ## Merges -/

section Merges

variable [VertexId I]

/-- **A merge** is one of the two partitions, whoever has writers: the source is gone, and nothing
but the target has changed. -/
theorem merge_eq (h : w.Apart) {target source : String} (hne : target ≠ source)
    {a b : Partition I V E} (ha : w.get? target = some a) (hb : w.get? source = some b) :
    (w.merge target source).1 = some (a.merge b).1
      ∧ (∀ other, (w.merge target source).2.get? other =
        if other = source then none
        else if other = target then some (a.merge b).2 else w.get? other)
      ∧ (∀ other, (w.merge target source).2.number? other =
        if other = source then none else w.number? other)
      ∧ (w.merge target source).2.writers = w.writers := by
  obtain ⟨number, hnumber⟩ := exists_number? hb
  obtain ⟨number', hnumber'⟩ := exists_number? ha
  have htake := take_eq_some_iff.2 ⟨hb, number, hnumber, rfl⟩
  have hthere : (w.without source number).get? target = some a := by
    rw [get?_without h hnumber hne, ha]
  -- the target is still there, under its own number
  have hput : ((w.without source number).number? target).isSome := by
    rw [number?_without, if_neg hne, hnumber']
    rfl
  have hmerge : w.merge target source
      = (some (a.merge b).1, (w.without source number).update target (a.merge b).2) := by
    rw [merge, htake]
    dsimp only
    rw [withPartition, hthere]
  rw [hmerge]
  refine ⟨rfl, fun other => ?_, fun other => ?_, ?_⟩
  · rw [get?_update (h.without source number) hput]
    by_cases hsource : other = source
    · subst hsource
      rw [if_neg hne.symm, if_pos rfl]
      refine Option.eq_none_iff_forall_ne_some.2 fun p hp => ?_
      obtain ⟨n, hn⟩ := exists_number? hp
      rw [number?_without, if_pos rfl] at hn
      cases hn
    · rw [if_neg hsource, get?_without h hnumber hsource]
  · rw [number?_update, number?_without]
  · exact writers_update _ _

/-- **Merges of one kind** succeed, with one result for all writers. -/
theorem merge_of_kind {w : Workspace I V E} (h : w.Apart) {target source : String}
    (hne : target ≠ source) {a b : Partition I V E} (ha : w.get? target = some a)
    (hb : w.get? source = some b) (hkind : a.kind = b.kind) :
    ∃ m, Partition.MergeOf a b m ∧ ∀ writers,
      let result := ({ w with writers } : Workspace I V E).merge target source
      result.1 = some (.ok ()) ∧ ∀ other, result.2.get? other =
        if other = source then none else if other = target then some m else w.get? other := by
  obtain ⟨m, hmerge, hm⟩ := Partition.exists_mergeOf hkind
  refine ⟨m, hm, fun writers => ?_⟩
  obtain ⟨hresult, hother, -⟩ := merge_eq (w := { w with writers }) h hne ha hb
  rw [hmerge] at hresult hother
  exact ⟨hresult, hother⟩

end Merges

/-! ## Workspaces that operations make

One lemma for each operation, and the induction over all of them. Only an operation that makes a
partition takes a new number. -/

theorem Sound.merge [VertexId I] (h : w.Sound) (target source : String) :
    (w.merge target source).2.Sound := by
  unfold Workspace.merge
  split
  · exact h
  · next other w' htake =>
    obtain ⟨-, number, hnumber, rfl⟩ := take_eq_some_iff.1 htake
    exact (h.without hnumber).withPartition target _

theorem Sound.drop (h : w.Sound) (name : String) : (w.drop name).Sound := by
  refine h.of_kept (fun hother => ?_) (fun hwriter => ?_) (fun _ => rfl) rfl
  · obtain ⟨desk, hother⟩ := number?_eq_some_iff.1 hother
    exact number?_eq_some_iff.2 ⟨desk, Table.get?_of_get?_erase hother⟩
  · exact h.shared (Table.get?_of_get?_erase hwriter)

/-- Writers of records that are there may be added. -/
theorem Sound.insert_writer (h : w.Sound) {number : Nat} (hnumber : (w.shared.get? number).isSome)
    (writer : String) :
    ({ w with writers := w.writers.insert writer number } : Workspace I V E).Sound := by
  refine h.of_kept (fun hother => hother) (fun {other _} hother => ?_) (fun _ => rfl) rfl
  rw [Table.get?_insert] at hother
  split at hother
  · cases hother
    exact hnumber
  · exact h.shared hother

theorem Sound.makeWriter (h : w.Sound) (writer name : String) :
    (w.makeWriter writer name).Sound := by
  unfold Workspace.makeWriter
  split
  · exact h
  · next hname => exact h.insert_writer (h.present (number?_eq_some_iff.2 ⟨_, hname⟩)) writer

theorem shared_copyWriter (w : Workspace I V E) (copy writer : String) :
    (w.copyWriter copy writer).shared = w.shared := by
  unfold copyWriter
  split <;> rfl

theorem partitions_copyWriter (w : Workspace I V E) (copy writer : String) :
    (w.copyWriter copy writer).partitions = w.partitions := by
  unfold copyWriter
  split <;> rfl

theorem Sound.copyWriter (h : w.Sound) (copy writer : String) :
    (w.copyWriter copy writer).Sound := by
  unfold Workspace.copyWriter
  split
  · exact h
  · next hwriter => exact h.insert_writer (h.shared hwriter) copy

section Values

variable [VertexId I] [Value V] [Value E]

theorem Sound.transfer (h : w.Sound) (target source : String) :
    (w.transfer target source).2.Sound := by
  have hread := h.withPartition source (Partition.toBytes (I := I) (V := V) (E := E))
  unfold Workspace.transfer
  split
  · next heq =>
    rw [heq] at hread
    exact hread.withPartition target _
  · next heq => rwa [heq] at hread
  · next heq => rwa [heq] at hread

/-- An edit replaces records that are there. -/
theorem Sound.edit (h : w.Sound) (writer : String) (e : Edit I V E) :
    (w.edit writer e).2.Sound := by
  unfold Workspace.edit
  split
  · exact h
  · split
    · exact h
    · next number _ records hrecords =>
      refine h.of_kept (fun hother => hother) (fun hwriter => h.shared hwriter) (fun n => ?_) rfl
      exact isSome_get?_insert (by rw [hrecords]; rfl) _ n

/-- The workspaces that operations make. Partitions may be used in any way. -/
inductive Reached : Workspace I V E → Prop
  | empty : Reached .empty
  | add {w : Workspace I V E} (h : Reached w) (name : String) (p : Partition I V E) :
    Reached (w.add name p)
  | withPartition {w : Workspace I V E} {R : Type} (h : Reached w) (name : String)
    (f : Partition I V E → R × Partition I V E) : Reached (w.withPartition name f).2
  | drop {w : Workspace I V E} (h : Reached w) (name : String) : Reached (w.drop name)
  | merge {w : Workspace I V E} (h : Reached w) (target source : String) :
    Reached (w.merge target source).2
  | transfer {w : Workspace I V E} (h : Reached w) (target source : String) :
    Reached (w.transfer target source).2
  | makeWriter {w : Workspace I V E} (h : Reached w) (writer name : String) :
    Reached (w.makeWriter writer name)
  | copyWriter {w : Workspace I V E} (h : Reached w) (copy writer : String) :
    Reached (w.copyWriter copy writer)
  | edit {w : Workspace I V E} (h : Reached w) (writer : String) (e : Edit I V E) :
    Reached (w.edit writer e).2

/-- **Different partitions have different records**, whatever was done. -/
theorem Reached.sound {w : Workspace I V E} (h : w.Reached) : w.Sound := by
  induction h with
  | empty => exact sound_empty
  | add _ name p ih => exact ih.add name p
  | withPartition _ name f ih => exact ih.withPartition name f
  | drop _ name ih => exact ih.drop name
  | merge _ target source ih => exact ih.merge target source
  | transfer _ target source ih => exact ih.transfer target source
  | makeWriter _ writer name ih => exact ih.makeWriter writer name
  | copyWriter _ copy writer ih => exact ih.copyWriter copy writer
  | edit _ writer e ih => exact ih.edit writer e

/-! ## Calls of writers

Copying a writer changes which edits reach the records later, so the edits are collected along with
the calls. -/

def editsOf (number : Nat) : Workspace I V E → List (WriterCall I V E) → List (Edit I V E)
  | _, [] => []
  | w, .edit writer e :: calls =>
    (if w.writers.get? writer = some number then [e] else [])
      ++ editsOf number (w.edit writer e).2 calls
  | w, .copy copy writer :: calls => editsOf number (w.copyWriter copy writer) calls

/-- **An edit** changes the records of the writer, and answers as they do. -/
theorem edit_eq {w : Workspace I V E} {writer : String} {number : Nat} {records : Records I V E}
    (hwriter : w.writers.get? writer = some number) (hrecords : w.shared.get? number = some records)
    (e : Edit I V E) : w.edit writer e = (some (records.edit e).1,
      { w with shared := w.shared.insert number (records.edit e).2 }) := by
  rw [edit, hwriter]
  dsimp only
  rw [hrecords]

theorem partitions_edit (w : Workspace I V E) (writer : String) (e : Edit I V E) :
    (w.edit writer e).2.partitions = w.partitions := by
  unfold edit
  split
  · rfl
  · split <;> rfl

/-- One edit, seen from some records. -/
theorem shared_edit {w : Workspace I V E} {number : Nat} {records : Records I V E}
    (hrecords : w.shared.get? number = some records) (writer : String) (e : Edit I V E) :
    (w.edit writer e).2.shared.get? number = some
      (records.editAll (if w.writers.get? writer = some number then [e] else [])) := by
  cases hwriter : w.writers.get? writer with
  | none =>
    rw [edit, hwriter, if_neg nofun]
    exact hrecords
  | some n =>
    by_cases hn : n = number
    · subst hn
      rw [edit_eq hwriter hrecords, if_pos rfl]
      exact Table.get?_insert_self _ _ _
    · have hne : some n ≠ some number := fun heq => hn (Option.some.inj heq)
      rw [if_neg hne, edit, hwriter]
      dsimp only
      split
      · exact hrecords
      · exact (Table.get?_insert_of_ne _ _ (Ne.symm hn)).trans hrecords

/-- **Records after calls of writers** have the edits of their own writers, in their order. -/
theorem shared_callAll {w : Workspace I V E} {number : Nat} {records : Records I V E}
    (hrecords : w.shared.get? number = some records) (calls : List (WriterCall I V E)) :
    (w.callAll calls).shared.get? number = some (records.editAll (editsOf number w calls)) := by
  -- on the calls, for every workspace: a call may give the writers other numbers
  induction calls generalizing w records with
  | nil => exact hrecords
  | cons call calls ih =>
    cases call with
    | edit writer e =>
      rw [callAll, ih (shared_edit hrecords writer e), editsOf, Records.editAll, Records.editAll,
        Records.editAll, List.foldl_append]
    | copy copy writer => exact ih (shared_copyWriter w copy writer ▸ hrecords)

theorem partitions_callAll (w : Workspace I V E) (calls : List (WriterCall I V E)) :
    (w.callAll calls).partitions = w.partitions := by
  induction calls generalizing w with
  | nil => rfl
  | cons call calls ih =>
    cases call with
    | edit writer e => exact (ih _).trans (partitions_edit w writer e)
    | copy copy writer => exact (ih _).trans (partitions_copyWriter w copy writer)

/-- **A partition after calls of writers** has the edits of its own writers, and else it is what it
was. -/
theorem get?_callAll {w : Workspace I V E} {name : String} {number : Nat} {p : Partition I V E}
    (hp : w.get? name = some p) (hnumber : w.number? name = some number)
    (calls : List (WriterCall I V E)) : (w.callAll calls).get? name
      = some { p with records := p.records.editAll (editsOf number w calls) } := by
  obtain ⟨hname, hrecords⟩ := get?_of_number? hp hnumber
  refine get?_eq_some_iff.2 ⟨number, ?_, shared_callAll hrecords calls⟩
  rw [partitions_callAll, hname]

/-! ## Merges and writers

A merge gives the target what it had before plus the source, under the number it had. So writers of
the target are writers of the result, and those of the source have a number that nobody has. -/

/-- **Merges can be grouped in both ways.** -/
theorem merge_merge {w : Workspace I V E} (h : w.Reached) {target source third : String}
    (hsource : target ≠ source) (hthird : target ≠ third) (hne : source ≠ third)
    {a b c : Partition I V E} (ha : w.get? target = some a) (hb : w.get? source = some b)
    (hc : w.get? third = some c) (hab : a.kind = b.kind) (hbc : b.kind = c.kind) :
    let left := (w.merge target source).2.merge target third
    let right := (w.merge source third).2.merge target source
    ∃ m m', left.1 = some (.ok ()) ∧ left.2.get? target = some m
      ∧ right.1 = some (.ok ()) ∧ right.2.get? target = some m'
      ∧ m.toDesk = m'.toDesk ∧ m.size = m'.size
      ∧ ∀ id, m.records.get? id = m'.records.get? id := by
  intro left right
  obtain ⟨ab, hmab, hleft⟩ := merge_of_kind h.sound.apart hsource ha hb hab
  obtain ⟨bc, hmbc, hright⟩ := merge_of_kind h.sound.apart hne hb hc hbc
  obtain ⟨-, hleft⟩ := hleft w.writers
  obtain ⟨-, hright⟩ := hright w.writers
  have hab' : (w.merge target source).2.get? target = some ab := by
    rw [hleft, if_neg hsource, if_pos rfl]
  have hc' : (w.merge target source).2.get? third = some c := by
    rw [hleft, if_neg hne.symm, if_neg hthird.symm, hc]
  have ha' : (w.merge source third).2.get? target = some a := by
    rw [hright, if_neg hthird, if_neg hsource, ha]
  have hbc' : (w.merge source third).2.get? source = some bc := by
    rw [hright, if_neg hne, if_pos rfl]
  obtain ⟨m, hm, hmerge⟩ := merge_of_kind (h.merge target source).sound.apart hthird hab' hc'
    (hmab.kind.trans (hab.trans hbc))
  obtain ⟨m', hm', hmerge'⟩ := merge_of_kind (h.merge source third).sound.apart hsource ha' hbc'
    (hab.trans hmbc.kind.symm)
  obtain ⟨hok, hget⟩ := hmerge (w.merge target source).2.writers
  obtain ⟨hok', hget'⟩ := hmerge' (w.merge source third).2.writers
  -- a record is looked for in the third, the source and the target, in this order both times
  have hrecords : ∀ id, m.records.get? id = m'.records.get? id := by
    intro id
    rw [hm.record, hm'.record, hmab.record, hmbc.record, Option.or_assoc]
  refine ⟨m, m', hok, ?_, hok', ?_, ?_, Records.size_eq_of_get? hrecords, hrecords⟩
  · rw [hget, if_neg hthird, if_pos rfl]
  · rw [hget', if_neg hsource, if_pos rfl]
  · rw [hm.desk, hm'.desk, hmab.desk]

/-- **Merging while there are writers.** Take any two partitions of a workspace. If they are of one
kind, the target gets every record of the source, which win, and keeps its desk, its id among it;
the source is gone. This is so for any writers, those of the source among them or not. Writers of
the target act on what was merged from then on: whatever calls writers make afterwards, the target
has the edits of its own writers in their order, each of which is answered by what the target holds
at the moment, and an edit of a writer of the source changes nothing in it. Merging a third
partition gives the same contents in both groupings. Partitions of different kinds are refused, and
the target stays as it is. -/
theorem merge_with_writers {w : Workspace I V E} (h : w.Reached) {target source : String}
    (hne : target ≠ source) {a b : Partition I V E} (ha : w.get? target = some a)
    (hb : w.get? source = some b) :
    (a.kind = b.kind → ∃ (m : Partition I V E) (number number' : Nat), Partition.MergeOf a b m
      ∧ (∀ writers, let result := ({ w with writers } : Workspace I V E).merge target source
        result.1 = some (.ok ()) ∧ result.2.get? target = some m ∧ result.2.get? source = none)
      ∧ w.number? target = some number ∧ w.number? source = some number'
      ∧ (w.merge target source).2.writers = w.writers
      ∧ ∀ calls,
        let merged := (w.merge target source).2
        let later := merged.callAll calls
        let edited := m.records.editAll (editsOf number merged calls)
        later.get? target = some { m with records := edited }
          ∧ (∀ writer e, later.writers.get? writer = some number →
            later.writerRecords? writer = some edited
              ∧ (later.edit writer e).1 = some (edited.edit e).1
              ∧ (later.edit writer e).2.get? target = some { m with records := (edited.edit e).2 })
          ∧ ∀ writer e, later.writers.get? writer = some number' →
            (later.edit writer e).2.get? target = later.get? target)
    ∧ (∀ {third : String} {c : Partition I V E}, target ≠ third → source ≠ third →
      w.get? third = some c → a.kind = b.kind → b.kind = c.kind →
      let left := (w.merge target source).2.merge target third
      let right := (w.merge source third).2.merge target source
      ∃ m m', left.1 = some (.ok ()) ∧ left.2.get? target = some m
        ∧ right.1 = some (.ok ()) ∧ right.2.get? target = some m'
        ∧ m.toDesk = m'.toDesk ∧ m.size = m'.size
        ∧ ∀ id, m.records.get? id = m'.records.get? id)
    ∧ (a.kind ≠ b.kind → ∀ writers,
      let result := ({ w with writers } : Workspace I V E).merge target source
      result.1 = some (.error (.kindMismatch a.kind b.kind)) ∧ result.2.get? target = some a) := by
  refine ⟨fun hkind => ?_, fun hthird hne' hc => merge_merge h hne hthird hne' ha hb hc, ?_⟩
  · obtain ⟨m, hm, hmerge⟩ := merge_of_kind h.sound.apart hne ha hb hkind
    obtain ⟨number, hnumber⟩ := exists_number? ha
    obtain ⟨number', hnumber'⟩ := exists_number? hb
    have hother : number' ≠ number := Apart.ne h.sound.apart hnumber hnumber' hne.symm
    obtain ⟨-, -, hnumbers, hwriters⟩ := merge_eq h.sound.apart hne ha hb
    have htarget : (w.merge target source).2.get? target = some m := by
      rw [(hmerge w.writers).2, if_neg hne, if_pos rfl]
    have hkept : (w.merge target source).2.number? target = some number := by
      rw [hnumbers, if_neg hne, hnumber]
    refine ⟨m, number, number', hm, fun writers => ?_, hnumber, hnumber', hwriters,
      fun calls => ?_⟩
    · obtain ⟨hok, hget⟩ := hmerge writers
      refine ⟨hok, ?_, ?_⟩
      · exact (hget target).trans (by rw [if_neg hne, if_pos rfl])
      · exact (hget source).trans (if_pos rfl)
    intro merged later edited
    have hlater : later.get? target = some { m with records := edited } :=
      get?_callAll htarget hkept calls
    have hnow : later.number? target = some number := by
      rw [number?, partitions_callAll, ← number?, hkept]
    -- the next edit is one more call
    have hedit := fun writer e => get?_callAll hlater hnow [.edit writer e]
    refine ⟨hlater, fun writer e hwriter => ?_, fun writer e hwriter => ?_⟩
    · have hrecords : later.shared.get? number = some edited := (get?_of_number? hlater hnow).2
      refine ⟨?_, by rw [edit_eq hwriter hrecords], ?_⟩
      · rw [writerRecords?, hwriter]
        exact hrecords
      · refine (hedit writer e).trans ?_
        rw [editsOf, if_pos hwriter]
        rfl
    · refine (hedit writer e).trans ?_
      rw [editsOf, hwriter, if_neg fun heq => hother (Option.some.inj heq), hlater]
      rfl
  · intro hkind writers
    obtain ⟨hresult, hother, -⟩ := merge_eq (w := { w with writers }) h.sound.apart hne ha hb
    rw [Partition.merge_of_ne hkind] at hresult hother
    exact ⟨hresult, (hother target).trans (by rw [if_neg hne, if_pos rfl])⟩

/-- Three partitions that have vertices in common, one of the other kind, and two writers. -/
def sharing : Workspace UInt64 UInt64 UInt64 :=
  let filled (id : UInt32) (kind : PartitionKind) (values : List (UInt64 × UInt64)) :
      Partition UInt64 UInt64 UInt64 :=
    { Partition.new ⟨id⟩ ⟨1, .hashed, kind⟩ with
      records := (Records.empty kind).editAll
        (values.map fun (id, value) => .put (.new id value .hashed)) }
  (((((empty.add "a" (filled 1 .simple [(1, 10), (2, 20)])).add "b"
    (filled 2 .simple [(2, 21), (3, 31)])).add "c" (filled 3 .simple [(3, 32)])).add "d"
    (filled 4 .byteArray [])).makeWriter "to a" "a").makeWriter "to b" "b"

theorem merge_with_writers_sharing :
    let calls : List (WriterCall UInt64 UInt64 UInt64) := [.edit "to b" (.remove 2),
      .copy "also to b" "to b", .edit "also to b" (.put (.new 9 90 .hashed)),
      .edit "to a" (.remove 1)]
    sharing.Reached ∧ (∃ m, (sharing.merge "a" "b").1 = some (.ok ())
        ∧ (sharing.merge "a" "b").2.get? "a" = some m ∧ m.id = ⟨1⟩ ∧ m.size = 3
        ∧ m.records.get? 2 = some (.vertex (.new 2 21 .hashed))
        ∧ ({ sharing with writers := .empty }.merge "a" "b").2.get? "a" = some m
        ∧ ((sharing.merge "a" "b").2.callAll calls).get? "a"
          = some { m with records := m.records.editAll [.remove 1] })
      ∧ (∃ m m', ((sharing.merge "a" "b").2.merge "a" "c").2.get? "a" = some m
        ∧ ((sharing.merge "b" "c").2.merge "a" "b").2.get? "a" = some m'
        ∧ ∀ id, m.records.get? id = m'.records.get? id)
      ∧ (sharing.merge "a" "d").1 = some (.error (.kindMismatch .simple .byteArray))
      ∧ (sharing.merge "a" "d").2.get? "a" = sharing.get? "a" := by
  intro calls
  have hreached : sharing.Reached := by
    unfold sharing
    exact .makeWriter (.makeWriter (.add (.add (.add (.add .empty _ _) _ _) _ _) _ _) _ _) _ _
  obtain ⟨a, ha⟩ : ∃ a, sharing.get? "a" = some a := ⟨_, rfl⟩
  obtain ⟨b, hb⟩ : ∃ b, sharing.get? "b" = some b := ⟨_, rfl⟩
  obtain ⟨c, hc⟩ : ∃ c, sharing.get? "c" = some c := ⟨_, rfl⟩
  obtain ⟨d, hd⟩ : ∃ d, sharing.get? "d" = some d := ⟨_, rfl⟩
  have hkinds : a.kind = .simple ∧ b.kind = .simple ∧ c.kind = .simple ∧ d.kind = .byteArray := by
    cases ha; cases hb; cases hc; cases hd
    exact ⟨rfl, rfl, rfl, rfl⟩
  obtain ⟨hmerge, hgroup, -⟩ := merge_with_writers hreached (by decide) ha hb
  obtain ⟨-, -, hrefuse⟩ := merge_with_writers hreached (by decide) ha hd
  obtain ⟨m, number, number', hm, hresult, hnumber, hnumber', -, hlater⟩ :=
    hmerge (hkinds.1.trans hkinds.2.1.symm)
  obtain ⟨x, y, -, hx, -, hy, -, -, hrecords⟩ := hgroup (by decide) (by decide) hc
    (hkinds.1.trans hkinds.2.1.symm) (hkinds.2.1.trans hkinds.2.2.1.symm)
  obtain ⟨hrefused, hsame⟩ := hrefuse (by rw [hkinds.1, hkinds.2.2.2]; nofun) sharing.writers
  refine ⟨hreached, ⟨m, (hresult sharing.writers).1, (hresult sharing.writers).2.1, ?_, ?_, ?_,
    (hresult .empty).2.1, ?_⟩, ⟨x, y, hx, hy, hrecords⟩, ?_, hsame.trans ha.symm⟩
  · have hid : m.id = a.id := congrArg Desk.id hm.desk
    cases ha
    exact hid
  · rw [hm.size]
    cases ha
    cases hb
    decide +kernel
  · rw [hm.record]
    cases ha
    cases hb
    rfl
  · obtain rfl : number = 0 := Option.some.inj (hnumber.symm.trans rfl)
    exact (hlater calls).1
  · rw [← hkinds.1, ← hkinds.2.2.2]
    exact hrefused

end Values

end Workspace

end Superstep
