import Superstep.Proofs.Partitions

/-!
# Superstep — what a partition answers over its history

`History.spec` carries a history out on finite maps: putting and saving are insertions, removing
is an erasure, merging is a union, and replacing takes the other map over. Every question is
answered from the map. Partitions of both kinds give the same answers (**`answers_eq_spec`**), so
that nothing that was asked of one tells its kind, the representations of its edges, or what its
scratch vertex went through.

A serialized partition says its number of vertices in 32 bits. The one call that can fail is a
replacement by a partition that has more; then nothing is replaced.
-/

namespace Superstep

/-- What an answer says: a vertex counts by its id and what it says, and the order of ids does
not count. -/
inductive Reply (I V E : Type) where
  | vertex (found : Option (I × VertexData I V E))
  | flag (present : Bool)
  | ids (ids : Multiset I)
  | number (n : Nat)
  | done

variable {I V E : Type} [VertexId I] [Value E]

def Returned.reply : Returned I V E → Reply I V E
  | vertex found => .vertex (found.map Partition.report)
  | flag present => .flag present
  | .ids listed => .ids listed
  | number n => .number n
  | done => .done

theorem Returned.reply_vertex {result : Except Error (Option (Vertex I V E))}
    {found : Option (I × VertexData I V E)}
    (h : result.map (Option.map Partition.report) = .ok found) :
    (result.map Returned.vertex).map Returned.reply = .ok (.vertex found) := by
  cases result with
  | error e => cases h
  | ok v => exact congrArg (fun found => Except.ok (Reply.vertex found)) (Except.ok.inj h)

namespace Shard

def find? (s : Shard I V E) (id : I) : Option (I × VertexData I V E) :=
  (s.vertices.lookup id).map fun d => (id, d)

def insert (s : Shard I V E) (v : Vertex I V E) : Shard I V E :=
  { s with vertices := s.vertices.insert v.id v.data }

def erase (s : Shard I V E) (id : I) : Shard I V E := { s with vertices := s.vertices.erase id }

/-- What a call says of a finite map and does to it. -/
def perform (s : Shard I V E) : Call I V E → Reply I V E × Shard I V E
  | .put v => (.vertex (s.find? v.id), s.insert v)
  | .remove id => (.vertex (s.find? id), s.erase id)
  | .save v => (.done, s.insert v)
  | .get id => (.vertex (s.find? id), s)
  | .load id => (.flag (s.vertices.lookup id).isSome, s)
  | .contains id => (.flag (s.vertices.lookup id).isSome, s)
  | .ids => (.ids s.vertices.keys.val, s)
  | .size => (.number s.vertices.keys.card, s)
  | .edgeCount => (.number (Partition.edgeTotal s.vertices), s)
  | .edit (.put v) => (.flag (s.vertices.lookup v.id).isSome, s.insert v)
  | .edit (.remove id) => (.flag (s.vertices.lookup id).isSome, s.erase id)
  | .edit (.save v) => (.done, s.insert v)

end Shard

namespace History

/-- Carries the history out on finite maps. -/
def spec : History I V E → List (Except Error (Reply I V E)) × Shard I V E
  | new id _ => ([], ⟨id, ∅⟩)
  | call before c =>
    let (replies, s) := before.spec
    let (reply, s) := s.perform c
    (replies ++ [.ok reply], s)
  | merge before other =>
    let (replies, s) := before.spec
    let (otherReplies, t) := other.spec
    (replies ++ otherReplies ++ [.ok .done], { s with vertices := t.vertices ∪ s.vertices })
  | replace before other _ =>
    let (replies, s) := before.spec
    let (otherReplies, t) := other.spec
    if t.vertices.keys.card < wordLimit then (replies ++ otherReplies ++ [.ok .done], t)
    else
      let refusal := .invalidArgument (.tooManyEntries t.id)
      (replies ++ otherReplies ++ [.error refusal], s)

/-- Every partition that replaces another has a number of vertices that 32 bits can say. -/
def Countable : History I V E → Prop
  | new _ _ => True
  | call before _ => before.Countable
  | merge before other => before.Countable ∧ other.Countable
  | replace before other _ =>
    before.Countable ∧ other.Countable ∧ other.spec.2.vertices.keys.card < wordLimit

/-- On finite maps, nothing fails but the copying of too many vertices. -/
theorem spec_ok {h : History I V E} (hcount : h.Countable) :
    ∀ reply ∈ h.spec.1, reply.isOk = true := by
  -- a replacement is the only call that can fail, and it does not when few enough vertices are
  -- written
  induction h with
  | new id config => intro reply hmem; cases hmem
  | call before c ih =>
    intro reply hmem
    rcases List.mem_append.1 hmem with hmem | hmem
    · exact ih hcount reply hmem
    · cases List.mem_singleton.1 hmem
      rfl
  | merge before other ih ihother =>
    intro reply hmem
    rcases List.mem_append.1 hmem with hmem | hmem
    · rcases List.mem_append.1 hmem with hmem | hmem
      · exact ih hcount.1 reply hmem
      · exact ihother hcount.2 reply hmem
    · cases List.mem_singleton.1 hmem
      rfl
  | replace before other kind ih ihother =>
    obtain ⟨hbefore, hother, hfew⟩ := hcount
    intro reply hmem
    rw [spec] at hmem
    dsimp only at hmem
    rw [if_pos hfew] at hmem
    rcases List.mem_append.1 hmem with hmem | hmem
    · rcases List.mem_append.1 hmem with hmem | hmem
      · exact ih hbefore reply hmem
      · exact ihother hother reply hmem
    · cases List.mem_singleton.1 hmem
      rfl

end History

/-! ## Calls

A call of a partition is a call of its shard, with the same answer. Vertices that a call stores have
to fit into a blob. -/

variable [Value V]

/-- The vertex that the call stores, if it stores one, came to be by successful operations, and
its blob is below 4 GiB. -/
def Call.Fits (c : Call I V E) : Prop :=
  ∀ v ∈ c.stored?, v.Reached ∧ Blob.totalLen v.encode < wordLimit

namespace Partition

variable {p : Partition I V E} {kind : PartitionKind} {s : Shard I V E}

theorem Implements.contains_eq (h : p.Implements kind s) (id : I) :
    p.records.contains id = (s.vertices.lookup id).isSome := by
  rw [Bool.eq_iff_iff, h.records.contains_iff id, Finmap.lookup_isSome]

theorem storable_of_fits [LawfulId I] [LawfulCodec E] {c : Call I V E} (hc : c.Fits)
    {v : Vertex I V E} (hv : c.stored? = some v) : v.Storable :=
  ⟨(hc v hv).1.lawful, (hc v hv).2⟩

/-- **A writer's edit** is the change of the map that goes by its name. -/
theorem edit_spec [LawfulId I] [LawfulCodec E] (h : p.Implements kind s) (e : Edit I V E)
    (he : (Call.edit e).Fits) :
    (p.edit e).1.map Returned.reply = .ok (s.perform (.edit e)).1
      ∧ (p.edit e).2.Implements kind (s.perform (.edit e)).2 := by
  cases e with
  | put v =>
    obtain ⟨records, hput, hkind, hrepresents⟩ :=
      Records.put_spec h.records (storable_of_fits he rfl)
    rw [edit, Records.edit, hput, h.contains_eq]
    exact ⟨rfl, hkind.trans h.kind, h.id, hrepresents⟩
  | remove id =>
    rw [edit, Records.edit, h.contains_eq]
    exact ⟨rfl, (Records.kind_remove p.records id).trans h.kind, h.id, h.records.remove id⟩
  | save v =>
    obtain ⟨records, hput, hkind, hrepresents⟩ :=
      Records.put_spec h.records (storable_of_fits he rfl)
    rw [edit, Records.edit, Records.save_of_put hput]
    exact ⟨rfl, hkind.trans h.kind, h.id, hrepresents⟩

variable [LawfulId I] [LawfulCodec V] [LawfulCodec E]

/-- **A call of a partition is answered by its shard.** -/
theorem perform_spec (h : p.Implements kind s) (c : Call I V E) (hc : c.Fits) :
    (p.perform c).1.map Returned.reply = .ok (s.perform c).1
      ∧ (p.perform c).2.Implements kind (s.perform c).2 := by
  cases c with
  | put v =>
    obtain ⟨hanswer, himplements⟩ := put_spec h (storable_of_fits hc rfl)
    exact ⟨Returned.reply_vertex hanswer, himplements⟩
  | remove id =>
    obtain ⟨hanswer, himplements⟩ := remove_spec h id
    exact ⟨Returned.reply_vertex hanswer, himplements⟩
  | save v =>
    obtain ⟨hanswer, himplements⟩ := save_spec h (storable_of_fits hc rfl)
    rw [perform, hanswer]
    exact ⟨rfl, himplements⟩
  | get id =>
    obtain ⟨hanswer, himplements⟩ := get_spec h id
    exact ⟨Returned.reply_vertex hanswer, himplements⟩
  | load id =>
    obtain ⟨hanswer, himplements⟩ := load_spec h id
    rw [perform, hanswer]
    exact ⟨rfl, himplements⟩
  | contains id =>
    rw [perform, contains, h.contains_eq]
    exact ⟨rfl, h⟩
  | ids =>
    refine ⟨?_, h⟩
    exact congrArg (fun ids => Except.ok (Reply.ids ids)) h.records.ids_eq
  | size =>
    refine ⟨?_, h⟩
    exact congrArg (fun n => Except.ok (Reply.number n)) h.records.size_eq
  | edgeCount =>
    obtain ⟨hanswer, himplements⟩ := edgeCount_spec h
    rw [perform, hanswer]
    exact ⟨rfl, himplements⟩
  -- writers go past the scratch vertex, so that their edits have a lemma of their own
  | edit e => exact edit_spec h e hc

end Partition

/-! ## Histories

Histories are trees: a merge and a replacement have the history of the other partition. So the
induction goes through both partitions at once. -/

namespace History

/-- Every vertex that the calls of the history store is one that they can store. -/
def Fits : History I V E → Prop
  | new _ _ => True
  | call before c => before.Fits ∧ c.Fits
  | merge before other => before.Fits ∧ other.Fits
  | replace before other _ => before.Fits ∧ other.Fits

variable [LawfulId I] [LawfulCodec V] [LawfulCodec E]

/-- **A whole history**: the answers are those of the map, and the partition that comes to be
stands for the map that comes to be. -/
theorem run_spec (kind : PartitionKind) {h : History I V E} (hfits : h.Fits) :
    (h.run kind).1.map (Except.map Returned.reply) = h.spec.1
      ∧ (h.run kind).2.Implements kind h.spec.2 := by
  -- the kind varies: a copy may come from a partition of the other kind
  induction h generalizing kind with
  | new id config => exact ⟨rfl, Partition.implements_new id { config with kind }⟩
  | call before c ih =>
    obtain ⟨hanswers, himplements⟩ := ih kind hfits.1
    obtain ⟨hanswer, hafter⟩ := Partition.perform_spec himplements c hfits.2
    refine ⟨?_, hafter⟩
    rw [run, spec]
    dsimp only
    rw [List.map_append, hanswers, List.map_singleton, hanswer]
  | merge before other ih ihother =>
    obtain ⟨hanswers, himplements⟩ := ih kind hfits.1
    obtain ⟨hothers, hother⟩ := ihother kind hfits.2
    obtain ⟨hmerge, hafter⟩ := Partition.merge_spec himplements hother
    refine ⟨?_, hafter⟩
    rw [run, spec]
    dsimp only
    rw [List.map_append, List.map_append, hanswers, hothers, hmerge]
    rfl
  | replace before other otherKind ih ihother =>
    obtain ⟨hanswers, himplements⟩ := ih kind hfits.1
    obtain ⟨hothers, hother⟩ := ihother otherKind hfits.2
    rw [run, spec]
    dsimp only
    split
    · next hfew =>
      obtain ⟨hreplace, hafter⟩ := Partition.replace_spec himplements hother hfew
      refine ⟨?_, hafter⟩
      dsimp only
      rw [List.map_append, List.map_append, hanswers, hothers, hreplace]
      rfl
    · next hmany =>
      -- the copy is refused, and the partition stays what it was
      rw [Partition.replace_refused hother hmany]
      refine ⟨?_, himplements⟩
      dsimp only
      rw [List.map_append, List.map_append, hanswers, hothers]
      rfl

/-- **Partitions of both kinds are one finite map.** Whatever is asked of a partition over its
history, of which kind it may be, it answers as the map does; and nothing fails but a replacement
by more vertices than a serialized partition can count. -/
theorem answers_eq_spec {h : History I V E} (hfits : h.Fits) (kind : PartitionKind) :
    (h.run kind).1.map (Except.map Returned.reply) = h.spec.1
      ∧ (h.Countable → ∀ answer ∈ (h.run kind).1, answer.isOk = true) := by
  have hanswers := (run_spec kind hfits).1
  refine ⟨hanswers, fun hcount answer hmem => ?_⟩
  have hreply : answer.map Returned.reply ∈ h.spec.1 := hanswers ▸ List.mem_map_of_mem hmem
  have hok := spec_ok hcount _ hreply
  cases answer with
  | error e => cases hok
  | ok said => rfl

/-- Two vertices that differ in their edges, one more that a writer saves, and a merge of it all,
of which a copy is asked for its edges and for a vertex. -/
def resettled : History UInt64 UInt64 UInt64 :=
  let config : PartitionConfig := ⟨1, .sorted, .simple⟩
  let first := call (.new ⟨1⟩ config) (.put (.withEdges 1 10 .lazy [(2, 3), (3, 4)]))
  let other := call (.new ⟨2⟩ config) (.put (.withEdges 1 11 .sorted [(2, 5)]))
  let merged := merge (call first (.edit (.save (.new 2 20 .lazy)))) other
  call (call (replace (.new ⟨3⟩ config) merged .byteArray) .edgeCount) (.remove 1)

theorem answers_eq_spec_resettled : resettled.Fits ∧ resettled.Countable ∧
    ∀ kind, (resettled.run kind).1.map (Except.map Returned.reply)
        = [.ok (.vertex none), .ok .done, .ok (.vertex none), .ok .done, .ok .done,
          .ok (.number 1), .ok (.vertex (some (1, ⟨11, mapping [(2, 5)], false⟩)))]
      ∧ ∀ answer ∈ (resettled.run kind).1, answer.isOk = true := by
  have hfits : resettled.Fits := by
    refine ⟨⟨⟨trivial, ⟨⟨⟨trivial, ?_⟩, ?_⟩, ⟨trivial, ?_⟩⟩⟩, ?_⟩, ?_⟩
    · rintro v ⟨⟩
      exact ⟨.withEdges .., by decide +kernel⟩
    · rintro v ⟨⟩
      exact ⟨.new .., by decide +kernel⟩
    · rintro v ⟨⟩
      exact ⟨.withEdges .., by decide +kernel⟩
    · rintro v ⟨⟩
    · rintro v ⟨⟩
  have hcount : resettled.Countable := ⟨trivial, ⟨trivial, trivial⟩, by decide +kernel⟩
  refine ⟨hfits, hcount, fun kind => ?_⟩
  obtain ⟨hanswers, hok⟩ := answers_eq_spec hfits kind
  exact ⟨hanswers.trans rfl, hok hcount⟩

end History

end Superstep
