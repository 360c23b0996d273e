import Mathlib.Algebra.BigOperators.Group.Finset.Piecewise
import Mathlib.Data.List.DropRight
import Superstep.Message.Calls
import Superstep.Proofs.Batches
import Superstep.Proofs.Views

/-!
# Superstep — a message store is a family of multisets

For every partition and vertex a store holds a multiset of messages, the `inbox`. Two views of the
nested tables lead to it:

* **`inbox_perform`** — each call empties an inbox, adds to it, or leaves it alone, so that after
  any calls it holds what was `addedSince` it was emptied;
* **`cells`** — the inboxes that hold something, each once. Listings and totals are sums over the
  cells (`count_eq`, `vertexMessages_eq`, `destinations_eq`).

The second view needs that a vertex is not listed without a message (`Occupied`): what a call puts
into a table is never empty, and taking messages out removes the vertex.
-/

namespace Superstep.MessageStore

variable {I M : Type}

/-! ## Cells

A cell is a partition with a vertex that has messages there. Tables give them in some order and each
once, which turns the nested loops of the store into sums over a finite set. -/

/-- The inboxes that are listed, partition by partition. -/
def listed (s : MessageStore I M) : List (PartitionId × I) :=
  s.partitions.toList.flatMap fun e => e.2.keys.map fun vertex => (e.1, vertex)

variable {s : MessageStore I M}

/-- A cell is listed where its table has the vertex for a key. -/
theorem mem_listed {partition : PartitionId} {vertex : I} :
    (partition, vertex) ∈ s.listed ↔ vertex ∈ (s.inboxes partition).keys := by
  rw [listed, List.mem_flatMap, inboxes]
  constructor
  · rintro ⟨⟨partition', inboxes⟩, hmem, hvertex⟩
    obtain ⟨_, hkeys, ⟨⟩⟩ := List.mem_map.1 hvertex
    rw [Table.mem_toList_iff.1 hmem]
    exact hkeys
  · intro hkeys
    cases hget : s.partitions.get? partition with
    | none =>
      rw [hget] at hkeys
      cases hkeys
    | some inboxes =>
      rw [hget] at hkeys
      exact ⟨_, Table.mem_toList_iff.2 hget, List.mem_map_of_mem hkeys⟩

/-- No cell is listed twice. -/
theorem nodup_listed (s : MessageStore I M) : s.listed.Nodup := by
  refine List.nodup_flatMap.2 ⟨fun e _ => ?_, ?_⟩
  · exact e.2.nodup_keys.map fun v v' h => congrArg Prod.snd h
  · refine (List.pairwise_map.1 s.partitions.nodup).imp ?_
    rintro e e' hne ⟨partition, vertex⟩ hmem hmem'
    obtain ⟨_, _, heq⟩ := List.mem_map.1 hmem
    obtain ⟨_, _, heq'⟩ := List.mem_map.1 hmem'
    exact hne ((congrArg Prod.fst heq).trans (congrArg Prod.fst heq').symm)

/-- The destinations are the cells without their partitions, so that a vertex may come twice. -/
theorem destinations_eq (s : MessageStore I M) : s.destinations = s.listed.map Prod.snd := by
  rw [destinations, Table.values, List.flatMap_map, listed, List.map_flatMap]
  congr 1
  funext e
  rw [List.map_map]
  exact (List.map_id e.2.keys).symm

variable [VertexId I]

def cells (s : MessageStore I M) : Finset (PartitionId × I) := s.listed.toFinset

/-- A vertex that is listed has a message. -/
def Busy (inboxes : Table I (List M)) : Prop :=
  ∀ vertex messages, inboxes.get? vertex = some messages → messages ≠ []

@[inherit_doc Busy]
def Occupied (s : MessageStore I M) : Prop :=
  ∀ partition inboxes, s.partitions.get? partition = some inboxes → Busy inboxes

theorem Occupied.inboxes (h : s.Occupied) (partition : PartitionId) :
    Busy (s.inboxes partition) := by
  intro vertex messages hget
  cases hpartition : s.partitions.get? partition with
  | none =>
    rw [MessageStore.inboxes, hpartition] at hget
    cases hget
  | some table =>
    rw [MessageStore.inboxes, hpartition] at hget
    exact h partition table hpartition vertex messages hget

/-- An inbox is listed exactly when it holds something. -/
theorem mem_keys_iff (h : s.Occupied) {partition : PartitionId} {vertex : I} :
    vertex ∈ (s.inboxes partition).keys ↔ s.inbox partition vertex ≠ 0 := by
  rw [Table.mem_keys_iff, inbox]
  cases hget : (s.inboxes partition).get? vertex with
  | none => simp
  | some messages => simpa using h.inboxes partition vertex messages hget

/-- **The cells are the inboxes that hold something.** -/
theorem mem_cells (h : s.Occupied) {c : PartitionId × I} :
    c ∈ s.cells ↔ s.inbox c.1 c.2 ≠ 0 := by
  rw [cells, List.mem_toFinset, mem_listed, mem_keys_iff h]

/-- A sum over the cells goes through the tables. -/
theorem sum_cells {A : Type} [AddCommMonoid A] (f : PartitionId → I → A) :
    ∑ c ∈ s.cells, f c.1 c.2
      = (s.partitions.toList.map fun e => (e.2.keys.map (f e.1)).sum).sum := by
  rw [cells, List.sum_toFinset _ s.nodup_listed, listed]
  induction s.partitions.toList with
  | nil => rfl
  | cons e later ih =>
    rw [List.flatMap_cons, List.map_append, List.sum_append, ih, List.map_cons, List.sum_cons,
      List.map_map]
    rfl

/-- What a table of inboxes holds is what its partition holds. -/
theorem inbox_of_mem {partition : PartitionId} {inboxes : Table I (List M)}
    (h : (partition, inboxes) ∈ s.partitions.toList) (vertex : I) :
    s.inbox partition vertex = ((inboxes.get? vertex).getD [] : List M) := by
  rw [inbox, MessageStore.inboxes, Table.mem_toList_iff.1 h]
  rfl

theorem held_eq (inboxes : Table I (List M)) :
    held inboxes
      = (inboxes.keys.map fun vertex => ((inboxes.get? vertex).getD []).length).sum := by
  rw [held, Table.values, Table.keys, List.foldr_map, List.map_map, List.sum_eq_foldr,
    List.foldr_map]
  refine List.foldr_ext _ _ _ fun e he n => ?_
  show e.2.length + n = ((inboxes.get? e.1).getD []).length + n
  rw [Table.mem_toList_iff.1 he]
  rfl

/-- **The count** is the total over the cells. -/
theorem count_eq (s : MessageStore I M) : s.count = ∑ c ∈ s.cells, (s.inbox c.1 c.2).card := by
  rw [sum_cells fun partition vertex => (s.inbox partition vertex).card, count, Table.values,
    List.foldr_map, List.sum_eq_foldr, List.foldr_map]
  refine List.foldr_ext _ _ _ fun e he n => ?_
  rw [held_eq]
  congr 2
  refine List.map_congr_left fun vertex _ => ?_
  rw [inbox_of_mem he, Multiset.coe_card]

/-- Of the keys of a table, one at the most is this one. -/
theorem sum_keys_eq (inboxes : Table I (List M)) (vertex : I) :
    (inboxes.keys.map fun vertex' =>
        if vertex' = vertex then (((inboxes.get? vertex').getD [] : List M) : Multiset M)
        else 0).sum
      = ((inboxes.get? vertex).getD [] : List M) := by
  rw [← List.sum_toFinset _ inboxes.nodup_keys, Finset.sum_ite_eq' inboxes.keys.toFinset vertex
    fun vertex' => (((inboxes.get? vertex').getD [] : List M) : Multiset M)]
  split
  · rfl
  · next hnot =>
    rw [List.mem_toFinset, ← Table.contains_iff_mem_keys, Bool.not_eq_true,
      Table.contains_eq_false_iff] at hnot
    rw [hnot]
    rfl

/-- What is put together from several lists. -/
theorem coe_flatMap {A B : Type} (l : List A) (f : A → List B) :
    (l.flatMap f : Multiset B) = (l.map fun a => (f a : Multiset B)).sum := by
  rw [← Multiset.coe_bind, Multiset.bind, Multiset.map_coe, Multiset.join, Multiset.sum_coe]

/-- **The messages for a vertex** are those of its cells. -/
theorem vertexMessages_eq (s : MessageStore I M) (vertex : I) :
    (s.vertexMessages vertex : Multiset M)
      = ∑ c ∈ s.cells with c.2 = vertex, s.inbox c.1 c.2 := by
  rw [Finset.sum_filter, sum_cells fun partition vertex' =>
    if vertex' = vertex then s.inbox partition vertex' else 0, vertexMessages, Table.values,
    List.flatMap_map, coe_flatMap]
  congr 1
  refine List.map_congr_left fun e he => ?_
  simp only [inbox_of_mem he]
  exact (sum_keys_eq e.2 vertex).symm

/-! ## Operations

Each operation changes one inbox or all those of a partition. As equations for any inbox, changed or
not, they are all that is needed to tell what calls leave. -/

/-- A message goes into one inbox. -/
theorem inbox_add (s : MessageStore I M) (partition partition' : PartitionId)
    (vertex vertex' : I) (message : M) :
    (s.add partition vertex message).inbox partition' vertex'
      = s.inbox partition' vertex'
        + if partition = partition' ∧ vertex = vertex' then {message} else 0 := by
  by_cases h : partition = partition'
  · subst h
    have hinboxes : (s.add partition vertex message).inboxes partition
        = deliver (s.inboxes partition) vertex message := by
      rw [add, inboxes, Table.get?_insert_self, Option.getD_some]
    rw [inbox, hinboxes, getD_deliver, ← Multiset.coe_add, inbox]
    congr 1
    by_cases hvertex : vertex = vertex' <;> simp [hvertex]
  · have hinboxes : (s.add partition vertex message).inboxes partition' = s.inboxes partition' := by
      rw [add, inboxes, Table.get?_insert_of_ne _ _ (Ne.symm h)]
      rfl
    rw [inbox, hinboxes, if_neg fun both => h both.1, add_zero]
    rfl

theorem take_of_none {partition : PartitionId} (h : s.partitions.get? partition = none)
    (vertex : I) : s.take partition vertex = ([], s) := by
  rw [take, h]

theorem take_of_some {partition : PartitionId} {inboxes : Table I (List M)}
    (h : s.partitions.get? partition = some inboxes) (vertex : I) :
    s.take partition vertex = ((inboxes.get? vertex).getD [],
      ⟨s.partitions.insert partition (inboxes.erase vertex)⟩) := by
  rw [take, h]

/-- **What is taken** is what the inbox held. -/
theorem fst_take (s : MessageStore I M) (partition : PartitionId) (vertex : I) :
    ((s.take partition vertex).1 : Multiset M) = s.inbox partition vertex := by
  rw [inbox, inboxes]
  cases h : s.partitions.get? partition with
  | none =>
    rw [take_of_none h]
    rfl
  | some inboxes =>
    rw [take_of_some h]
    rfl

/-- **Taking empties one inbox** and leaves the others alone. -/
theorem inbox_take (s : MessageStore I M) (partition partition' : PartitionId)
    (vertex vertex' : I) : (s.take partition vertex).2.inbox partition' vertex'
      = if partition = partition' ∧ vertex = vertex' then 0 else s.inbox partition' vertex' := by
  cases h : s.partitions.get? partition with
  | none =>
    rw [take_of_none h]
    split
    · next both =>
      rw [inbox, inboxes, ← both.1, h]
      rfl
    · rfl
  | some table =>
    rw [take_of_some h, inbox, inboxes, Table.get?_insert]
    by_cases hpartition : partition' = partition
    · subst hpartition
      rw [if_pos rfl, Option.getD_some, Table.get?_erase, inbox, inboxes, h, Option.getD_some]
      by_cases hvertex : vertex' = vertex
      · subst hvertex
        rw [if_pos rfl, if_pos ⟨rfl, rfl⟩]
        rfl
      · rw [if_neg hvertex, if_neg fun both => hvertex both.2.symm]
    · rw [if_neg hpartition, if_neg fun both => hpartition both.1.symm]
      rfl

/-- Clearing a partition empties its inboxes. -/
theorem inbox_clearPartition (s : MessageStore I M) (partition partition' : PartitionId)
    (vertex : I) : (s.clearPartition partition).inbox partition' vertex
      = if partition = partition' then 0 else s.inbox partition' vertex := by
  rw [inbox, inboxes, clearPartition, Table.get?_erase]
  by_cases h : partition' = partition
  · rw [if_pos h, if_pos h.symm]
    rfl
  · rw [if_neg h, if_neg (Ne.symm h)]
    rfl

/-- What a message is put into is not empty. -/
theorem Busy.deliver {inboxes : Table I (List M)} (h : Busy inboxes) (vertex : I) (message : M) :
    Busy (MessageStore.deliver inboxes vertex message) := by
  intro vertex' messages hget
  rw [MessageStore.deliver, Table.get?_insert] at hget
  split at hget
  · cases hget
    simp
  · exact h vertex' messages hget

theorem Busy.deliverAll {inboxes : Table I (List M)} (h : Busy inboxes) (pairs : List (I × M)) :
    Busy (pairs.foldl (fun inboxes e => MessageStore.deliver inboxes e.1 e.2) inboxes) := by
  induction pairs generalizing inboxes with
  | nil => exact h
  | cons e pairs ih => exact ih (h.deliver e.1 e.2)

theorem Busy.erase {inboxes : Table I (List M)} (h : Busy inboxes) (vertex : I) :
    Busy (inboxes.erase vertex) :=
  fun vertex' messages hget => h vertex' messages (Table.get?_of_get?_erase hget)

/-- A table without empty inboxes may take the place of another. -/
theorem Occupied.insert (h : s.Occupied) (partition : PartitionId) {inboxes : Table I (List M)}
    (hinboxes : Busy inboxes) : Occupied ⟨s.partitions.insert partition inboxes⟩ := by
  intro partition' inboxes' hpartition
  rw [Table.get?_insert] at hpartition
  split at hpartition
  · cases hpartition
    exact hinboxes
  · exact h partition' inboxes' hpartition

/-! ## Calls

For one inbox, a call empties it or adds to it. So what it holds is the sum of what was added by the
calls behind the last one that emptied it. -/

variable [Value M]

namespace Call

/-- What a call adds to an inbox. -/
def adds (partition : PartitionId) (vertex : I) : Call I M → Multiset M
  | add partition' vertex' message =>
    if partition' = partition ∧ vertex' = vertex then {message} else 0
  | addBatch partition' batch => if partition' = partition then batch.to vertex else 0
  | _ => 0

/-- Whether a call empties an inbox. -/
def empties (partition : PartitionId) (vertex : I) : Call I M → Bool
  | take partition' vertex' => partition' = partition && vertex' = vertex
  | clearPartition partition' => partition' = partition
  | clear => true
  | _ => false

end Call

/-- The messages that were added to an inbox since it was emptied for the last time. -/
def addedSince (partition : PartitionId) (vertex : I) (calls : List (Call I M)) : Multiset M :=
  ((calls.rtakeWhile fun call => !call.empties partition vertex).map
    (Call.adds partition vertex)).sum

/-- One call more, which begins the sum anew or adds to it. -/
theorem addedSince_concat (partition : PartitionId) (vertex : I) (calls : List (Call I M))
    (call : Call I M) : addedSince partition vertex (calls ++ [call])
      = if call.empties partition vertex then 0
        else addedSince partition vertex calls + call.adds partition vertex := by
  unfold addedSince
  cases hempties : call.empties partition vertex with
  | true =>
    rw [List.rtakeWhile_concat_neg _ _ _ (by simp [hempties])]
    rfl
  | false =>
    rw [List.rtakeWhile_concat_pos _ _ _ (by simp [hempties]), List.map_append, List.sum_append]
    simp

/-- **What a call does to an inbox.** -/
theorem inbox_perform (s : MessageStore I M) (call : Call I M) (partition : PartitionId)
    (vertex : I) : (s.perform call).inbox partition vertex
      = if call.empties partition vertex then 0
        else s.inbox partition vertex + call.adds partition vertex := by
  cases call with
  | add partition' vertex' message => exact inbox_add s partition' partition vertex' vertex message
  | addBatch partition' batch => exact inbox_addBatch s partition' partition batch vertex
  | take partition' vertex' =>
    rw [perform, inbox_take]
    simp [Call.empties, Call.adds]
  | clearPartition partition' =>
    rw [perform, inbox_clearPartition]
    simp [Call.empties, Call.adds]
  | clear => rfl

/-- No call leaves an empty inbox in the tables. -/
theorem occupied_perform (h : s.Occupied) (call : Call I M) : (s.perform call).Occupied := by
  cases call with
  | add partition vertex message =>
    exact h.insert partition ((h.inboxes partition).deliver vertex message)
  | addBatch partition batch =>
    exact h.insert partition ((h.inboxes partition).deliverAll batch.toList)
  | take partition vertex =>
    rw [perform]
    cases hpartition : s.partitions.get? partition with
    | none => rwa [take_of_none hpartition]
    | some inboxes =>
      rw [take_of_some hpartition]
      exact h.insert partition ((h partition inboxes hpartition).erase vertex)
  | clearPartition partition =>
    intro partition' inboxes hpartition
    exact h partition' inboxes (Table.get?_of_get?_erase hpartition)
  | clear =>
    intro partition inboxes hpartition
    cases hpartition

/-- **After any calls** an inbox holds what was added since it was emptied, and no vertex is listed
without a message. -/
theorem reached_spec (calls : List (Call I M)) : (reached calls).Occupied
    ∧ ∀ partition vertex, (reached calls).inbox partition vertex
      = addedSince partition vertex calls := by
  -- from the last call, which is the one that may empty the inbox
  induction calls using List.reverseRecOn with
  | nil =>
    refine ⟨fun partition inboxes hpartition => ?_, fun _ _ => rfl⟩
    cases hpartition
  | append_singleton calls call ih =>
    obtain ⟨hoccupied, hinbox⟩ := ih
    rw [reached, List.foldl_append]
    refine ⟨occupied_perform hoccupied call, fun partition vertex => ?_⟩
    rw [addedSince_concat, ← hinbox]
    exact inbox_perform (reached calls) call partition vertex

/-- A batch of packed pairs brings a vertex the messages that are paired with it. -/
theorem to_of_packs {b : Batch I M} {pairs : List (I × M)} (h : b.Packs pairs) (vertex : I) :
    b.to vertex = ((pairs.filter fun e => e.1 = vertex).map Prod.snd : List M) := by
  rw [Batch.to, h.toList_eq]

/-- **A store is a family of multisets.** After any calls, the inbox of a vertex in a partition
holds what was added since it was emptied, and taking it out returns this and leaves nothing. A
partition lists the vertices with messages, each once. There are finitely many inboxes that hold
something, over which the count is the total and the messages for a vertex are the sum. What a batch
adds is what was packed into it, whether it was packed here or read. -/
theorem family_of_multisets [LawfulId I] [LawfulCodec M] (calls : List (Call I M)) :
    let s := reached calls
    (∀ partition vertex, s.inbox partition vertex = addedSince partition vertex calls)
      ∧ (∀ partition vertex,
          ((s.take partition vertex).1 : Multiset M) = addedSince partition vertex calls
            ∧ (s.take partition vertex).2.inbox partition vertex = 0)
      ∧ (∀ partition, (s.partitionDestinations partition).Nodup ∧ ∀ vertex,
          vertex ∈ s.partitionDestinations partition ↔ addedSince partition vertex calls ≠ 0)
      ∧ (∃ cells : Finset (PartitionId × I), (∀ c, c ∈ cells ↔ addedSince c.1 c.2 calls ≠ 0)
          ∧ s.count = ∑ c ∈ cells, (addedSince c.1 c.2 calls).card
          ∧ ∀ vertex, (s.vertexMessages vertex : Multiset M)
              = ∑ c ∈ cells with c.2 = vertex, addedSince c.1 c.2 calls)
      ∧ (∀ (pairs : List (I × M)) (vertex : I),
          (∀ e ∈ pairs, (Section.encodePair e).length < wordLimit) →
          (Batch.ofList pairs).to vertex
            = ((pairs.filter fun e => e.1 = vertex).map Prod.snd : List M))
      ∧ ∀ (bytes rest : Bytes) (b : Batch I M), Batch.decode.run bytes = (.ok b, rest) →
          ∃ pairs : List (I × M), b.count = pairs.length ∧ b.bytes = Section.encodePairs pairs
            ∧ ∀ vertex, b.to vertex
              = ((pairs.filter fun e => e.1 = vertex).map Prod.snd : List M) := by
  intro s
  obtain ⟨hoccupied, hinbox⟩ := reached_spec calls
  refine ⟨hinbox, fun partition vertex => ⟨?_, ?_⟩, fun partition => ⟨?_, fun vertex => ?_⟩,
    ⟨s.cells, fun c => ?_, ?_, fun vertex => ?_⟩, ?_, ?_⟩
  · rw [fst_take, hinbox]
  · rw [inbox_take, if_pos ⟨rfl, rfl⟩]
  · exact Table.nodup_keys _
  · rw [partitionDestinations, mem_keys_iff hoccupied, hinbox]
  · rw [mem_cells hoccupied, hinbox]
  · simp only [count_eq, s, hinbox]
  · simp only [vertexMessages_eq, s, hinbox]
  · intro pairs vertex hshort
    exact to_of_packs
      (Batch.packs_ofList_of_readable fun e he => Section.reads_pair (hshort e he)) vertex
  · intro bytes rest b hdecode
    obtain ⟨pairs, hpacks⟩ := (Batch.of_decode hdecode).2.packs
    exact ⟨pairs, hpacks.count, hpacks.bytes, to_of_packs hpacks⟩

/-- Vertex 7 gets messages in two partitions, and those of one are taken out in between. -/
def exchanges : List (Call UInt64 UInt64) :=
  [.addBatch ⟨4⟩ (.ofList [(7, 70), (5, 50), (7, 71)]), .add ⟨6⟩ 7 72, .take ⟨4⟩ 7,
    .addBatch ⟨4⟩ .empty, .add ⟨4⟩ 7 73]

theorem family_of_multisets_exchanges :
    ((reached exchanges).take ⟨4⟩ 7).1 = [73]
      ∧ (reached exchanges).inbox ⟨4⟩ 5 = {50}
      ∧ (Batch.ofList [((7 : UInt64), (70 : UInt64)), (5, 50), (7, 71)]).to 7 = {70, 71} := by
  obtain ⟨hinbox, htake, _, _, hbatch, _⟩ := family_of_multisets exchanges
  refine ⟨?_, (hinbox ⟨4⟩ 5).trans (by decide +kernel), ?_⟩
  · have hseven : addedSince ⟨4⟩ 7 exchanges = {73} := by decide +kernel
    exact Multiset.coe_eq_singleton.1 ((htake ⟨4⟩ 7).1.trans hseven)
  · have hsmall : ∀ e ∈ [((7 : UInt64), (70 : UInt64)), (5, 50), (7, 71)],
        (Section.encodePair e).length < wordLimit := List.forall_iff_forall_mem.1 (by decide)
    exact (hbatch _ 7 hsmall).trans rfl

end Superstep.MessageStore
