import Mathlib.Algebra.Order.BigOperators.Group.Finset
import Mathlib.Data.Set.Card
import Superstep.Proofs.Inboxes

/-!
# Superstep — going through the destinations of a store

The destinations of a store are listed partition by partition, while the messages for a vertex are
looked up in every partition. A vertex is therefore listed once for each partition in which it has
messages (`places`), and each time all of its messages are found.

* **`count_destinations`** — how often a vertex is listed;
* **`visited_eq`** — how often a message is found when the messages of every destination are looked
  up: as often as its vertex is listed;
* **`visited_once_iff`** — every message is found once exactly when no vertex has messages in two
  partitions, as when partitions are disjoint sets of vertices.
-/

namespace Superstep.MessageStore

variable {I M : Type} [VertexId I]

/-- The number of partitions in which a vertex has messages. -/
noncomputable def places (s : MessageStore I M) (vertex : I) : Nat :=
  {partition | s.inbox partition vertex ≠ 0}.ncard

def visited (s : MessageStore I M) : List M := s.destinations.flatMap s.vertexMessages

variable {s : MessageStore I M}

/-- The places of a vertex are its cells. -/
theorem places_eq_card (h : s.Occupied) (vertex : I) :
    s.places vertex = (s.cells.filter fun c => c.2 = vertex).card := by
  have hinj :
      Set.InjOn Prod.fst (s.cells.filter fun c => c.2 = vertex : Set (PartitionId × I)) := by
    intro c hc c' hc' heq
    rw [Finset.mem_coe, Finset.mem_filter] at hc hc'
    exact Prod.ext heq (hc.2.trans hc'.2.symm)
  have hset : {partition | s.inbox partition vertex ≠ 0}
      = ((s.cells.filter fun c => c.2 = vertex).image Prod.fst : Finset PartitionId) := by
    ext partition
    rw [Set.mem_ofPred_eq, Finset.mem_coe, Finset.mem_image]
    constructor
    · intro hne
      exact ⟨(partition, vertex), Finset.mem_filter.2 ⟨(mem_cells h).2 hne, rfl⟩, rfl⟩
    · rintro ⟨c, hc, rfl⟩
      obtain ⟨hcell, rfl⟩ := Finset.mem_filter.1 hc
      exact (mem_cells h).1 hcell
  rw [places, hset, Set.ncard_coe_finset, Finset.card_image_of_injOn hinj]

/-- A vertex that has a cell is in some place. -/
theorem places_pos (h : s.Occupied) {c : PartitionId × I} (hc : c ∈ s.cells) :
    0 < s.places c.2 := by
  rw [places_eq_card h]
  exact Finset.card_pos.2 ⟨c, Finset.mem_filter.2 ⟨hc, rfl⟩⟩

/-- **How often a vertex is listed.** -/
theorem count_destinations (h : s.Occupied) (vertex : I) :
    s.destinations.count vertex = s.places vertex := by
  have hfilter : (s.cells.filter fun c => c.2 = vertex)
      = (s.listed.filter fun c => c.2 = vertex).toFinset := by
    ext c
    simp [cells]
  rw [places_eq_card h, hfilter, List.toFinset_card_of_nodup (s.nodup_listed.filter _),
    destinations_eq, List.count_eq_countP, List.countP_map, List.countP_eq_length_filter]
  rfl

/-- The list of destinations is one without repetition exactly when every vertex is in one place. -/
theorem nodup_destinations_iff (h : s.Occupied) :
    s.destinations.Nodup ↔ ∀ vertex, s.places vertex ≤ 1 := by
  rw [List.nodup_iff_count_le_one]
  simp only [count_destinations h]

/-- **How often a message is found.** Both sums go through the pairs of cells of one vertex. -/
theorem visited_eq (h : s.Occupied) :
    (s.visited : Multiset M) = ∑ c ∈ s.cells, s.places c.2 • s.inbox c.1 c.2 := by
  -- for two cells of one vertex it does not matter which of them is listed and which looked up
  have hswap : ∀ c d : PartitionId × I, c ∈ s.cells ∧ d ∈ s.cells.filter (fun d => d.2 = c.2)
      ↔ c ∈ s.cells.filter (fun c => c.2 = d.2) ∧ d ∈ s.cells := by
    intro c d
    rw [Finset.mem_filter, Finset.mem_filter, eq_comm (a := d.2)]
    tauto
  calc (s.visited : Multiset M)
      = ∑ c ∈ s.cells, (s.vertexMessages c.2 : Multiset M) := by
        rw [visited, coe_flatMap, destinations_eq, List.map_map, cells,
          List.sum_toFinset _ s.nodup_listed]
        rfl
    _ = ∑ c ∈ s.cells, ∑ d ∈ s.cells with d.2 = c.2, s.inbox d.1 d.2 := by
        simp only [vertexMessages_eq]
    _ = ∑ d ∈ s.cells, ∑ c ∈ s.cells with c.2 = d.2, s.inbox d.1 d.2 :=
        Finset.sum_comm' hswap
    _ = ∑ d ∈ s.cells, s.places d.2 • s.inbox d.1 d.2 := by
        simp only [Finset.sum_const, places_eq_card h]

/-- So many messages are found in all. -/
theorem length_visited (h : s.Occupied) :
    s.visited.length = ∑ c ∈ s.cells, s.places c.2 * (s.inbox c.1 c.2).card := by
  rw [← Multiset.coe_card, visited_eq h, Multiset.card_sum]
  simp only [Multiset.card_nsmul]

/-- **Every message is found once** exactly when no vertex has messages in two partitions. -/
theorem length_visited_eq_count_iff (h : s.Occupied) :
    s.visited.length = s.count ↔ ∀ vertex, s.places vertex ≤ 1 := by
  have hle : ∀ c ∈ s.cells, (s.inbox c.1 c.2).card ≤ s.places c.2 * (s.inbox c.1 c.2).card :=
    fun c hc => Nat.le_mul_of_pos_left _ (places_pos h hc)
  -- no summand is less than without the factor, so that the sums are equal only if all summands are
  rw [length_visited h, count_eq, eq_comm, Finset.sum_eq_sum_iff_of_le hle]
  constructor
  · intro hcells vertex
    by_cases hzero : s.places vertex = 0
    · omega
    · rw [places_eq_card h, Finset.card_eq_zero, ← ne_eq, ← Finset.nonempty_iff_ne_empty] at hzero
      obtain ⟨c, hc⟩ := hzero
      obtain ⟨hcell, rfl⟩ := Finset.mem_filter.1 hc
      have hpos : 0 < (s.inbox c.1 c.2).card := Multiset.card_pos.2 ((mem_cells h).1 hcell)
      have hone : s.places c.2 * (s.inbox c.1 c.2).card = 1 * (s.inbox c.1 c.2).card := by
        rw [← hcells c hcell, Nat.one_mul]
      exact (Nat.eq_of_mul_eq_mul_right hpos hone).le
  · intro hplaces c hc
    have hone : s.places c.2 = 1 := by
      have := hplaces c.2
      have := places_pos h hc
      omega
    rw [hone, Nat.one_mul]

variable [Value M]

/-- **When each message is found once.** After any calls, a vertex is listed once for each partition
in which it has messages, and looking up the messages of every destination finds each message as
often as its vertex is listed. So the list is without repetition, and as many messages are found as
are held, exactly when no vertex has messages in two partitions; then each message is found once. -/
theorem visited_once_iff (calls : List (Call I M)) :
    let s := reached calls
    let places := fun vertex => {partition | addedSince partition vertex calls ≠ 0}.ncard
    let visited := s.destinations.flatMap s.vertexMessages
    (∀ vertex, s.destinations.count vertex = places vertex)
      ∧ (s.destinations.Nodup ↔ ∀ vertex, places vertex ≤ 1)
      ∧ (visited.length = s.count ↔ ∀ vertex, places vertex ≤ 1)
      ∧ ∃ cells : Finset (PartitionId × I), (∀ c, c ∈ cells ↔ addedSince c.1 c.2 calls ≠ 0)
        ∧ (visited : Multiset M) = ∑ c ∈ cells, places c.2 • addedSince c.1 c.2 calls
        ∧ ((∀ vertex, places vertex ≤ 1) →
            (visited : Multiset M) = ∑ c ∈ cells, addedSince c.1 c.2 calls) := by
  intro s places visited
  obtain ⟨hoccupied, hinbox⟩ := reached_spec calls
  have hplaces : ∀ vertex, s.places vertex = places vertex := by
    intro vertex
    simp only [MessageStore.places, s, hinbox, places]
  have hmem : ∀ c, c ∈ s.cells ↔ addedSince c.1 c.2 calls ≠ 0 := by
    intro c
    rw [mem_cells hoccupied, hinbox]
  have hvisited :
      (visited : Multiset M) = ∑ c ∈ s.cells, places c.2 • addedSince c.1 c.2 calls := by
    refine (visited_eq hoccupied).trans (Finset.sum_congr rfl fun c _ => ?_)
    rw [hplaces, hinbox]
  -- from here on both sides speak of the store that the calls made
  simp only [← hplaces]
  refine ⟨count_destinations hoccupied, nodup_destinations_iff hoccupied,
    length_visited_eq_count_iff hoccupied, s.cells, hmem, ?_, fun hfew => ?_⟩
  · simp only [hvisited, hplaces]
  · refine hvisited.trans (Finset.sum_congr rfl fun c hc => ?_)
    have hone : places c.2 = 1 :=
      (hplaces c.2).symm.trans (le_antisymm (hfew c.2) (places_pos hoccupied hc))
    rw [hone, one_nsmul]

/-- Vertex 7 gets its messages in one partition, vertex 5 in another. -/
def apart : List (Call UInt64 UInt64) := [.add ⟨0⟩ 7 70, .add ⟨1⟩ 5 50, .add ⟨0⟩ 7 71]

/-- With one partition for each vertex the list has no repetition, and each message is found
once. -/
theorem visited_once_iff_apart :
    let s := reached apart
    s.destinations.Nodup ∧ (s.destinations.flatMap s.vertexMessages).length = s.count := by
  intro s
  obtain ⟨_, hnodup, hlength, _⟩ := visited_once_iff apart
  have hdestinations : s.destinations.Nodup := by decide +kernel
  exact ⟨hdestinations, hlength.2 (hnodup.1 hdestinations)⟩

/-- A vertex with messages in two partitions is listed twice, and its messages are found twice. -/
theorem visited_twice : ¬ ∀ calls : List (Call UInt64 UInt64),
    let s := reached calls
    s.destinations.Nodup ∧ (s.destinations.flatMap s.vertexMessages).length = s.count := by
  intro hclaim
  have hrepeated : ¬ (reached [.add ⟨0⟩ 7 70, .add ⟨1⟩ 7 71] :
      MessageStore UInt64 UInt64).destinations.Nodup := by decide +kernel
  exact hrepeated (hclaim _).1

end Superstep.MessageStore
