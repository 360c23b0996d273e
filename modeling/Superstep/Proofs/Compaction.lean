import Mathlib.Data.List.Perm.Subperm
import Superstep.Proofs.ExactlyOnce

/-!
# Superstep — how much a ledger keeps

Of the ids of one sender a ledger keeps a floor and, one by one, the ids on record that lie behind
it. The floor is the first id that was not applied, for whatever reason: a request that its host
refused, or that never reached it, is not on record, so that the floor does not pass it, and
everything that is applied from then on is kept by itself.

* **`SeenIds.Normal.above_eq_nil_iff`** — nothing is kept one by one exactly when no id on record
  lies behind one that is not;
* **`World.compacted`** — in any run: what a host keeps of a sender, when that is no more than the
  floor, and how much it is when there is a gap.
-/

namespace Superstep

/-! ## Sets of ids and their sizes

A set is the ids below its floor and those above it, and it is counted against lists of ids. Which
list is taken depends on what is known: the requests that were applied, or those that were
acknowledged. -/

namespace SeenIds

/-- The ids of the set: those in front of the floor, and the others. -/
def members (s : SeenIds) : List RequestId :=
  (List.range s.floor.toNat).map RequestId.nth ++ s.above.map RequestId.mk

theorem length_members (s : SeenIds) : s.members.length = s.floor.toNat + s.above.length := by
  rw [members, List.length_append, List.length_map, List.length_map, List.length_range]

/-- The list of a set has the ids of the set. -/
theorem mem_members {s : SeenIds} {id : RequestId} : id ∈ s.members ↔ s.contains id = true := by
  -- ids below the floor are numbers below it, which fit a word
  have hbelow : id ∈ (List.range s.floor.toNat).map RequestId.nth ↔ id.val < s.floor := by
    rw [List.mem_map, UInt64.lt_iff_toNat_lt]
    constructor
    · rintro ⟨k, hk, rfl⟩
      have hlt := s.floor.toNat_lt
      rw [List.mem_range] at hk
      rw [RequestId.toNat_nth (by omega)]
      exact hk
    · intro hlt
      exact ⟨id.val.toNat, List.mem_range.2 hlt, id.nth_toNat⟩
  have habove : id ∈ s.above.map RequestId.mk ↔ id.val ∈ s.above := by
    rw [List.mem_map]
    constructor
    · rintro ⟨x, hx, rfl⟩
      exact hx
    · intro hmem
      exact ⟨id.val, hmem, rfl⟩
  rw [members, List.mem_append, hbelow, habove, contains_iff]

namespace Normal

variable {s : SeenIds}

/-- It has each of them once. -/
theorem nodup_members (hs : s.Normal) : s.members.Nodup := by
  refine List.nodup_append.2 ⟨?_, ?_, ?_⟩
  · rw [List.nodup_map_iff_inj_on List.nodup_range]
    intro j hj k hk heq
    have hlt := s.floor.toNat_lt
    rw [List.mem_range] at hj hk
    exact RequestId.nth_injOn (by omega) (by omega) heq
  · have hnodup : s.above.Nodup := hs.ascending.imp UInt64.ne_of_lt
    exact hnodup.map fun x y heq => congrArg RequestId.val heq
  · rintro id hbelow _ habove rfl
    obtain ⟨k, hk, rfl⟩ := List.mem_map.1 hbelow
    obtain ⟨x, hx, heq⟩ := List.mem_map.1 habove
    have hlt := UInt64.lt_iff_toNat_lt.1 (hs.above_floor x hx)
    have hbound := s.floor.toNat_lt
    have hx' : x = (RequestId.nth k).val := congrArg RequestId.val heq
    rw [List.mem_range] at hk
    rw [hx', RequestId.toNat_nth (by omega)] at hlt
    omega

/-- **The set is as large as a list** of its ids in which none occurs twice. -/
theorem length_eq (hs : s.Normal) {ids : List RequestId} (hids : ids.Nodup)
    (h : ∀ id, id ∈ ids ↔ s.contains id = true) :
    s.floor.toNat + s.above.length = ids.length := by
  have hperm : s.members.Perm ids :=
    (List.perm_ext_iff_of_nodup hs.nodup_members hids).2 fun id => mem_members.trans (h id).symm
  rw [← length_members, hperm.length_eq]

/-- The set is no smaller than a list of some of its ids. -/
theorem length_le {ids : List RequestId} (hids : ids.Nodup)
    (h : ∀ id ∈ ids, s.contains id = true) : ids.length ≤ s.floor.toNat + s.above.length := by
  have hsub : ids ⊆ s.members := fun id hid => mem_members.2 (h id hid)
  rw [← length_members]
  exact (List.subperm_of_subset hids hsub).length_le

/-- **Nothing lies behind the floor** exactly when the set has no gap. -/
theorem above_eq_nil_iff (hs : s.Normal) : s.above = [] ↔ ∀ id later : RequestId,
    id.val < later.val → s.contains later = true → s.contains id = true := by
  constructor
  · intro hnil id later hlt hlater
    rw [contains_iff, hnil] at hlater ⊢
    rcases hlater with hlater | hlater
    · exact .inl (UInt64.lt_trans hlt hlater)
    · cases hlater
  · intro h
    rw [List.eq_nil_iff_forall_not_mem]
    intro x hx
    have hfloor := h ⟨s.floor⟩ ⟨x⟩ (hs.above_floor x hx) (contains_iff.2 (.inr hx))
    rw [hs.floor_missing] at hfloor
    cases hfloor

end Normal

end SeenIds

/-! ## Runs

The ledger of a host has the ids that were applied, so what is known of its sets are facts about the
log of the world. -/

/-- Ids count up, so that one in front of an id that was issued was issued as well. -/
theorem Sender.Books.issued_of_lt {s : Sender} (h : s.Books) (hfew : s.Unwrapped) {peer : WorkerId}
    {id later : RequestId} (hlater : later ∈ (s.sentTo peer).map RequestFrame.id)
    (hlt : id.val < later.val) : id ∈ (s.sentTo peer).map RequestFrame.id := by
  rw [h.ids, List.mem_map] at hlater ⊢
  obtain ⟨k, hk, rfl⟩ := hlater
  have hfew' := hfew peer
  rw [List.mem_range] at hk
  rw [UInt64.lt_iff_toNat_lt, RequestId.toNat_nth (by omega)] at hlt
  exact ⟨id.val.toNat, List.mem_range.2 (by omega), id.nth_toNat⟩

namespace World

variable {I V E M : Type} {w : World I V E M} {host sender : WorkerId} {server : Server I V E M}

/-- What the set tells of the requests of a sender to a host. -/
structure Keeps (w : World I V E M) (host sender : WorkerId) (seen : SeenIds) : Prop where
  below : ∀ id : RequestId, id.val < seen.floor → w.Applied host sender id
  floor : ¬ w.Applied host sender ⟨seen.floor⟩
  above : ∀ id : RequestId,
    id.val ∈ seen.above ↔ seen.floor < id.val ∧ w.Applied host sender id
  size : seen.floor.toNat + seen.above.length
    = ((w.senders sender).sentTo host).countP fun frame =>
        !(w.applications host sender frame.id).isEmpty

/-- A host has on record what it applied. -/
theorem Sound.contains (h : Sound w) (hserver : w.server? host = some server) (sender : WorkerId)
    (id : RequestId) :
    (server.ledger.seen sender).contains id = true ↔ w.Applied host sender id := by
  obtain ⟨number, hnumber, hget⟩ := Option.bind_eq_some_iff.1 hserver
  obtain ⟨server', hget', hworker⟩ := h.wired.network.hosts hnumber
  have hsame : server' = server := Option.some.inj (hget'.symm.trans hget)
  rw [← hworker, hsame]
  exact h.recorded.ledger hget sender id

theorem Sound.normal (h : Sound w) (hserver : w.server? host = some server) (sender : WorkerId) :
    (server.ledger.seen sender).Normal := by
  obtain ⟨number, _, hget⟩ := Option.bind_eq_some_iff.1 hserver
  exact h.recorded.normal hget sender

/-- What was applied was issued. -/
theorem Sound.issued (h : Sound w) {id : RequestId} (happlied : w.Applied host sender id) :
    id ∈ ((w.senders sender).sentTo host).map RequestFrame.id := by
  obtain ⟨frame, hframe⟩ := List.exists_mem_of_ne_nil _ happlied
  obtain ⟨hhandled, hsender, rfl⟩ := mem_applications.1 hframe
  have hissued := h.recorded.issued hhandled
  rw [hsender] at hissued
  refine List.mem_map_of_mem (List.mem_map.2 ⟨(host, frame), ?_, rfl⟩)
  exact List.mem_filter.2 ⟨hissued, decide_eq_true rfl⟩

theorem Sound.keeps (h : Sound w) (hfew : w.Unwrapped) (hserver : w.server? host = some server)
    (sender : WorkerId) : w.Keeps host sender (server.ledger.seen sender) := by
  have hnormal := h.normal hserver sender
  have hcontains := h.contains hserver sender
  constructor
  · intro id hlt
    exact (hcontains id).1 (SeenIds.contains_iff.2 (.inl hlt))
  · rw [← hcontains, hnormal.floor_missing]
    exact Bool.false_ne_true
  · intro id
    rw [← hcontains, SeenIds.contains_iff]
    constructor
    · intro hmem
      exact ⟨hnormal.above_floor _ hmem, .inr hmem⟩
    · rintro ⟨hlt, hbelow | hmem⟩
      · exact absurd (UInt64.lt_trans hlt hbelow) (UInt64.lt_irrefl _)
      · exact hmem
  · -- the ids on record are among those that were issued, which are all different
    have hids := ((h.wired.books hfew sender).nodup_ids (hfew.1 sender) host).filter
      fun id => !(w.applications host sender id).isEmpty
    rw [hnormal.length_eq hids, List.filter_map, List.length_map, ← List.countP_eq_length_filter]
    · rfl
    · intro id
      rw [hcontains, List.mem_filter, Bool.not_eq_true', List.isEmpty_eq_false_iff]
      exact ⟨And.right, fun happlied => ⟨h.issued happlied, happlied⟩⟩

/-- Nothing is kept one by one exactly when applications have no gap. -/
theorem Sound.above_eq_nil_iff (h : Sound w) (hserver : w.server? host = some server)
    (sender : WorkerId) : (server.ledger.seen sender).above = [] ↔ ∀ id later : RequestId,
      id.val < later.val → w.Applied host sender later → w.Applied host sender id := by
  have hcontains := h.contains hserver sender
  simp only [(h.normal hserver sender).above_eq_nil_iff, hcontains]

/-- **When every request was applied**, their number is all that is kept. -/
theorem Sound.seen_eq (h : Sound w) (hfew : w.Unwrapped) (hserver : w.server? host = some server)
    (hall : ∀ frame ∈ (w.senders sender).sentTo host, w.Applied host sender frame.id) :
    server.ledger.seen sender
      = ⟨UInt64.ofNat ((w.senders sender).sentTo host).length, []⟩ := by
  have hnil : (server.ledger.seen sender).above = [] := by
    rw [h.above_eq_nil_iff hserver]
    intro id later hlt hlater
    have hmem := (h.wired.books hfew sender).issued_of_lt (hfew.1 sender) (h.issued hlater) hlt
    obtain ⟨frame, hframe, rfl⟩ := List.mem_map.1 hmem
    exact hall frame hframe
  have hcount : (((w.senders sender).sentTo host).countP fun frame =>
      !(w.applications host sender frame.id).isEmpty)
        = ((w.senders sender).sentTo host).length := by
    rw [List.countP_eq_length]
    intro frame hframe
    rw [Bool.not_eq_true', List.isEmpty_eq_false_iff]
    exact hall frame hframe
  have hsize := (h.keeps hfew hserver sender).size
  rw [hcount, hnil, List.length_nil, Nat.add_zero] at hsize
  rw [← hsize, UInt64.ofNat_toNat, ← hnil]

/-- What was acknowledged is kept, in front of the floor or behind it. -/
theorem Sound.acked_le (h : Sound w) (hfew : w.Unwrapped) (hserver : w.server? host = some server)
    (sender : WorkerId) :
    (w.senders sender).acked.countP (fun key => key.1 = host)
      ≤ (server.ledger.seen sender).floor.toNat + (server.ledger.seen sender).above.length := by
  have hnodup := ((h.wired.books hfew sender).nodup_acked (hfew.1 sender)).filter
    fun key => key.1 = host
  have hids : (((w.senders sender).acked.filter fun key => key.1 = host).map Prod.snd).Nodup := by
    refine (List.nodup_map_iff_inj_on hnodup).2 ?_
    intro key hkey key' hkey' heq
    have hhost := of_decide_eq_true (List.mem_filter.1 hkey).2
    have hhost' := of_decide_eq_true (List.mem_filter.1 hkey').2
    exact Prod.ext (hhost.trans hhost'.symm) heq
  rw [List.countP_eq_length_filter, ← List.length_map (f := Prod.snd)]
  refine SeenIds.Normal.length_le hids ?_
  intro id hmem
  obtain ⟨key, hkey, rfl⟩ := List.mem_map.1 hmem
  obtain ⟨hkey, hhost⟩ := List.mem_filter.1 hkey
  rw [h.contains hserver, ← of_decide_eq_true hhost]
  exact h.heeded.acked hkey

/-- **Behind a gap**, what was acknowledged is kept one by one, but for what came in front of it. -/
theorem Sound.acked_le_of_gap (h : Sound w) (hfew : w.Unwrapped)
    (hserver : w.server? host = some server) {id : RequestId} (hid : ¬ w.Applied host sender id) :
    (w.senders sender).acked.countP (fun key => key.1 = host)
      ≤ id.val.toNat + (server.ledger.seen sender).above.length := by
  have hkeeps := h.keeps hfew hserver sender
  have hfloor : (server.ledger.seen sender).floor.toNat ≤ id.val.toNat :=
    UInt64.le_iff_toNat_le.1 (UInt64.not_lt.1 fun hlt => hid (hkeeps.below id hlt))
  have hacked := h.acked_le hfew hserver sender
  omega

variable [VertexId I] [Value V] [Value E] [Value M]

/-- **What a ledger keeps.** Whatever happened in a world, a host keeps of every sender the first id
that was not applied, and behind it, one by one, the ids that were. That is nothing but a number
exactly when no request was applied behind one that was not, as when all of them were acknowledged.
Behind a request that was not applied, no less is kept than was acknowledged, but for as many as
were issued in front of it. -/
theorem compacted (hosts : Table WorkerId (Holdings I V E M)) (metered : Bool)
    (config : WorkerId → DeliveryConfig) (events : List (Event I V E M))
    (hfew : ((start hosts metered config).run events).Unwrapped) (host sender : WorkerId)
    {holdings : Holdings I V E M} (hhost : hosts.get? host = some holdings) :
    let w := (start hosts metered config).run events
    ∃ server, w.server? host = some server ∧
      let seen := server.ledger.seen sender
      w.Keeps host sender seen
        ∧ (seen.above = [] ↔ ∀ id later : RequestId, id.val < later.val →
            w.Applied host sender later → w.Applied host sender id)
        ∧ ((∀ frame ∈ (w.senders sender).sentTo host,
              (host, frame.id) ∈ (w.senders sender).acked) →
            seen = ⟨UInt64.ofNat ((w.senders sender).sentTo host).length, []⟩)
        ∧ ∀ id, ¬ w.Applied host sender id →
            (w.senders sender).acked.countP (fun key => key.1 = host)
              ≤ id.val.toNat + seen.above.length := by
  intro w
  have hsound : Sound w := sound_run (sound_start hosts metered config) events hfew
  obtain ⟨server, hserver, _⟩ := (replayed_run (replayed_start hhost metered config)
    (wired_start hosts metered config) events hfew).server?
  refine ⟨server, hserver, hsound.keeps hfew hserver sender,
    hsound.above_eq_nil_iff hserver sender, ?_, ?_⟩
  · intro hacked
    exact hsound.seen_eq hfew hserver fun frame hframe => hsound.heeded.acked (hacked frame hframe)
  · intro id hid
    exact hsound.acked_le_of_gap hfew hserver hid

def vacant : Table WorkerId (Holdings UInt64 UInt64 UInt64 UInt64) :=
  Table.empty.insert ⟨1⟩ (.empty Config.testing.partition)

/-- The first request of a sender is refused, the next two are acknowledged. -/
def refusal : List (Event UInt64 UInt64 UInt64 UInt64) :=
  [.send ⟨9⟩ ⟨1⟩ .sendPartition [7], .look ⟨9⟩ 0, .call ⟨9⟩ 0, .answer ⟨9⟩ 0, .call ⟨9⟩ 0,
    .answer ⟨9⟩ 0, .serve ⟨1⟩ .deliver, .hear 0,
    .send ⟨9⟩ ⟨1⟩ .sendWorkerMessages [0, 0, 0, 0], .look ⟨9⟩ 1, .call ⟨9⟩ 1, .answer ⟨9⟩ 1,
    .serve ⟨1⟩ .deliver, .hear 0,
    .send ⟨9⟩ ⟨1⟩ .sendWorkerMessages [0, 0, 0, 0], .look ⟨9⟩ 2, .call ⟨9⟩ 2, .answer ⟨9⟩ 2,
    .serve ⟨1⟩ .deliver, .hear 0, .await ⟨9⟩]

theorem compacted_refusal :
    let w := (start vacant false fun _ => Config.testing.delivery).run refusal
    (w.senders ⟨9⟩).acked.countP (fun key => key.1 = ⟨1⟩) = 2
      ∧ ∃ server, w.server? ⟨1⟩ = some server ∧ 2 ≤ (server.ledger.seen ⟨9⟩).above.length := by
  intro w
  have hhost : ∃ holdings, vacant.get? ⟨1⟩ = some holdings := ⟨_, rfl⟩
  obtain ⟨holdings, hhost⟩ := hhost
  obtain ⟨server, hserver, _, _, _, hgap⟩ := compacted vacant false
    (fun _ => Config.testing.delivery) refusal (unwrapped_of_length (by decide)) ⟨1⟩ ⟨9⟩ hhost
  have hacked : (w.senders ⟨9⟩).acked.countP (fun key => key.1 = ⟨1⟩) = 2 := by decide +kernel
  have hrefused : ¬ w.Applied ⟨1⟩ ⟨9⟩ ⟨0⟩ := by
    have hnone : w.applications ⟨1⟩ ⟨9⟩ ⟨0⟩ = [] := by decide +kernel
    exact fun happlied => happlied hnone
  have hkept := hgap ⟨0⟩ hrefused
  rw [hacked] at hkept
  exact ⟨hacked, server, hserver, by simpa using hkept⟩

/-- The requests of the sender to the host are settled, and nothing is on its way. -/
structure Quiet (w : World I V E M) (host sender : WorkerId) : Prop where
  settled : ∀ key ∈ (w.senders sender).coordinator.pending.keys, key.1 ≠ host
  threads : ∀ task ∈ (w.senders sender).tasks, task.weight = 0
  mail : w.mail = []
  links : ∀ c ∈ w.network.connections.toList, c.2.link.frames = []

/-- A ledger does not get rid of a gap by waiting. -/
theorem gap_when_quiet :
    ¬ ∀ (hosts : Table WorkerId (Holdings UInt64 UInt64 UInt64 UInt64)) (metered : Bool)
      (config : WorkerId → DeliveryConfig) (events : List (Event UInt64 UInt64 UInt64 UInt64))
      (host sender : WorkerId) (server : Server UInt64 UInt64 UInt64 UInt64),
      ((start hosts metered config).run events).Unwrapped →
      ((start hosts metered config).run events).Quiet host sender →
      ((start hosts metered config).run events).server? host = some server →
      (server.ledger.seen sender).above = [] := by
  intro hclaim
  have hquiet : ((start vacant false fun _ => Config.testing.delivery).run refusal).Quiet ⟨1⟩ ⟨9⟩ :=
    ⟨by decide +kernel, by decide +kernel, by decide +kernel, by decide +kernel⟩
  have hkept : (((start vacant false fun _ => Config.testing.delivery).run refusal).server?
      ⟨1⟩).map (fun server => (server.ledger.seen ⟨9⟩).above) = some [1, 2] := by decide +kernel
  obtain ⟨server, hserver, habove⟩ := Option.map_eq_some_iff.1 hkept
  rw [hclaim vacant false _ refusal ⟨1⟩ ⟨9⟩ server (unwrapped_of_length (by decide)) hquiet hserver]
    at habove
  cases habove

end World

end Superstep
