import Superstep.Proofs.RoundTrip
import Superstep.Proofs.Views

/-!
# Superstep — a partition that is sent is merged where it arrives

A worker that is asked to take over a partition puts its vertices over those that it holds under
the same partition id, or holds them as they are if it has no such partition. On the way the
partition is written, read again as one of the receiver's kind and with the receiver's way to keep
edges, and merged; nothing but the kind of the partition that is held can stand against it.

* **`Partition.exists_received`** — what was written is received vertex by vertex, whatever the
  receiver's configuration is;
* **`Partition.takenOver_of_received`** — and then it is put over what is held, where it wins;
* **`Server.transfer_merges`** — a request to take over a partition is acknowledged exactly when
  nothing of the other kind is held under its id. It makes that union and changes nothing else, or
  it is refused and changes nothing.
-/

namespace Superstep

variable {I V E M : Type} [VertexId I] [Value V] [Value E] [Value M]

namespace Partition

/-! ## What is received

The bytes of a partition say nothing of its kind, so the receiver makes it one of its own. What it
holds then is compared with the sender's lookup by lookup. -/

omit [Value M]

/-- `q` holds the vertices of `p`, and all of its records can be read. -/
structure Received (p q : Partition I V E) : Prop where
  id : q.id = p.id
  ids : ∀ id, id ∈ q.ids ↔ id ∈ p.ids
  vertices : ∀ id ∈ p.ids, ∃ d, (p.get id).1.map (Option.map report) = .ok (some (id, d))
    ∧ ∃ record, q.records.get? id = some record ∧ record.Holds id d

/-- `merged` is `held` with the vertices of `p` put over its own, or has those of `p` alone where
nothing was held. -/
structure TakenOver (held : Option (Partition I V E)) (p merged : Partition I V E) : Prop where
  id : merged.id = held.elim p.id fun q => q.id
  ids : ∀ id, id ∈ merged.ids ↔ id ∈ p.ids ∨ ∃ q, held = some q ∧ id ∈ q.ids
  taken : ∀ id ∈ p.ids, ∃ d, (p.get id).1.map (Option.map report) = .ok (some (id, d))
    ∧ (merged.get id).1.map (Option.map report) = .ok (some (id, d))
  left : ∀ id ∉ p.ids, (merged.get id).1 = held.elim (.ok none) fun q => (q.get id).1

/-- A lookup depends on the record of its id and on the scratch vertex only. -/
theorem get_congr {p q : Partition I V E} {id : I} (hscratch : q.scratch = p.scratch)
    (hget : q.records.get? id = p.records.get? id) : (q.get id).1 = (p.get id).1 := by
  rw [get, get, load, load, hget]
  cases p.records.get? id with
  | none => rfl
  | some record => simp only [bring, answer, hscratch]

omit [Value V] [Value E] in
theorem mem_ids_iff_isSome {p : Partition I V E} {id : I} :
    id ∈ p.ids ↔ (p.records.get? id).isSome = true := by
  rw [ids, ← Records.contains_iff_mem_ids, Records.contains_eq_isSome]

section Receiving

variable [LawfulId I] [LawfulCodec V] [LawfulCodec E]

/-- **What is received is put over what is held**, and wins. -/
theorem takenOver_of_received {p q merged : Partition I V E} {held : Option (Partition I V E)}
    (h : Received p q) (hshape : merged.shape = q.shape.joined (held.map shape)) :
    TakenOver held p merged := by
  have hrecord : ∀ id, merged.records.get? id
      = (q.records.get? id).or (held.bind fun old => old.records.get? id) := by
    intro id
    have hid := congrFun (congrArg Shape.record hshape) id
    cases held with
    | none => exact hid.trans (Option.or_none).symm
    | some old => exact hid
  have habsent : ∀ id ∉ p.ids, q.records.get? id = none := fun id hid =>
    Records.get?_eq_none_of_notMem_ids fun hmem => hid ((h.ids id).1 hmem)
  refine ⟨?_, fun id => ?_, fun id hid => ?_, fun id hid => ?_⟩
  · have hid := congrArg Shape.id hshape
    cases held with
    | none => exact hid.trans h.id
    | some old => exact hid
  · rw [mem_ids_iff_isSome, hrecord, Option.isSome_or, Bool.or_eq_true, ← mem_ids_iff_isSome,
      h.ids]
    cases held with
    | none => simp
    | some old => simp [mem_ids_iff_isSome]
  -- a vertex of `p` is read from its own record, over whatever scratch vertex is there
  · obtain ⟨d, hget, record, hq, hholds⟩ := h.vertices id hid
    obtain ⟨w, hload, _, hwid, hdata⟩ := hholds.load merged.scratch
    have hmerged : merged.records.get? id = some record := by rw [hrecord, hq]; rfl
    refine ⟨d, hget, ?_⟩
    rw [get_of_load hmerged hload]
    exact congrArg (fun said => Except.ok (some said)) (Prod.ext hwid hdata)
  · have hmerged := hrecord id
    rw [habsent id hid, Option.none_or] at hmerged
    cases held with
    | none => exact get_of_absent hmerged
    | some old => exact get_congr (congrArg Shape.scratch hshape) hmerged

variable [LawfulRefill I] [LawfulRefill V]

/-- **A partition is received** as it was written, in whatever kind and with whatever way to keep
edges the receiver prefers. -/
theorem exists_received {p : Partition I V E} (hp : p.Reached)
    (hdecodes : ∀ record ∈ p.records.toList, record.Decodes) (hfew : p.size < wordLimit)
    (config : PartitionConfig) : ∃ bytes q, p.toBytes.1 = .ok bytes
      ∧ ofBytes bytes config = .ok q ∧ q.kind = config.kind ∧ Received p q := by
  obtain ⟨vertices, hwritten, hget⟩ := exists_writtenAs hp hdecodes
  have hlength : vertices.length < wordLimit := hwritten.length_eq ▸ hfew
  obtain ⟨records, hread, hkind, hids, hrecords⟩ := readRecords_spec hwritten.storable hlength
    (hwritten.ids ▸ p.records.nodup_ids) p.id config.kind config.edgeStrategy
  have hkeys : records.ids = p.ids := hids.trans hwritten.ids
  refine ⟨Layout.packed p.id vertices, { (new p.id config : Partition I V E) with
    records, signals := 0 + vertices.length }, ?_, ?_, hkind, rfl, fun id => by rw [← hkeys]; rfl,
    fun id hid => ?_⟩
  · rw [toBytes_eq hwritten hlength]
  · rw [ofBytes, readBytes, kind_new]
    simp only [new, hread]
    rfl
  · rw [← hwritten.ids] at hid
    obtain ⟨v, hv, rfl⟩ := List.mem_map.1 hid
    obtain ⟨w, hw, hreport⟩ := hget v hv
    obtain ⟨record, hrecord, hholds, _⟩ := hrecords v hv
    refine ⟨v.data, ?_, record, hrecord, hholds⟩
    rw [hw]
    exact congrArg (fun said => Except.ok (some said)) hreport

end Receiving

end Partition

/-! ## What is done with a transfer

From the receiver's side a transfer is a request like any other. What the sender's partition adds is
that its bytes can be read, so that only the kind is left to fail. -/

/-- The frame asks to take over this partition. -/
def RequestFrame.Transfers (M : Type) [Value M] (frame : RequestFrame) (p : Partition I V E) :
    Prop :=
  ∃ request : Request I M, Request.ofPartition p = .ok request ∧ frame.type = request.type
    ∧ request.encode = .ok frame.payload

omit [Value M] in
/-- The request is the partition as it is written. -/
theorem Request.ofPartition_inv {p : Partition I V E} {request : Request I M}
    (h : Request.ofPartition p = .ok request) :
    ∃ bytes, p.toBytes.1 = .ok bytes ∧ request = .partition bytes := by
  rw [ofPartition] at h
  cases hbytes : p.toBytes.1 with
  | error e => rw [hbytes] at h; cases h
  | ok bytes => rw [hbytes] at h; exact ⟨bytes, rfl, (Except.ok.inj h).symm⟩

omit [Value M] in
/-- The request can be made as long as a count of 32 bits can say how many vertices there are. -/
theorem Request.exists_ofPartition_iff [LawfulId I] [LawfulCodec V] [LawfulCodec E]
    [LawfulRefill I] [LawfulRefill V] {p : Partition I V E} (hp : p.Reached)
    (hdecodes : ∀ record ∈ p.records.toList, record.Decodes) :
    (∃ request : Request I M, Request.ofPartition p = .ok request) ↔ p.size < wordLimit := by
  constructor
  · rintro ⟨request, hrequest⟩
    by_contra hmany
    rw [ofPartition, Partition.toBytes_of_many hmany] at hrequest
    cases hrequest
  · intro hfew
    obtain ⟨bytes, _, hbytes, _⟩ :=
      Partition.exists_received hp hdecodes hfew Config.production.partition
    exact ⟨.partition bytes, by rw [ofPartition, hbytes]; rfl⟩

section

variable [LawfulId I] [LawfulCodec V] [LawfulCodec E] [LawfulRefill I] [LawfulRefill V]

/-- **A transfer is carried out** by taking the partition over, if nothing of the other kind is
held under its id. -/
theorem Holdings.applyFrame_transfer {p : Partition I V E} (hp : p.Reached)
    (hdecodes : ∀ record ∈ p.records.toList, record.Decodes) {frame : RequestFrame}
    (hframe : frame.Transfers M p) (h : Holdings I V E M) :
    ((∀ q, h.partitions.get? p.id = some q → q.kind = h.config.kind)
        ∧ ∃ merged, h.applyFrame frame
            = (.ok (), { h with partitions := h.partitions.insert p.id merged })
          ∧ merged.kind = h.config.kind ∧ p.TakenOver (h.partitions.get? p.id) merged)
      ∨ ∃ q, h.partitions.get? p.id = some q ∧ q.kind ≠ h.config.kind
        ∧ (h.applyFrame frame).1 = .error (.kindMismatch q.kind h.config.kind) := by
  obtain ⟨request, hrequest, htype, hpayload⟩ := hframe
  have hfew := (Request.exists_ofPartition_iff hp hdecodes).1 ⟨request, hrequest⟩
  obtain ⟨bytes, q, hbytes, hq, hkind, hreceived⟩ :=
    Partition.exists_received hp hdecodes hfew h.config
  obtain ⟨_, hbytes', rfl⟩ := Request.ofPartition_inv hrequest
  obtain rfl := Except.ok.inj (hbytes.symm.trans hbytes')
  obtain rfl : bytes = frame.payload := Except.ok.inj hpayload
  rw [applyFrame_eq_addPartition htype hq, ← hkind, ← hreceived.id]
  -- what arrives has the configured kind, whatever kind it was sent from
  rcases addPartition_cases h q with ⟨held, hget, hother, hadd⟩ | ⟨hsame, _⟩
  · exact .inr ⟨held, hget, hother, by rw [hadd]⟩
  · obtain ⟨merged, hadd, hshape⟩ := addPartition_eq hsame
    refine .inl ⟨hsame, merged, hadd, ?_, Partition.takenOver_of_received hreceived hshape⟩
    have hmerged := congrArg Shape.kind hshape
    cases hget : h.partitions.get? q.id with
    | none => rwa [hget] at hmerged
    | some held =>
      rw [hget] at hmerged
      exact hmerged.trans (hsame held hget)

end

namespace Server

variable [LawfulId I] [LawfulCodec V] [LawfulCodec E] [LawfulRefill I] [LawfulRefill V]

/-- **A partition that is sent is merged where it arrives.** A partition of either kind whose
records all decode can be sent as long as its vertices can be counted in 32 bits. A server that has
not the request on record, whatever it holds and however it is configured, acknowledges it exactly
when it holds nothing under the partition's id or something of the configured kind. What it then
holds under this id is the union, in which the vertices that were sent win, and nothing else that
it holds has changed. Something of the other kind is answered with a failure, and nothing changes
but the count of failures. -/
theorem transfer_merges {p : Partition I V E} (hp : p.Reached)
    (hdecodes : ∀ record ∈ p.records.toList, record.Decodes) :
    ((∃ request : Request I M, Request.ofPartition p = .ok request) ↔ p.size < wordLimit)
    ∧ ∀ (s : Server I V E M) (frame : RequestFrame), frame.Transfers M p →
      s.ledger.contains frame.sender frame.id = false →
      let held := s.holdings.partitions.get? p.id
      let kind := s.holdings.config.kind
      let (answer, s') := s.process frame
      (answer = .ack s.worker frame.id ↔ ∀ q, held = some q → q.kind = kind)
        ∧ (answer = .ack s.worker frame.id → ∃ merged,
          s'.holdings.partitions.get? p.id = some merged ∧ merged.kind = kind
            ∧ p.TakenOver held merged
            ∧ (∀ id ≠ p.id, s'.holdings.partitions.get? id = s.holdings.partitions.get? id)
            ∧ s'.holdings.messages = s.holdings.messages
            ∧ s'.holdings.config = s.holdings.config)
        ∧ ∀ q, held = some q → q.kind ≠ kind →
          answer = .failed s.worker frame.id (Error.kindMismatch q.kind kind).message
            ∧ s' = s.count fun m => { m with rejected := m.rejected + 1 } := by
  refine ⟨Request.exists_ofPartition_iff hp hdecodes, fun s frame hframe hnew => ?_⟩
  -- the request is not on record, so that it is carried out or refused
  rcases s.process_cases frame with ⟨hseen, _⟩ | ⟨_, hok, hprocess⟩ | ⟨e, _, herror, hprocess⟩
  · rw [hnew] at hseen
    cases hseen
  · rcases Holdings.applyFrame_transfer hp hdecodes hframe s.holdings with
      ⟨hsame, merged, happly, hkind, htaken⟩ | ⟨_, _, _, herror⟩
    · rw [hprocess, happly]
      refine ⟨iff_of_true rfl hsame, fun _ => ⟨merged, ?_, hkind, htaken, fun id hid => ?_, ?_, ?_⟩,
        fun q hq hother => absurd (hsame q hq) hother⟩
      · rw [count_holdings]
        exact Table.get?_insert_self _ _ _
      · rw [count_holdings]
        exact Table.get?_insert_of_ne _ _ hid
      · rw [count_holdings]
      · rw [count_holdings]
    · rw [herror] at hok
      cases hok
  · rcases Holdings.applyFrame_transfer hp hdecodes hframe s.holdings with
      ⟨_, _, happly, _⟩ | ⟨held, hheld, hother, happly⟩
    · rw [happly] at herror
      cases herror
    · obtain rfl := Except.error.inj (happly.symm.trans herror)
      rw [hprocess]
      have hnack (message : String) :
          ResponseFrame.failed s.worker frame.id message ≠ .ack s.worker frame.id := nofun
      refine ⟨iff_of_false (hnack _) fun hsame => hother (hsame held hheld),
        fun hack => absurd hack (hnack _), fun q hq _ => ?_⟩
      obtain rfl := Option.some.inj (hheld.symm.trans hq)
      exact ⟨rfl, rfl⟩

/-- A partition of the other kind under the id of `Partition.checkpointed`, which has one of its
vertices and one that it does not have. -/
def overlapping : Partition UInt64 UInt64 UInt64 :=
  let first := (Partition.new ⟨3⟩ ⟨1, .lazy, .byteArray⟩).perform (.put (.new 2 99 .hashed))
  (first.2.perform (.put (.new 9 90 .hashed))).2

def overlapped (kind : PartitionKind) : Server UInt64 UInt64 UInt64 UInt64 :=
  serving ⟨1⟩ ⟨Table.empty.insert ⟨3⟩ overlapping, .empty, ⟨1, .lazy, kind⟩⟩ true

theorem merged_overlapping : Partition.checkpointed.Reached
    ∧ (∀ record ∈ Partition.checkpointed.records.toList, record.Decodes)
    ∧ ∃ frame : RequestFrame, frame.Transfers UInt64 Partition.checkpointed
      ∧ ((overlapped .byteArray).process frame).1 = .ack ⟨1⟩ frame.id
      ∧ (∃ merged, ((overlapped .byteArray).process frame).2.holdings.partitions.get? ⟨3⟩
          = some merged
        ∧ (∀ id, id ∈ merged.ids ↔ id ∈ [1, 2, 9])
        ∧ (merged.get 2).1.map (Option.map Partition.report)
          = .ok (some (2, ⟨20, mapping [(1, 5)], false⟩))
        ∧ (merged.get 9).1.map (Option.map Partition.report)
          = .ok (some (9, ⟨90, mapping [], false⟩)))
      ∧ ((overlapped .simple).process frame).1 = .failed ⟨1⟩ frame.id
        "cannot merge a simple partition into a byte-array partition"
      ∧ ((overlapped .simple).process frame).2.holdings = (overlapped .simple).holdings := by
  have hunion : ∀ id : UInt64, id ∈ [1, 2] ∨ id ∈ [2, 9] ↔ id ∈ [1, 2, 9] := by
    intro id
    simp only [List.mem_cons, List.not_mem_nil, or_false]
    grind
  have htransfer := transfer_merges (M := UInt64) Partition.reached_checkpointed
    Partition.decodes_checkpointed
  obtain ⟨request, hrequest⟩ := htransfer.1.2 (by decide)
  have hkind : overlapping.kind = .byteArray := by decide +kernel
  have hheld : ∀ kind, (overlapped kind).holdings.partitions.get? Partition.checkpointed.id
      = some overlapping := fun _ => Table.get?_insert_self _ _ _
  obtain ⟨bytes, -, rfl⟩ := Request.ofPartition_inv hrequest
  let frame : RequestFrame := ⟨⟨9⟩, ⟨0⟩, .sendPartition, bytes⟩
  have hframe : frame.Transfers UInt64 Partition.checkpointed := ⟨_, hrequest, rfl, rfl⟩
  refine ⟨Partition.reached_checkpointed, Partition.decodes_checkpointed, frame, hframe, ?_⟩
  obtain ⟨hack, hmerged, -⟩ := htransfer.2 (overlapped .byteArray) frame hframe rfl
  obtain ⟨-, -, hrefused⟩ := htransfer.2 (overlapped .simple) frame hframe rfl
  have hacked := hack.2 fun q hq => by
    rw [hheld] at hq
    obtain rfl := Option.some.inj hq
    exact hkind
  obtain ⟨merged, hget, -, htaken, -⟩ := hmerged hacked
  rw [hheld] at htaken
  obtain ⟨hfailed, hsame⟩ := hrefused _ (hheld .simple) (by rw [hkind]; decide)
  refine ⟨hacked, ⟨merged, hget, fun id => ?_, ?_, ?_⟩, ?_, ?_⟩
  · have hids : Partition.checkpointed.ids = [1, 2] ∧ overlapping.ids = [2, 9] := by decide +kernel
    rw [htaken.ids, hids.1, ← hunion]
    simp only [Option.some.injEq, exists_eq_left', hids.2]
  · obtain ⟨d, hget, hgot⟩ := htaken.taken 2 (by decide +kernel)
    exact hgot.trans (hget.symm.trans rfl)
  · rw [htaken.left 9 (by decide +kernel)]
    rfl
  · exact hfailed.trans (congrArg (ResponseFrame.failed _ _) (by rw [hkind]; rfl))
  · exact (congrArg Server.holdings hsame).trans (count_holdings _ _)

end Server

end Superstep
