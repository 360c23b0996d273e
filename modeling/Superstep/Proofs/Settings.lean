import Mathlib.Algebra.Ring.Nat
import Mathlib.Data.Nat.Log
import Mathlib.Order.Bounds.Basic
import Superstep.Partition.Basic

/-!
# Superstep — which settings a partition can be created with

Settings are accepted when none of four is zero. The records of a partition lie in a map that is
split into shards, as many as the least power of two that is enough for the expected concurrency.
Rounding up doubles a word of 64 bits, so that there is no such power above 2 ^ 63, where the
doubling wraps to zero; and no setting is refused for being too large.

* **`Config.validate_eq_ok_iff`** — the settings that are accepted;
* **`toNat_nextPowerOfTwo`** — rounding up is a power of two, as far as it fits a word;
* **`Partition.created_iff`** — the settings with which a partition can be created;
* **`oversized_refused`** — settings that are accepted, and with which none can.
-/

namespace Superstep

/-! ## Accepted settings

Four refusals in a row, of which the first that applies is returned. None applies just if all four
settings are there. -/

theorem throw_bind {ε α β : Type} (e : ε) (f : α → Except ε β) : (throw e >>= f) = throw e := rfl

/-- A refusal in front of others. -/
theorem ite_throw_eq_ok_iff {ε : Type} {p : Prop} [Decidable p] {e : ε} {rest : Except ε Unit} :
    (if p then throw e else rest) = .ok () ↔ ¬ p ∧ rest = .ok () := by
  split
  · next hp => exact iff_of_false (fun h => by cases h) fun h => h.1 hp
  · next hp => exact (and_iff_right hp).symm

/-- **Settings are accepted** when none of the four is zero. None is too large for that. -/
theorem Config.validate_eq_ok_iff (c : Config) :
    c.validate = .ok () ↔ c.requestTimeout ≠ 0 ∧ c.waitingInterval ≠ 0 ∧
      c.maxRequestAttempts ≠ 0 ∧ c.mapConcurrency ≠ 0 := by
  have hdone : (pure () : Except InvalidArgument Unit) = .ok () ↔ True := iff_true_intro rfl
  simp only [Config.validate, throw_bind, ite_throw_eq_ok_iff, hdone, and_true, ne_eq]

/-! ## Rounding up

The doubling begins at one and stops at the first power that is enough. After 64 rounds the word has
wrapped to zero and the rounds are over, which is the one case in which no power was enough. -/

/-- Powers below the bound were passed, and doubling goes on. -/
theorem toNat_go {bound power : UInt64} {n k : Nat} (hrounds : n + k = 64)
    (hpower : power.toNat = 2 ^ k % 2 ^ 64) (hpassed : k ≤ Nat.clog 2 bound.toNat) :
    (nextPowerOfTwo.go bound n power).toNat = 2 ^ Nat.clog 2 bound.toNat % 2 ^ 64 := by
  -- the induction is on the doublings that are left, and `power` is exact until the last
  induction n generalizing k power with
  | zero =>
    have hclog : Nat.clog 2 bound.toNat ≤ 64 := Nat.clog_le_of_le_pow bound.toNat_lt.le
    have hlast : k = Nat.clog 2 bound.toNat := by omega
    rw [nextPowerOfTwo.go, hpower, hlast]
  | succ n ih =>
    have hfits : 2 ^ k < 2 ^ 64 := Nat.pow_lt_pow_right (by decide) (by omega)
    have hexact : power.toNat = 2 ^ k := by rw [hpower, Nat.mod_eq_of_lt hfits]
    rw [nextPowerOfTwo.go]
    split
    -- no power below was enough, so that this one has the least exponent
    · next henough =>
      have hle : bound.toNat ≤ 2 ^ k := hexact ▸ UInt64.le_iff_toNat_le.1 henough
      have hlast : k = Nat.clog 2 bound.toNat :=
        Nat.le_antisymm hpassed (Nat.clog_le_of_le_pow hle)
      rw [hpower, ← hlast]
    · next hless =>
      have hlt : 2 ^ k < bound.toNat := by
        rw [← hexact]
        exact Nat.lt_of_not_le fun hle => hless (UInt64.le_iff_toNat_le.2 hle)
      refine ih (k := k + 1) (by omega) ?_ ((Nat.lt_clog_iff_pow_lt (by decide)).2 hlt)
      rw [UInt64.toNat_mul, hexact, Nat.pow_succ, Nat.mul_comm]
      rfl

/-- **Rounding up gives the power of two with the least exponent**, as far as it fits a word. -/
theorem toNat_nextPowerOfTwo (bound : UInt64) :
    (nextPowerOfTwo bound).toNat = 2 ^ Nat.clog 2 bound.toNat % 2 ^ 64 :=
  toNat_go rfl rfl (Nat.zero_le _)

namespace PartitionConfig

/-- The number of shards as an exact number, up to the wrapping. -/
theorem toNat_shardAmount (c : PartitionConfig) :
    c.shardAmount.toNat = 2 ^ Nat.clog 2 (max 2 c.mapConcurrency.toNat) % 2 ^ 64 := by
  have hmax : (max 2 c.mapConcurrency).toNat = max 2 c.mapConcurrency.toNat := by
    rw [UInt64.max_def, Nat.max_def, apply_ite UInt64.toNat]
    exact if_congr UInt64.le_iff_toNat_le rfl rfl
  rw [shardAmount, toNat_nextPowerOfTwo, hmax]

/-- As long as some power of two is enough, the least of them comes out. -/
theorem isLeast_shardAmount {c : PartitionConfig} (hfits : c.mapConcurrency.toNat ≤ 2 ^ 63) :
    IsLeast {n | (∃ k, n = 2 ^ k) ∧ 2 ≤ n ∧ c.mapConcurrency.toNat ≤ n}
      c.shardAmount.toNat := by
  have hexponent : Nat.clog 2 (max 2 c.mapConcurrency.toNat) ≤ 63 :=
    Nat.clog_le_of_le_pow (max_le (by decide) hfits)
  have hexact : c.shardAmount.toNat = 2 ^ Nat.clog 2 (max 2 c.mapConcurrency.toNat) := by
    rw [toNat_shardAmount]
    exact Nat.mod_eq_of_lt (Nat.pow_lt_pow_right (by decide) (by omega))
  rw [hexact]
  constructor
  · have henough := Nat.le_pow_clog (by decide : 1 < 2) (max 2 c.mapConcurrency.toNat)
    exact ⟨⟨_, rfl⟩, Nat.max_le.1 henough⟩
  · rintro _ ⟨⟨k, rfl⟩, htwo, hbound⟩
    exact Nat.pow_le_pow_right (by decide) (Nat.clog_le_of_le_pow (max_le htwo hbound))

/-- When no power of two that fits a word is enough, zero comes out. -/
theorem shardAmount_eq_zero {c : PartitionConfig} (hlarge : 2 ^ 63 < c.mapConcurrency.toNat) :
    c.shardAmount = 0 := by
  have habove : 63 < Nat.clog 2 (max 2 c.mapConcurrency.toNat) :=
    (Nat.lt_clog_iff_pow_lt (by decide)).2 (hlarge.trans_le (le_max_right _ _))
  have hbelow : Nat.clog 2 (max 2 c.mapConcurrency.toNat) ≤ 64 :=
    Nat.clog_le_of_le_pow (max_le (by decide) c.mapConcurrency.toNat_lt.le)
  -- the only exponent left is the first one that wraps
  have hclog : Nat.clog 2 (max 2 c.mapConcurrency.toNat) = 64 := by omega
  apply UInt64.toNat_inj.1
  rw [toNat_shardAmount, hclog]
  rfl

end PartitionConfig

/-! ## Creating a partition

A map of shards is made by a constructor of its own, which refuses every number of shards that is no
power of two above one. -/

namespace Partition

variable {I V E : Type} [VertexId I] [Value V] {makes : UInt64 → Bool}

/-- A map of shards can be made of two shards, of four, of eight, and so on. -/
def ShardsMade (makes : UInt64 → Bool) : Prop :=
  ∀ n, makes n = true ↔ (∃ k, n.toNat = 2 ^ k) ∧ 1 < n.toNat

/-- Where rounding up fits a word, a partition can be created. -/
theorem create?_of_fits (hmakes : ShardsMade makes) (id : PartitionId)
    {config : PartitionConfig} (hfits : config.mapConcurrency.toNat ≤ 2 ^ 63) :
    (create? makes id config : Option (Partition I V E)) = some (new id config) := by
  obtain ⟨⟨hpower, htwo, -⟩, -⟩ := PartitionConfig.isLeast_shardAmount hfits
  exact if_pos ((hmakes _).2 ⟨hpower, htwo⟩)

/-- Where it does not, there is none. -/
theorem create?_of_large (hmakes : ShardsMade makes) (id : PartitionId)
    {config : PartitionConfig} (hlarge : 2 ^ 63 < config.mapConcurrency.toNat) :
    (create? makes id config : Option (Partition I V E)) = none := by
  refine if_neg fun hmade => ?_
  rw [PartitionConfig.shardAmount_eq_zero hlarge] at hmade
  exact absurd ((hmakes 0).1 hmade).2 (by decide)

/-- **Settings with which a partition can be created.** They are accepted when four of them are not
zero. Up to a concurrency of 2 ^ 63 the number of shards is the least power of two that is at least
two and at least the concurrency, and a partition can be created; above that the number of shards is
zero, and none can, of either kind. -/
theorem created_iff (c : Config) (hmakes : ShardsMade makes) :
    (c.validate = .ok () ↔ c.requestTimeout ≠ 0 ∧ c.waitingInterval ≠ 0 ∧
      c.maxRequestAttempts ≠ 0 ∧ c.mapConcurrency ≠ 0) ∧
    (c.mapConcurrency.toNat ≤ 2 ^ 63 →
      IsLeast {n | (∃ k, n = 2 ^ k) ∧ 2 ≤ n ∧ c.mapConcurrency.toNat ≤ n}
        c.partition.shardAmount.toNat) ∧
    (2 ^ 63 < c.mapConcurrency.toNat → c.partition.shardAmount = 0) ∧
    ∀ id, (create? makes id c.partition : Option (Partition I V E)) =
      if c.mapConcurrency.toNat ≤ 2 ^ 63 then some (new id c.partition) else none := by
  refine ⟨c.validate_eq_ok_iff, PartitionConfig.isLeast_shardAmount (c := c.partition),
    PartitionConfig.shardAmount_eq_zero (c := c.partition), fun id => ?_⟩
  split
  · next hfits => exact create?_of_fits hmakes id hfits
  · next hlarge => exact create?_of_large hmakes id (Nat.lt_of_not_le hlarge)

end Partition

/-- Numbers of shards that a map of shards is made with: powers of two above one. -/
def shardable (n : UInt64) : Bool :=
  decide (1 < n.toNat) && decide (2 ^ n.toNat.log2 = n.toNat)

theorem shardsMade_shardable : Partition.ShardsMade shardable := by
  intro n
  rw [shardable, Bool.and_eq_true, decide_eq_true_iff, decide_eq_true_iff, and_comm]
  refine and_congr_left fun _ => ⟨fun hlog => ⟨_, hlog.symm⟩, ?_⟩
  rintro ⟨k, hk⟩
  rw [hk, Nat.log2_two_pow]

namespace Config

def widest : Config := { production with mapConcurrency := 9223372036854775808 }

def oversized : Config := { production with mapConcurrency := 9223372036854775809 }

end Config

theorem Partition.created_iff_widest :
    Config.widest.validate = .ok () ∧ Config.widest.partition.shardAmount.toNat = 2 ^ 63 ∧
      (Partition.create? shardable ⟨1⟩ Config.widest.partition :
        Option (Partition UInt64 UInt64 UInt64)) = some (.new ⟨1⟩ Config.widest.partition) := by
  obtain ⟨haccepted, hleast, -, hcreated⟩ :=
    Partition.created_iff (I := UInt64) (V := UInt64) (E := UInt64) Config.widest
      shardsMade_shardable
  have hfits : Config.widest.mapConcurrency.toNat ≤ 2 ^ 63 := by decide
  refine ⟨haccepted.2 (by decide), ?_, (hcreated ⟨1⟩).trans (if_pos hfits)⟩
  exact (hleast hfits).unique ⟨⟨⟨63, rfl⟩, by decide, by decide⟩, fun n hn => hn.2.2⟩

/-- **One setting that is accepted and cannot be used**: one more than the largest power of two, and
no partition of either kind. -/
theorem oversized_refused :
    Config.oversized.validate = .ok () ∧ Config.oversized.partition.shardAmount = 0 ∧
      (¬ ∃ k, Config.oversized.partition.shardAmount.toNat = 2 ^ k) ∧
      ∀ kind, (Partition.create? shardable ⟨1⟩ { Config.oversized.partition with kind } :
        Option (Partition UInt64 UInt64 UInt64)).isNone := by
  have hlarge : 2 ^ 63 < Config.oversized.mapConcurrency.toNat := by decide
  have hzero : Config.oversized.partition.shardAmount = 0 :=
    PartitionConfig.shardAmount_eq_zero hlarge
  refine ⟨rfl, hzero, ?_, fun kind => ?_⟩
  · rintro ⟨k, hk⟩
    rw [hzero] at hk
    exact absurd hk (Nat.two_pow_pos k).ne
  · rw [Partition.create?_of_large shardsMade_shardable ⟨1⟩ hlarge]
    rfl

end Superstep
