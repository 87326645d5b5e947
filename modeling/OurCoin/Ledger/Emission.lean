import Mathlib.Algebra.BigOperators.Intervals
import Mathlib.Algebra.Order.BigOperators.Group.Finset
import Mathlib.Data.Rat.Floor
import OurCoin.Ledger.Validation

/-!
# The emission schedule

The rewards of the eras and the supply they add up to (`eraReward`, `scheduledSupply`),
and the subsidies that `consensus.py` computes from them.

* `rewardLoop_eq`: the loop over the eras computes the reward of an era.
* `scheduledSupply_add_le`: what the schedule has issued, the blocks left in the current
  era and all later eras together never exceed the maximum supply. The first block of
  era 0 pays nothing, so the maximum itself is out of reach (`scheduledSupply_lt`).
* `blockSubsidy_scheduled`: on top of a scheduled supply the cap by the remaining supply
  never takes effect.
* `eraReward_eq_roundedOnce_iff`: rounding at the end of every era instead of once makes a
  difference, of at most three atoms, in the eras 13 to 99 (`blockSubsidy_perEra`).
-/

set_option autoImplicit false

namespace OurCoin

open Raising

/-- The subsidy of the blocks of an era. -/
def eraReward : Nat → Int
  | 0 => 40 * 10 ^ 8
  | era + 1 => 4 * eraReward era / 5

/-- The supply that the blocks 1 to `height` issue. -/
def scheduledSupply (height : Nat) : Int := ∑ k ∈ Finset.Icc 1 height, eraReward (k / 500000)

@[simp] theorem scheduledSupply_zero : scheduledSupply 0 = 0 := rfl

theorem scheduledSupply_succ (height : Nat) :
    scheduledSupply (height + 1) = scheduledSupply height + eraReward ((height + 1) / 500000) :=
  Finset.sum_Icc_succ_top (by omega) _

theorem eraReward_nonneg : ∀ era, 0 ≤ eraReward era
  | 0 => by decide
  | era + 1 => by
      have nonneg := eraReward_nonneg era
      rw [eraReward]
      omega

/-- A reward of zero stays zero. -/
theorem eraReward_add_of_zero {era : Nat} (zero : eraReward era = 0) :
    ∀ later, eraReward (era + later) = 0
  | 0 => zero
  | later + 1 => by
      rw [← Nat.add_assoc, eraReward, eraReward_add_of_zero zero later, mul_zero, Int.zero_ediv]

theorem scheduledSupply_nonneg (height : Nat) : 0 ≤ scheduledSupply height :=
  Finset.sum_nonneg fun _ _ => eraReward_nonneg _

theorem scheduledSupply_mono : Monotone scheduledSupply := by
  apply monotone_nat_of_le_succ
  intro height
  rw [scheduledSupply_succ]
  have nonneg := eraReward_nonneg ((height + 1) / 500000)
  omega

/-- **The bound of the schedule.** The reserve for the rest of the current era and, in
four times the reward of an era, for all eras after it. -/
theorem scheduledSupply_add_le (height : Nat) :
    scheduledSupply height + eraReward 0 +
        (2499999 - (height % 500000 : Nat)) * eraReward (height / 500000) ≤ maxSupplyAtoms := by
  induction height with
  | zero => decide
  | succ height ih =>
      rw [scheduledSupply_succ]
      by_cases boundary : (height + 1) % 500000 = 0
      · -- A new era begins: its reward is at most four fifths of the one before.
        have next : (height + 1) / 500000 = height / 500000 + 1 := by omega
        have last : height % 500000 = 499999 := by omega
        have floored : 5 * eraReward (height / 500000 + 1) ≤ 4 * eraReward (height / 500000) := by
          rw [eraReward]
          omega
        rw [next, boundary]
        rw [last] at ih
        push_cast at ih ⊢
        omega
      · have same : (height + 1) / 500000 = height / 500000 := by omega
        have later : (height + 1) % 500000 = height % 500000 + 1 := by omega
        rw [same, later]
        push_cast at ih ⊢
        linarith

/-- **The maximum supply is never reached**, not even by one more block. -/
theorem scheduledSupply_lt (height : Nat) : scheduledSupply height < maxSupplyAtoms := by
  have bound := scheduledSupply_add_le height
  have reserve : 0 ≤ (2499999 - ((height % 500000 : Nat) : Int)) * eraReward (height / 500000) :=
    mul_nonneg (by omega) (eraReward_nonneg _)
  have first : (0 : Int) < eraReward 0 := by decide
  omega

/-! ## The subsidy of a block -/

/-- **The loop over the eras.** It stops early only at a reward of zero, which stays
zero. -/
theorem rewardLoop_eq (elapsed : Nat) : ∀ remaining,
    rewardLoop remaining (eraReward elapsed) = eraReward (elapsed + remaining)
  | 0 => rfl
  | remaining + 1 => by
      have next : eraReward elapsed * rewardNumerator / rewardDenominator =
          eraReward (elapsed + 1) := by
        rw [eraReward, rewardNumerator, rewardDenominator, mul_comm]
      rw [rewardLoop]
      split
      · rw [next, rewardLoop_eq (elapsed + 1) remaining, Nat.add_right_comm, Nat.add_assoc]
      · have nonneg := eraReward_nonneg elapsed
        have zero : eraReward elapsed = 0 := by omega
        rw [zero, eraReward_add_of_zero zero]

theorem rewardLoop_initial (era : Nat) : rewardLoop era initialRewardAtoms = eraReward era := by
  have start : initialRewardAtoms = eraReward 0 := by decide
  rw [start, rewardLoop_eq, Nat.zero_add]

/-- Where the remaining supply covers it, the subsidy is the reward of the era. -/
theorem blockSubsidy_of_headroom {height supply : Int} (range : 0 < height ∧ height ≤ u64Max)
    (supplyRange : 0 ≤ supply ∧ supply ≤ maxSupplyAtoms)
    (headroom : eraReward (height / rewardInterval).toNat ≤ maxSupplyAtoms - supply) :
    blockSubsidy height supply = .ok (eraReward (height / rewardInterval).toNat) := by
  have nonneg := eraReward_nonneg (height / rewardInterval).toNat
  simp only [blockSubsidy, bind_eq_ok, raiseIf_eq_ok, exists_const, validateSupply_eq_ok, not_not]
  refine ⟨⟨range.1.le, range.2⟩, supplyRange, ?_⟩
  split
  · -- Without headroom the reward is zero, which is what the code returns.
    rename_i exhausted
    have zero : eraReward (height / rewardInterval).toNat = 0 := by omega
    rw [zero]
    rfl
  · rw [rewardLoop_initial, min_eq_left headroom]
    rfl

/-- **On a scheduled supply the subsidy is the reward of the era**, uncapped. -/
theorem blockSubsidy_scheduled {height : Nat} (range : (height : Int) + 1 ≤ u64Max) :
    blockSubsidy (height + 1) (scheduledSupply height) =
      .ok (eraReward ((height + 1) / 500000)) := by
  have below := scheduledSupply_lt (height + 1)
  rw [scheduledSupply_succ] at below
  have nonneg := scheduledSupply_nonneg height
  have reward := eraReward_nonneg ((height + 1) / 500000)
  have era : (((height : Int) + 1) / rewardInterval).toNat = (height + 1) / 500000 := by
    rw [rewardInterval]
    omega
  rw [← era] at below reward ⊢
  exact blockSubsidy_of_headroom (by omega) (by omega) (by omega)

/-! ## Rounding -/

/-- The initial reward multiplied by (4/5)^era, rounded down once. -/
def roundedOnce (era : Nat) : Int := ⌊(40 * 10 ^ 8 : ℚ) * (4 / 5) ^ era⌋

theorem roundedOnce_eq (era : Nat) : roundedOnce era = 40 * 10 ^ 8 * 4 ^ era / 5 ^ era := by
  have fraction : (40 * 10 ^ 8 : ℚ) * (4 / 5) ^ era =
      ((40 * 10 ^ 8 * 4 ^ era : Int) : ℚ) / ((5 ^ era : Nat) : ℚ) := by
    push_cast
    rw [div_pow]
    ring
  rw [roundedOnce, fraction, Rat.floor_intCast_div_natCast]
  push_cast
  rfl

/-- Rounding more often never pays more. -/
theorem eraReward_le_roundedOnce (era : Nat) : eraReward era ≤ roundedOnce era := by
  rw [roundedOnce_eq, Int.le_ediv_iff_mul_le (by positivity)]
  induction era with
  | zero => decide
  | succ era ih =>
      have floored : eraReward (era + 1) * 5 ≤ 4 * eraReward era := by
        rw [eraReward]
        exact Int.ediv_mul_le _ (by norm_num)
      calc eraReward (era + 1) * 5 ^ (era + 1)
          = eraReward (era + 1) * 5 * 5 ^ era := by ring
        _ ≤ 4 * eraReward era * 5 ^ era := mul_le_mul_of_nonneg_right floored (by positivity)
        _ = 4 * (eraReward era * 5 ^ era) := by ring
        _ ≤ 4 * (40 * 10 ^ 8 * 4 ^ era) := mul_le_mul_of_nonneg_left ih (by norm_num)
        _ = 40 * 10 ^ 8 * 4 ^ (era + 1) := by ring

/-- The roundings of all eras together lose less than four atoms. -/
theorem roundedOnce_lt (era : Nat) : roundedOnce era < eraReward era + 4 := by
  rw [roundedOnce_eq, Int.ediv_lt_iff_lt_mul (by positivity)]
  induction era with
  | zero => decide
  | succ era ih =>
      -- One era rounds by at most 4/5, and four fifths of less than four are left before it.
      have floored : 4 * (eraReward era + 4) ≤ (eraReward (era + 1) + 4) * 5 := by
        rw [eraReward]
        omega
      calc 40 * 10 ^ 8 * 4 ^ (era + 1)
          = 4 * (40 * 10 ^ 8 * 4 ^ era) := by ring
        _ < 4 * ((eraReward era + 4) * 5 ^ era) := mul_lt_mul_of_pos_left ih (by norm_num)
        _ = 4 * (eraReward era + 4) * 5 ^ era := by ring
        _ ≤ (eraReward (era + 1) + 4) * 5 * 5 ^ era :=
          mul_le_mul_of_nonneg_right floored (by positivity)
        _ = (eraReward (era + 1) + 4) * 5 ^ (era + 1) := by ring

/-- From era 100 on the formula is below one atom. -/
theorem roundedOnce_last (later : Nat) : roundedOnce (100 + later) = 0 := by
  rw [roundedOnce_eq]
  apply Int.ediv_eq_zero_of_lt (by positivity)
  induction later with
  | zero => decide
  | succ later ih =>
      have positive : (0 : Int) < 5 ^ (100 + later) := by positivity
      calc 40 * 10 ^ 8 * 4 ^ (100 + (later + 1))
          = 40 * 10 ^ 8 * 4 ^ (100 + later) * 4 := by ring
        _ < 5 ^ (100 + later) * 4 := mul_lt_mul_of_pos_right ih (by norm_num)
        _ ≤ 5 ^ (100 + later) * 5 := mul_le_mul_of_nonneg_left (by norm_num) positive.le
        _ = 5 ^ (100 + (later + 1)) := by ring

theorem eraReward_hundred : eraReward 100 = 0 := by decide +kernel

theorem eraReward_last (later : Nat) : eraReward (100 + later) = 0 :=
  eraReward_add_of_zero eraReward_hundred later

/-- The eras before that, one by one. -/
theorem eraReward_eq_iff_of_lt : ∀ era < 100,
    eraReward era = 40 * 10 ^ 8 * 4 ^ era / 5 ^ era ↔ era ≤ 12 := by
  decide

/-- **Where the roundings make no difference.** -/
theorem eraReward_eq_roundedOnce_iff (era : Nat) :
    eraReward era = roundedOnce era ↔ era ≤ 12 ∨ 100 ≤ era := by
  by_cases early : era < 100
  · rw [roundedOnce_eq, eraReward_eq_iff_of_lt era early]
    omega
  · obtain ⟨later, rfl⟩ := Nat.exists_eq_add_of_le (Nat.le_of_not_lt early)
    rw [eraReward_last, roundedOnce_last]
    exact ⟨fun _ => .inr (Nat.le_add_right _ _), fun _ => rfl⟩

/-- **The subsidy is rounded down at the end of every era.** It is the reward that is rounded
down once in the eras up to 12 and from 100 on, and one to three atoms less in between. -/
theorem blockSubsidy_perEra {height supply : Int} (range : 0 < height ∧ height ≤ u64Max)
    (supplyRange : 0 ≤ supply ∧ supply ≤ maxSupplyAtoms)
    (headroom : eraReward (height / rewardInterval).toNat ≤ maxSupplyAtoms - supply) :
    blockSubsidy height supply = .ok (eraReward (height / rewardInterval).toNat) ∧
      (eraReward (height / rewardInterval).toNat = roundedOnce (height / rewardInterval).toNat ↔
        height / rewardInterval ≤ 12 ∨ 100 ≤ height / rewardInterval) ∧
      eraReward (height / rewardInterval).toNat ≤ roundedOnce (height / rewardInterval).toNat ∧
      roundedOnce (height / rewardInterval).toNat ≤ eraReward (height / rewardInterval).toNat + 3 := by
  refine ⟨blockSubsidy_of_headroom range supplyRange headroom, ?_, eraReward_le_roundedOnce _, ?_⟩
  · rw [eraReward_eq_roundedOnce_iff]
    have interval : (0 : Int) < rewardInterval := by decide
    have nonneg : 0 ≤ height / rewardInterval := Int.ediv_nonneg range.1.le interval.le
    omega
  · have close := roundedOnce_lt (height / rewardInterval).toNat
    omega

/-- In era 13 the subsidy is one atom short of the formula. -/
theorem blockSubsidy_perEra_short :
    blockSubsidy 6500000 0 = .ok 219902324 ∧ roundedOnce 13 = 219902325 := by
  have shorter := (@blockSubsidy_perEra 6500000 0 (by decide) (by decide) (by decide)).1
  have era : (6500000 / rewardInterval).toNat = 13 := by decide
  have reward : eraReward 13 = 219902324 := by decide
  rw [era, reward] at shorter
  refine ⟨shorter, ?_⟩
  rw [roundedOnce_eq]
  decide

/-- So the subsidy is not the formula that rounds once. -/
theorem not_blockSubsidy_roundedOnce : ¬ ∀ height supply : Int, 0 < height ∧ height ≤ u64Max →
    0 ≤ supply ∧ supply ≤ maxSupplyAtoms →
    roundedOnce (height / rewardInterval).toNat ≤ maxSupplyAtoms - supply →
      blockSubsidy height supply = .ok (roundedOnce (height / rewardInterval).toNat) := by
  intro always
  have era : (6500000 / rewardInterval).toNat = 13 := by decide
  have once : roundedOnce 13 = 219902325 := by
    rw [roundedOnce_eq]
    decide
  have reward : eraReward 13 = 219902324 := by decide
  have claimed := always 6500000 0 (by decide) (by decide) (by rw [era, once]; decide)
  rw [blockSubsidy_of_headroom (by decide) (by decide) (by decide), era, once, reward] at claimed
  cases claimed

end OurCoin
