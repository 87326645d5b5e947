import OurCoin.Storage.Decoding
import OurCoin.Tree.Extension
import OurCoin.Tree.ForkChoice
import OurCoin.Wire.Messages

/-!
# Cumulative work fits its field

The work of one header is between 1 and 2^255, and heights are unsigned 64-bit integers. So
a branch, which has at most 2^64 blocks, never outgrows the 40 bytes that the database and
the peer protocol give to its work.

* `workForTarget_bounds` and `workForTarget_antitone`: the work of one header.
* `sum_bounds`: the work of headers with any targets.
* `Replays.exists_works`: the cumulative work of a branch is the sum over its headers.
* `fitsField_iff`: both encoders accept exactly the range of the field.
* `Chain.Reachable.work_fits` joins them.
-/

set_option autoImplicit false

namespace OurCoin

open Raising

/-! ## One header -/

theorem workForTarget_eq_ok {target work : Int} :
    workForTarget target = .ok work ↔
      (0 < target ∧ target ≤ maxTarget) ∧ 2 ^ 256 / (target + 1) = work := by
  simp only [workForTarget, bind_eq_ok, raiseIf_eq_ok, exists_const, pure_eq_ok, not_not]

/-- A header stands for at least 1 and for at most 2^255 units of work. -/
theorem workForTarget_bounds {target work : Int} (run : workForTarget target = .ok work) :
    1 ≤ work ∧ work ≤ 2 ^ 255 := by
  refine ⟨workForTarget_pos run, ?_⟩
  obtain ⟨⟨positive, -⟩, rfl⟩ := workForTarget_eq_ok.mp run
  exact Int.ediv_le_of_le_mul (by omega) (by omega)

/-- A higher target stands for no more work. -/
theorem workForTarget_antitone {lower upper less more : Int} (below : lower ≤ upper)
    (lowerOk : workForTarget lower = .ok more) (upperOk : workForTarget upper = .ok less) :
    less ≤ more := by
  obtain ⟨⟨positive, -⟩, rfl⟩ := workForTarget_eq_ok.mp lowerOk
  obtain ⟨-, rfl⟩ := workForTarget_eq_ok.mp upperOk
  rw [Int.le_ediv_iff_mul_le (by omega)]
  calc 2 ^ 256 / (upper + 1) * (lower + 1)
      ≤ 2 ^ 256 / (upper + 1) * (upper + 1) :=
        mul_le_mul_of_nonneg_left (by omega) (Int.ediv_nonneg (by norm_num) (by omega))
    _ ≤ 2 ^ 256 := Int.ediv_mul_le _ (by omega)

/-! ## A branch -/

/-- Headers with any targets stand for at least 1 and for at most 2^255 units each. -/
theorem sum_bounds {targets works : List Int} (worksOk : targets.mapM workForTarget = .ok works) :
    (targets.length : Int) ≤ works.sum ∧ works.sum ≤ targets.length * 2 ^ 255 := by
  have each := mapM_eq_ok.mp worksOk
  clear worksOk
  induction each with
  | nil => exact ⟨le_rfl, le_rfl⟩
  | @cons target work targets works here _ ih =>
      have bounds := workForTarget_bounds here
      rw [List.sum_cons, List.length_cons]
      push_cast
      omega

/-- At most 2^64 headers do not outgrow 320 bits. -/
theorem sum_lt {targets works : List Int} (worksOk : targets.mapM workForTarget = .ok works)
    (few : targets.length ≤ 2 ^ 64) : works.sum < 2 ^ 320 := by
  have bounded := (sum_bounds worksOk).2
  have range : (targets.length : Int) ≤ 2 ^ 64 := by exact_mod_cast few
  calc works.sum ≤ targets.length * 2 ^ 255 := bounded
    _ ≤ 2 ^ 64 * 2 ^ 255 := mul_le_mul_of_nonneg_right range (by norm_num)
    _ = 2 ^ (64 + 255) := (pow_add 2 64 255).symm
    _ < 2 ^ 320 := pow_lt_pow_right₀ (by norm_num) (by norm_num)

/-- **The cumulative work of a branch is the sum of the work of its headers.** -/
theorem Replays.exists_works [Platform] {network : NetworkConfig} {blocks : List Block}
    {branch : BranchState} (run : Replays network blocks branch) :
    ∃ works, (blocks.map fun block => block.header.difficultyTarget).mapM workForTarget =
        .ok works ∧ branch.cumulativeWork = works.sum := by
  induction run with
  | genesis start =>
      obtain ⟨-, -, -, -, -, -, workOk⟩ := replayGenesis_ok start
      refine ⟨[_], ?_, (List.sum_singleton).symm⟩
      exact mapM_eq_ok.mpr (.cons workOk .nil)
  | @extend blocks branch next block before step ih =>
      obtain ⟨works, worksOk, sumEq⟩ := ih
      obtain ⟨work, workOk, workEq⟩ := (BranchState.extend_eq_ok.mp step).exists_work
      refine ⟨works ++ [work], ?_, ?_⟩
      · rw [mapM_eq_ok, List.map_append]
        exact List.rel_append (mapM_eq_ok.mp worksOk) (.cons workOk .nil)
      · rw [workEq, sumEq, List.sum_append, List.sum_singleton]

/-! ## The fields -/

/-- Both encoders accept the work, and each decoder reads it back. -/
structure FitsField (work : Int) : Prop where
  stored : ∃ written, encodeWork work = .ok written ∧ decodeWork written = .ok work
  sent : ∃ written, encodeWireWork work = .ok written ∧ decodeWireWork written = .ok work

/-- 40 bytes are 320 bits. -/
theorem byteRange_eq : (256 : Int) ^ cumulativeWorkBytes = 2 ^ 320 := by
  have byte : (256 : Int) = 2 ^ 8 := by norm_num
  rw [cumulativeWorkBytes, byte, ← pow_mul]

/-- What fits is exactly the range of a 40-byte number, without zero. -/
theorem fitsField_iff {work : Int} : FitsField work ↔ 1 ≤ work ∧ work < 2 ^ 320 := by
  constructor
  · rintro ⟨⟨written, encoded, -⟩, -⟩
    obtain ⟨⟨positive, bounded⟩, -⟩ := encodeWork_eq_ok.mp encoded
    exact ⟨positive, bounded.trans_eq byteRange_eq⟩
  · rintro ⟨positive, bounded⟩
    have stored : encodeWork work = .ok (BigEndian.toBytes cumulativeWorkBytes work.toNat) :=
      encodeWork_eq_ok.mpr ⟨⟨positive, bounded.trans_eq byteRange_eq.symm⟩, rfl⟩
    have sent : encodeWireWork work = .ok (BigEndian.toBytes workLength work.toNat) :=
      encodeWireWork_eq_ok.mpr ⟨⟨positive, bounded⟩, rfl⟩
    exact ⟨⟨_, stored, decodeWork_eq stored⟩, ⟨_, sent, decodeWireWork_encodeWireWork sent⟩⟩

theorem length_encodeWork {work : Int} {written : Bytes} (encoded : encodeWork work = .ok written) :
    written.length = 40 := by
  obtain ⟨-, rfl⟩ := encodeWork_eq_ok.mp encoded
  exact BigEndian.length_toBytes _ _

/-! ## A chain -/

/-- The work of a stored block, by its height. -/
theorem Chain.Refines.work_bounds [Platform] {chain : Chain} (refines : chain.Refines) {hash : Bytes}
    {entry : ChainEntry} (stored : chain.entries.get? hash = some entry) :
    (0 ≤ entry.record.height ∧ entry.record.height ≤ u64Max) ∧
      entry.record.height + 1 ≤ entry.record.cumulativeWork ∧
      entry.record.cumulativeWork < 2 ^ 320 := by
  obtain ⟨path, branch, ends⟩ := refines.exists_branch stored
  obtain ⟨heightEq, nonneg⟩ := refines.header_height stored
  have encodable := BlockHeader.exists_blockHash.mp ⟨hash, ends.hash_ok⟩
  have range := heightEq ▸ encodable.height_range.2
  obtain ⟨works, worksOk, sumEq⟩ := ends.replays.exists_works
  -- A branch that ends at a height has one block more than it.
  have length : ((pathBlocks path).length : Int) = entry.record.height + 1 := by
    have length := ends.length_eq
    rw [pathBlocks, List.length_map]
    omega
  have few : (pathBlocks path).length ≤ 2 ^ 64 := by
    rw [u64Max] at range
    omega
  have lower := (sum_bounds worksOk).1
  have upper := sum_lt worksOk (by rwa [List.length_map])
  rw [List.length_map, length] at lower
  rw [ends.work_eq, sumEq]
  exact ⟨⟨nonneg, range⟩, lower, upper⟩

/-- The bounds on work: those on one header, those on any 2^64 headers, and those on every
block that a chain stores. -/
structure WorkFits (chain : Chain) : Prop where
  positive : ∀ target, 0 < target → target ≤ maxTarget →
    ∃ work, workForTarget target = .ok work ∧ 0 < work
  antitone : ∀ lower upper more less, lower ≤ upper → workForTarget lower = .ok more →
    workForTarget upper = .ok less → less ≤ more
  anyTargets : ∀ targets works, targets ≠ [] → targets.length ≤ 2 ^ 64 →
    targets.mapM workForTarget = .ok works →
      targets.length ≤ works.sum ∧ works.sum < 2 ^ 320 ∧ FitsField works.sum
  stored : ∀ hash entry, chain.entries.get? hash = some entry →
    (0 ≤ entry.record.height ∧ entry.record.height ≤ u64Max) ∧
      entry.record.height + 1 ≤ entry.record.cumulativeWork ∧
      entry.record.cumulativeWork < 2 ^ 320 ∧ FitsField entry.record.cumulativeWork

/-- **Cumulative work always fits its field.** -/
theorem Chain.Reachable.work_fits [Platform] {chain : Chain} (reachable : chain.Reachable) :
    WorkFits chain := by
  refine ⟨?_, fun _ _ _ _ => workForTarget_antitone, ?_, ?_⟩
  · intro target positive bounded
    have workOk := workForTarget_eq_ok.mpr ⟨⟨positive, bounded⟩, rfl⟩
    exact ⟨_, workOk, workForTarget_pos workOk⟩
  · intro targets works nonempty few worksOk
    have lower := (sum_bounds worksOk).1
    have upper := sum_lt worksOk few
    have some := List.length_pos_iff.mpr nonempty
    exact ⟨lower, upper, fitsField_iff.mpr ⟨by omega, upper⟩⟩
  · intro hash entry stored
    obtain ⟨range, lower, upper⟩ := reachable.refines.work_bounds stored
    exact ⟨range, lower, upper, fitsField_iff.mpr ⟨by omega, upper⟩⟩

/-- The work of a chain of two blocks. -/
theorem Chain.work_fits_first : WorkFits firstChain :=
  @Chain.Reachable.work_fits asciiPlatform firstChain firstChain_reachable

end OurCoin
