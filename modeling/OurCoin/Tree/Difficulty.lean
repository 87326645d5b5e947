import OurCoin.Tree.Extension

/-!
# Difficulty retargeting

The target of a child follows from the blocks on the path to its parent. It is the parent's own
target, and at every height divisible by 120 it is scaled by the span of the last 120 blocks.

* Scaling is monotone in the span, keeps the target for the expected span, and changes it by a
  factor of four at most (`adjustedTarget_mono`, `adjustedTarget_expected`,
  `adjustedTarget_bounds`). The flooring is harmless, because the span is clamped to a quarter
  and to four times the expected one, both exactly.
* The window starts on the path of the parent, 120 heights below the child
  (`Replays.expectedTarget_cases`).
* `Chain.Reachable.difficulty_law` states all of it for the blocks of reachable chains.
-/

set_option autoImplicit false

namespace OurCoin

open Raising

/-! ## Scaling a target -/

/-- The span of a window between a quarter and four times the expected one. -/
def boundedTimespan (timespan : Int) : Int :=
  min (max timespan (expectedAdjustmentTimespan / difficultyMaxAdjustmentFactor))
    (expectedAdjustmentTimespan * difficultyMaxAdjustmentFactor)

theorem adjustedTarget_eq (target timespan : Int) : adjustedTarget target timespan =
    min (max (target * boundedTimespan timespan / expectedAdjustmentTimespan) 1) maxTarget := rfl

theorem boundedTimespan_range (timespan : Int) :
    1785 ≤ boundedTimespan timespan ∧ boundedTimespan timespan ≤ 28560 := by
  simp only [boundedTimespan, expectedAdjustmentTimespan, difficultyAdjustmentInterval,
    targetBlockSeconds, difficultyMaxAdjustmentFactor]
  omega

/-- **A longer span never lowers the target.** -/
theorem adjustedTarget_mono {target first second : Int} (nonneg : 0 ≤ target)
    (longer : first ≤ second) : adjustedTarget target first ≤ adjustedTarget target second := by
  have bounded : boundedTimespan first ≤ boundedTimespan second := by
    rw [boundedTimespan, boundedTimespan]
    omega
  have scaled : target * boundedTimespan first / expectedAdjustmentTimespan ≤
      target * boundedTimespan second / expectedAdjustmentTimespan :=
    Int.ediv_le_ediv (by decide) (mul_le_mul_of_nonneg_left bounded nonneg)
  rw [adjustedTarget_eq, adjustedTarget_eq]
  omega

/-- **The expected span keeps the target.** -/
theorem adjustedTarget_expected {target : Int} (range : 0 < target ∧ target ≤ maxTarget) :
    adjustedTarget target expectedAdjustmentTimespan = target := by
  have same : target * boundedTimespan expectedAdjustmentTimespan / expectedAdjustmentTimespan =
      target := Int.mul_ediv_cancel target (by decide)
  rw [adjustedTarget_eq, same]
  omega

/-- **One adjustment changes the target by a factor of four at most.** -/
theorem adjustedTarget_bounds {target : Int} (range : 0 < target ∧ target ≤ maxTarget)
    (timespan : Int) : max 1 (target / 4) ≤ adjustedTarget target timespan ∧
      adjustedTarget target timespan ≤ min (4 * target) maxTarget := by
  have bounded := boundedTimespan_range timespan
  have expected : expectedAdjustmentTimespan = 7140 := rfl
  have lower : target * 1785 ≤ target * boundedTimespan timespan :=
    mul_le_mul_of_nonneg_left bounded.1 range.1.le
  have upper : target * boundedTimespan timespan ≤ target * 28560 :=
    mul_le_mul_of_nonneg_left bounded.2 range.1.le
  rw [adjustedTarget_eq, expected]
  omega

/-! ## The target of a child -/

/-- What the target of a child may be, given the blocks on the path up to its parent. -/
structure ChildTarget (below : List Block) (parent : Block) (target : Int) : Prop where
  range : 1 ≤ target ∧ target ≤ 2 ^ 256 - 1
  /-- The target changes at heights divisible by 120 only. -/
  kept : ¬ 120 ∣ parent.header.height + 1 → target = parent.header.difficultyTarget
  lower : max 1 (parent.header.difficultyTarget / 4) ≤ target
  upper : target ≤ min (4 * parent.header.difficultyTarget) (2 ^ 256 - 1)
  /-- A window of exactly the expected span keeps it. -/
  steady : ∀ start ∈ below, start.header.height = parent.header.height + 1 - 120 →
    parent.header.timestamp - start.header.timestamp = 7140 →
      target = parent.header.difficultyTarget

namespace Replays

variable [Platform] {network : NetworkConfig} {blocks : List Block} {branch : BranchState}

/-- A block of a branch is found at its height. -/
theorem getElem?_height (run : Replays network blocks branch) {block : Block}
    (member : block ∈ blocks) : blocks[block.header.height.toNat]? = some block := by
  obtain ⟨front, back, split⟩ := List.append_of_mem member
  rw [run.height_eq split, Int.toNat_natCast, split, List.getElem?_append_right le_rfl, Nat.sub_self]
  rfl

/-- The target of a child: the one of its parent, or that target scaled by the span from the
block 120 heights below the child. -/
theorem expectedTarget_cases (run : Replays network blocks branch)
    (left : branch.tip.header.height ≠ u64Max) :
    (¬ 120 ∣ branch.tip.header.height + 1 ∧
      branch.expectedTarget = .ok branch.tip.header.difficultyTarget) ∨
    (120 ∣ branch.tip.header.height + 1 ∧ ∃ start ∈ blocks,
      start.header.height = branch.tip.header.height + 1 - 120 ∧
      branch.expectedTarget = .ok (adjustedTarget branch.tip.header.difficultyTarget
        (branch.tip.header.timestamp - start.header.timestamp))) := by
  have height := run.tip_height
  have nonneg := run.height_nonneg
  simp only [BranchState.expectedTarget, bind_eq_ok, raiseIf_eq_ok, exists_const,
    Int.dvd_iff_emod_eq_zero]
  by_cases boundary : (branch.tip.header.height + 1) % 120 = 0
  · right
    have inside : (branch.tip.header.height + 1 - 120).toNat < blocks.length := by omega
    have split : blocks = blocks.take (branch.tip.header.height + 1 - 120).toNat ++
        blocks[(branch.tip.header.height + 1 - 120).toNat] ::
          blocks.drop ((branch.tip.header.height + 1 - 120).toNat + 1) := by simp
    have position := run.height_eq split
    rw [List.length_take, Nat.min_eq_left inside.le] at position
    refine ⟨boundary, _, List.getElem_mem inside, by omega, left, ?_⟩
    rw [difficultyAdjustmentInterval, if_neg (by omega), run.blocks_eq,
      List.getElem?_eq_getElem inside]
    rfl
  · left
    refine ⟨boundary, left, ?_⟩
    rw [difficultyAdjustmentInterval, if_pos boundary]
    rfl

/-- The start of the window is the block of the path at its height. -/
theorem expectedTarget_window (run : Replays network blocks branch)
    (boundary : 120 ∣ branch.tip.header.height + 1) {start : Block} (member : start ∈ blocks)
    (height : start.header.height = branch.tip.header.height + 1 - 120) {target : Int}
    (targetOk : branch.expectedTarget = .ok target) :
    target = adjustedTarget branch.tip.header.difficultyTarget
      (branch.tip.header.timestamp - start.header.timestamp) := by
  have left : branch.tip.header.height ≠ u64Max := by
    simp only [BranchState.expectedTarget, bind_eq_ok, raiseIf_eq_ok, exists_const] at targetOk
    exact targetOk.1
  rcases run.expectedTarget_cases left with ⟨inside, -⟩ | ⟨-, start', member', height', outcome⟩
  · exact absurd boundary inside
  · have same := run.getElem?_height member
    rw [height, ← height', run.getElem?_height member', Option.some.injEq] at same
    subst same
    rw [targetOk, Except.ok.injEq] at outcome
    exact outcome

/-- **The bounds of a retarget.** -/
theorem childTarget (run : Replays network blocks branch) {target : Int}
    (targetOk : branch.expectedTarget = .ok target) : ChildTarget blocks branch.tip target := by
  have left : branch.tip.header.height ≠ u64Max := by
    simp only [BranchState.expectedTarget, bind_eq_ok, raiseIf_eq_ok, exists_const] at targetOk
    exact targetOk.1
  have range := run.target_range
  have capped : maxTarget = 2 ^ 256 - 1 := rfl
  rcases run.expectedTarget_cases left with ⟨inside, outcome⟩ | ⟨boundary, start, member, height, outcome⟩
  · rw [targetOk, Except.ok.injEq] at outcome
    subst outcome
    exact ⟨by omega, fun _ => rfl, by omega, by omega, fun _ _ _ _ => rfl⟩
  · rw [targetOk, Except.ok.injEq] at outcome
    obtain ⟨lower, upper⟩ := adjustedTarget_bounds range
      (branch.tip.header.timestamp - start.header.timestamp)
    rw [← outcome] at lower upper
    refine ⟨by omega, fun inside => absurd boundary inside, lower, upper, ?_⟩
    intro start' member' height' span
    rw [run.expectedTarget_window boundary member' height' targetOk, span]
    exact adjustedTarget_expected range

end Replays

namespace Chain

variable [Platform]

/-- A stored block below a height divisible by 120, with the span of the window it ends: from
the block of its path 120 heights below its children. -/
structure EndsWindow (chain : Chain) (hash : Bytes) (entry : ChainEntry) (span : Int) : Prop where
  stored : chain.entries.get? hash = some entry
  boundary : 120 ∣ entry.block.header.height + 1
  exists_start : ∃ path, chain.Lineage hash path ∧ ∃ start ∈ pathBlocks path,
    start.header.height = entry.block.header.height + 1 - 120 ∧
      span = entry.block.header.timestamp - start.header.timestamp

/-- The difficulty rules of the blocks of a chain, on whichever branch. -/
structure DifficultyLaw (chain : Chain) : Prop where
  /-- Every stored block below the last height has a target for its children. -/
  child : ∀ hash entry path, chain.entries.get? hash = some entry → chain.Lineage hash path →
    entry.record.height < 2 ^ 64 - 1 → ∃ target, chain.expectedTargetForChild hash = .ok target ∧
      ChildTarget (pathBlocks path) entry.block target
  /-- It follows from the blocks on the path to the parent, whatever else is stored. -/
  own_path : ∀ other : Chain, other.Reachable → ∀ hash hash' path path',
    chain.Lineage hash path → other.Lineage hash' path' → pathBlocks path = pathBlocks path' →
      chain.expectedTargetForChild hash = other.expectedTargetForChild hash'
  /-- Along a path every block carries the target that its parent asks for. -/
  carried : ∀ hash path, chain.Lineage hash path → ∀ front parent item back,
    path = front ++ parent :: item :: back →
      item.2.block.header.height = parent.2.block.header.height + 1 ∧
      chain.expectedTargetForChild parent.1 = .ok item.2.block.header.difficultyTarget ∧
      ChildTarget (pathBlocks (front ++ [parent])) parent.2.block
        item.2.block.header.difficultyTarget
  /-- The target of a block, the first one included, is in range. -/
  range : ∀ hash entry, chain.entries.get? hash = some entry →
    1 ≤ entry.block.header.difficultyTarget ∧ entry.block.header.difficultyTarget ≤ 2 ^ 256 - 1
  /-- At the end of a window the target is scaled by the span over the expected 7140 seconds.
  The span counts as a quarter of these at least and as four times these at most. -/
  scaled : ∀ hash entry span target, chain.EndsWindow hash entry span →
    chain.expectedTargetForChild hash = .ok target →
      target = min (max (entry.block.header.difficultyTarget * min (max span 1785) 28560 / 7140) 1)
        (2 ^ 256 - 1)
  /-- From one target, a window of a longer span leads to no smaller target. -/
  rising : ∀ other : Chain, other.Reachable → ∀ hash hash' entry entry' span span' target target',
    chain.EndsWindow hash entry span → other.EndsWindow hash' entry' span' →
      entry.block.header.difficultyTarget = entry'.block.header.difficultyTarget →
        span ≤ span' → chain.expectedTargetForChild hash = .ok target →
          other.expectedTargetForChild hash' = .ok target' → target ≤ target'

variable {chain : Chain}

/-- A block that ends a window has a target scaled by the span of that window. -/
theorem Refines.target_of_window (refines : chain.Refines) {hash : Bytes} {entry : ChainEntry}
    {span target : Int} (window : chain.EndsWindow hash entry span)
    (targetOk : chain.expectedTargetForChild hash = .ok target) :
    target = adjustedTarget entry.block.header.difficultyTarget span ∧
      0 < entry.block.header.difficultyTarget := by
  obtain ⟨path, branch, ends⟩ := refines.exists_branch window.stored
  obtain ⟨path', lineage, start, member, height, spanEq⟩ := window.exists_start
  have samePath := ends.lineage.unique lineage
  subst samePath
  have boundary := window.boundary
  rw [refines.expectedTargetForChild_eq ends] at targetOk
  rw [ends.block_eq] at boundary height spanEq ⊢
  rw [spanEq]
  exact ⟨ends.replays.expectedTarget_window boundary member height targetOk,
    ends.replays.target_range.1⟩

/-- **Difficulty retargeting.** -/
theorem Reachable.difficulty_law (reachable : chain.Reachable) : chain.DifficultyLaw := by
  have refines := reachable.refines
  refine ⟨?_, ?_, ?_, ?_, ?_, ?_⟩
  · intro hash entry path stored lineage below
    obtain ⟨path', branch, ends⟩ := refines.exists_branch stored
    have samePath := ends.lineage.unique lineage
    subst samePath
    have left : entry.record.height ≠ u64Max := below.ne
    obtain ⟨target, targetOk, -⟩ := refines.exists_expectedTarget stored left
    refine ⟨target, targetOk, ?_⟩
    rw [refines.expectedTargetForChild_eq ends] at targetOk
    rw [ends.block_eq]
    exact ends.replays.childTarget targetOk
  · intro other otherReachable hash hash' path path' lineage lineage' sameBlocks
    obtain ⟨front, entry, -, stored⟩ := lineage.exists_last
    obtain ⟨front', entry', -, stored'⟩ := lineage'.exists_last
    obtain ⟨path₁, branch, ends⟩ := refines.exists_branch stored
    obtain ⟨path₂, branch', ends'⟩ := otherReachable.refines.exists_branch stored'
    have first := ends.lineage.unique lineage
    have second := ends'.lineage.unique lineage'
    subst first second
    have replays := ends.replays
    rw [sameBlocks] at replays
    rw [refines.expectedTargetForChild_eq ends, otherReachable.refines.expectedTargetForChild_eq ends',
      replays.unique ends'.replays]
  · intro hash path lineage front parent item back split
    have upTo : path = (front ++ [parent]) ++ (item.1, item.2) :: back := by simpa using split
    have lower : path = front ++ (parent.1, parent.2) :: (item :: back) := split
    obtain ⟨branch, ends⟩ := refines.of_prefix lineage upTo
    obtain ⟨below, parentEnds⟩ := refines.of_prefix lineage lower
    have run := ends.replays
    rw [pathBlocks_append] at run
    generalize whole : pathBlocks (front ++ [parent]) ++ pathBlocks [(item.1, item.2)] = blocks at run
    cases run with
    | genesis start =>
        have lengths := congrArg List.length whole
        simp only [pathBlocks, List.length_append, List.length_map, List.length_singleton] at lengths
        omega
    | extend before next =>
        obtain ⟨sameFront, sameBlock⟩ := List.append_inj' whole rfl
        subst sameFront
        have blockEq : item.2.block = _ := (List.cons.inj sameBlock).1
        have tipEq := before.unique parentEnds.replays
        subst tipEq
        obtain ⟨⟨target, execution, targetOk, valid, -, -⟩, -⟩ := BranchState.extend_eq_ok.mp next
        have carried := targetOk
        rw [← valid.header.target_eq] at carried
        rw [refines.expectedTargetForChild_eq parentEnds, parentEnds.block_eq, blockEq]
        exact ⟨valid.header.height_eq, carried, before.childTarget carried⟩
  · intro hash entry stored
    obtain ⟨path, branch, ends⟩ := refines.exists_branch stored
    have range := ends.replays.target_range
    have capped : maxTarget = 2 ^ 256 - 1 := rfl
    rw [ends.block_eq]
    omega
  · intro hash entry span target window targetOk
    exact (refines.target_of_window window targetOk).1
  · intro other otherReachable hash hash' entry entry' span span' target target' window window'
      sameTarget longer targetOk targetOk'
    obtain ⟨scaled, positive⟩ := refines.target_of_window window targetOk
    obtain ⟨scaled', -⟩ := otherReachable.refines.target_of_window window' targetOk'
    rw [scaled, scaled', ← sameTarget]
    exact adjustedTarget_mono positive.le longer

omit [Platform] in
theorem difficulty_law_branched : Payer.branchedChain.activeTipHash = Payer.transfersHash ∧
    @DifficultyLaw trustingPlatform Payer.branchedChain :=
  ⟨Payer.branchedChain_tip.1,
    @Reachable.difficulty_law trustingPlatform Payer.branchedChain Payer.branchedChain_reachable⟩

end Chain

end OurCoin
