import OurCoin.Ledger.Validation
import OurCoin.Model.Chain

/-!
# The replay of a branch

What a branch leads to when its blocks are executed one after another from the empty
genesis state, with nothing known but the blocks themselves. This is the abstract
meaning of a stored entry: no tree, no snapshots, no other branches.

* `replay` runs a list of blocks, and `Replays` is its inductive form
  (`replay_eq_ok`), on which facts about branches are proved by induction: what holds
  of the genesis block and is kept by one more block holds of every branch.
* The blocks of a branch have the heights 0, 1, 2, … (`Replays.height_eq`) and strictly
  increasing timestamps (`Replays.timestamps`).
* The state of a branch is well formed, so a snapshot of it can always be restored
  (`Replays.wellFormed`).
-/

set_option autoImplicit false

namespace OurCoin

open Raising

/-- A branch and what executing it leads to. -/
structure BranchState where
  blocks : List Block
  tip : Block
  state : AccountState
  totalSupplyAtoms : Int
  cumulativeWork : Int

section Replay

variable [Platform]

/-- Execute a genesis block on the empty state. -/
def replayGenesis (network : NetworkConfig) (genesis : Block) : Except Raised BranchState := do
  let emptyState ← AccountState.new Dict.empty ∅ network
  let execution ← validateAndExecuteBlock genesis none emptyState 0 network none
  return {
    blocks := [genesis]
    tip := genesis
    state := execution.state
    totalSupplyAtoms := execution.totalSupplyAtoms
    cumulativeWork := ← workForTarget genesis.header.difficultyTarget }

omit [Platform] in
/-- The target of the next block of a branch, from the blocks of the branch. -/
def BranchState.expectedTarget (branch : BranchState) : Except Raised Int := do
  raiseIf (branch.tip.header.height = u64Max) (chainError "parent height is exhausted")
  let nextHeight := branch.tip.header.height + 1
  if nextHeight % difficultyAdjustmentInterval ≠ 0 then
    return branch.tip.header.difficultyTarget
  else
    match branch.blocks[(nextHeight - difficultyAdjustmentInterval).toNat]? with
    | none => throw (chainError "ancestor height is outside the branch")
    | some windowStart =>
      return adjustedTarget branch.tip.header.difficultyTarget
        (branch.tip.header.timestamp - windowStart.header.timestamp)

/-- Execute one more block. -/
def BranchState.extend (network : NetworkConfig) (branch : BranchState) (block : Block) :
    Except Raised BranchState := do
  let target ← branch.expectedTarget
  let execution ← validateAndExecuteBlock block (some branch.tip) branch.state
    branch.totalSupplyAtoms network (some target)
  return {
    blocks := branch.blocks ++ [block]
    tip := block
    state := execution.state
    totalSupplyAtoms := execution.totalSupplyAtoms
    cumulativeWork := branch.cumulativeWork + (← workForTarget block.header.difficultyTarget) }

/-- Execute a branch block after block from the empty genesis state. -/
def replay (network : NetworkConfig) : List Block → Except Raised BranchState
  | [] => .error (chainError "a branch starts with a genesis block")
  | genesis :: rest => do rest.foldlM (BranchState.extend network) (← replayGenesis network genesis)

/-- The branches that replay, with what they lead to. -/
inductive Replays (network : NetworkConfig) : List Block → BranchState → Prop
  | genesis {block : Block} {branch : BranchState} :
      replayGenesis network block = .ok branch → Replays network [block] branch
  | extend {blocks : List Block} {branch next : BranchState} {block : Block} :
      Replays network blocks branch → branch.extend network block = .ok next →
        Replays network (blocks ++ [block]) next

theorem replay_concat_eq_ok {network : NetworkConfig} {blocks : List Block} {block : Block}
    {next : BranchState} (nonempty : blocks ≠ []) :
    replay network (blocks ++ [block]) = .ok next ↔
      ∃ branch, replay network blocks = .ok branch ∧ branch.extend network block = .ok next := by
  cases blocks with
  | nil => exact absurd rfl nonempty
  | cons genesis rest =>
      simp only [List.cons_append, replay, bind_eq_ok, foldlM_concat_eq_ok]
      constructor
      · rintro ⟨start, startOk, branch, branchOk, nextOk⟩
        exact ⟨branch, ⟨start, startOk, branchOk⟩, nextOk⟩
      · rintro ⟨branch, ⟨start, startOk, branchOk⟩, nextOk⟩
        exact ⟨start, startOk, branch, branchOk, nextOk⟩

theorem Replays.ne_nil {network : NetworkConfig} {blocks : List Block} {branch : BranchState}
    (run : Replays network blocks branch) : blocks ≠ [] := by
  cases run <;> simp

/-- **The inductive form of a replay.** -/
theorem replay_eq_ok {network : NetworkConfig} {blocks : List Block} {branch : BranchState} :
    replay network blocks = .ok branch ↔ Replays network blocks branch := by
  constructor
  · intro run
    induction blocks using List.reverseRecOn generalizing branch with
    | nil => cases run
    | append_singleton blocks block ih =>
        cases blocks with
        | nil =>
            simp only [List.nil_append, replay, bind_eq_ok, List.foldlM_nil, pure_eq_ok] at run
            obtain ⟨start, startOk, rfl⟩ := run
            exact .genesis startOk
        | cons genesis rest =>
            obtain ⟨before, beforeOk, nextOk⟩ := (replay_concat_eq_ok (by simp)).mp run
            exact .extend (ih beforeOk) nextOk
  · intro run
    induction run with
    | genesis start =>
        simp only [replay, bind_eq_ok, List.foldlM_nil, pure_eq_ok]
        exact ⟨_, start, rfl⟩
    | extend before next ih => exact (replay_concat_eq_ok before.ne_nil).mpr ⟨_, ih, next⟩

theorem Replays.unique {network : NetworkConfig} {blocks : List Block}
    {branch branch' : BranchState} (run : Replays network blocks branch)
    (run' : Replays network blocks branch') : branch = branch' := by
  have one := replay_eq_ok.mpr run
  rw [replay_eq_ok.mpr run'] at one
  cases one
  rfl

/-! ## One step -/

/-- What one more block requires and leads to. -/
structure BranchState.Extends (network : NetworkConfig) (branch : BranchState) (block : Block)
    (next : BranchState) : Prop where
  exists_valid : ∃ target execution, branch.expectedTarget = .ok target ∧
    ValidBlock block branch.tip branch.state branch.totalSupplyAtoms network target execution ∧
    next.state = execution.state ∧ next.totalSupplyAtoms = execution.totalSupplyAtoms
  exists_work : ∃ work, workForTarget block.header.difficultyTarget = .ok work ∧
    next.cumulativeWork = branch.cumulativeWork + work
  blocks_eq : next.blocks = branch.blocks ++ [block]
  tip_eq : next.tip = block

theorem BranchState.extend_eq_ok {network : NetworkConfig} {branch next : BranchState}
    {block : Block} :
    branch.extend network block = .ok next ↔ branch.Extends network block next := by
  simp only [BranchState.extend, bind_eq_ok, pure_eq_ok, validateAndExecuteBlock_eq_ok]
  constructor
  · rintro ⟨target, targetOk, execution, valid, work, workOk, rfl⟩
    exact ⟨⟨target, execution, targetOk, valid, rfl, rfl⟩, ⟨work, workOk, rfl⟩, rfl, rfl⟩
  · rintro ⟨⟨target, execution, targetOk, valid, stateEq, supplyEq⟩, ⟨work, workOk, workEq⟩,
      blocksEq, tipEq⟩
    refine ⟨target, targetOk, execution, valid, work, workOk, ?_⟩
    cases next
    simp only at stateEq supplyEq workEq blocksEq tipEq
    simp [stateEq, supplyEq, workEq, blocksEq, tipEq]

/-! ## The genesis block -/

theorem genesisBlock_ok {network : NetworkConfig} {block : Block}
    (run : genesisBlock network = .ok block) :
    network = testnet ∧ block.header.height = 0 ∧ block.transactions = [] := by
  simp only [genesisBlock, bind_eq_ok, raiseIf_eq_ok, exists_const, pure_eq_ok, not_not] at run
  obtain ⟨isTestnet, _, -, _, -, _, -, rfl⟩ := run
  exact ⟨isTestnet, rfl, rfl⟩

theorem replayGenesis_ok {network : NetworkConfig} {block : Block} {branch : BranchState}
    (run : replayGenesis network block = .ok branch) :
    genesisBlock network = .ok block ∧ branch.blocks = [block] ∧ branch.tip = block ∧
      branch.state = ⟨network, Dict.empty, ∅⟩ ∧ branch.state.WellFormed ∧
      branch.totalSupplyAtoms = 0 ∧
      workForTarget block.header.difficultyTarget = .ok branch.cumulativeWork := by
  simp only [replayGenesis, bind_eq_ok, pure_eq_ok, AccountState.new_eq_ok] at run
  obtain ⟨start, ⟨wf, rfl⟩, execution, valid, work, workOk, rfl⟩ := run
  obtain ⟨isGenesis, -, stateEq, -, -, supplyEq⟩ := validateGenesis_ok valid
  exact ⟨isGenesis, rfl, rfl, stateEq, stateEq ▸ wf, supplyEq, workOk⟩

/-! ## Branches -/

namespace Replays

variable {network : NetworkConfig} {blocks : List Block} {branch : BranchState}

theorem blocks_eq (run : Replays network blocks branch) : branch.blocks = blocks := by
  induction run with
  | genesis start => exact (replayGenesis_ok start).2.1
  | extend before next ih => rw [(BranchState.extend_eq_ok.mp next).blocks_eq, ih]

theorem exists_last (run : Replays network blocks branch) :
    ∃ front, blocks = front ++ [branch.tip] := by
  cases run with
  | genesis start => exact ⟨[], by rw [(replayGenesis_ok start).2.2.1, List.nil_append]⟩
  | extend before next => exact ⟨_, by rw [(BranchState.extend_eq_ok.mp next).tip_eq]⟩

/-- The first block of a branch is the genesis block. -/
theorem head_eq (run : Replays network blocks branch) :
    ∃ genesis, genesisBlock network = .ok genesis ∧ blocks.head? = some genesis := by
  induction run with
  | genesis start => exact ⟨_, (replayGenesis_ok start).1, rfl⟩
  | extend before next ih =>
      obtain ⟨genesis, defined, head⟩ := ih
      exact ⟨genesis, defined, by rw [List.head?_append, head, Option.some_or]⟩

/-- Initial parts of a branch replay. -/
theorem of_prefix (run : Replays network blocks branch) : ∀ {front back : List Block},
    front ≠ [] → blocks = front ++ back → ∃ earlier, Replays network front earlier := by
  induction run with
  | genesis start =>
      intro front back nonempty split
      cases front with
      | nil => exact absurd rfl nonempty
      | cons first rest =>
          have lengths := congrArg List.length split
          simp only [List.length_cons, List.length_nil, List.length_append] at lengths
          have noRest : rest = [] := List.length_eq_zero_iff.mp (by omega)
          subst noRest
          cases (List.cons.inj split).1
          exact ⟨_, .genesis start⟩
  | extend before next ih =>
      intro front back nonempty split
      cases back using List.reverseRecOn with
      | nil =>
          rw [List.append_nil] at split
          subst split
          exact ⟨_, .extend before next⟩
      | append_singleton back last =>
          rw [← List.append_assoc] at split
          exact ih nonempty (List.append_inj' split rfl).1

/-- The height of the last block is the number of blocks before it. -/
theorem tip_height (run : Replays network blocks branch) :
    branch.tip.header.height + 1 = blocks.length := by
  induction run with
  | genesis start =>
      obtain ⟨isGenesis, -, tip, -⟩ := replayGenesis_ok start
      rw [tip, (genesisBlock_ok isGenesis).2.1]
      rfl
  | extend before next ih =>
      obtain ⟨⟨target, execution, -, valid, -⟩, -, -, tip⟩ := BranchState.extend_eq_ok.mp next
      rw [tip, valid.header.height_eq, ih, List.length_append, List.length_singleton]
      push_cast
      rfl

/-- **The blocks of a branch have the heights 0, 1, 2, ….** -/
theorem height_eq (run : Replays network blocks branch) {front back : List Block} {block : Block}
    (split : blocks = front ++ block :: back) : block.header.height = front.length := by
  have upTo : blocks = (front ++ [block]) ++ back := by simpa using split
  obtain ⟨earlier, runEarlier⟩ := run.of_prefix (by simp) upTo
  obtain ⟨front', last⟩ := runEarlier.exists_last
  have tip := (List.append_inj' last rfl).2
  cases tip
  have height := runEarlier.tip_height
  rw [List.length_append, List.length_singleton] at height
  push_cast at height
  omega

theorem height_nonneg (run : Replays network blocks branch) : 0 ≤ branch.tip.header.height := by
  have height := run.tip_height
  have positive := List.length_pos_iff.mpr run.ne_nil
  omega

/-- **Timestamps increase along a branch.** -/
theorem timestamps (run : Replays network blocks branch) :
    blocks.Pairwise fun earlier later => earlier.header.timestamp < later.header.timestamp := by
  induction run with
  | genesis start => exact List.pairwise_singleton _ _
  | @extend blocks branch next block before step ih =>
      obtain ⟨⟨target, execution, -, valid, -⟩, -, -, -⟩ := BranchState.extend_eq_ok.mp step
      have beforeTip := valid.header.timestamp_lt
      obtain ⟨front, rfl⟩ := before.exists_last
      rw [List.pairwise_append]
      refine ⟨ih, List.pairwise_singleton _ _, ?_⟩
      intro earlier member later isLast
      rw [List.mem_singleton] at isLast
      subst isLast
      rcases List.mem_append.mp member with inFront | isTip
      · exact ((List.pairwise_append.mp ih).2.2 earlier inFront _ List.mem_cons_self).trans beforeTip
      · rw [List.mem_singleton.mp isTip]
        exact beforeTip

theorem network_eq (run : Replays network blocks branch) : branch.state.network = network := by
  cases run with
  | genesis start => rw [(replayGenesis_ok start).2.2.2.1]
  | extend before next =>
      obtain ⟨⟨target, execution, -, valid, stateEq, -⟩, -⟩ := BranchState.extend_eq_ok.mp next
      rw [stateEq, valid.network_eq]

/-- The state of a branch can be restored from its snapshot. -/
theorem wellFormed (run : Replays network blocks branch) : branch.state.WellFormed := by
  cases run with
  | genesis start => exact (replayGenesis_ok start).2.2.2.2.1
  | extend before next =>
      obtain ⟨⟨target, execution, -, valid, stateEq, -⟩, -⟩ := BranchState.extend_eq_ok.mp next
      rw [stateEq]
      exact valid.wellFormed

/-- A block names the hash of the block before it. -/
theorem previous_eq (run : Replays network blocks branch) {front back : List Block}
    {parent block : Block} (split : blocks = front ++ parent :: block :: back) :
    parent.blockHash = .ok block.header.previousBlockHash := by
  have upTo : blocks = (front ++ [parent] ++ [block]) ++ back := by simpa using split
  obtain ⟨earlier, runEarlier⟩ := run.of_prefix (by simp) upTo
  generalize whole : front ++ [parent] ++ [block] = whole' at runEarlier
  cases runEarlier with
  | genesis start =>
      have lengths := congrArg List.length whole
      simp only [List.length_append, List.length_singleton] at lengths
      omega
  | extend before next =>
      obtain ⟨same, last⟩ := List.append_inj' whole rfl
      cases last
      obtain ⟨⟨target, execution, -, valid, -⟩, -⟩ := BranchState.extend_eq_ok.mp next
      obtain ⟨front', tip⟩ := before.exists_last
      rw [← same] at tip
      have parentEq := (List.append_inj' tip rfl).2
      cases parentEq
      exact valid.header.previous_eq

end Replays

end Replay

end OurCoin
