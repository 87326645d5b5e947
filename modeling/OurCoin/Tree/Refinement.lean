import OurCoin.Tree.Replay
import OurCoin.Tree.Walks

/-!
# The block tree refines the replay of its branches

The invariant of the block tree (`Chain.Refines`): following parent hashes from any
stored entry leads to the genesis entry, the blocks on the way replay, and the entry
records exactly what their replay leads to (`Chain.BranchTo`).

* The initial chain satisfies it (`Refines.init`), and storing a block that passed
  every check keeps it (`Refines.store`).
* A block is accepted exactly when its parent is stored, its hash is new and the branch
  of its parent extends by it (`Refines.newEntry_eq_ok`).
* On such a chain the loops along parent hashes never fail. `Refines.addBlock_cases`
  lists everything a call of `add_block` can do: refuse the block and change nothing,
  store it on a side branch, or store it and switch the tip along the two paths between
  the tips.
-/

set_option autoImplicit false

namespace OurCoin

open Raising Ancestry

variable [Platform]

/-- The blocks on a path of entries. -/
def pathBlocks (path : List (Bytes × ChainEntry)) : List Block := path.map fun item => item.2.block

omit [Platform] in
theorem pathBlocks_append (front back : List (Bytes × ChainEntry)) :
    pathBlocks (front ++ back) = pathBlocks front ++ pathBlocks back :=
  List.map_append

/-- The entry that records a branch under a hash. -/
def BranchState.entry (branch : BranchState) (hash : Bytes) (parentHash : Option Bytes) :
    ChainEntry where
  block := branch.tip
  record := {
    blockHash := hash
    parentHash
    height := branch.tip.header.height
    cumulativeWork := branch.cumulativeWork
    totalSupplyAtoms := branch.totalSupplyAtoms }
  stateSnapshot := branch.state.snapshot

namespace Chain

/-- The stored branch that ends in an entry, and what it leads to. -/
structure BranchTo (chain : Chain) (hash : Bytes) (entry : ChainEntry)
    (path : List (Bytes × ChainEntry)) (branch : BranchState) : Prop where
  stored : chain.entries.get? hash = some entry
  lineage : chain.Lineage hash path
  replays : Replays testnet (pathBlocks path) branch
  entry_eq : entry = branch.entry hash entry.record.parentHash
  hash_ok : entry.block.blockHash = .ok hash

/-- **The invariant of the block tree.** Every entry ends a branch and records its
replay. -/
structure Refines (chain : Chain) : Prop where
  network_eq : chain.network = testnet
  exists_branch : ∀ {hash : Bytes} {entry : ChainEntry}, chain.entries.get? hash = some entry →
    ∃ path branch, chain.BranchTo hash entry path branch

variable {chain : Chain}

/-! ## Branches of a chain -/

namespace BranchTo

variable {hash : Bytes} {entry : ChainEntry} {path : List (Bytes × ChainEntry)}
  {branch : BranchState}

/-- The branch to an entry is determined by the stored entries. -/
theorem unique (ends : chain.BranchTo hash entry path branch)
    {path' : List (Bytes × ChainEntry)} {branch' : BranchState}
    (ends' : chain.BranchTo hash entry path' branch') : path = path' ∧ branch = branch' := by
  have samePath := ends.lineage.unique ends'.lineage
  subst samePath
  exact ⟨rfl, ends.replays.unique ends'.replays⟩

theorem block_eq (ends : chain.BranchTo hash entry path branch) : entry.block = branch.tip := by
  rw [ends.entry_eq]
  rfl

theorem height_eq (ends : chain.BranchTo hash entry path branch) :
    entry.record.height = branch.tip.header.height := by
  rw [ends.entry_eq]
  rfl

theorem blockHash_eq (ends : chain.BranchTo hash entry path branch) :
    entry.record.blockHash = hash := by
  rw [ends.entry_eq]
  rfl

theorem work_eq (ends : chain.BranchTo hash entry path branch) :
    entry.record.cumulativeWork = branch.cumulativeWork := by
  rw [ends.entry_eq]
  rfl

theorem supply_eq (ends : chain.BranchTo hash entry path branch) :
    entry.record.totalSupplyAtoms = branch.totalSupplyAtoms := by
  rw [ends.entry_eq]
  rfl

theorem snapshot_eq (ends : chain.BranchTo hash entry path branch) :
    entry.stateSnapshot = branch.state.snapshot := by
  rw [ends.entry_eq]
  rfl

theorem length_eq (ends : chain.BranchTo hash entry path branch) :
    (path.length : Int) = entry.record.height + 1 := by
  rw [ends.height_eq, ends.replays.tip_height, pathBlocks, List.length_map]

theorem exists_last (ends : chain.BranchTo hash entry path branch) :
    ∃ front, path = front ++ [(hash, entry)] := by
  obtain ⟨front, entry', split, found⟩ := ends.lineage.exists_last
  rw [ends.stored] at found
  cases found
  exact ⟨front, split⟩

/-- A branch stays where it is when the store grows. -/
theorem mono {chain' : Chain} (ends : chain.BranchTo hash entry path branch)
    (grows : ∀ hash entry, chain.entries.get? hash = some entry →
      chain'.entries.get? hash = some entry) : chain'.BranchTo hash entry path branch where
  stored := grows _ _ ends.stored
  lineage := ends.lineage.mono grows
  replays := ends.replays
  entry_eq := ends.entry_eq
  hash_ok := ends.hash_ok

end BranchTo

namespace Refines

variable {hash : Bytes} {entry : ChainEntry} {path : List (Bytes × ChainEntry)}
  {branch : BranchState}

/-- Every initial part of a branch is the branch to its last entry. -/
theorem of_prefix (refines : chain.Refines) (lineage : chain.Lineage hash path)
    {front back : List (Bytes × ChainEntry)} {hash' : Bytes} {entry' : ChainEntry}
    (split : path = front ++ (hash', entry') :: back) :
    ∃ earlier, chain.BranchTo hash' entry' (front ++ [(hash', entry')]) earlier := by
  have member : (hash', entry') ∈ path := by rw [split]; simp
  have stored := lineage.find_of_mem member
  obtain ⟨path', earlier, ends⟩ := refines.exists_branch stored
  have same := ends.lineage.unique (lineage.of_prefix split)
  exact ⟨earlier, same ▸ ends⟩

/-- **Heights count the entries of a branch.** -/
theorem countsHeights (refines : chain.Refines) (lineage : chain.Lineage hash path) :
    CountsHeights path := by
  intro front back item split
  obtain ⟨hash', entry'⟩ := item
  obtain ⟨earlier, ends⟩ := refines.of_prefix lineage split
  have length := ends.length_eq
  rw [List.length_append, List.length_singleton] at length
  push_cast at length ⊢
  omega

/-- The state of a stored entry can be restored and agrees with the replay. -/
theorem restores (refines : chain.Refines) (ends : chain.BranchTo hash entry path branch) :
    ∃ restored, AccountState.fromSnapshot entry.stateSnapshot chain.network = .ok restored ∧
      restored.Agrees branch.state := by
  rw [ends.snapshot_eq, refines.network_eq, ← ends.replays.network_eq]
  exact AccountState.fromSnapshot_snapshot ends.replays.wellFormed

/-- **The retarget window depends on the branch only.** -/
theorem expectedTargetForChild_eq (refines : chain.Refines)
    (ends : chain.BranchTo hash entry path branch) :
    chain.expectedTargetForChild hash = branch.expectedTarget := by
  rw [expectedTargetForChild, BranchState.expectedTarget, entryOf_eq_ok.mpr ends.stored, ok_bind,
    ends.height_eq, ends.block_eq]
  congr 1
  funext _
  simp only
  split
  · rfl
  · rename_i boundary
    -- The child opens a new window, so the branch has at least 120 entries.
    have tall := ends.replays.height_nonneg
    have length := ends.length_eq
    rw [ends.height_eq] at length
    rw [difficultyAdjustmentInterval] at boundary ⊢
    obtain ⟨index, position⟩ :
        ∃ index : Nat, branch.tip.header.height + 1 - 120 = index :=
      ⟨(branch.tip.header.height + 1 - 120).toNat, by omega⟩
    have inside : index < path.length := by omega
    have split : path = path.take index ++ path[index] :: path.drop (index + 1) := by simp
    have frontLength : (path.take index).length = index := by
      rw [List.length_take]
      omega
    have window : chain.ancestorAtHeight hash (path.take index).length = .ok path[index].2 :=
      ancestorAtHeight_eq (split ▸ ends.lineage) (split ▸ refines.countsHeights ends.lineage)
    rw [frontLength] at window
    rw [position, window, ok_bind, ends.replays.blocks_eq, Int.toNat_natCast, pathBlocks,
      List.getElem?_map, List.getElem?_eq_getElem inside]
    rfl

/-! ## Accepting a block -/

/-- **A block is accepted exactly when its hash is new, its parent is stored and the
branch of its parent extends by it.** The new entry records the extended branch. -/
theorem newEntry_eq_ok (refines : chain.Refines) {block : Block} {added : ChainEntry} :
    chain.newEntry block = .ok added ↔
      ∃ hash parent path branch next, block.blockHash = .ok hash ∧
        chain.entries.get? hash = none ∧
        chain.BranchTo block.header.previousBlockHash parent path branch ∧
        branch.Extends testnet block next ∧
        added = next.entry hash (some block.header.previousBlockHash) := by
  simp only [newEntry, bind_eq_ok, rethrow_eq_ok, raiseIf_eq_ok, exists_const, pure_eq_ok,
    entryOf_eq_ok, validateAndExecuteBlock_eq_ok, not_contains]
  constructor
  · rintro ⟨hash, hashOk, fresh, parent, parentStored, restored, restoredOk, target, targetOk,
      execution, valid, work, workOk, rfl⟩
    obtain ⟨path, branch, ends⟩ := refines.exists_branch parentStored
    obtain ⟨restored', restoredOk', same⟩ := refines.restores ends
    rw [restoredOk] at restoredOk'
    cases restoredOk'
    rw [refines.network_eq, ends.block_eq, ends.supply_eq] at valid
    rw [refines.expectedTargetForChild_eq ends] at targetOk
    obtain ⟨after, valid', sameAfter⟩ := valid.agrees same
    refine ⟨hash, parent, path, branch, ⟨branch.blocks ++ [block], block, after,
      execution.totalSupplyAtoms, branch.cumulativeWork + work⟩, hashOk, fresh, ends,
      ⟨⟨target, _, targetOk, valid', rfl, rfl⟩, ⟨work, workOk, rfl⟩, rfl, rfl⟩, ?_⟩
    rw [BranchState.entry, ends.work_eq, sameAfter.snapshot_eq]
  · rintro ⟨hash, parent, path, branch, next, hashOk, fresh, ends,
      ⟨⟨target, execution, targetOk, valid, stateEq, supplyEq⟩, ⟨work, workOk, workEq⟩, -, tipEq⟩,
      rfl⟩
    obtain ⟨restored, restoredOk, same⟩ := refines.restores ends
    obtain ⟨after, valid', sameAfter⟩ := valid.agrees same.symm
    refine ⟨hash, hashOk, fresh, parent, ends.stored, restored, restoredOk, target, ?_,
      { execution with state := after }, ?_, work, workOk, ?_⟩
    · rw [refines.expectedTargetForChild_eq ends, targetOk]
    · rw [refines.network_eq, ends.block_eq, ends.supply_eq]
      exact valid'
    · rw [BranchState.entry, tipEq, stateEq, supplyEq, workEq, ends.work_eq, sameAfter.snapshot_eq]

/-- **Storing an accepted block keeps the invariant**, whichever tip is active. -/
theorem store (refines : chain.Refines) {block : Block} {added : ChainEntry}
    (accepted : chain.newEntry block = .ok added) {chain' : Chain}
    (network_eq : chain'.network = chain.network)
    (entries_eq : chain'.entries = chain.entries.set added.record.blockHash added) :
    chain'.Refines := by
  obtain ⟨hash, parent, path, branch, next, hashOk, fresh, ends, extended, rfl⟩ :=
    refines.newEntry_eq_ok.mp accepted
  have hashEq : (next.entry hash (some block.header.previousBlockHash)).record.blockHash = hash := rfl
  rw [hashEq] at entries_eq
  have grows : ∀ hash entry, chain.entries.get? hash = some entry →
      chain'.entries.get? hash = some entry := by
    intro hash' entry' found
    rw [entries_eq, Dict.get?_set, if_neg, found]
    rintro rfl
    rw [fresh] at found
    cases found
  refine ⟨network_eq.trans refines.network_eq, ?_⟩
  intro hash' entry' found
  rw [entries_eq, Dict.get?_set] at found
  split at found
  · rename_i same
    subst same
    cases found
    refine ⟨path ++ [(hash, next.entry hash (some block.header.previousBlockHash))], next, ?_⟩
    have here : chain'.entries.get? hash =
        some (next.entry hash (some block.header.previousBlockHash)) := by
      rw [entries_eq, Dict.get?_set_self]
    refine ⟨here, .child here rfl (ends.mono grows).lineage, ?_, rfl, ?_⟩
    · rw [pathBlocks_append]
      have blockEq : (next.entry hash (some block.header.previousBlockHash)).block = block :=
        extended.tip_eq
      simp only [pathBlocks, List.map_cons, List.map_nil, blockEq]
      exact .extend ends.replays (BranchState.extend_eq_ok.mpr extended)
    · rw [show (next.entry hash (some block.header.previousBlockHash)).block = block from
        extended.tip_eq]
      exact hashOk
  · obtain ⟨path', branch', ends'⟩ := refines.exists_branch found
    exact ⟨path', branch', ends'.mono grows⟩

/-! ## The initial chain -/

/-- The initial chain stores the genesis entry only, and satisfies the invariant. -/
theorem init (started : Chain.init testnet = .ok chain) : chain.Refines := by
  simp only [Chain.init, bind_eq_ok, raiseIf_eq_ok, exists_const, pure_eq_ok,
    AccountState.new_eq_ok] at started
  obtain ⟨-, genesis, defined, state, stateOk, execution, valid, hash, hashOk, work, workOk, rfl⟩ :=
    started
  refine ⟨rfl, ?_⟩
  intro hash' entry' found
  rw [Dict.get?_set] at found
  split at found
  · rename_i same
    subst same
    cases found
    have height := (genesisBlock_ok defined).2.1
    have replayed : replayGenesis testnet genesis =
        .ok ⟨[genesis], genesis, execution.state, execution.totalSupplyAtoms, work⟩ := by
      simp only [replayGenesis, bind_eq_ok, pure_eq_ok, AccountState.new_eq_ok]
      exact ⟨state, stateOk, execution, valid, work, workOk, rfl⟩
    refine ⟨_, _, by simp, .root (Dict.get?_set_self _ _ _) rfl, .genesis replayed, ?_, hashOk⟩
    rw [BranchState.entry, height]
  · cases found

end Refines

/-! ## Adding a block -/

omit [Platform] in
theorem tipEntry_stored (chain : Chain) :
    chain.entries.get? chain.activeTipHash = some chain.tipEntry := by
  rw [tipEntry, Option.some_get]

omit [Platform] in
theorem tipEntry_eq {entry : ChainEntry}
    (stored : chain.entries.get? chain.activeTipHash = some entry) : chain.tipEntry = entry := by
  rw [tipEntry_stored] at stored
  exact Option.some.inj stored

/-- Two stored branches and their last common entry. -/
structure Forks (chain : Chain) (oldHash newHash meeting : Bytes)
    (common left right : List (Bytes × ChainEntry)) : Prop where
  old_lineage : chain.Lineage oldHash (common ++ left)
  new_lineage : chain.Lineage newHash (common ++ right)
  meets : ∃ front here, common = front ++ [(meeting, here)]
  differ : ∀ x ∈ left.head?, ∀ y ∈ right.head?, x ≠ y

/-- **Any two stored branches have a last common entry**, because they start at the same
genesis entry. -/
theorem Refines.exists_forks (refines : chain.Refines) {oldHash newHash : Bytes}
    {oldPath newPath : List (Bytes × ChainEntry)} (oldLineage : chain.Lineage oldHash oldPath)
    (newLineage : chain.Lineage newHash newPath) :
    ∃ meeting common left right, chain.Forks oldHash newHash meeting common left right := by
  obtain ⟨common, left, right, rfl, rfl, differ⟩ := exists_fork oldPath newPath
  have rooted : ∀ {hash : Bytes} {path : List (Bytes × ChainEntry)}, chain.Lineage hash path →
      ∃ root ∈ path.head?, ∃ genesis, genesisBlock testnet = .ok genesis ∧
        genesis.blockHash = .ok root.1 ∧ chain.entries.get? root.1 = some root.2 := by
    intro hash path lineage
    cases path with
    | nil => exact absurd rfl lineage.ne_nil
    | cons root rest =>
        have first : root :: rest = [] ++ (root.1, root.2) :: rest := rfl
        obtain ⟨branch, ends⟩ := refines.of_prefix lineage first
        obtain ⟨genesis, defined, head⟩ := ends.replays.head_eq
        have isRoot : root.2.block = genesis := Option.some.inj head
        exact ⟨root, rfl, genesis, defined, isRoot ▸ ends.hash_ok, ends.stored⟩
  cases common using List.reverseRecOn with
  | nil =>
      -- The branches cannot differ at once: both start with the genesis entry.
      obtain ⟨root, rootHead, genesis, defined, hashOk, stored⟩ := rooted oldLineage
      obtain ⟨root', rootHead', genesis', defined', hashOk', stored'⟩ := rooted newLineage
      rw [defined] at defined'
      cases defined'
      rw [hashOk] at hashOk'
      have sameKey : root.1 = root'.1 := Except.ok.inj hashOk'
      rw [sameKey, stored'] at stored
      have same : root = root' := Prod.ext sameKey (Option.some.inj stored).symm
      exact absurd same (differ root rootHead root' rootHead')
  | append_singleton common last =>
      exact ⟨last.1, common ++ [last], left, right, oldLineage, newLineage, ⟨common, last.2, rfl⟩,
        differ⟩

/-- On a chain that satisfies the invariant the reorganization paths are the two
branches above their last common entry. -/
theorem Refines.reorganizationPaths_eq (refines : chain.Refines) {oldHash newHash meeting : Bytes}
    {common left right : List (Bytes × ChainEntry)}
    (forks : chain.Forks oldHash newHash meeting common left right) :
    chain.reorganizationPaths oldHash newHash =
      .ok (meeting, (left.map Prod.fst).reverse, right.map Prod.fst) := by
  obtain ⟨front, here, rfl⟩ := forks.meets
  have oldLineage := forks.old_lineage
  have newLineage := forks.new_lineage
  rw [List.append_assoc, List.singleton_append] at oldLineage newLineage
  exact Chain.reorganizationPaths_eq oldLineage newLineage (refines.countsHeights oldLineage)
    (refines.countsHeights newLineage) forks.differ

/-- **Everything a call of `add_block` can do** on a chain that satisfies the
invariant. -/
theorem Refines.addBlock_cases (refines : chain.Refines) (block : Block) :
    (∃ e, chain.newEntry block = .error e ∧ chain.addBlock block = (.error e, chain)) ∨
    (∃ added, chain.newEntry block = .ok added ∧
      added.record.cumulativeWork ≤ chain.cumulativeWork ∧
      chain.addBlock block =
        (.ok (.side added.record.blockHash chain.activeTipHash), chain.store added)) ∨
    (∃ added meeting common left right, chain.newEntry block = .ok added ∧
      chain.cumulativeWork < added.record.cumulativeWork ∧
      (chain.storeActive added).Forks chain.activeTipHash added.record.blockHash meeting
        common left right ∧
      chain.addBlock block =
        (.ok (.active added.record.blockHash meeting (left.map Prod.fst).reverse
          (right.map Prod.fst)), chain.storeActive added)) := by
  rw [addBlock]
  cases accepted : chain.newEntry block with
  | error e => exact .inl ⟨e, rfl, rfl⟩
  | ok added =>
      right
      have stored : (chain.store added).Refines := refines.store accepted rfl rfl
      obtain ⟨hash, parent, path, branch, next, hashOk, fresh, ends, extended, addedEq⟩ :=
        refines.newEntry_eq_ok.mp accepted
      have hashEq : added.record.blockHash = hash := by
        rw [addedEq]
        rfl
      -- The tip is an older entry, so storing the new one does not replace it.
      have tipKept : (chain.store added).tipEntry = chain.tipEntry := by
        refine tipEntry_eq ?_
        have tip := chain.tipEntry_stored
        rw [Chain.store, Dict.get?_set, if_neg, tip]
        intro same
        rw [← same, hashEq, fresh] at tip
        cases tip
      simp only [tipKept]
      split
      · rename_i heavier
        right
        have newStored : (chain.store added).entries.get? added.record.blockHash = some added :=
          Dict.get?_set_self _ _ _
        obtain ⟨newPath, newBranch, newEnds⟩ := stored.exists_branch newStored
        obtain ⟨oldPath, oldBranch, oldEnds⟩ :=
          stored.exists_branch (chain.store added).tipEntry_stored
        obtain ⟨meeting, common, left, right, forks⟩ :=
          stored.exists_forks oldEnds.lineage newEnds.lineage
        rw [stored.reorganizationPaths_eq forks]
        exact ⟨added, meeting, common, left, right, rfl, heavier,
          ⟨forks.old_lineage, forks.new_lineage, forks.meets, forks.differ⟩, rfl⟩
      · rename_i lighter
        left
        exact ⟨added, rfl, by rw [cumulativeWork]; omega, rfl⟩

/-- **The invariant holds after every call**, whether it raised or not. -/
theorem Refines.addBlock (refines : chain.Refines) (block : Block) :
    (chain.addBlock block).2.Refines := by
  rcases refines.addBlock_cases block with ⟨e, -, same⟩ | ⟨added, accepted, -, run⟩ |
    ⟨added, meeting, common, left, right, accepted, -, -, run⟩
  · rw [same]
    exact refines
  · rw [run]
    exact refines.store accepted rfl rfl
  · rw [run]
    exact refines.store accepted rfl rfl

/-! ## Reachable chains -/

/-- The chains that calls of `add_block` can lead to from the initial chain. -/
inductive Reachable : Chain → Prop
  | init {chain : Chain} : Chain.init testnet = .ok chain → Reachable chain
  | addBlock {chain : Chain} (block : Block) : Reachable chain → Reachable (chain.addBlock block).2

/-- **Every reachable chain refines the replay of its branches.** -/
theorem Reachable.refines (reachable : Reachable chain) : chain.Refines := by
  induction reachable with
  | init started => exact .init started
  | addBlock block _ ih => exact ih.addBlock block

end Chain

end OurCoin
