import OurCoin.Node.Submission
import OurCoin.Tree.Commitment

/-!
# Blocks that two chains share

Two chains that store a block under one hash store the same entry, unless SHA-256 has a
collision among the strings that were hashed for their blocks (`Collide`).

* Every chain stores the genesis block (`Refines.genesis_stored`).
* `Refines.entry_eq_of_shared`: a record depends on the block and its ancestors only.
* `Refines.newEntry_of_shared`: a chain accepts a block of another one as soon as it has the
  parent, and then its entry is the same. `newEntry_of_orphan` is what happens before.
* Chains grow (`Refines.addBlock_grows`), and then their collisions stay (`Collide.mono`).
-/

set_option autoImplicit false

namespace OurCoin

open Raising

variable [Platform]

namespace Chain

variable {chain chain' after after' : Chain}

/-- A byte string that was hashed for a stored block. -/
def HashInput (chain : Chain) (input : Bytes) : Prop :=
  ∃ hash entry, chain.entries.get? hash = some entry ∧ entry.block.HashInput input

/-- Two different strings that were hashed for the blocks of two chains have one digest. -/
def Collide (chain chain' : Chain) : Prop :=
  ∃ x y, (chain.HashInput x ∨ chain'.HashInput x) ∧ (chain.HashInput y ∨ chain'.HashInput y) ∧
    x ≠ y ∧ sha256Digest x = sha256Digest y

/-- Nothing that was stored is lost. -/
def Grows (chain after : Chain) : Prop :=
  ∀ hash entry, chain.entries.get? hash = some entry → after.entries.get? hash = some entry

omit [Platform] in
theorem Grows.refl (chain : Chain) : chain.Grows chain := fun _ _ stored => stored

omit [Platform] in
theorem Grows.trans {last : Chain} (first : chain.Grows after) (second : after.Grows last) :
    chain.Grows last :=
  fun hash entry stored => second hash entry (first hash entry stored)

theorem Grows.hashInput (grows : chain.Grows after) {input : Bytes} (hashed : chain.HashInput input) :
    after.HashInput input := by
  obtain ⟨hash, entry, stored, hashed⟩ := hashed
  exact ⟨hash, entry, grows hash entry stored, hashed⟩

/-- What collides goes on colliding. -/
theorem Collide.mono (collide : chain.Collide chain') (grows : chain.Grows after)
    (grows' : chain'.Grows after') : after.Collide after' := by
  obtain ⟨x, y, xHashed, yHashed, differ, same⟩ := collide
  exact ⟨x, y, xHashed.imp grows.hashInput grows'.hashInput,
    yHashed.imp grows.hashInput grows'.hashInput, differ, same⟩

theorem Collide.symm (collide : chain.Collide chain') : chain'.Collide chain := by
  obtain ⟨x, y, xHashed, yHashed, differ, same⟩ := collide
  exact ⟨x, y, xHashed.symm, yHashed.symm, differ, same⟩

/-- Stored blocks of chains that do not collide. -/
theorem collisionFree_of_not_collide (apart : ¬ chain.Collide chain') {hash hash' : Bytes}
    {entry entry' : ChainEntry} (stored : chain.entries.get? hash = some entry)
    (stored' : chain'.entries.get? hash' = some entry') :
    CollisionFree fun x => entry.block.HashInput x ∨ entry'.block.HashInput x := by
  have hashed : ∀ {x : Bytes}, entry.block.HashInput x ∨ entry'.block.HashInput x →
      chain.HashInput x ∨ chain'.HashInput x := by
    intro x either
    rcases either with first | second
    · exact .inl ⟨hash, entry, stored, first⟩
    · exact .inr ⟨hash', entry', stored', second⟩
  intro x y xIn yIn same
  by_contra differ
  exact apart ⟨x, y, hashed xIn, hashed yIn, differ, same⟩

namespace Refines

/-! ## Entries -/

/-- Every branch starts with the genesis block, under its hash. -/
theorem exists_head (refines : chain.Refines) {hash : Bytes} {entry : ChainEntry}
    {path : List (Bytes × ChainEntry)} {branch : BranchState}
    (ends : chain.BranchTo hash entry path branch) : ∃ root rest,
      path = (genesisHash, root) :: rest ∧ chain.entries.get? genesisHash = some root := by
  obtain ⟨genesis, defined, head⟩ := ends.replays.head_eq
  rw [genesisBlock_testnet] at defined
  cases defined
  cases path with
  | nil => cases head
  | cons first rest =>
      obtain ⟨rootHash, root⟩ := first
      have isGenesis : root.block = testnetGenesis := by
        simpa [pathBlocks] using head
      obtain ⟨earlier, ends'⟩ := refines.of_prefix ends.lineage
        (show _ = [] ++ (rootHash, root) :: rest from rfl)
      have named := ends'.hash_ok
      rw [isGenesis, genesis_blockHash] at named
      cases Except.ok.inj named
      exact ⟨root, rest, rfl, ends'.stored⟩

/-- **Every chain stores the genesis block.** -/
theorem genesis_stored (refines : chain.Refines) :
    ∃ entry, chain.entries.get? genesisHash = some entry := by
  obtain ⟨path, branch, ends⟩ := refines.exists_branch chain.tipEntry_stored
  obtain ⟨root, rest, -, stored⟩ := refines.exists_head ends
  exact ⟨root, stored⟩

/-- **A record depends on the block and its ancestors only.** -/
theorem entry_eq_of_shared (refines : chain.Refines) (refines' : chain'.Refines)
    (apart : ¬ chain.Collide chain') {hash : Bytes} {entry entry' : ChainEntry}
    (stored : chain.entries.get? hash = some entry)
    (stored' : chain'.entries.get? hash = some entry') : entry = entry' := by
  have same : ∀ {hash : Bytes} {entry entry' : ChainEntry}, chain.entries.get? hash = some entry →
      chain'.entries.get? hash = some entry' → entry.block = entry'.block :=
    fun stored stored' => refines.block_eq_of_stored refines' stored stored'
      (collisionFree_of_not_collide apart stored stored')
  obtain ⟨path, branch, ends⟩ := refines.exists_branch stored
  obtain ⟨path', branch', ends'⟩ := refines'.exists_branch stored'
  apply ends.entry_eq_of_blocks refines refines' ends'
  exact ends.blocks_eq_of_same refines refines' same ends'

/-- **A chain accepts a block of another chain once it has the parent**, with the same
entry. -/
theorem newEntry_of_shared (refines : chain.Refines) (refines' : chain'.Refines)
    (apart : ¬ chain.Collide chain') {hash : Bytes} {entry : ChainEntry}
    (stored : chain.entries.get? hash = some entry) (missing : chain'.contains hash = false)
    (known : chain'.contains entry.block.header.previousBlockHash = true) :
    chain'.newEntry entry.block = .ok entry := by
  obtain ⟨path, branch, ends⟩ := refines.exists_branch stored
  rcases ends.exists_parent refines with ⟨isRoot, -⟩ |
    ⟨front, parent, earlier, split, named, parentEnds⟩
  · -- The genesis block is not missing.
    obtain ⟨genesis, defined, head⟩ := ends.replays.head_eq
    rw [genesisBlock_testnet] at defined
    cases defined
    subst isRoot
    have isGenesis : entry.block = testnetGenesis := by
      simpa [pathBlocks] using head
    have hashOk := ends.hash_ok
    rw [isGenesis, genesis_blockHash] at hashOk
    cases Except.ok.inj hashOk
    obtain ⟨entry', stored'⟩ := refines'.genesis_stored
    rw [contains_eq_true.mpr ⟨entry', stored'⟩] at missing
    cases missing
  · obtain ⟨parent', stored'⟩ := contains_eq_true.mp known
    have same := refines.entry_eq_of_shared refines' apart parentEnds.stored stored'
    subst same
    obtain ⟨path', branch', parentEnds'⟩ := refines'.exists_branch stored'
    have sameBlocks := parentEnds.blocks_eq_of_same refines refines'
      (fun stored stored' => congrArg ChainEntry.block
        (refines.entry_eq_of_shared refines' apart stored stored')) parentEnds'
    have sameBranch := (sameBlocks ▸ parentEnds.replays).unique parentEnds'.replays
    subst sameBranch
    subst split
    -- The block extends the branch of its parent.
    have extended : ∃ branch', replay testnet (pathBlocks front) = .ok branch' ∧
        branch'.extend testnet entry.block = .ok branch := by
      apply (replay_concat_eq_ok parentEnds.replays.ne_nil).mp
      rw [replay_eq_ok]
      have whole := ends.replays
      rw [pathBlocks_append] at whole
      exact whole
    obtain ⟨branch', replayed, extended⟩ := extended
    have sameEarlier := (replay_eq_ok.mp replayed).unique parentEnds.replays
    subst sameEarlier
    refine refines'.newEntry_eq_ok.mpr ⟨hash, parent, path', branch', branch, ends.hash_ok,
      not_contains.mp (by simp [missing]), parentEnds', BranchState.extend_eq_ok.mp extended, ?_⟩
    rw [← named]
    exact ends.entry_eq

end Refines

/-- A block whose parent is not stored is refused as an orphan. -/
theorem newEntry_of_orphan {block : Block} {hash : Bytes} (hashOk : block.blockHash = .ok hash)
    (missing : chain.contains hash = false)
    (orphan : chain.contains block.header.previousBlockHash = false) :
    chain.newEntry block = .error (chainError "block parent is unknown") := by
  have named : rethrow (reraiseAs ErrorClass.isValueError .chainError
      "block header is not canonically encodable") block.blockHash = .ok hash := by
    rw [hashOk]
    rfl
  have fresh : raiseIf (chain.contains hash = true) (chainError "block is already known") =
      .ok () := by
    simp [missing]
  have unknown : chain.entryOf block.header.previousBlockHash
      (chainError "block parent is unknown") = .error (chainError "block parent is unknown") := by
    rw [entryOf, not_contains.mp (by simp [orphan])]
  rw [newEntry, named, ok_bind, fresh, ok_bind]
  dsimp only
  rw [unknown]
  rfl

/-! ## Growth -/

/-- **Adding a block loses nothing**, and the work never shrinks. -/
theorem Refines.addBlock_grows (refines : chain.Refines) (block : Block) :
    chain.Grows (chain.addBlock block).2 ∧
      chain.cumulativeWork ≤ (chain.addBlock block).2.cumulativeWork := by
  have added_grows : ∀ {added : ChainEntry} {stored : Chain}, chain.newEntry block = .ok added →
      stored.entries = chain.entries.set added.record.blockHash added → chain.Grows stored := by
    intro added stored accepted entries hash entry found
    obtain ⟨hash', parent, path, branch, next, -, fresh, -, -, rfl⟩ :=
      refines.newEntry_eq_ok.mp accepted
    rw [entries, Dict.get?_set, if_neg, found]
    intro same
    have hashEq : (next.entry hash' (some block.header.previousBlockHash)).record.blockHash = hash' :=
      rfl
    rw [← same, hashEq, fresh] at found
    cases found
  rcases refines.addBlock_cases block with ⟨e, -, run⟩ | ⟨added, accepted, -, run⟩ |
    ⟨added, meeting, common, left, right, accepted, heavier, -, run⟩
  · rw [run]
    exact ⟨.refl chain, le_rfl⟩
  · rw [run]
    refine ⟨added_grows accepted rfl, ?_⟩
    rw [cumulativeWork, cumulativeWork, refines.tipEntry_store accepted]
  · rw [run]
    refine ⟨added_grows accepted rfl, ?_⟩
    have isTip : (chain.storeActive added).tipEntry = added :=
      tipEntry_eq (Dict.get?_set_self _ _ _)
    change _ ≤ (chain.storeActive added).tipEntry.record.cumulativeWork
    rw [isTip]
    exact heavier.le

/-- The work of a chain after a block was added is the greater of its own and that of the
block. -/
theorem Refines.addBlock_work (refines : chain.Refines) {block : Block} {update : ChainUpdate}
    (accepted : (chain.addBlock block).1 = .ok update) : ∃ added,
      chain.newEntry block = .ok added ∧
      (chain.addBlock block).2.entries.get? added.record.blockHash = some added ∧
      (chain.addBlock block).2.cumulativeWork =
        max chain.cumulativeWork added.record.cumulativeWork := by
  rcases refines.addBlock_cases block with ⟨e, -, run⟩ | ⟨added, newOk, lighter, run⟩ |
    ⟨added, meeting, common, left, right, newOk, heavier, -, run⟩
  · rw [run] at accepted
    cases accepted
  · rw [run]
    refine ⟨added, newOk, Dict.get?_set_self _ _ _, ?_⟩
    rw [cumulativeWork, cumulativeWork, refines.tipEntry_store newOk]
    exact (max_eq_left lighter).symm
  · rw [run]
    refine ⟨added, newOk, Dict.get?_set_self _ _ _, ?_⟩
    have isTip : (chain.storeActive added).tipEntry = added :=
      tipEntry_eq (Dict.get?_set_self _ _ _)
    change (chain.storeActive added).tipEntry.record.cumulativeWork = _
    rw [isTip]
    exact (max_eq_right heavier.le).symm

end Chain

end OurCoin
