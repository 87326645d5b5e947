import OurCoin.Library.FirstMaximum
import OurCoin.Tree.Genesis

/-!
# Fork choice and convergence

The active tip is the earliest accepted block of greatest cumulative work, and what a
chain stores depends on the set of blocks it accepted and not on their order.

* `Run accepted chain` follows the calls of `add_block`, with the blocks that were
  accepted in the order in which they were. The store lists them in that order after
  the genesis block (`Run.blocks_eq`).
* A strict comparison keeps the first maximum (`Run.tip_firstMax`), and every block adds
  at least one unit of work (`workForTarget_pos`), so a child of the tip always takes
  over.
* An entry is determined by the blocks of its branch (`BranchTo.entry_eq_of_blocks`), and
  the branch by the hashes in the headers, so two chains with the same blocks have the
  same entries (`entries_agree`).
-/

set_option autoImplicit false

namespace OurCoin

open Raising

/-- Every header stands for at least one unit of work. -/
theorem workForTarget_pos {target work : Int} (run : workForTarget target = .ok work) :
    1 ≤ work := by
  simp only [workForTarget, bind_eq_ok, raiseIf_eq_ok, exists_const, pure_eq_ok, not_not] at run
  obtain ⟨⟨positive, bounded⟩, rfl⟩ := run
  rw [maxTarget] at bounded
  exact (Int.le_ediv_iff_mul_le (by omega)).mpr (by omega)

variable [Platform]

namespace Chain

variable {chain chain' : Chain}

/-! ## Runs -/

/-- The calls of `add_block` from the initial chain, with the accepted blocks in order. -/
inductive Run : List Block → Chain → Prop
  | init {chain : Chain} : Chain.init testnet = .ok chain → Run [] chain
  | accept {accepted : List Block} {chain : Chain} {block : Block} {update : ChainUpdate} :
      Run accepted chain → (chain.addBlock block).1 = .ok update →
        Run (accepted ++ [block]) (chain.addBlock block).2
  | reject {accepted : List Block} {chain : Chain} {block : Block} {e : Raised} :
      Run accepted chain → (chain.addBlock block).1 = .error e →
        Run accepted (chain.addBlock block).2

theorem Run.reachable {accepted : List Block} (run : Run accepted chain) : chain.Reachable := by
  induction run with
  | init started => exact .init started
  | accept _ _ ih => exact .addBlock _ ih
  | reject _ _ ih => exact .addBlock _ ih

theorem Reachable.exists_run (reachable : chain.Reachable) : ∃ accepted, Run accepted chain := by
  induction reachable with
  | init started => exact ⟨[], .init started⟩
  | @addBlock chain block _ ih =>
      obtain ⟨accepted, run⟩ := ih
      cases outcome : (chain.addBlock block).1 with
      | ok update => exact ⟨_, .accept run outcome⟩
      | error e => exact ⟨_, .reject run outcome⟩

/-- A refused block changes nothing. -/
theorem Refines.addBlock_error (refines : chain.Refines) {block : Block} {e : Raised}
    (refused : (chain.addBlock block).1 = .error e) : (chain.addBlock block).2 = chain := by
  rcases refines.addBlock_cases block with ⟨e', -, outcome⟩ | ⟨added, -, -, outcome⟩ |
    ⟨added, meeting, common, left, right, -, -, -, outcome⟩
  · rw [outcome]
  · rw [outcome] at refused
    cases refused
  · rw [outcome] at refused
    cases refused

/-- What an accepted block does: its entry is stored last, and it is the new tip exactly
when its branch has more work. -/
theorem Refines.addBlock_ok (refines : chain.Refines) {block : Block} {update : ChainUpdate}
    (accepted : (chain.addBlock block).1 = .ok update) :
    ∃ added, chain.newEntry block = .ok added ∧
      (chain.addBlock block).2.entries.items =
        chain.entries.items ++ [(added.record.blockHash, added)] ∧
      added.block = block ∧
      (update.becameActive = true ↔ chain.cumulativeWork < added.record.cumulativeWork) ∧
      (chain.addBlock block).2.activeTipHash =
        (if update.becameActive then added.record.blockHash else chain.activeTipHash) := by
  have fresh : ∀ {added : ChainEntry}, chain.newEntry block = .ok added →
      chain.entries.get? added.record.blockHash = none ∧ added.block = block := by
    intro added newOk
    obtain ⟨hash, parent, path, branch, next, -, fresh, -, extended, rfl⟩ :=
      refines.newEntry_eq_ok.mp newOk
    exact ⟨fresh, extended.tip_eq⟩
  rcases refines.addBlock_cases block with ⟨e, -, outcome⟩ | ⟨added, newOk, light, outcome⟩ |
    ⟨added, meeting, common, left, right, newOk, heavy, -, outcome⟩
  · rw [outcome] at accepted
    cases accepted
  · rw [outcome] at accepted ⊢
    cases accepted
    refine ⟨added, newOk, Dict.set_items_of_fresh (fresh newOk).1 added, (fresh newOk).2, ?_, rfl⟩
    simp only [ChainUpdate.side, Bool.false_eq_true, false_iff]
    omega
  · rw [outcome] at accepted ⊢
    cases accepted
    refine ⟨added, newOk, Dict.set_items_of_fresh (fresh newOk).1 added, (fresh newOk).2, ?_, rfl⟩
    simp only [ChainUpdate.active, true_iff]
    exact heavy

/-- A child of the tip has more work than the tip. -/
theorem Refines.heavier_of_extends_tip (refines : chain.Refines) {block : Block}
    {added : ChainEntry} (accepted : chain.newEntry block = .ok added)
    (onTip : block.header.previousBlockHash = chain.activeTipHash) :
    chain.cumulativeWork < added.record.cumulativeWork := by
  obtain ⟨hash, parent, path, branch, next, -, -, ends, extended, rfl⟩ :=
    refines.newEntry_eq_ok.mp accepted
  obtain ⟨work, workOk, workEq⟩ := extended.exists_work
  have positive := workForTarget_pos workOk
  have isTip : chain.tipEntry = parent := tipEntry_eq (onTip ▸ ends.stored)
  rw [cumulativeWork, isTip, ends.work_eq]
  simp only [BranchState.entry, workEq]
  omega

/-! ## The first maximum -/

/-- The initial chain stores the genesis block only. -/
theorem init_items (started : Chain.init testnet = .ok chain) :
    genesisBlock testnet = .ok chain.tip ∧
      chain.entries.items = [(chain.activeTipHash, chain.tipEntry)] := by
  simp only [Chain.init, bind_eq_ok, raiseIf_eq_ok, exists_const, pure_eq_ok] at started
  obtain ⟨-, genesis, defined, state, -, execution, -, hash, -, work, -, created⟩ := started
  have items : chain.entries.items = [(chain.activeTipHash, ⟨genesis, ⟨hash, none, 0, work,
      execution.totalSupplyAtoms⟩, execution.state.snapshot⟩)] := by
    rw [← created]
    rfl
  have tip := tipEntry_eq (Dict.get?_eq_some.mpr (by rw [items]; exact List.mem_singleton_self _))
  rw [Chain.tip, tip]
  exact ⟨defined, items⟩

/-- The cumulative work of a stored item. -/
def itemWork (item : Bytes × ChainEntry) : Int := item.2.record.cumulativeWork

/-- **The store lists the accepted blocks in order.** -/
theorem Run.blocks_eq {accepted : List Block} (run : Run accepted chain) :
    ∃ genesis, genesisBlock testnet = .ok genesis ∧
      chain.entries.items.map (fun item => item.2.block) = genesis :: accepted := by
  induction run with
  | init started =>
      obtain ⟨defined, items⟩ := init_items started
      exact ⟨_, defined, by rw [items]; rfl⟩
  | @accept accepted chain block update before outcome ih =>
      obtain ⟨genesis, defined, blocks⟩ := ih
      obtain ⟨added, -, items, blockEq, -⟩ := before.reachable.refines.addBlock_ok outcome
      refine ⟨genesis, defined, ?_⟩
      rw [items, List.map_append, blocks, List.map_singleton, blockEq, List.cons_append]
  | @reject accepted chain block e before outcome ih =>
      rw [before.reachable.refines.addBlock_error outcome]
      exact ih

/-- **The active tip is the earliest entry of greatest cumulative work.** -/
theorem Run.tip_firstMax {accepted : List Block} (run : Run accepted chain) :
    IsFirstMax itemWork chain.entries.items (chain.activeTipHash, chain.tipEntry) := by
  induction run with
  | init started =>
      rw [(init_items started).2]
      exact IsFirstMax.singleton _
  | @accept accepted chain block update before outcome ih =>
      obtain ⟨added, newOk, items, blockEq, active, tip⟩ :=
        before.reachable.refines.addBlock_ok outcome
      have stored : ((chain.addBlock block).2.activeTipHash,
          (chain.addBlock block).2.tipEntry) ∈ (chain.addBlock block).2.entries.items :=
        Dict.get?_eq_some.mp (tipEntry_stored _)
      have nodup := (chain.addBlock block).2.entries.nodupKeys
      rw [items] at stored nodup ⊢
      by_cases became : update.becameActive = true
      · rw [if_pos became] at tip
        have same : (chain.addBlock block).2.tipEntry = added := by
          refine tipEntry_eq (Dict.get?_eq_some.mpr ?_)
          rw [items, tip]
          simp
        rw [tip, same]
        exact ih.concat_of_lt (active.mp became)
      · rw [if_neg became] at tip
        have same : (chain.addBlock block).2.tipEntry = chain.tipEntry := by
          refine tipEntry_eq (Dict.get?_eq_some.mpr ?_)
          rw [items, tip]
          exact List.mem_append_left _ (Dict.get?_eq_some.mp chain.tipEntry_stored)
        rw [tip, same]
        refine ih.concat_of_le ?_
        have light := mt active.mpr became
        rw [cumulativeWork] at light
        simp only [itemWork]
        omega
  | @reject accepted chain block e before outcome ih =>
      rw [before.reachable.refines.addBlock_error outcome]
      exact ih

/-! ## Convergence -/

namespace BranchTo

variable {hash : Bytes} {entry entry' : ChainEntry} {path path' : List (Bytes × ChainEntry)}
  {branch branch' : BranchState}

/-- The parent of an entry is the hash in its header, and only the genesis entry has
none. -/
theorem exists_parent (refines : chain.Refines) (ends : chain.BranchTo hash entry path branch) :
    (path = [(hash, entry)] ∧ entry.record.parentHash = none) ∨
    (∃ front parent earlier, path = front ++ [(hash, entry)] ∧
      entry.record.parentHash = some entry.block.header.previousBlockHash ∧
      chain.BranchTo entry.block.header.previousBlockHash parent front earlier) := by
  obtain ⟨front, rfl⟩ := ends.exists_last
  cases front with
  | nil => exact .inl ⟨rfl, ends.lineage.root_of_cons rfl⟩
  | cons first rest =>
      right
      obtain ⟨parentHash, parent, hasParent, parentStored, parentLineage⟩ :=
        ends.lineage.of_concat (by simp)
      obtain ⟨front', parentBranch, parentEnds⟩ := refines.exists_branch parentStored
      have samePath := parentEnds.lineage.unique parentLineage
      subst samePath
      obtain ⟨before, split⟩ := parentEnds.exists_last
      have named : parent.block.blockHash = .ok entry.block.header.previousBlockHash := by
        have lastTwo : pathBlocks (first :: rest ++ [(hash, entry)]) =
            pathBlocks before ++ parent.block :: entry.block :: [] := by
          rw [split, pathBlocks_append, pathBlocks_append, List.append_assoc]
          rfl
        exact ends.replays.previous_eq lastTwo
      rw [parentEnds.hash_ok] at named
      cases Except.ok.inj named
      exact ⟨_, parent, parentBranch, rfl, hasParent, parentEnds⟩

/-- **An entry is determined by the blocks of its branch.** -/
theorem entry_eq_of_blocks (refines : chain.Refines) (refines' : chain'.Refines)
    (ends : chain.BranchTo hash entry path branch) (ends' : chain'.BranchTo hash entry' path' branch')
    (same : pathBlocks path = pathBlocks path') : entry = entry' := by
  have sameBranch := (same ▸ ends.replays).unique ends'.replays
  subst sameBranch
  have sameBlock : entry.block = entry'.block := ends.block_eq.trans ends'.block_eq.symm
  have sameLength : path.length = path'.length := by
    simpa [pathBlocks] using congrArg List.length same
  have sameParent : entry.record.parentHash = entry'.record.parentHash := by
    rcases ends.exists_parent refines with ⟨rfl, root⟩ | ⟨front, parent, earlier, rfl, named, parentEnds⟩
    · rcases ends'.exists_parent refines' with ⟨rfl, root'⟩ |
        ⟨front', parent', earlier', rfl, named', parentEnds'⟩
      · rw [root, root']
      · have positive := List.length_pos_iff.mpr parentEnds'.lineage.ne_nil
        simp only [List.length_append, List.length_singleton] at sameLength
        omega
    · rcases ends'.exists_parent refines' with ⟨rfl, root'⟩ |
        ⟨front', parent', earlier', rfl, named', parentEnds'⟩
      · have positive := List.length_pos_iff.mpr parentEnds.lineage.ne_nil
        simp only [List.length_append, List.length_singleton] at sameLength
        omega
      · rw [named, named', sameBlock]
  rw [ends.entry_eq, ends'.entry_eq, sameParent]

/-- Chains that store the same blocks under the same hashes have the same branches. -/
theorem blocks_eq_of_same (refines : chain.Refines) (refines' : chain'.Refines)
    (same : ∀ {hash : Bytes} {entry entry' : ChainEntry}, chain.entries.get? hash = some entry →
      chain'.entries.get? hash = some entry' → entry.block = entry'.block)
    (ends : chain.BranchTo hash entry path branch)
    (ends' : chain'.BranchTo hash entry' path' branch') : pathBlocks path = pathBlocks path' := by
  have sameBlock := same ends.stored ends'.stored
  have sameHeight : (path.length : Int) = path'.length := by
    rw [ends.length_eq, ends'.length_eq, ends.height_eq, ends'.height_eq, ← ends.block_eq,
      ← ends'.block_eq, sameBlock]
  induction path using List.reverseRecOn generalizing hash entry entry' path' branch branch' with
  | nil => exact absurd rfl ends.lineage.ne_nil
  | append_singleton front last ih =>
      rcases ends.exists_parent refines with ⟨eq, -⟩ | ⟨front₁, parent, earlier, eq, -, parentEnds⟩
      · rcases ends'.exists_parent refines' with ⟨eq', -⟩ |
          ⟨front', parent', earlier', eq', -, parentEnds'⟩
        · rw [eq, eq', pathBlocks, pathBlocks, List.map_singleton, List.map_singleton, sameBlock]
        · have positive := List.length_pos_iff.mpr parentEnds'.lineage.ne_nil
          rw [eq, eq', List.length_append, List.length_singleton, List.length_singleton] at sameHeight
          omega
      · rcases ends'.exists_parent refines' with ⟨eq', -⟩ |
          ⟨front', parent', earlier', eq', -, parentEnds'⟩
        · have positive := List.length_pos_iff.mpr parentEnds.lineage.ne_nil
          rw [eq, eq', List.length_append, List.length_singleton, List.length_singleton] at sameHeight
          omega
        · obtain ⟨frontEq, -⟩ := List.append_inj' eq rfl
          subst frontEq
          rw [eq, eq', List.length_append, List.length_append, List.length_singleton,
            List.length_singleton] at sameHeight
          rw [← sameBlock] at parentEnds'
          rw [eq, eq', pathBlocks_append, pathBlocks_append,
            ih parentEnds parentEnds' (same parentEnds.stored parentEnds'.stored) (by omega),
            show pathBlocks [(hash, entry)] = pathBlocks [(hash, entry')] by
              simp only [pathBlocks, List.map_cons, List.map_nil, sameBlock]]

end BranchTo

/-- A block that both chains accepted is stored under the same hash in both. -/
theorem Run.exists_same_block {accepted accepted' : List Block} (run : Run accepted chain)
    (run' : Run accepted' chain') (same : ∀ block, block ∈ accepted → block ∈ accepted')
    {hash : Bytes} {entry : ChainEntry} (stored : chain.entries.get? hash = some entry) :
    ∃ entry', chain'.entries.get? hash = some entry' ∧ entry.block = entry'.block := by
  obtain ⟨genesis, defined, blocks⟩ := run.blocks_eq
  obtain ⟨genesis', defined', blocks'⟩ := run'.blocks_eq
  rw [defined] at defined'
  cases defined'
  have listed : entry.block ∈ genesis :: accepted' := by
    have member : entry.block ∈ chain.entries.items.map (fun item => item.2.block) :=
      List.mem_map.mpr ⟨(hash, entry), Dict.get?_eq_some.mp stored, rfl⟩
    rw [blocks] at member
    rcases List.mem_cons.mp member with isGenesis | wasAccepted
    · exact List.mem_cons.mpr (.inl isGenesis)
    · exact List.mem_cons_of_mem _ (same _ wasAccepted)
  rw [← blocks'] at listed
  obtain ⟨⟨hash', entry'⟩, member', blockEq⟩ := List.mem_map.mp listed
  have stored' := Dict.get?_eq_some.mpr member'
  obtain ⟨path, branch, ends⟩ := run.reachable.refines.exists_branch stored
  obtain ⟨path', branch', ends'⟩ := run'.reachable.refines.exists_branch stored'
  have sameHash : hash' = hash := by
    have named := ends'.hash_ok
    rw [blockEq, ends.hash_ok] at named
    exact (Except.ok.inj named).symm
  subst sameHash
  exact ⟨entry', stored', blockEq.symm⟩

/-- **Chains that accepted the same blocks store the same entries.** -/
theorem Run.entries_agree {accepted accepted' : List Block} (run : Run accepted chain)
    (run' : Run accepted' chain') (same : ∀ block, block ∈ accepted ↔ block ∈ accepted') :
    chain.entries.Agrees chain'.entries := by
  have found : ∀ {chain chain' : Chain} {accepted accepted' : List Block}, Run accepted chain →
      Run accepted' chain' → (∀ block, block ∈ accepted → block ∈ accepted') →
      ∀ {hash : Bytes} {entry : ChainEntry}, chain.entries.get? hash = some entry →
        chain'.entries.get? hash = some entry := by
    intro chain chain' accepted accepted' run run' same hash entry stored
    have refines := run.reachable.refines
    have refines' := run'.reachable.refines
    have sameBlocks : ∀ {hash : Bytes} {entry entry' : ChainEntry},
        chain.entries.get? hash = some entry → chain'.entries.get? hash = some entry' →
          entry.block = entry'.block := by
      intro hash entry entry' stored stored'
      obtain ⟨entry'', stored'', blockEq⟩ := run.exists_same_block run' same stored
      rw [stored'] at stored''
      cases stored''
      exact blockEq
    obtain ⟨entry', stored', -⟩ := run.exists_same_block run' same stored
    obtain ⟨path, branch, ends⟩ := refines.exists_branch stored
    obtain ⟨path', branch', ends'⟩ := refines'.exists_branch stored'
    rw [stored', ends.entry_eq_of_blocks refines refines' ends'
      (ends.blocks_eq_of_same refines refines' sameBlocks ends')]
  intro hash
  refine Option.ext fun entry => ?_
  exact ⟨found run run' fun block => (same block).mp, found run' run fun block => (same block).mpr⟩

/-- What a run has to do with the tip it leads to, and with other runs. -/
structure ForkChoice (accepted : List Block) (chain : Chain) : Prop where
  /-- The store lists the genesis block and the accepted blocks in order. -/
  blocks_eq : ∃ genesis, genesisBlock testnet = .ok genesis ∧
    chain.entries.items.map (fun item => item.2.block) = genesis :: accepted
  /-- The active tip is the first of the entries of greatest cumulative work. -/
  tip_first : IsFirstMax itemWork chain.entries.items (chain.activeTipHash, chain.tipEntry)
  /-- An accepted block becomes active exactly when its branch has more work than the
  active one, which is so for every child of the tip. -/
  takes_over : ∀ block update, (chain.addBlock block).1 = .ok update → ∃ added,
    (chain.addBlock block).2.entries.get? update.addedBlockHash = some added ∧
    (update.becameActive = true ↔ chain.cumulativeWork < added.record.cumulativeWork) ∧
    (chain.addBlock block).2.activeTipHash =
      (if update.becameActive then update.addedBlockHash else chain.activeTipHash) ∧
    (block.header.previousBlockHash = chain.activeTipHash → update.becameActive = true)
  /-- A run that accepted the same blocks in whatever order stores the same entries, has a
  tip of the same work, and the same tip when only one entry attains that work. -/
  converges : ∀ (accepted' : List Block) (chain' : Chain), Run accepted' chain' →
    (∀ block, block ∈ accepted ↔ block ∈ accepted') →
      chain.entries.Agrees chain'.entries ∧ chain.cumulativeWork = chain'.cumulativeWork ∧
      ((∀ hash entry, chain.entries.get? hash = some entry →
          entry.record.cumulativeWork = chain.cumulativeWork → hash = chain.activeTipHash) →
        chain'.activeTipHash = chain.activeTipHash)

/-- **Fork choice and convergence** hold of every run. -/
theorem Run.fork_choice {accepted : List Block} (run : Run accepted chain) :
    ForkChoice accepted chain := by
  have refines := run.reachable.refines
  refine ⟨run.blocks_eq, run.tip_firstMax, ?_, ?_⟩
  · intro block update outcome
    obtain ⟨added, newOk, items, -, active, tip⟩ := refines.addBlock_ok outcome
    have named : update.addedBlockHash = added.record.blockHash := by
      rcases refines.addBlock_cases block with ⟨e, -, run⟩ | ⟨added', newOk', -, run⟩ |
        ⟨added', _, _, _, _, newOk', -, -, run⟩
      · rw [run] at outcome
        cases outcome
      · rw [run] at outcome
        rw [newOk] at newOk'
        cases newOk'
        cases outcome
        rfl
      · rw [run] at outcome
        rw [newOk] at newOk'
        cases newOk'
        cases outcome
        rfl
    rw [named]
    refine ⟨added, Dict.get?_eq_some.mpr (by rw [items]; simp), active, tip, ?_⟩
    intro onTip
    exact active.mpr (refines.heavier_of_extends_tip newOk onTip)
  · intro accepted' chain' run' same
    have agree := run.entries_agree run' same
    have sameItems : ∀ item, item ∈ chain.entries.items ↔ item ∈ chain'.entries.items :=
      fun item => agree.perm.mem_iff
    have work := run.tip_firstMax.weight_eq run'.tip_firstMax sameItems
    refine ⟨agree, work, ?_⟩
    intro unique
    refine congrArg Prod.fst (run.tip_firstMax.eq_of_unique run'.tip_firstMax sameItems ?_)
    rintro ⟨hash, entry⟩ member heaviest
    have stored := Dict.get?_eq_some.mpr member
    have isTip := unique hash entry stored heaviest
    subst isTip
    rw [tipEntry_eq stored]

omit [Platform] in
theorem Run.fork_choice_first : @ForkChoice asciiPlatform [firstBlock] firstChain :=
  @Run.fork_choice asciiPlatform firstChain [firstBlock]
    (@Run.accept asciiPlatform [] genesisChain firstBlock _
      (@Run.init asciiPlatform genesisChain (@init_testnet asciiPlatform)) firstBlock_accepted)

end Chain

end OurCoin
