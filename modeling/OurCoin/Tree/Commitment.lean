import OurCoin.Library.MerkleTree
import OurCoin.Tree.ForkChoice
import OurCoin.Wire.Blocks

/-!
# What a block hash commits to

A block hash determines the whole block, unless SHA-256 has a collision among the byte
strings that are hashed for it (`Block.HashInput`, `CollisionFree`).

* The header is read back from its bytes, which the hash determines.
* The loop of `merkle_root` is the reduction of a tree of neighbours
  (`merkleLevel_eq`). Leaves and inner nodes are hashes of strings with different first
  bytes, and the validator refuses a block with a repeated transaction, so its leaves are
  distinct (`Block.nodup_leaves`) and the root determines the list of IDs.
* An ID determines the bytes of its transaction, and these the transaction.

`Chain.Reachable.block_eq_of_hash` puts this together for accepted blocks.
-/

set_option autoImplicit false

namespace OurCoin

open Raising MerkleTree

/-! ## The tree of `merkle.py` -/

/-- The hash of an inner node. -/
def merkleNode (left right : Bytes) : Bytes := sha256Digest (merkleNodeDomain ++ left ++ right)

/-- A round of the loop combines neighbours. -/
theorem merkleLevel_eq : ∀ values : List Bytes, merkleLevel values = level merkleNode values
  | [] => rfl
  | [last] => rfl
  | left :: right :: rest => by
      have upper := merkleLevel_eq rest
      rw [merkleLevel] at upper
      rw [merkleLevel, level, pairUp, List.map_cons]
      rw [level] at upper
      rw [← upper]
      by_cases odd : rest.length % 2 = 1
      · have odd' : (left :: right :: rest).length % 2 = 1 := by
          simp only [List.length_cons]
          omega
        obtain ⟨first, others, rfl⟩ := List.exists_cons_of_length_pos (by omega : 0 < rest.length)
        rw [if_pos odd, if_pos odd', List.getLast?_cons_cons, List.getLast?_cons_cons]
        rfl
      · have even : ¬ (left :: right :: rest).length % 2 = 1 := by
          simp only [List.length_cons]
          omega
        rw [if_neg odd, if_neg even]
        rfl

theorem merkleLoop_eq : ∀ (fuel : Nat) (values : List Bytes),
    merkleLoop fuel values = reduce merkleNode fuel values
  | 0, _ => rfl
  | fuel + 1, values => by rw [merkleLoop, reduce, merkleLevel_eq, merkleLoop_eq fuel]

/-- The root of a nonempty list of hashes. -/
theorem merkleRoot_eq_ok {leaves : List Bytes} {root : Bytes} (nonempty : leaves ≠ [])
    (found : merkleRoot leaves = .ok root) :
    (∀ leaf ∈ leaves, leaf.length = 32) ∧ reduce merkleNode leaves.length leaves = [root] := by
  simp only [merkleRoot, if_neg nonempty, bind_eq_ok, raiseIf_eq_ok, exists_const, pure_eq_ok,
    not_exists, not_and, not_not] at found
  obtain ⟨lengths, head⟩ := found
  obtain ⟨height, top, reduced, -⟩ := @exists_height _ merkleNode _ _ nonempty le_rfl
  rw [merkleLoop_eq, reduced] at head
  exact ⟨lengths, by rw [reduced, ← head, List.headD_cons]⟩

/-! ## Hashed strings -/

/-- SHA-256 has no collision among some byte strings. -/
def CollisionFree (inputs : Bytes → Prop) : Prop :=
  ∀ x y, inputs x → inputs y → sha256Digest x = sha256Digest y → x = y

theorem CollisionFree.mono {inputs fewer : Bytes → Prop} (free : CollisionFree inputs)
    (within : ∀ x, fewer x → inputs x) : CollisionFree fewer :=
  fun x y xIn yIn => free x y (within x xIn) (within y yIn)

/-- A string is known to start with the first byte of its first field. -/
theorem head?_of_take {input rest : Bytes} {byte : UInt8} {count : Nat}
    (starts : input.take count = byte :: rest) : input.head? = some byte := by
  cases input with
  | nil =>
      rw [List.take_nil] at starts
      cases starts
  | cons first input =>
      cases count with
      | zero => cases starts
      | succ count =>
          rw [List.take_succ_cons, List.cons.injEq] at starts
          rw [List.head?_cons, starts.1]

/-- A list of hashes of strings that start with a zero byte, with the strings hashed for its
root. -/
structure HashedLeaves (inputs : Bytes → Prop) (leaves : List Bytes) : Prop where
  lengths : ∀ leaf ∈ leaves, leaf.length = 32
  hashed : ∀ leaf ∈ leaves, ∃ input, inputs input ∧ sha256Digest input = leaf ∧
    input.head? = some 0
  nodes : ∀ pair, Combined merkleNode leaves pair → inputs (merkleNodeDomain ++ pair.1 ++ pair.2)

namespace HashedLeaves

variable {inputs : Bytes → Prop} {leaves leaves' : List Bytes}

theorem mono {more : Bytes → Prop} (hashed : HashedLeaves inputs leaves)
    (within : ∀ x, inputs x → more x) : HashedLeaves more leaves where
  lengths := hashed.lengths
  hashed leaf member := by
    obtain ⟨input, isInput, digest, head⟩ := hashed.hashed leaf member
    exact ⟨input, within input isInput, digest, head⟩
  nodes pair combined := within _ (hashed.nodes pair combined)

theorem length_combined (hashed : HashedLeaves inputs leaves) {pair : Bytes × Bytes}
    (combined : Combined merkleNode leaves pair) : pair.1.length = 32 ∧ pair.2.length = 32 :=
  combined.forall hashed.lengths fun _ _ _ _ => Sha256.length_digest _

/-- The strings of inner nodes determine the two hashes in them. -/
theorem injectiveOn_merkleNode (first : HashedLeaves inputs leaves)
    (second : HashedLeaves inputs leaves') (free : CollisionFree inputs) :
    InjectiveOn merkleNode fun pair =>
      Combined merkleNode leaves pair ∨ Combined merkleNode leaves' pair := by
  have hashed : ∀ {pair : Bytes × Bytes},
      (Combined merkleNode leaves pair ∨ Combined merkleNode leaves' pair) →
      pair.1.length = 32 ∧ inputs (merkleNodeDomain ++ pair.1 ++ pair.2) := by
    rintro pair (combined | combined)
    · exact ⟨(first.length_combined combined).1, first.nodes pair combined⟩
    · exact ⟨(second.length_combined combined).1, second.nodes pair combined⟩
  intro one two oneIn twoIn same
  obtain ⟨oneLength, oneHashed⟩ := hashed oneIn
  obtain ⟨twoLength, twoHashed⟩ := hashed twoIn
  have strings := free _ _ oneHashed twoHashed same
  rw [List.append_assoc, List.append_assoc, List.append_cancel_left_eq] at strings
  obtain ⟨lefts, rights⟩ := List.append_inj strings (oneLength.trans twoLength.symm)
  exact Prod.ext lefts rights

/-- A leaf is never the hash of an inner node. -/
theorem leaf_ne_merkleNode (first : HashedLeaves inputs leaves)
    (second : HashedLeaves inputs leaves') (free : CollisionFree inputs) :
    ∀ leaf ∈ leaves, ∀ pair, Combined merkleNode leaves' pair →
      leaf ≠ merkleNode pair.1 pair.2 := by
  rintro leaf member pair combined rfl
  obtain ⟨input, isInput, collides, head⟩ := first.hashed _ member
  have same := free input _ isInput (second.nodes pair combined) collides
  rw [same] at head
  cases head

/-- **The root determines distinct leaves.** -/
theorem eq_of_root (first : HashedLeaves inputs leaves) (second : HashedLeaves inputs leaves')
    (free : CollisionFree inputs) (nonempty : leaves ≠ []) (nonempty' : leaves' ≠ [])
    (nodup : leaves.Nodup) (nodup' : leaves'.Nodup) {root : Bytes}
    (rootOk : merkleRoot leaves = .ok root) (rootOk' : merkleRoot leaves' = .ok root) :
    leaves = leaves' :=
  eq_of_reduce_eq nonempty nonempty' le_rfl le_rfl nodup nodup'
    (first.injectiveOn_merkleNode second free) (first.leaf_ne_merkleNode second free)
    (second.leaf_ne_merkleNode first free)
    (by rw [(merkleRoot_eq_ok nonempty rootOk).2, (merkleRoot_eq_ok nonempty' rootOk').2])

end HashedLeaves

variable [Platform]

/-- The IDs under the root in the header of a block: of its reward and its
transactions. -/
def Block.leaves (block : Block) : Except Raised (List Bytes) := do
  let rewardId ← block.rewardTransaction.txid
  let ids ← block.transactions.mapM Transaction.txid
  return rewardId :: ids

/-- The byte strings that are hashed for the hash of a block and the root in its
header. -/
inductive Block.HashInput (block : Block) : Bytes → Prop
  | header {input : Bytes} : block.header.toBytes = .ok input → HashInput block input
  | reward {input : Bytes} : block.rewardTransaction.toBytes = .ok input → HashInput block input
  | transaction {input : Bytes} {tx : Transaction} :
      tx ∈ block.transactions → tx.toBytes = .ok input → HashInput block input
  | node {leaves : List Bytes} {pair : Bytes × Bytes} : block.leaves = .ok leaves →
      Combined merkleNode leaves pair → HashInput block (merkleNodeDomain ++ pair.1 ++ pair.2)

/-- Every leaf is the hash of a string of the block that starts with a zero byte. -/
theorem Block.exists_leaf {block : Block} {leaves : List Bytes} (leavesOk : block.leaves = .ok leaves) :
    ∀ leaf ∈ leaves, ∃ input, block.HashInput input ∧ sha256Digest input = leaf ∧
      input.head? = some 0 := by
  simp only [Block.leaves, RewardTransaction.txid, bind_eq_ok, pure_eq_ok] at leavesOk
  obtain ⟨_, ⟨rewardBytes, rewardOk, rfl⟩, ids, idsOk, rfl⟩ := leavesOk
  intro leaf member
  rcases List.mem_cons.mp member with rfl | later
  · exact ⟨rewardBytes, .reward rewardOk, rfl, head?_of_take (RewardTransaction.take_toBytes rewardOk)⟩
  · obtain ⟨tx, txMem, txidOk⟩ := (mem_of_mapM_eq_ok idsOk).mp later
    simp only [Transaction.txid, bind_eq_ok, pure_eq_ok] at txidOk
    obtain ⟨bytes, bytesOk, rfl⟩ := txidOk
    exact ⟨bytes, .transaction txMem bytesOk, rfl, head?_of_take (Transaction.take_toBytes bytesOk)⟩

/-- The IDs of a block without a repeated transaction are distinct. -/
theorem Block.nodup_leaves {block : Block} {leaves ids : List Bytes}
    (leavesOk : block.leaves = .ok leaves) (idsOk : block.transactions.mapM Transaction.txid = .ok ids)
    (nodup : ids.Nodup) (free : CollisionFree block.HashInput) : leaves.Nodup := by
  simp only [Block.leaves, RewardTransaction.txid, idsOk, bind_eq_ok, pure_eq_ok, ok_bind] at leavesOk
  obtain ⟨_, ⟨rewardBytes, rewardOk, rfl⟩, _, rfl, rfl⟩ := leavesOk
  refine List.nodup_cons.mpr ⟨?_, nodup⟩
  intro member
  obtain ⟨tx, txMem, txidOk⟩ := (mem_of_mapM_eq_ok idsOk).mp member
  simp only [Transaction.txid, bind_eq_ok, pure_eq_ok] at txidOk
  obtain ⟨bytes, bytesOk, collides⟩ := txidOk
  -- The strings of a reward and of a transaction start with different lengths.
  have same := free bytes rewardBytes (.transaction txMem bytesOk) (.reward rewardOk) collides
  have starts := Transaction.take_toBytes bytesOk
  rw [same, RewardTransaction.take_toBytes rewardOk] at starts
  exact absurd starts (by decide)

theorem Block.hashedLeaves {block : Block} {leaves : List Bytes} (leavesOk : block.leaves = .ok leaves)
    (lengths : ∀ leaf ∈ leaves, leaf.length = 32) : HashedLeaves block.HashInput leaves where
  lengths := lengths
  hashed := Block.exists_leaf leavesOk
  nodes _ combined := .node leavesOk combined

/-- **The transactions root commits to the reward and the list of transactions.** -/
theorem Block.body_eq_of_root {block block' : Block} (wellMade : block.WellMade)
    (wellMade' : block'.WellMade) {ids ids' : List Bytes}
    (idsOk : block.transactions.mapM Transaction.txid = .ok ids) (nodup : ids.Nodup)
    (idsOk' : block'.transactions.mapM Transaction.txid = .ok ids') (nodup' : ids'.Nodup)
    (free : CollisionFree fun x => block.HashInput x ∨ block'.HashInput x)
    (same : block.header.transactionsRoot = block'.header.transactionsRoot) :
    block.rewardTransaction = block'.rewardTransaction ∧
      block.transactions = block'.transactions := by
  have rooted : ∀ {block : Block} {ids : List Bytes}, block.WellMade →
      block.transactions.mapM Transaction.txid = .ok ids → ∃ rewardBytes,
        block.rewardTransaction.toBytes = .ok rewardBytes ∧
        block.leaves = .ok (sha256Digest rewardBytes :: ids) ∧
        merkleRoot (sha256Digest rewardBytes :: ids) = .ok block.header.transactionsRoot := by
    intro block ids wellMade idsOk
    have root := wellMade.root_ok
    simp only [transactionsRoot, RewardTransaction.txid, bind_eq_ok, pure_eq_ok, idsOk,
      Except.ok.injEq] at root
    obtain ⟨_, ⟨rewardBytes, rewardOk, rfl⟩, _, rfl, root⟩ := root
    refine ⟨rewardBytes, rewardOk, ?_, root⟩
    rw [Block.leaves, RewardTransaction.txid, rewardOk, idsOk]
    rfl
  obtain ⟨rewardBytes, rewardOk, leavesOk, root⟩ := rooted wellMade idsOk
  obtain ⟨rewardBytes', rewardOk', leavesOk', root'⟩ := rooted wellMade' idsOk'
  have hashed := (Block.hashedLeaves leavesOk (merkleRoot_eq_ok (by simp) root).1).mono
    fun x hashed => (.inl hashed : block.HashInput x ∨ block'.HashInput x)
  have hashed' := (Block.hashedLeaves leavesOk' (merkleRoot_eq_ok (by simp) root').1).mono
    fun x hashed => (.inr hashed : block.HashInput x ∨ block'.HashInput x)
  have leaves : sha256Digest rewardBytes :: ids = sha256Digest rewardBytes' :: ids' :=
    hashed.eq_of_root hashed' free (by simp) (by simp)
      (Block.nodup_leaves leavesOk idsOk nodup (free.mono fun x => .inl))
      (Block.nodup_leaves leavesOk' idsOk' nodup' (free.mono fun x => .inr)) root (same ▸ root')
  obtain ⟨rewards, rest⟩ := List.cons.inj leaves
  subst rest
  constructor
  · have bytes := free _ _ (.inl (.reward rewardOk)) (.inr (.reward rewardOk')) rewards
    subst bytes
    have read := RewardTransaction.fromBytes_toBytes wellMade.reward_readable rewardOk
    rw [RewardTransaction.fromBytes_toBytes wellMade'.reward_readable rewardOk'] at read
    exact (Except.ok.inj read).symm
  · refine eq_of_mapM_eq ?_ idsOk idsOk'
    intro tx txMem tx' txMem' id txidOk txidOk'
    simp only [Transaction.txid, bind_eq_ok, pure_eq_ok] at txidOk txidOk'
    obtain ⟨bytes, bytesOk, rfl⟩ := txidOk
    obtain ⟨bytes', bytesOk', collides⟩ := txidOk'
    have sameBytes := free _ _ (.inr (.transaction txMem' bytesOk'))
      (.inl (.transaction txMem bytesOk)) collides
    subst sameBytes
    have read := Transaction.fromBytes_toBytes (wellMade.transactions_readable tx txMem) bytesOk
    rw [Transaction.fromBytes_toBytes (wellMade'.transactions_readable tx' txMem') bytesOk'] at read
    exact (Except.ok.inj read).symm

/-- The hash of a block determines its header. -/
theorem Block.header_eq_of_hash {block block' : Block} {hash : Bytes} (wellMade : block.WellMade)
    (wellMade' : block'.WellMade) (hashOk : block.blockHash = .ok hash)
    (hashOk' : block'.blockHash = .ok hash)
    (free : CollisionFree fun x => block.HashInput x ∨ block'.HashInput x) :
    block.header = block'.header := by
  simp only [Block.blockHash, BlockHeader.blockHash, bind_eq_ok, pure_eq_ok] at hashOk hashOk'
  obtain ⟨bytes, bytesOk, rfl⟩ := hashOk
  obtain ⟨bytes', bytesOk', collides⟩ := hashOk'
  have sameBytes := free _ _ (.inr (.header bytesOk')) (.inl (.header bytesOk)) collides
  subst sameBytes
  have read := BlockHeader.fromBytes_toBytes wellMade.header_readable bytesOk
  rw [BlockHeader.fromBytes_toBytes wellMade'.header_readable bytesOk'] at read
  exact (Except.ok.inj read).symm

/-- A branch repeats no transaction, so neither does a block of it. -/
theorem Replays.block_ids {network : NetworkConfig} {blocks : List Block} {branch : BranchState}
    (run : Replays network blocks branch) : ∀ block ∈ blocks, ∃ ids,
      block.transactions.mapM Transaction.txid = .ok ids ∧ ids.Nodup := by
  induction run with
  | genesis start =>
      intro block member
      rw [List.mem_singleton.mp member, (genesisBlock_ok (replayGenesis_ok start).1).2.2]
      exact ⟨[], rfl, List.nodup_nil⟩
  | @extend blocks branch next block before step ih =>
      intro other member
      rcases List.mem_append.mp member with old | new
      · exact ih other old
      · rw [List.mem_singleton.mp new]
        obtain ⟨⟨target, execution, -, valid, -, -⟩, -⟩ := BranchState.extend_eq_ok.mp step
        obtain ⟨paid, batch, -, -⟩ := valid.batch
        obtain ⟨ids, idsOk, nodup, -, -⟩ := batch.txids
        exact ⟨ids, idsOk, nodup⟩

namespace Chain

variable {chain chain' : Chain}

/-- **A stored block is determined by its hash**, across chains. -/
theorem Refines.block_eq_of_stored (refines : chain.Refines) (refines' : chain'.Refines)
    {hash : Bytes} {entry entry' : ChainEntry} (stored : chain.entries.get? hash = some entry)
    (stored' : chain'.entries.get? hash = some entry')
    (free : CollisionFree fun x => entry.block.HashInput x ∨ entry'.block.HashInput x) :
    entry.block = entry'.block := by
  have facts : ∀ {chain : Chain} {entry : ChainEntry}, chain.Refines →
      chain.entries.get? hash = some entry → entry.block.WellMade ∧
        entry.block.blockHash = .ok hash ∧ ∃ ids,
          entry.block.transactions.mapM Transaction.txid = .ok ids ∧ ids.Nodup := by
    intro chain entry refines stored
    obtain ⟨path, branch, ends⟩ := refines.exists_branch stored
    obtain ⟨front, split⟩ := ends.replays.exists_last
    refine ⟨refines.wellMade stored, ends.hash_ok, ends.replays.block_ids _ ?_⟩
    rw [split, ends.block_eq]
    simp
  obtain ⟨wellMade, hashOk, ids, idsOk, nodup⟩ := facts refines stored
  obtain ⟨wellMade', hashOk', ids', idsOk', nodup'⟩ := facts refines' stored'
  have headers := Block.header_eq_of_hash wellMade wellMade' hashOk hashOk' free
  obtain ⟨rewards, transactions⟩ := Block.body_eq_of_root wellMade wellMade' idsOk nodup idsOk'
    nodup' free (by rw [headers])
  calc entry.block
      = ⟨entry.block.header, entry.block.rewardTransaction, entry.block.transactions⟩ := rfl
    _ = entry'.block := by rw [headers, rewards, transactions]

/-- **A block hash commits to the whole block.** Two accepted blocks with one hash are
equal. -/
theorem Reachable.block_eq_of_hash (reachable : chain.Reachable) (reachable' : chain'.Reachable)
    {block block' : Block} {update update' : ChainUpdate}
    (accepted : (chain.addBlock block).1 = .ok update)
    (accepted' : (chain'.addBlock block').1 = .ok update')
    (same : block.blockHash = block'.blockHash)
    (free : CollisionFree fun x => block.HashInput x ∨ block'.HashInput x) : block = block' := by
  have kept : ∀ {chain : Chain} {block : Block} {update : ChainUpdate}, chain.Refines →
      (chain.addBlock block).1 = .ok update → ∃ hash entry,
        block.blockHash = .ok hash ∧ (chain.addBlock block).2.entries.get? hash = some entry ∧
        entry.block = block := by
    intro chain block update refines accepted
    obtain ⟨added, newOk, items, blockEq, -⟩ := refines.addBlock_ok accepted
    have stored : (chain.addBlock block).2.entries.get? added.record.blockHash = some added :=
      Dict.get?_eq_some.mpr (by rw [items]; simp)
    obtain ⟨path, branch, ends⟩ := (refines.addBlock block).exists_branch stored
    exact ⟨_, added, blockEq ▸ ends.hash_ok, stored, blockEq⟩
  obtain ⟨hash, entry, hashOk, stored, rfl⟩ := kept reachable.refines accepted
  obtain ⟨hash', entry', hashOk', stored', rfl⟩ := kept reachable'.refines accepted'
  rw [hashOk, hashOk'] at same
  cases Except.ok.inj same
  exact (reachable.refines.addBlock _).block_eq_of_stored (reachable'.refines.addBlock _) stored
    stored' free

omit [Platform] in
/-- Two strings are hashed for the first block: its header and its reward. -/
theorem firstBlock_collisionFree : CollisionFree (@Block.HashInput asciiPlatform firstBlock) := by
  have rewardOk : @RewardTransaction.txid asciiPlatform firstBlock.rewardTransaction =
      .ok firstBlock.header.transactionsRoot := by decide +kernel
  have distinct : firstHash ≠ firstBlock.header.transactionsRoot := by decide +kernel
  have digests : ∀ {input : Bytes}, @Block.HashInput asciiPlatform firstBlock input →
      (@BlockHeader.toBytes asciiPlatform firstBlock.header = .ok input ∧
        sha256Digest input = firstHash) ∨
      (@RewardTransaction.toBytes asciiPlatform firstBlock.rewardTransaction = .ok input ∧
        sha256Digest input = firstBlock.header.transactionsRoot) := by
    rintro _ (@⟨input, written⟩ | @⟨input, written⟩ | @⟨_, _, member, -⟩ | @⟨leaves, pair, leavesOk, combined⟩)
    · have hashOk := firstBlock_hash
      rw [@Block.blockHash.eq_1 asciiPlatform, @BlockHeader.blockHash.eq_1 asciiPlatform, written] at hashOk
      exact .inl ⟨written, Except.ok.inj hashOk⟩
    · rw [@RewardTransaction.txid.eq_1 asciiPlatform, written] at rewardOk
      exact .inr ⟨written, Except.ok.inj rewardOk⟩
    · cases member
    · rw [@Block.leaves.eq_1 asciiPlatform, rewardOk] at leavesOk
      cases leavesOk
      exact absurd combined (not_combined_singleton _ _)
  intro x y xIn yIn same
  rcases digests xIn with ⟨xOk, xHash⟩ | ⟨xOk, xHash⟩ <;>
    rcases digests yIn with ⟨yOk, yHash⟩ | ⟨yOk, yHash⟩
  · exact Except.ok.inj (xOk.symm.trans yOk)
  · exact absurd (xHash.symm.trans (same.trans yHash)) distinct
  · exact absurd (yHash.symm.trans (same.symm.trans xHash)) distinct
  · exact Except.ok.inj (xOk.symm.trans yOk)

omit [Platform] in
theorem block_eq_of_hash_first :
    CollisionFree (@Block.HashInput asciiPlatform firstBlock) ∧ firstBlock = firstBlock :=
  ⟨firstBlock_collisionFree, @Reachable.block_eq_of_hash asciiPlatform genesisChain genesisChain
    (@Reachable.init asciiPlatform genesisChain (@init_testnet asciiPlatform))
    (@Reachable.init asciiPlatform genesisChain (@init_testnet asciiPlatform)) firstBlock firstBlock
    _ _ firstBlock_accepted firstBlock_accepted rfl
    (@CollisionFree.mono _ _ firstBlock_collisionFree fun _ hashed => or_self_iff.mp hashed)⟩

end Chain

end OurCoin
