import OurCoin.Ledger.Failures
import OurCoin.Library.MerkleShape
import OurCoin.Tree.Commitment
import OurCoin.Wire.Canonical

/-!
# What a transactions root tells about any body

Among bodies without a repeated transaction the root in a header determines the body
(`Block.body_eq_of_root`). Among all bodies it determines the tree over the body, and no more:
a level of odd length is completed by a copy of its last node, so a body that repeats its
last transactions in the right number has the root of the body without the copies.

* `transactionsRoot_of_sameTree`: bodies with one tree have one root.
* `Block.Rereads.sameTree`: blocks with one hash have one header, one reward and one tree.
-/

set_option autoImplicit false

namespace OurCoin

open Raising MerkleTree

/-- The leaves of the tree over a body, before they are hashed: the reward and the
transactions. -/
def bodyLeaves (transactions : List Transaction) : List (Option Transaction) :=
  none :: transactions.map some

/-- The trees over two bodies are the same. -/
def SameTree (transactions transactions' : List Transaction) : Prop :=
  shapes (bodyLeaves transactions) = shapes (bodyLeaves transactions')

instance (transactions transactions' : List Transaction) :
    Decidable (SameTree transactions transactions') :=
  inferInstanceAs (Decidable (shapes (bodyLeaves transactions) = shapes (bodyLeaves transactions')))

/-- A copy of the second of two transactions completes the odd level. -/
example (first second : Transaction) :
    SameTree [first, second] [first, second, second] := rfl

theorem mem_bodyLeaves {transactions : List Transaction} {tx : Transaction} :
    some tx ∈ bodyLeaves transactions ↔ tx ∈ transactions := by
  simp [bodyLeaves]

theorem bodyLeaves_ne_nil (transactions : List Transaction) : bodyLeaves transactions ≠ [] := by
  simp [bodyLeaves]

theorem SameTree.mem_iff {transactions transactions' : List Transaction}
    (same : SameTree transactions transactions') {tx : Transaction} :
    tx ∈ transactions ↔ tx ∈ transactions' := by
  rw [← mem_bodyLeaves, mem_iff_of_shapes_eq same, mem_bodyLeaves]

variable [Platform]

/-- The ID under a leaf. -/
def leafId (rewardId : Bytes) : Option Transaction → Bytes
  | none => rewardId
  | some tx => tx.txid.toOption.getD []

theorem leafId_some {rewardId txid : Bytes} {tx : Transaction} (txidOk : tx.txid = .ok txid) :
    leafId rewardId (some tx) = txid := by
  rw [leafId, txidOk]
  rfl

/-- The hashed leaves of a block are the IDs under the leaves of its body. -/
theorem Block.leaves_eq_ok {block : Block} {leaves : List Bytes} :
    block.leaves = .ok leaves ↔ ∃ rewardId, block.rewardTransaction.txid = .ok rewardId ∧
      (∀ tx ∈ block.transactions, ∃ txid, tx.txid = .ok txid) ∧
      leaves = (bodyLeaves block.transactions).map (leafId rewardId) := by
  simp only [Block.leaves, bind_eq_ok, pure_eq_ok, bodyLeaves, List.map_cons, List.map_map]
  constructor
  · rintro ⟨rewardId, rewardOk, ids, idsOk, rfl⟩
    refine ⟨rewardId, rewardOk, ?_, ?_⟩
    · intro tx member
      obtain ⟨txid, txidOk, -⟩ := exists_of_mapM_eq_ok idsOk tx member
      exact ⟨txid, txidOk⟩
    · rw [eq_map_of_mapM_eq_ok idsOk fun tx txid txidOk => (leafId_some txidOk).symm]
      rfl
  · rintro ⟨rewardId, rewardOk, each, rfl⟩
    obtain ⟨ids, idsOk⟩ := exists_mapM_eq_ok each
    refine ⟨rewardId, rewardOk, ids, idsOk, ?_⟩
    rw [eq_map_of_mapM_eq_ok idsOk fun tx txid txidOk => (leafId_some txidOk).symm]
    rfl

theorem transactionsRoot_eq_ok {reward : RewardTransaction} {transactions : List Transaction}
    {header : BlockHeader} {root : Bytes} :
    transactionsRoot reward transactions = .ok root ↔
      ∃ leaves, Block.leaves ⟨header, reward, transactions⟩ = .ok leaves ∧
        merkleRoot leaves = .ok root := by
  simp only [transactionsRoot, Block.leaves, bind_eq_ok, pure_eq_ok]
  constructor
  · rintro ⟨rewardId, rewardOk, ids, idsOk, rootOk⟩
    exact ⟨_, ⟨rewardId, rewardOk, ids, idsOk, rfl⟩, rootOk⟩
  · rintro ⟨_, ⟨rewardId, rewardOk, ids, idsOk, rfl⟩, rootOk⟩
    exact ⟨rewardId, rewardOk, ids, idsOk, rootOk⟩

theorem Block.length_leaf {block : Block} {leaves : List Bytes} (leavesOk : block.leaves = .ok leaves) :
    ∀ leaf ∈ leaves, leaf.length = 32 := by
  intro leaf member
  obtain ⟨input, -, rfl, -⟩ := Block.exists_leaf leavesOk leaf member
  exact Sha256.length_digest input

/-! ## One tree, one root -/

/-- **Bodies with one tree have one root**, under the same reward. -/
theorem transactionsRoot_of_sameTree {reward : RewardTransaction}
    {transactions transactions' : List Transaction} (same : SameTree transactions transactions')
    {root : Bytes} (rootOk : transactionsRoot reward transactions = .ok root) :
    transactionsRoot reward transactions' = .ok root := by
  -- The header plays no role in the leaves.
  obtain ⟨leaves, leavesOk, merkleOk⟩ := (@transactionsRoot_eq_ok _ _ _ genesisHeader _).mp rootOk
  obtain ⟨rewardId, rewardOk, each, rfl⟩ := Block.leaves_eq_ok.mp leavesOk
  dsimp only at rewardOk each merkleOk
  have leavesOk' : Block.leaves ⟨genesisHeader, reward, transactions'⟩ =
      .ok ((bodyLeaves transactions').map (leafId rewardId)) :=
    Block.leaves_eq_ok.mpr ⟨rewardId, rewardOk, fun tx member => each tx (same.mem_iff.mpr member), rfl⟩
  obtain ⟨root', merkleOk'⟩ := exists_merkleRoot (Block.length_leaf leavesOk')
  have nonempty : ∀ transactions, (bodyLeaves transactions).map (leafId rewardId) ≠ [] :=
    fun transactions => by simp [bodyLeaves]
  have values := @reduce_eq_of_shapes_eq _ merkleNode _ _ (shapes_map_eq (leafId rewardId) same)
  rw [(merkleRoot_eq_ok (nonempty _) merkleOk).2, (merkleRoot_eq_ok (nonempty _) merkleOk').2,
    List.singleton_inj] at values
  exact (@transactionsRoot_eq_ok _ _ _ genesisHeader _).mpr ⟨_, leavesOk', values ▸ merkleOk'⟩

/-! ## One hash, one tree -/

/-- Every part of a block is read back from its bytes, and the root in its header is that of
its body. -/
structure Block.Rereads (block : Block) : Prop where
  header : ReadsBack BlockHeader.toBytes BlockHeader.fromBytes block.header
  reward : ReadsBack RewardTransaction.toBytes RewardTransaction.fromBytes block.rewardTransaction
  transactions : ∀ tx ∈ block.transactions,
    ReadsBack Transaction.toBytes Transaction.fromBytes tx
  root_ok : transactionsRoot block.rewardTransaction block.transactions =
    .ok block.header.transactionsRoot

/-- A well made block with a hash is read back. -/
theorem Block.WellMade.rereads {block : Block} {hash : Bytes} (wellMade : block.WellMade)
    (hashOk : block.blockHash = .ok hash) : block.Rereads := by
  obtain ⟨leaves, leavesOk, -⟩ :=
    (@transactionsRoot_eq_ok _ _ _ block.header _).mp wellMade.root_ok
  obtain ⟨rewardId, rewardOk, each, -⟩ := Block.leaves_eq_ok.mp leavesOk
  simp only [Block.blockHash, BlockHeader.blockHash, bind_eq_ok] at hashOk
  obtain ⟨headerBytes, headerOk, -⟩ := hashOk
  simp only [RewardTransaction.txid, bind_eq_ok] at rewardOk
  obtain ⟨rewardBytes, rewardOk, -⟩ := rewardOk
  refine ⟨?_, ?_, ?_, wellMade.root_ok⟩
  · exact ⟨headerBytes, headerOk, BlockHeader.fromBytes_toBytes wellMade.header_readable headerOk⟩
  · exact ⟨rewardBytes, rewardOk,
      RewardTransaction.fromBytes_toBytes wellMade.reward_readable rewardOk⟩
  · intro tx member
    obtain ⟨txid, txidOk⟩ := each tx member
    simp only [Transaction.txid, bind_eq_ok] at txidOk
    obtain ⟨bytes, bytesOk, -⟩ := txidOk
    exact ⟨bytes, bytesOk,
      Transaction.fromBytes_toBytes (wellMade.transactions_readable tx member) bytesOk⟩

/-- The bytes of a reward and of a transaction start with different lengths. -/
theorem rewardBytes_ne {reward : RewardTransaction} {tx : Transaction} {rewardBytes bytes : Bytes}
    (rewardOk : reward.toBytes = .ok rewardBytes) (bytesOk : tx.toBytes = .ok bytes) :
    rewardBytes ≠ bytes := by
  rintro rfl
  have starts := Transaction.take_toBytes bytesOk
  rw [RewardTransaction.take_toBytes rewardOk] at starts
  exact absurd starts (by decide)

section

variable {block block' : Block} (rereads : block.Rereads) (rereads' : block'.Rereads)
  (free : CollisionFree fun x => block.HashInput x ∨ block'.HashInput x)

include rereads rereads' free

theorem Block.Rereads.header_eq {hash : Bytes} (hashOk : block.blockHash = .ok hash)
    (hashOk' : block'.blockHash = .ok hash) : block.header = block'.header := by
  simp only [Block.blockHash, BlockHeader.blockHash, bind_eq_ok, pure_eq_ok] at hashOk hashOk'
  obtain ⟨bytes, bytesOk, rfl⟩ := hashOk
  obtain ⟨bytes', bytesOk', collides⟩ := hashOk'
  have sameBytes := free _ _ (.inr (.header bytesOk')) (.inl (.header bytesOk)) collides
  exact rereads.header.eq_of_encode rereads'.header bytesOk (sameBytes ▸ bytesOk')

/-- **Blocks with one hash have one header, one reward and one tree.** -/
theorem Block.Rereads.sameTree {hash : Bytes} (hashOk : block.blockHash = .ok hash)
    (hashOk' : block'.blockHash = .ok hash) :
    block.header = block'.header ∧ block.rewardTransaction = block'.rewardTransaction ∧
      SameTree block.transactions block'.transactions := by
  have headers := rereads.header_eq rereads' free hashOk hashOk'
  obtain ⟨leaves, leavesOk, rootOk⟩ :=
    (@transactionsRoot_eq_ok _ _ _ block.header _).mp rereads.root_ok
  obtain ⟨leaves', leavesOk', rootOk'⟩ :=
    (@transactionsRoot_eq_ok _ _ _ block'.header _).mp rereads'.root_ok
  rw [← headers] at rootOk'
  have hashed := (Block.hashedLeaves leavesOk (Block.length_leaf leavesOk)).mono
    fun x hashed => (.inl hashed : block.HashInput x ∨ block'.HashInput x)
  have hashed' := (Block.hashedLeaves leavesOk' (Block.length_leaf leavesOk')).mono
    fun x hashed => (.inr hashed : block.HashInput x ∨ block'.HashInput x)
  obtain ⟨rewardId, rewardOk, each, rfl⟩ := Block.leaves_eq_ok.mp leavesOk
  obtain ⟨rewardId', rewardOk', each', rfl⟩ := Block.leaves_eq_ok.mp leavesOk'
  dsimp only at rewardOk rewardOk' each each' rootOk rootOk' hashed hashed'
  have nonempty : ∀ transactions rewardId, (bodyLeaves transactions).map (leafId rewardId) ≠ [] :=
    fun transactions rewardId => by simp [bodyLeaves]
  have trees := shapes_eq_of_reduce_eq (nonempty _ _) (nonempty _ _)
    (hashed.injectiveOn_merkleNode hashed' free) (hashed.leaf_ne_merkleNode hashed' free)
    (hashed'.leaf_ne_merkleNode hashed free)
    (by rw [(merkleRoot_eq_ok (nonempty _ _) rootOk).2, (merkleRoot_eq_ok (nonempty _ _) rootOk').2])
  simp only [RewardTransaction.txid, bind_eq_ok, pure_eq_ok] at rewardOk rewardOk'
  obtain ⟨rewardBytes, rewardOk, rfl⟩ := rewardOk
  obtain ⟨rewardBytes', rewardOk', rfl⟩ := rewardOk'
  -- The bytes under the leaf of a transaction of either block.
  have bytesOf : ∀ tx, (tx ∈ block.transactions ∨ tx ∈ block'.transactions) →
      ∃ bytes, tx.toBytes = .ok bytes ∧ (block.HashInput bytes ∨ block'.HashInput bytes) ∧
        ∀ rewardId, leafId rewardId (some tx) = sha256Digest bytes := by
    intro tx member
    have back : ReadsBack Transaction.toBytes Transaction.fromBytes tx :=
      member.elim (rereads.transactions tx) (rereads'.transactions tx)
    obtain ⟨bytes, bytesOk, -⟩ := back
    refine ⟨bytes, bytesOk, ?_, ?_⟩
    · exact member.imp (fun inFirst => .transaction inFirst bytesOk)
        fun inSecond => .transaction inSecond bytesOk
    · intro rewardId
      apply leafId_some
      rw [Transaction.txid, bytesOk]
      rfl
  -- The second reward is a leaf of the first block, and no transaction has its hash.
  have rewards : rewardBytes = rewardBytes' := by
    have isLeaf : sha256Digest rewardBytes' ∈
        (bodyLeaves block.transactions).map (leafId (sha256Digest rewardBytes)) :=
      (mem_iff_of_shapes_eq trees).mpr (by simp [bodyLeaves, leafId])
    obtain ⟨leaf, leafMem, collides⟩ := List.mem_map.mp isLeaf
    cases leaf with
    | none => exact free _ _ (.inl (.reward rewardOk)) (.inr (.reward rewardOk')) collides
    | some tx =>
        obtain ⟨bytes, bytesOk, isInput, isId⟩ := bytesOf tx (.inl (mem_bodyLeaves.mp leafMem))
        rw [isId] at collides
        have same := free _ _ isInput (.inr (.reward rewardOk')) collides
        exact absurd same.symm (rewardBytes_ne rewardOk' bytesOk)
  subst rewards
  refine ⟨headers, rereads.reward.eq_of_encode rereads'.reward rewardOk rewardOk', ?_⟩
  refine shapes_eq_of_map (bodyLeaves_ne_nil _) (bodyLeaves_ne_nil _) ?_ trees
  have members : ∀ {tx : Transaction},
      (some tx ∈ bodyLeaves block.transactions ∨ some tx ∈ bodyLeaves block'.transactions) →
        tx ∈ block.transactions ∨ tx ∈ block'.transactions :=
    fun member => member.imp mem_bodyLeaves.mp mem_bodyLeaves.mp
  rintro (none | tx) (none | tx') inside inside' same
  · rfl
  · obtain ⟨bytes, bytesOk, isInput, isId⟩ := bytesOf tx' (members inside')
    rw [isId] at same
    exact absurd (free _ _ (.inl (.reward rewardOk)) isInput same) (rewardBytes_ne rewardOk bytesOk)
  · obtain ⟨bytes, bytesOk, isInput, isId⟩ := bytesOf tx (members inside)
    rw [isId] at same
    exact absurd (free _ _ (.inl (.reward rewardOk)) isInput same.symm)
      (rewardBytes_ne rewardOk bytesOk)
  · obtain ⟨bytes, bytesOk, isInput, isId⟩ := bytesOf tx (members inside)
    obtain ⟨bytes', bytesOk', isInput', isId'⟩ := bytesOf tx' (members inside')
    rw [isId, isId'] at same
    have sameBytes := free _ _ isInput isInput' same
    subst sameBytes
    have back : ∀ tx, (tx ∈ block.transactions ∨ tx ∈ block'.transactions) →
        ReadsBack Transaction.toBytes Transaction.fromBytes tx :=
      fun tx member => member.elim (rereads.transactions tx) (rereads'.transactions tx)
    rw [(back tx (members inside)).eq_of_encode (back tx' (members inside')) bytesOk bytesOk']

end

end OurCoin
