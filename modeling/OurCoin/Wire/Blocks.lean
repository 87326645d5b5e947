import OurCoin.Tree.BranchInvariants
import OurCoin.Wire.Records

/-!
# The bytes of blocks

Every block of a branch is `WellMade`: its texts are ASCII and short, its transactions are
valid, and its header commits to its body. So all of its parts can be read back from
their canonical bytes.
-/

set_option autoImplicit false

namespace OurCoin

open Raising

variable [Platform]

/-! ## Blocks of a branch -/

/-- What the decoder checks of a block. -/
structure Block.WellMade (block : Block) : Prop where
  header_readable : block.header.Readable
  reward_readable : block.rewardTransaction.Readable
  transactions_readable : ∀ tx ∈ block.transactions, tx.Readable
  root_ok : transactionsRoot block.rewardTransaction block.transactions =
    .ok block.header.transactionsRoot

theorem Canonical.chainId : Canonical testnet.chainId maxChainIdBytes :=
  .of_ascii testnet.chainId_valid.2 (by decide)

/-- An address of the testnet is canonical. -/
theorem Canonical.address {address : Text} (valid : ∃ hash, decodeAddress address testnet = .ok hash) :
    Canonical address maxAddressBytes := by
  obtain ⟨hash, decoded⟩ := valid
  obtain ⟨ascii, length⟩ := decodeAddress_shape decoded
  apply Canonical.of_ascii ascii
  rw [length]
  decide

theorem Transaction.IntrinsicallyValid.readable {tx : Transaction}
    (valid : tx.IntrinsicallyValid testnet) : tx.Readable where
  chainId := valid.chainId_eq ▸ .chainId
  publicKey := valid.publicKey_length.le
  sender := .address valid.sender_valid
  recipient := .address valid.recipient_valid
  signature := valid.signature_length.le

/-- **Every block of a branch is well made.** -/
theorem Replays.wellMade {blocks : List Block} {branch : BranchState}
    (run : Replays testnet blocks branch) : ∀ block ∈ blocks, block.WellMade := by
  induction run with
  | genesis start =>
      obtain ⟨isGenesis, -, -, -, -⟩ := replayGenesis_ok start
      rw [genesisBlock_testnet] at isGenesis
      cases isGenesis
      intro block member
      rw [List.mem_singleton.mp member]
      have miner : Canonical testnetGenesisMinerAddress maxAddressBytes :=
        .of_ascii (by decide) (by decide)
      exact ⟨⟨.chainId, miner⟩, ⟨.chainId, miner⟩, fun tx txMem => (by cases txMem),
        genesis_transactionsRoot⟩
  | @extend blocks branch next block before step ih =>
      intro other member
      rcases List.mem_append.mp member with old | new
      · exact ih other old
      · rw [List.mem_singleton.mp new]
        obtain ⟨⟨target, execution, -, valid, -, -⟩, -, -, -⟩ := BranchState.extend_eq_ok.mp step
        have miner := Canonical.address valid.header.miner_valid
        refine ⟨⟨valid.header.chainId_eq ▸ .chainId, miner⟩,
          ⟨valid.reward.chainId_eq ▸ .chainId, valid.reward.miner_eq ▸ miner⟩, ?_,
          valid.header.root_eq⟩
        intro tx txMem
        have whole := Replays.extend before step
        exact (whole.alive block (by simp) tx txMem).1.readable

/-- Every stored block of a reachable chain is well made. -/
theorem Chain.Refines.wellMade {chain : Chain} (refines : chain.Refines) {hash : Bytes}
    {entry : ChainEntry} (stored : chain.entries.get? hash = some entry) :
    entry.block.WellMade := by
  obtain ⟨path, branch, ends⟩ := refines.exists_branch stored
  obtain ⟨front, split⟩ := ends.replays.exists_last
  apply ends.replays.wellMade
  rw [split, ends.block_eq]
  simp

end OurCoin
