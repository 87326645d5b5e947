import OurCoin.Tree.Refinement

/-!
# The testnet genesis

The genesis block that the constants describe, evaluated. Text that is encoded for it is
ASCII, so its bytes do not depend on the platform (`encodeText_ascii`), and neither does
the initial chain: `Chain.init_testnet` says that it is `genesisChain` everywhere. So a
chain can always be created, and there are reachable chains: one with the block of a miner
(`firstChain`), and one with two transfers and a side branch (`Payer.branchedChain`).
-/

set_option autoImplicit false

namespace OurCoin

open Raising

/-! ## ASCII text -/

section

variable [Platform]

/-- ASCII text is encoded as its UTF-8 bytes, whatever the normalization is. -/
theorem encodeText_ascii {value : Text} (ascii : isAscii value) :
    encodeText value = (do encodeBytes (← encodeUtf8 value)) := by
  rw [encodeText, Platform.normalizeNfc_ascii ascii]

end

/-! ## The genesis block -/

/-- The root of the reward alone. -/
def genesisTransactionsRoot : Bytes :=
  BigEndian.toBytes 32 0x09909eea4f891733a890400121bf26e45bd420609baf8127dcccce7661d2d02f

/-- The state root of no account. -/
def emptyStateRoot : Bytes :=
  BigEndian.toBytes 32 0x6e340b9cffb37a989ca544e6bb780a2c78901d3fb33738768511a30617afa01d

/-- The hash of the genesis block. -/
def genesisHash : Bytes :=
  BigEndian.toBytes 32 0x0250f3a3c3d1c40da9d3aca119c0e44bbae7751e83fe37722ecfa0d5eeaa84f3

/-- The header of the genesis block. -/
def genesisHeader : BlockHeader where
  version := blockVersion
  chainId := testnet.chainId
  height := 0
  previousBlockHash := List.replicate 32 0
  transactionsRoot := genesisTransactionsRoot
  stateRoot := emptyStateRoot
  timestamp := testnetGenesisTimestamp
  difficultyTarget := testnetInitialTarget
  nonce := testnetGenesisNonce
  minerAddress := testnetGenesisMinerAddress

/-- The genesis block of the testnet. -/
def testnetGenesis : Block := ⟨genesisHeader, genesisReward testnet, []⟩

/-- The state before any transaction. -/
def emptyState : AccountState := ⟨testnet, Dict.empty, ∅⟩

/-- The record of the genesis block. -/
def genesisRecord : BlockRecord where
  blockHash := genesisHash
  parentHash := none
  height := 0
  cumulativeWork := 16
  totalSupplyAtoms := 0

/-- The entry of the genesis block. -/
def genesisEntry : ChainEntry := ⟨testnetGenesis, genesisRecord, emptyState.snapshot⟩

/-- The chain of a new node. -/
def genesisChain : Chain where
  network := testnet
  entries := Dict.empty.set genesisHash genesisEntry
  activeTipHash := genesisHash
  tip_stored := by simp

theorem emptyState_wellFormed : emptyState.WellFormed :=
  ⟨fun _ _ found => (by cases found), fun _ member => absurd member (Finset.notMem_empty _)⟩

theorem emptyState_new : AccountState.new Dict.empty ∅ testnet = .ok emptyState :=
  AccountState.new_eq_ok.mpr ⟨emptyState_wellFormed, rfl⟩

section

variable [Platform]

theorem encode_chainId : encodeText testnet.chainId =
    (do encodeBytes (← encodeUtf8 testnet.chainId)) :=
  encodeText_ascii testnet.chainId_valid.2

theorem encode_genesisMiner : encodeText testnetGenesisMinerAddress =
    (do encodeBytes (← encodeUtf8 testnetGenesisMinerAddress)) :=
  encodeText_ascii (by decide)

/-- The hashes of the genesis block. -/
theorem genesis_evaluated :
    (genesisReward testnet).txid = .ok genesisTransactionsRoot ∧
    transactionsRoot (genesisReward testnet) [] = .ok genesisTransactionsRoot ∧
    testnetGenesis.blockHash = .ok genesisHash ∧ emptyState.stateRoot = .ok emptyStateRoot := by
  have txid : (genesisReward testnet).txid = .ok genesisTransactionsRoot := by
    simp only [RewardTransaction.txid, RewardTransaction.toBytes, genesisReward, encode_chainId,
      encode_genesisMiner]
    decide +kernel
  refine ⟨txid, ?_, ?_, ?_⟩
  · rw [transactionsRoot, txid, ok_bind, List.mapM_nil]
    decide +kernel
  · simp only [Block.blockHash, BlockHeader.blockHash, BlockHeader.toBytes, testnetGenesis,
      genesisHeader, encode_chainId, encode_genesisMiner]
    decide +kernel
  · have leaves : emptyState.accounts.sortedItems = [] := rfl
    rw [AccountState.stateRoot, leaves, List.mapM_nil]
    decide +kernel

theorem genesisReward_txid : (genesisReward testnet).txid = .ok genesisTransactionsRoot :=
  genesis_evaluated.1

theorem genesis_transactionsRoot :
    transactionsRoot (genesisReward testnet) [] = .ok genesisTransactionsRoot :=
  genesis_evaluated.2.1

theorem genesis_blockHash : testnetGenesis.blockHash = .ok genesisHash := genesis_evaluated.2.2.1

theorem emptyState_stateRoot : emptyState.stateRoot = .ok emptyStateRoot := genesis_evaluated.2.2.2

/-- **The genesis block of every platform.** -/
theorem genesisBlock_testnet : genesisBlock testnet = .ok testnetGenesis := by
  simp only [genesisBlock, bind_eq_ok, raiseIf_eq_ok, pure_eq_ok, exists_const]
  exact ⟨by simp, emptyState, emptyState_new, _, genesis_transactionsRoot, _, emptyState_stateRoot,
    rfl⟩

/-- The genesis block passes its own validation. -/
theorem validate_testnetGenesis :
    validateAndExecuteBlock testnetGenesis none emptyState 0 testnet none =
      .ok ⟨emptyState, 0, 0, 0⟩ := by
  simp only [validateAndExecuteBlock, validateSupply, validateGenesis, genesisBlock_testnet,
    genesis_blockHash, bind_eq_ok, raiseIf_eq_ok, pure_eq_ok, exists_const, Except.ok.injEq,
    exists_eq_left', AccountState.copy_eq_ok]
  exact ⟨by decide, by simp [AccountState.snapshot, emptyState, Dict.sortedItems, Dict.empty],
    by decide, by simp, by decide, emptyState, ⟨emptyState_wellFormed, rfl⟩, rfl⟩

/-- **A chain can always be created**, and it is the same everywhere. -/
theorem Chain.init_testnet : Chain.init testnet = .ok genesisChain := by
  have work : workForTarget testnetGenesis.header.difficultyTarget = .ok 16 := by decide
  simp only [Chain.init, bind_eq_ok, raiseIf_eq_ok, pure_eq_ok, exists_const]
  exact ⟨by simp, _, genesisBlock_testnet, _, emptyState_new, _, validate_testnetGenesis, _,
    genesis_blockHash, _, work, rfl⟩

end

/-! ## One block later -/

/-- A block on the genesis block, mined by the genesis miner. -/
def firstBlock : Block where
  header := {
    version := blockVersion
    chainId := testnet.chainId
    height := 1
    previousBlockHash := genesisHash
    transactionsRoot :=
      BigEndian.toBytes 32 0x10ef31275669ca23efde1e7aee3bbdcd39732f5af85a0b7483d30f38942e7c65
    stateRoot :=
      BigEndian.toBytes 32 0x9cf1590059fa84b7287ca3a1f0ad45cf38d4731ddb6de8906434b1a91a8fccd0
    timestamp := testnetGenesisTimestamp + 60
    difficultyTarget := testnetInitialTarget
    nonce := 19
    minerAddress := testnetGenesisMinerAddress }
  rewardTransaction := {
    version := rewardTransactionVersion
    chainId := testnet.chainId
    height := 1
    minerAddress := testnetGenesisMinerAddress
    amountAtoms := initialRewardAtoms }
  transactions := []

/-- The hash of that block. -/
def firstHash : Bytes :=
  BigEndian.toBytes 32 0x0db9d9c7e701c934760853fc945c7643166c60b7d67c4295a31b4e1361c292ce

/-- The genesis block and the block on it. -/
def firstChain : Chain := (@Chain.addBlock asciiPlatform genesisChain firstBlock).2

theorem firstBlock_evaluated : @Block.blockHash asciiPlatform firstBlock = .ok firstHash ∧
    (@Chain.addBlock asciiPlatform genesisChain firstBlock).1 =
      .ok (.active firstHash genesisHash [] [firstHash]) := by
  decide +kernel

theorem firstBlock_hash : @Block.blockHash asciiPlatform firstBlock = .ok firstHash :=
  firstBlock_evaluated.1

theorem firstBlock_accepted :
    (@Chain.addBlock asciiPlatform genesisChain firstBlock).1 =
      .ok (.active firstHash genesisHash [] [firstHash]) :=
  firstBlock_evaluated.2

theorem firstBlock_added : @Chain.addBlock asciiPlatform genesisChain firstBlock =
    (.ok (.active firstHash genesisHash [] [firstHash]), firstChain) := by
  rw [firstChain, ← firstBlock_accepted]

theorem firstChain_reachable : @Chain.Reachable asciiPlatform firstChain :=
  @Chain.Reachable.addBlock asciiPlatform genesisChain firstBlock
    (@Chain.Reachable.init asciiPlatform genesisChain (@Chain.init_testnet asciiPlatform))

/-! ## Transfers and a side branch -/

namespace Payer

/-- A block of the payer, with its reward. -/
def payerBlock (height timestamp nonce amount : Nat)
    (previous transactionsRoot stateRoot : Nat) (transactions : List Transaction) : Block where
  header := {
    version := blockVersion
    chainId := testnet.chainId
    height := height
    previousBlockHash := BigEndian.toBytes 32 previous
    transactionsRoot := BigEndian.toBytes 32 transactionsRoot
    stateRoot := BigEndian.toBytes 32 stateRoot
    timestamp := testnetGenesisTimestamp + timestamp
    difficultyTarget := testnetInitialTarget
    nonce := nonce
    minerAddress := (transfer 0 0).senderAddress }
  rewardTransaction := {
    version := rewardTransactionVersion
    chainId := testnet.chainId
    height := height
    minerAddress := (transfer 0 0).senderAddress
    amountAtoms := amount }
  transactions

/-- The payer mines its first atoms. -/
def minedBlock : Block := payerBlock 1 60 8 4000000000
  0x0250f3a3c3d1c40da9d3aca119c0e44bbae7751e83fe37722ecfa0d5eeaa84f3
  0x0c3bb9963e11a07ddd057f7b8c045d5b5706e2952ec6f0308a31f4d5a3e4ba4c
  0x5f4abb66aff2fed170e398cea0bda7ae211c97f09098319cb73527dfb45a6b96 []

/-- The payer confirms its two transfers. -/
def transfersBlock : Block := payerBlock 2 120 0 4000000002
  0x0a8d59c444731bfbd2187eb41318a365a494aced9009a7688b2879536d7f34d8
  0x8bc824f8bc6689743af0ef2dcae6aeb3b222b357074b00b3eb60b712180ff8f2
  0x25af2fac9a38e424eebf2d64f8a8c498f4ca6a32a016a30caff3c5695e3d79f1 [firstTransfer, secondTransfer]

/-- The payer confirms its first transfer only. -/
def confirmingBlock : Block := payerBlock 2 120 1 4000000001
  0x0a8d59c444731bfbd2187eb41318a365a494aced9009a7688b2879536d7f34d8
  0xb05663a9247e51a1e3732d6e4da8b996b7f19323a8450cb9c68d9a8709c7f297
  0x65b6b36d1b751c10d79ca571b18b3808062f7ff5f14caf72b54f5a2bde75a4fa [firstTransfer]

/-- A block beside these without transfers. -/
def sideBlock : Block := payerBlock 2 120 4 4000000000
  0x0a8d59c444731bfbd2187eb41318a365a494aced9009a7688b2879536d7f34d8
  0x610a88cbbc53134745e99a638f841a72a3146ff026a17d97151078b2e397f1cd
  0x9cc28858915b7bb6098524159b0103c955e5ee7c86b2a7396f9a27b6da58e241 []

/-- A block on the one without transfers. -/
def overtakingBlock : Block := payerBlock 3 180 5 4000000000
  0x07d16660abbd383b29f15d7ba3ae6d8f9b438f62df6549d4e831168e7c303f2b
  0xf447d188ce422a5dd5e3117b1d8f361be8ff1d2bc714c6a7c933881d9707e88d
  0xd6318ddf192789e374ccc4d1c7b282add5aa840d681c8478528a6ed808a0c469 []

/-- The hash of the block that pays the payer. -/
def minedHash : Bytes :=
  BigEndian.toBytes 32 0x0a8d59c444731bfbd2187eb41318a365a494aced9009a7688b2879536d7f34d8

/-- The hash of the block with two transfers. -/
def transfersHash : Bytes :=
  BigEndian.toBytes 32 0x071e27db7c7302d2552677602d7c127552e1a3920363d4ce1f8a96799cc0b64c

/-- The genesis block and the block that pays the payer. -/
def minedChain : Chain := (@Chain.addBlock trustingPlatform genesisChain minedBlock).2

/-- The block with two transfers on top. -/
def transfersChain : Chain := (@Chain.addBlock trustingPlatform minedChain transfersBlock).2

/-- The same chain with a side branch of the same work. -/
def branchedChain : Chain := (@Chain.addBlock trustingPlatform transfersChain sideBlock).2

theorem branchedChain_evaluated :
    (@Chain.addBlock trustingPlatform genesisChain minedBlock).1 =
      .ok (.active minedHash genesisHash [] [minedHash]) ∧
    (@Chain.addBlock trustingPlatform minedChain transfersBlock).1 =
      .ok (.active transfersHash minedHash [] [transfersHash]) ∧
    @Block.blockHash trustingPlatform transfersBlock = .ok transfersHash ∧
    branchedChain.activeTipHash = transfersHash ∧ branchedChain.tipEntry.block = transfersBlock ∧
    branchedChain.entries.values.map (fun entry => entry.block.header.height) = [0, 1, 2, 2] := by
  decide +kernel

theorem minedBlock_accepted :
    (@Chain.addBlock trustingPlatform genesisChain minedBlock).1 =
      .ok (.active minedHash genesisHash [] [minedHash]) :=
  branchedChain_evaluated.1

theorem transfersBlock_accepted :
    (@Chain.addBlock trustingPlatform minedChain transfersBlock).1 =
      .ok (.active transfersHash minedHash [] [transfersHash]) :=
  branchedChain_evaluated.2.1

theorem transfersBlock_hash :
    @Block.blockHash trustingPlatform transfersBlock = .ok transfersHash :=
  branchedChain_evaluated.2.2.1

theorem minedChain_reachable : @Chain.Reachable trustingPlatform minedChain :=
  @Chain.Reachable.addBlock trustingPlatform genesisChain minedBlock
    (@Chain.Reachable.init trustingPlatform genesisChain (@Chain.init_testnet trustingPlatform))

theorem branchedChain_reachable : @Chain.Reachable trustingPlatform branchedChain :=
  @Chain.Reachable.addBlock trustingPlatform _ sideBlock
    (@Chain.Reachable.addBlock trustingPlatform _ transfersBlock minedChain_reachable)

/-- The side branch is stored, and the block with the transfers stays the tip. -/
theorem branchedChain_tip : branchedChain.activeTipHash = transfersHash ∧
    branchedChain.tipEntry.block = transfersBlock ∧
    branchedChain.entries.values.map (fun entry => entry.block.header.height) = [0, 1, 2, 2] :=
  branchedChain_evaluated.2.2.2

end Payer

end OurCoin
