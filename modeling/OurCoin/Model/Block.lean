import OurCoin.Model.Transaction

/-!
# Blocks

`merkle.py` and `block.py`: the Merkle root, reward transactions, block headers and
block bodies, with their canonical bytes and decoders.
-/

set_option autoImplicit false

namespace OurCoin

open Raising

/-! ## `merkle.py` -/

def emptyMerkleDomain : Bytes := [0x00]
def merkleNodeDomain : Bytes := [0x01]

/-- `MerkleError(message)`. -/
def merkleError (message : String) : Raised := ⟨.merkleError, message⟩

/-- One level of the tree from the level below it, whose length is even. -/
def merkleParents : List Bytes → List Bytes
  | left :: right :: rest =>
    sha256Digest (merkleNodeDomain ++ left ++ right) :: merkleParents rest
  | _ => []

/-- One round of the loop: duplicate an odd final node and hash the pairs. -/
def merkleLevel (level : List Bytes) : List Bytes :=
  merkleParents (if level.length % 2 = 1 then level ++ level.getLast?.toList else level)

/-- `while len(level) > 1`, at most as many rounds as the level has nodes. -/
def merkleLoop : Nat → List Bytes → List Bytes
  | 0, level => level
  | fuel + 1, level => if level.length > 1 then merkleLoop fuel (merkleLevel level) else level

/-- A deterministic root, duplicating an odd final node per level. -/
def merkleRoot (leaves : List Bytes) : Except Raised Bytes :=
  if leaves = [] then .ok (sha256Digest emptyMerkleDomain)
  else do
    raiseIf (∃ leaf ∈ leaves, leaf.length ≠ 32)
      (merkleError "every Merkle leaf must be exactly 32 bytes")
    return (merkleLoop leaves.length leaves).headD []

/-! ## `block.py` -/

def blockHeaderDomain : Bytes := (text "OURCOIN:BLOCK:HEADER:V1").map UInt8.ofNat
def rewardTransactionDomain : Bytes := (text "OURCOIN:REWARD:V1").map UInt8.ofNat
def blockVersion : Int := 1
def rewardTransactionVersion : Int := 1
def hashLength : Nat := 32
def targetLength : Nat := 32
def maxTarget : Int := 2 ^ 256 - 1

/-- `BlockEncodingError(message)`. -/
def blockEncodingError (message : String) : Raised := ⟨.blockEncodingError, message⟩

/-- Refuse a value that has not 32 bytes. -/
def exactHash (value : Bytes) (name : String) : Except Raised Bytes := do
  raiseIf (value.length ≠ hashLength) (blockEncodingError s!"{name} must be exactly 32 bytes")
  return value

/-- A difficulty target as 32 bytes. -/
def encodeTarget (target : Int) : Except Raised Bytes := do
  raiseIf (¬ (0 < target ∧ target ≤ maxTarget))
    (blockEncodingError "difficulty target must be between 1 and 2^256 - 1")
  return BigEndian.toBytes targetLength target.toNat

/-- The transaction that pays the miner of a block. -/
structure RewardTransaction where
  version : Int
  chainId : Text
  height : Int
  minerAddress : Text
  amountAtoms : Int
  deriving DecidableEq

namespace RewardTransaction

/-- The canonical encoding, which is what is hashed. -/
def toBytes [Platform] (reward : RewardTransaction) : Except Raised Bytes := do
  return (← encodeBytes rewardTransactionDomain) ++
    (← encodeU16 reward.version) ++
    (← encodeText reward.chainId) ++
    (← encodeU64 reward.height) ++
    (← encodeText reward.minerAddress) ++
    (← encodeU64 reward.amountAtoms)

/-- The SHA-256 hash of the encoding. -/
def txid [Platform] (reward : RewardTransaction) : Except Raised Bytes := do
  return sha256Digest (← reward.toBytes)

/-- The fields of `from_bytes`, in their order. -/
def reader [Platform] : Reader Raised RewardTransaction := do
  let domain ← readBytes rewardTransactionDomain.length
  Reader.check (domain ≠ rewardTransactionDomain)
    (blockEncodingError "unknown reward transaction domain")
  return {
    version := ← readU16
    chainId := ← readText maxChainIdBytes
    height := ← readU64
    minerAddress := ← readText maxAddressBytes
    amountAtoms := ← readU64 }

/-- Decode one reward transaction from its exact canonical bytes. -/
def fromBytes [Platform] (encoded : Bytes) : Except Raised RewardTransaction :=
  rethrow (reraiseAs (· == .encodingError) .blockEncodingError
    "invalid canonical reward transaction encoding")
    (Reader.readAll (do let reward ← reader; ensureFinished; return reward) encoded)

end RewardTransaction

/-- The header that proof of work commits to. -/
structure BlockHeader where
  version : Int
  chainId : Text
  height : Int
  previousBlockHash : Bytes
  transactionsRoot : Bytes
  stateRoot : Bytes
  timestamp : Int
  difficultyTarget : Int
  nonce : Int
  minerAddress : Text
  deriving DecidableEq

namespace BlockHeader

/-- The canonical encoding, which is what is hashed. -/
def toBytes [Platform] (header : BlockHeader) : Except Raised Bytes := do
  return (← encodeBytes blockHeaderDomain) ++
    (← encodeU16 header.version) ++
    (← encodeText header.chainId) ++
    (← encodeU64 header.height) ++
    (← encodeBytes (← exactHash header.previousBlockHash "previous block hash")) ++
    (← encodeBytes (← exactHash header.transactionsRoot "transactions root")) ++
    (← encodeBytes (← exactHash header.stateRoot "state root")) ++
    (← encodeU64 header.timestamp) ++
    (← encodeBytes (← encodeTarget header.difficultyTarget)) ++
    (← encodeU64 header.nonce) ++
    (← encodeText header.minerAddress)

/-- The SHA-256 hash of the encoding. -/
def blockHash [Platform] (header : BlockHeader) : Except Raised Bytes := do
  return sha256Digest (← header.toBytes)

/-- The reader of one header, with the target bytes as they were read. -/
def reader [Platform] : Reader Raised (BlockHeader × Bytes) := do
  let domain ← readBytes blockHeaderDomain.length
  Reader.check (domain ≠ blockHeaderDomain) (blockEncodingError "unknown block header domain")
  let version ← readU16
  let chainId ← readText maxChainIdBytes
  let height ← readU64
  let previousBlockHash ← readBytes hashLength
  let transactionsRoot ← readBytes hashLength
  let stateRoot ← readBytes hashLength
  let timestamp ← readU64
  let targetBytes ← readBytes targetLength
  let nonce ← readU64
  let minerAddress ← readText maxAddressBytes
  return ({
    version, chainId, height, previousBlockHash, transactionsRoot, stateRoot, timestamp
    difficultyTarget := BigEndian.ofBytes targetBytes
    nonce, minerAddress }, targetBytes)

/-- The length checks that follow the reading of a header. -/
def checkLengths (header : BlockHeader) (targetBytes : Bytes) : Except Raised Unit := do
  let _ ← exactHash header.previousBlockHash "previous block hash"
  let _ ← exactHash header.transactionsRoot "transactions root"
  let _ ← exactHash header.stateRoot "state root"
  raiseIf (targetBytes.length ≠ targetLength)
    (blockEncodingError "difficulty target must be exactly 32 bytes")
  let _ ← encodeTarget header.difficultyTarget

/-- Decode one header from its exact canonical bytes. -/
def fromBytes [Platform] (encoded : Bytes) : Except Raised BlockHeader := do
  let (header, targetBytes) ← rethrow (reraiseAs (· == .encodingError) .blockEncodingError
    "invalid canonical block header encoding")
    (Reader.readAll (do let read ← reader; ensureFinished; return read) encoded)
  checkLengths header targetBytes
  return header

end BlockHeader

/-- A header, a reward and the transfers of the block. -/
structure Block where
  header : BlockHeader
  rewardTransaction : RewardTransaction
  transactions : List Transaction
  deriving DecidableEq

namespace Block

/-- The hash of the header. -/
def blockHash [Platform] (block : Block) : Except Raised Bytes := block.header.blockHash

/-- The block with another nonce in its header. -/
def withNonce (block : Block) (nonce : Int) : Block :=
  { block with header := { block.header with nonce } }

end Block

/-- The Merkle root of the reward and the transactions. -/
def transactionsRoot [Platform] (reward : RewardTransaction) (transactions : List Transaction) :
    Except Raised Bytes := do
  let rewardId ← reward.txid
  let ids ← transactions.mapM Transaction.txid
  merkleRoot (rewardId :: ids)

/-- The hash, as an unsigned integer, is not above the target. -/
def hashMeetsTarget (blockHash : Bytes) (target : Int) : Bool :=
  decide (blockHash.length = hashLength ∧ (0 < target ∧ target ≤ maxTarget) ∧
    (BigEndian.ofBytes blockHash : Int) ≤ target)

/-! ## Hashes and encodable headers -/

theorem exactHash_eq_ok {value written : Bytes} {name : String} :
    exactHash value name = .ok written ↔ value.length = hashLength ∧ value = written := by
  simp [exactHash]

theorem encodeTarget_eq_ok {target : Int} {written : Bytes} :
    encodeTarget target = .ok written ↔
      (0 < target ∧ target ≤ maxTarget) ∧ BigEndian.toBytes targetLength target.toNat = written := by
  simp [encodeTarget]

section

variable [Platform]

/-- A block hash has 32 bytes. -/
theorem BlockHeader.length_blockHash {header : BlockHeader} {hash : Bytes}
    (found : header.blockHash = .ok hash) : hash.length = hashLength := by
  simp only [BlockHeader.blockHash, bind_eq_ok, pure_eq_ok] at found
  obtain ⟨encoded, -, rfl⟩ := found
  exact Sha256.length_digest encoded

theorem RewardTransaction.length_txid {reward : RewardTransaction} {id : Bytes}
    (found : reward.txid = .ok id) : id.length = 32 := by
  simp only [RewardTransaction.txid, bind_eq_ok, pure_eq_ok] at found
  obtain ⟨encoded, -, rfl⟩ := found
  exact Sha256.length_digest encoded

/-- The conditions under which a header has canonical bytes. -/
structure BlockHeader.Encodable (header : BlockHeader) : Prop where
  version_range : 0 ≤ header.version ∧ header.version ≤ u16Max
  chainId_encodes : ∃ written, encodeText header.chainId = .ok written
  height_range : 0 ≤ header.height ∧ header.height ≤ u64Max
  previous_length : header.previousBlockHash.length = hashLength
  transactionsRoot_length : header.transactionsRoot.length = hashLength
  stateRoot_length : header.stateRoot.length = hashLength
  timestamp_range : 0 ≤ header.timestamp ∧ header.timestamp ≤ u64Max
  target_range : 0 < header.difficultyTarget ∧ header.difficultyTarget ≤ maxTarget
  nonce_range : 0 ≤ header.nonce ∧ header.nonce ≤ u64Max
  miner_encodes : ∃ written, encodeText header.minerAddress = .ok written

/-- **A header has a hash exactly when every field has a canonical encoding.** -/
theorem BlockHeader.exists_blockHash {header : BlockHeader} :
    (∃ hash, header.blockHash = .ok hash) ↔ header.Encodable := by
  have hashFits : ((hashLength : Nat) : Int) ≤ u32Max := by decide
  have targetFits : ((targetLength : Nat) : Int) ≤ u32Max := by decide
  simp only [BlockHeader.blockHash, BlockHeader.toBytes, bind_eq_ok, pure_eq_ok, encodeU16,
    encodeU64, encodeUnsigned_eq_ok, exactHash_eq_ok, encodeTarget_eq_ok]
  constructor
  · rintro ⟨_, _, ⟨_, _, _, ⟨version, -⟩, chain, chainOk, _, ⟨height, -⟩, _, ⟨previous, rfl⟩, _, _,
      _, ⟨txRoot, rfl⟩, _, _, _, ⟨stateRoot, rfl⟩, _, _, _, ⟨timestamp, -⟩, _, ⟨target, rfl⟩, _, _,
      _, ⟨nonce, -⟩, miner, minerOk, -⟩, -⟩
    exact ⟨version, ⟨_, chainOk⟩, height, previous, txRoot, stateRoot, timestamp, target, nonce,
      ⟨_, minerOk⟩⟩
  · intro fields
    obtain ⟨domain, domainOk⟩ : ∃ written, encodeBytes blockHeaderDomain = .ok written :=
      exists_encodeBytes (by decide)
    obtain ⟨chain, chainOk⟩ := fields.chainId_encodes
    obtain ⟨previous, previousOk⟩ := exists_encodeBytes (fields.previous_length ▸ hashFits)
    obtain ⟨txRoot, txRootOk⟩ := exists_encodeBytes (fields.transactionsRoot_length ▸ hashFits)
    obtain ⟨stateRoot, stateRootOk⟩ := exists_encodeBytes (fields.stateRoot_length ▸ hashFits)
    obtain ⟨target, targetOk⟩ : ∃ written,
        encodeBytes (BigEndian.toBytes targetLength header.difficultyTarget.toNat) = .ok written :=
      exists_encodeBytes (by rwa [BigEndian.length_toBytes])
    obtain ⟨miner, minerOk⟩ := fields.miner_encodes
    exact ⟨_, _, ⟨domain, domainOk, _, ⟨fields.version_range, rfl⟩, chain, chainOk, _,
      ⟨fields.height_range, rfl⟩, _, ⟨fields.previous_length, rfl⟩, previous, previousOk, _,
      ⟨fields.transactionsRoot_length, rfl⟩, txRoot, txRootOk, _,
      ⟨fields.stateRoot_length, rfl⟩, stateRoot, stateRootOk, _, ⟨fields.timestamp_range, rfl⟩,
      _, ⟨fields.target_range, rfl⟩, target, targetOk, _, ⟨fields.nonce_range, rfl⟩, miner,
      minerOk, rfl⟩, rfl⟩

end

end OurCoin
