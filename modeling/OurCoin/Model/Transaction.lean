import OurCoin.Model.Address

/-!
# Signed account transactions

`transaction.py`: the canonical bytes of a transaction, its decoder, the checks that
do not depend on account state, and the creation of a signed transaction.
-/

set_option autoImplicit false

namespace OurCoin

open Raising

def transactionDomain : Bytes := (text "OURCOIN:TRANSACTION:V1").map UInt8.ofNat
def transactionVersion : Int := 1
def maxChainIdBytes : Nat := 64
def maxAddressBytes : Nat := 128

/-- `TransactionError(message)`. -/
def transactionError (message : String) : Raised := ⟨.transactionError, message⟩

/-- A signed transfer between two account addresses. -/
structure Transaction where
  version : Int
  chainId : Text
  senderPublicKey : Bytes
  senderAddress : Text
  recipientAddress : Text
  amountAtoms : Int
  feeAtoms : Int
  nonce : Int
  validUntilHeight : Int
  signature : Bytes
  deriving DecidableEq

namespace Transaction

/-- The bytes covered by the signature. -/
def signingBytes [Platform] (tx : Transaction) : Except Raised Bytes := do
  return (← encodeBytes transactionDomain) ++
    (← encodeU16 tx.version) ++
    (← encodeText tx.chainId) ++
    (← encodeBytes tx.senderPublicKey) ++
    (← encodeText tx.senderAddress) ++
    (← encodeText tx.recipientAddress) ++
    (← encodeU64 tx.amountAtoms) ++
    (← encodeU64 tx.feeAtoms) ++
    (← encodeU64 tx.nonce) ++
    (← encodeU64 tx.validUntilHeight)

/-- The canonical encoding with the signature. -/
def toBytes [Platform] (tx : Transaction) : Except Raised Bytes := do
  return (← tx.signingBytes) ++ (← encodeBytes tx.signature)

/-- The SHA-256 hash of the encoding. -/
def txid [Platform] (tx : Transaction) : Except Raised Bytes := do
  return sha256Digest (← tx.toBytes)

/-- The reader of one transaction, up to its last field. -/
def reader [Platform] : Reader Raised Transaction := do
  let domain ← readBytes transactionDomain.length
  Reader.check (domain ≠ transactionDomain) (transactionError "unknown transaction domain")
  return {
    version := ← readU16
    chainId := ← readText maxChainIdBytes
    senderPublicKey := ← readBytes publicKeyLength
    senderAddress := ← readText maxAddressBytes
    recipientAddress := ← readText maxAddressBytes
    amountAtoms := ← readU64
    feeAtoms := ← readU64
    nonce := ← readU64
    validUntilHeight := ← readU64
    signature := ← readBytes signatureLength }

/-- Decode one canonical transaction without applying state-dependent rules. -/
def fromBytes [Platform] (encoded : Bytes) : Except Raised Transaction :=
  rethrow (reraiseAs (· == .encodingError) .transactionError
    "invalid canonical transaction encoding")
    (Reader.readAll (do let tx ← reader; ensureFinished; return tx) encoded)

end Transaction

/-- Refuse an integer that does not fit in 64 bits. -/
def validateU64 (value : Int) (fieldName : String) : Except Raised Unit :=
  raiseIf (¬ (0 ≤ value ∧ value ≤ u64Max))
    (transactionError s!"{fieldName} must be an unsigned 64-bit integer")

/-- Validate canonical fields, network binding, addresses and signature. -/
def validateTransaction [Platform] (tx : Transaction) (currentHeight : Int)
    (network : NetworkConfig) : Except Raised Unit := do
  validateU64 currentHeight "current height"
  raiseIf (tx.version ≠ transactionVersion) (transactionError "unsupported transaction version")
  raiseIf (tx.chainId ≠ network.chainId) (transactionError "transaction belongs to another network")
  raiseIf (tx.senderPublicKey.length ≠ publicKeyLength)
    (transactionError "sender public key must be exactly 32 bytes")
  raiseIf (tx.signature.length ≠ signatureLength)
    (transactionError "transaction signature must be exactly 64 bytes")
  validateU64 tx.amountAtoms "amount"
  validateU64 tx.feeAtoms "fee"
  validateU64 tx.nonce "nonce"
  validateU64 tx.validUntilHeight "valid-until height"
  raiseIf (tx.amountAtoms = 0) (transactionError "transaction amount must be positive")
  raiseIf (tx.amountAtoms + tx.feeAtoms > u64Max)
    (transactionError "transaction amount plus fee exceeds uint64")
  raiseIf (currentHeight > tx.validUntilHeight) (transactionError "transaction has expired")
  let expectedSender ← rethrow
    (reraiseAs (fun cls => cls == .addressError || cls == .cryptoError) .transactionError
      "transaction contains an invalid network address")
    (do
      let _ ← decodeAddress tx.senderAddress network
      let _ ← decodeAddress tx.recipientAddress network
      addressFromPublicKey tx.senderPublicKey network)
  raiseIf (tx.senderAddress ≠ expectedSender)
    (transactionError "sender address does not match the public key")
  let signed ← rethrow
    (reraiseAs (· == .encodingError) .transactionError
      "transaction fields are not canonically encodable")
    (do
      let signed ← tx.signingBytes
      let _ ← tx.toBytes
      return signed)
  raiseIf (¬ verifySignature tx.senderPublicKey signed tx.signature = true)
    (transactionError "transaction signature is invalid")

/-- Create a transaction signed with a private key, and validate it at height 0. -/
def createSignedTransaction [Platform] (privateKeyBytes : Bytes) (recipientAddress : Text)
    (amountAtoms feeAtoms nonce validUntilHeight : Int) (network : NetworkConfig) :
    Except Raised Transaction := do
  let tx ← rethrow
    (reraiseAs (fun cls => cls == .cryptoError || cls == .encodingError) .transactionError
      "could not create a canonical signed transaction")
    (do
      let senderPublicKey ← publicKeyFromPrivate privateKeyBytes
      let senderAddress ← addressFromPublicKey senderPublicKey network
      let unsigned : Transaction := {
        version := transactionVersion
        chainId := network.chainId
        senderPublicKey
        senderAddress
        recipientAddress
        amountAtoms
        feeAtoms
        nonce
        validUntilHeight
        signature := [] }
      return { unsigned with signature := ← sign privateKeyBytes (← unsigned.signingBytes) })
  validateTransaction tx 0 network
  return tx

/-! ## What validation establishes -/

/-- The checks of `validateTransaction`, apart from the one that depends on the height. -/
structure Transaction.IntrinsicallyValid [Platform] (tx : Transaction)
    (network : NetworkConfig) : Prop where
  version_eq : tx.version = transactionVersion
  chainId_eq : tx.chainId = network.chainId
  publicKey_length : tx.senderPublicKey.length = publicKeyLength
  signature_length : tx.signature.length = signatureLength
  amount_pos : 0 < tx.amountAtoms
  fee_nonneg : 0 ≤ tx.feeAtoms
  total_le : tx.amountAtoms + tx.feeAtoms ≤ u64Max
  nonce_range : 0 ≤ tx.nonce ∧ tx.nonce ≤ u64Max
  validUntil_range : 0 ≤ tx.validUntilHeight ∧ tx.validUntilHeight ≤ u64Max
  sender_valid : ∃ hash, decodeAddress tx.senderAddress network = .ok hash
  recipient_valid : ∃ hash, decodeAddress tx.recipientAddress network = .ok hash
  sender_eq : addressFromPublicKey tx.senderPublicKey network = .ok tx.senderAddress
  encodable : ∃ signed, tx.signingBytes = .ok signed ∧ (∃ encoded, tx.toBytes = .ok encoded) ∧
    verifySignature tx.senderPublicKey signed tx.signature = true

/-- **A transaction passes validation exactly when its own checks hold and it has not
expired.** -/
theorem validateTransaction_eq_ok [Platform] {tx : Transaction} {height : Int}
    {network : NetworkConfig} :
    validateTransaction tx height network = .ok () ↔
      (0 ≤ height ∧ height ≤ u64Max) ∧ tx.IntrinsicallyValid network ∧
        height ≤ tx.validUntilHeight := by
  simp only [validateTransaction, validateU64, bind_eq_ok, raiseIf_eq_ok, rethrow_eq_ok,
    pure_eq_ok, not_not, exists_const, not_lt, gt_iff_lt]
  constructor
  · rintro ⟨height_range, version, chain, keyLength, sigLength, amount, fee, nonce, validUntil,
      positive, total, alive, expected,
      ⟨senderHash, senderOk, recipientHash, recipientOk, expectedOk⟩, same,
      signed, ⟨_, signedOk, encoded, encodedOk, rfl⟩, verified⟩
    refine ⟨height_range, ⟨version, chain, keyLength, sigLength, ?_, fee.1, total, nonce,
      validUntil, ⟨_, senderOk⟩, ⟨_, recipientOk⟩, same ▸ expectedOk,
      ⟨_, signedOk, ⟨_, encodedOk⟩, verified⟩⟩, alive⟩
    omega
  · rintro ⟨height_range, valid, alive⟩
    obtain ⟨senderHash, senderOk⟩ := valid.sender_valid
    obtain ⟨recipientHash, recipientOk⟩ := valid.recipient_valid
    obtain ⟨signed, signedOk, ⟨encoded, encodedOk⟩, verified⟩ := valid.encodable
    have amount := valid.amount_pos
    have fee := valid.fee_nonneg
    have total := valid.total_le
    exact ⟨height_range, valid.version_eq, valid.chainId_eq, valid.publicKey_length,
      valid.signature_length, by omega, by omega, valid.nonce_range, valid.validUntil_range,
      by omega, total, alive, tx.senderAddress,
      ⟨senderHash, senderOk, recipientHash, recipientOk, valid.sender_eq⟩, rfl, signed,
      ⟨signed, signedOk, encoded, encodedOk, rfl⟩, verified⟩

namespace Transaction.IntrinsicallyValid

variable [Platform] {tx : Transaction} {network : NetworkConfig}

/-- A valid transaction has an ID. -/
theorem exists_txid (valid : tx.IntrinsicallyValid network) : ∃ id, tx.txid = .ok id := by
  obtain ⟨_, -, ⟨encoded, encodedOk⟩, -⟩ := valid.encodable
  exact ⟨sha256Digest encoded, by simp [txid, encodedOk, bind, Except.bind, pure, Except.pure]⟩

/-- A transaction that was valid once can only have become invalid for its height, which
is a `TransactionError`. -/
theorem validateTransaction_raises (valid : tx.IntrinsicallyValid network) (height : Int) :
    RaisesOnly (fun e => e.cls = .transactionError) (validateTransaction tx height network) := by
  obtain ⟨_, senderOk⟩ := valid.sender_valid
  obtain ⟨_, recipientOk⟩ := valid.recipient_valid
  obtain ⟨signed, signedOk, ⟨encoded, encodedOk⟩, -⟩ := valid.encodable
  have addresses : (do
      let _ ← decodeAddress tx.senderAddress network
      let _ ← decodeAddress tx.recipientAddress network
      addressFromPublicKey tx.senderPublicKey network) = .ok tx.senderAddress := by
    rw [senderOk, ok_bind, recipientOk, ok_bind, valid.sender_eq]
  have encodes : (do
      let signed ← tx.signingBytes
      let _ ← tx.toBytes
      return signed) = .ok signed := by
    rw [signedOk, ok_bind, encodedOk, ok_bind]
    rfl
  unfold validateTransaction validateU64
  repeat refine .bind (.raiseIf rfl) fun _ _ => ?_
  refine .bind (.rethrow (.of_ok addresses)) fun expected _ => ?_
  refine .bind (.raiseIf rfl) fun _ _ => ?_
  exact .bind (.rethrow (.of_ok encodes)) fun _ _ => .raiseIf rfl

end Transaction.IntrinsicallyValid

/-- A transaction ID has 32 bytes. -/
theorem Transaction.length_txid [Platform] {tx : Transaction} {id : Bytes}
    (found : tx.txid = .ok id) : id.length = 32 := by
  simp only [Transaction.txid, bind_eq_ok, pure_eq_ok] at found
  obtain ⟨encoded, -, rfl⟩ := found
  exact Sha256.length_digest encoded

end OurCoin
