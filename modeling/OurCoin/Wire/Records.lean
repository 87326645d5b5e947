import OurCoin.Model.Block
import OurCoin.Wire.Primitives

/-!
# Round trips of the records

A transaction, a reward transaction and a block header are read back from their canonical
bytes (`Transaction.fromBytes_toBytes`, `RewardTransaction.fromBytes_toBytes`,
`BlockHeader.fromBytes_toBytes`), when their texts are canonical within the limits of
their fields and the byte strings of a transaction are short enough. The reader of a
record is the chain of the readers of its fields. The first bytes tell the records apart.
-/

set_option autoImplicit false

namespace OurCoin

open Raising Reader

/-! ## First bytes -/

/-- A string starts with the length of its first field. -/
theorem take_of_encodeBytes {value written rest : Bytes} (encoded : encodeBytes value = .ok written) :
    (written ++ rest).take 4 = BigEndian.toBytes 4 value.length := by
  simp only [encodeBytes, bind_eq_ok, raiseIf_eq_ok, exists_const, pure_eq_ok] at encoded
  obtain ⟨-, length, lengthOk, rfl⟩ := encoded
  obtain ⟨-, rfl⟩ := encodeUnsigned_eq_ok.mp lengthOk
  rw [List.append_assoc, List.take_left' (BigEndian.length_toBytes _ _), Int.toNat_natCast]

variable [Platform]

theorem Transaction.take_toBytes {tx : Transaction} {written : Bytes}
    (encoded : tx.toBytes = .ok written) : written.take 4 = [0, 0, 0, 22] := by
  simp only [toBytes, signingBytes, bind_eq_ok, pure_eq_ok] at encoded
  obtain ⟨_, ⟨domain, domainOk, _, -, _, -, _, -, _, -, _, -, _, -, _, -, _, -, _, -, rfl⟩, _, -,
    rfl⟩ := encoded
  simp only [List.append_assoc]
  rw [take_of_encodeBytes domainOk]
  decide

theorem RewardTransaction.take_toBytes {reward : RewardTransaction} {written : Bytes}
    (encoded : reward.toBytes = .ok written) : written.take 4 = [0, 0, 0, 17] := by
  simp only [toBytes, bind_eq_ok, pure_eq_ok] at encoded
  obtain ⟨domain, domainOk, _, -, _, -, _, -, _, -, _, -, rfl⟩ := encoded
  simp only [List.append_assoc]
  rw [take_of_encodeBytes domainOk]
  decide

theorem BlockHeader.take_toBytes {header : BlockHeader} {written : Bytes}
    (encoded : header.toBytes = .ok written) : written.take 4 = [0, 0, 0, 23] := by
  simp only [toBytes, bind_eq_ok, pure_eq_ok] at encoded
  obtain ⟨domain, domainOk, _, -, _, -, _, -, _, -, _, -, _, -, _, -, _, -, _, -, _, -, _, -, _, -,
    _, -, _, -, rfl⟩ := encoded
  simp only [List.append_assoc]
  rw [take_of_encodeBytes domainOk]
  decide

omit [Platform] in
/-- A reader that is followed by the end of the data. -/
theorem readAll_ensureFinished {α : Type} {p : Reader Raised α} {written : Bytes} {value : α}
    (reads : Reads p written value) :
    readAll (do let value ← p; ensureFinished; return value) written = .ok value :=
  readAll_finish _ reads rfl

/-! ## Transactions -/

/-- The limits that the decoder puts on the fields of a transaction. -/
structure Transaction.Readable (tx : Transaction) : Prop where
  chainId : Canonical tx.chainId maxChainIdBytes
  publicKey : tx.senderPublicKey.length ≤ publicKeyLength
  sender : Canonical tx.senderAddress maxAddressBytes
  recipient : Canonical tx.recipientAddress maxAddressBytes
  signature : tx.signature.length ≤ signatureLength

/-- The reader of a transaction reads its canonical bytes. -/
theorem Transaction.reads_toBytes {tx : Transaction} {written : Bytes} (readable : tx.Readable)
    (encoded : tx.toBytes = .ok written) : Reads Transaction.reader written tx := by
  simp only [toBytes, signingBytes, bind_eq_ok, pure_eq_ok] at encoded
  obtain ⟨_, ⟨domain, domainOk, version, versionOk, chainId, chainIdOk, publicKey, publicKeyOk,
    sender, senderOk, recipient, recipientOk, amount, amountOk, fee, feeOk, nonce, nonceOk,
    validUntil, validUntilOk, rfl⟩, signature, signatureOk, rfl⟩ := encoded
  simp only [List.append_assoc]
  rw [← List.append_nil signature]
  apply (reads_bytes le_rfl domainOk).bind
  apply Reads.bind_nil (reads_check _ (by simp))
  apply (reads_u16 versionOk).bind
  apply (reads_text readable.chainId chainIdOk).bind
  apply (reads_bytes readable.publicKey publicKeyOk).bind
  apply (reads_text readable.sender senderOk).bind
  apply (reads_text readable.recipient recipientOk).bind
  apply (reads_u64 amountOk).bind
  apply (reads_u64 feeOk).bind
  apply (reads_u64 nonceOk).bind
  apply (reads_u64 validUntilOk).bind
  apply (reads_bytes readable.signature signatureOk).bind
  exact reads_pure tx

/-- **A transaction is read back from its canonical bytes.** -/
theorem Transaction.fromBytes_toBytes {tx : Transaction} {written : Bytes}
    (readable : tx.Readable) (encoded : tx.toBytes = .ok written) :
    Transaction.fromBytes written = .ok tx := by
  rw [fromBytes, rethrow_eq_ok]
  exact readAll_ensureFinished (reads_toBytes readable encoded)

/-! ## Reward transactions -/

/-- The texts of a reward transaction are such that they can be read back. -/
structure RewardTransaction.Readable (reward : RewardTransaction) : Prop where
  chainId : Canonical reward.chainId maxChainIdBytes
  miner : Canonical reward.minerAddress maxAddressBytes

/-- **A reward transaction is read back from its canonical bytes.** -/
theorem RewardTransaction.fromBytes_toBytes {reward : RewardTransaction} {written : Bytes}
    (readable : reward.Readable) (encoded : reward.toBytes = .ok written) :
    RewardTransaction.fromBytes written = .ok reward := by
  rw [fromBytes, rethrow_eq_ok]
  apply readAll_ensureFinished
  simp only [toBytes, bind_eq_ok, pure_eq_ok] at encoded
  obtain ⟨domain, domainOk, version, versionOk, chainId, chainIdOk, height, heightOk, miner, minerOk,
    amount, amountOk, rfl⟩ := encoded
  simp only [List.append_assoc]
  rw [← List.append_nil amount]
  apply (reads_bytes le_rfl domainOk).bind
  apply Reads.bind_nil (reads_check _ (by simp))
  apply (reads_u16 versionOk).bind
  apply (reads_text readable.chainId chainIdOk).bind
  apply (reads_u64 heightOk).bind
  apply (reads_text readable.miner minerOk).bind
  apply (reads_u64 amountOk).bind
  exact reads_pure reward

/-! ## Headers -/

/-- The texts of a header are such that they can be read back. -/
structure BlockHeader.Readable (header : BlockHeader) : Prop where
  chainId : Canonical header.chainId maxChainIdBytes
  miner : Canonical header.minerAddress maxAddressBytes

/-- **A block header is read back from its canonical bytes.** -/
theorem BlockHeader.fromBytes_toBytes {header : BlockHeader} {written : Bytes}
    (readable : header.Readable) (encoded : header.toBytes = .ok written) :
    BlockHeader.fromBytes written = .ok header := by
  simp only [toBytes, bind_eq_ok, pure_eq_ok, exactHash_eq_ok, encodeTarget_eq_ok] at encoded
  obtain ⟨domain, domainOk, version, versionOk, chainId, chainIdOk, height, heightOk, _,
    ⟨previousLength, rfl⟩, previous, previousOk, _, ⟨txRootLength, rfl⟩, txRoot, txRootOk, _,
    ⟨stateRootLength, rfl⟩, stateRoot, stateRootOk, timestamp, timestampOk, _, ⟨targetRange, rfl⟩,
    target, targetOk, nonce, nonceOk, miner, minerOk, rfl⟩ := encoded
  have targetBack : (BigEndian.ofBytes
      (BigEndian.toBytes targetLength header.difficultyTarget.toNat) : Int) =
        header.difficultyTarget := by
    have bounded := targetRange.2
    rw [maxTarget] at bounded
    have small : header.difficultyTarget.toNat < 256 ^ targetLength := by
      rw [targetLength]
      omega
    rw [BigEndian.ofBytes_toBytes small]
    omega
  have read : Reads BlockHeader.reader (domain ++ (version ++ (chainId ++ (height ++ (previous ++
      (txRoot ++ (stateRoot ++ (timestamp ++ (target ++ (nonce ++ (miner ++ [])))))))))))
      (header, BigEndian.toBytes targetLength header.difficultyTarget.toNat) := by
    apply (reads_bytes le_rfl domainOk).bind
    apply Reads.bind_nil (reads_check _ (by simp))
    apply (reads_u16 versionOk).bind
    apply (reads_text readable.chainId chainIdOk).bind
    apply (reads_u64 heightOk).bind
    apply (reads_bytes previousLength.le previousOk).bind
    apply (reads_bytes txRootLength.le txRootOk).bind
    apply (reads_bytes stateRootLength.le stateRootOk).bind
    apply (reads_u64 timestampOk).bind
    apply (reads_bytes (BigEndian.length_toBytes _ _).le targetOk).bind
    apply (reads_u64 nonceOk).bind
    apply (reads_text readable.miner minerOk).bind
    rw [targetBack]
    exact reads_pure _
  have checked : checkLengths header
      (BigEndian.toBytes targetLength header.difficultyTarget.toNat) = .ok () := by
    simp only [checkLengths, bind_eq_ok, raiseIf_eq_ok, exactHash_eq_ok, encodeTarget_eq_ok,
      exists_const, pure_eq_ok]
    exact ⟨_, ⟨previousLength, rfl⟩, _, ⟨txRootLength, rfl⟩, _, ⟨stateRootLength, rfl⟩, by simp, _,
      ⟨targetRange, rfl⟩, trivial⟩
  simp only [List.append_nil] at read
  simp only [List.append_assoc]
  rw [fromBytes, readAll_ensureFinished read]
  simp only [rethrow, ok_bind, checked]
  rfl

end OurCoin
