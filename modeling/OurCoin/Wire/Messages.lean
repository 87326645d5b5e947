import OurCoin.Model.Protocol
import OurCoin.Wire.Records

/-!
# The payloads of the peer protocol

What one peer encodes, the other one decodes: a HELLO (`Hello.fromBytes_toBytes`), a
locator, a summary, a rejection, a ping and the envelope of a block with readable parts
(`decodeBlock_encodeBlock`), which is small enough for one frame (`length_encodeBlock`).
-/

set_option autoImplicit false

namespace OurCoin

open Raising Reader

/-! ## Fields -/

/-- A check between two fields reads nothing. -/
theorem reads_lift {α : Type} {x : Except Raised α} {a : α} (returns : x = .ok a) :
    Reads (liftM x : Reader Raised α) [] a := by
  intro rest
  subst returns
  rfl

theorem length_encodeUnsigned {value maximum : Int} {width : Nat} {written : Bytes}
    (encoded : encodeUnsigned value width maximum = .ok written) : written.length = width := by
  obtain ⟨-, rfl⟩ := encodeUnsigned_eq_ok.mp encoded
  exact BigEndian.length_toBytes _ _

theorem length_encodeBytes {value written : Bytes} (encoded : encodeBytes value = .ok written) :
    written.length = 4 + value.length := by
  simp only [encodeBytes, bind_eq_ok, raiseIf_eq_ok, exists_const, pure_eq_ok] at encoded
  obtain ⟨-, length, lengthOk, rfl⟩ := encoded
  rw [List.length_append, length_encodeUnsigned lengthOk]

/-- The items of a sequence are read back. -/
theorem reads_items {maxItemLength : Nat} : ∀ {values chunks : List Bytes},
    (∀ value ∈ values, value.length ≤ maxItemLength) → values.mapM encodeBytes = .ok chunks →
      Reads ((List.replicate values.length ()).mapM fun _ => readBytes maxItemLength)
        chunks.flatten values
  | [], chunks, _, encoded => by
      rw [mapM_eq_ok, List.forall₂_nil_left_iff] at encoded
      subst encoded
      exact reads_pure []
  | value :: values, chunks, short, encoded => by
      rw [List.mapM_cons, bind_eq_ok] at encoded
      obtain ⟨first, firstOk, rest⟩ := encoded
      obtain ⟨others, othersOk, made⟩ := bind_eq_ok.mp rest
      rw [pure_eq_ok] at made
      subst made
      rw [List.length_cons, List.replicate_succ, List.mapM_cons, List.flatten_cons]
      apply (reads_bytes (short value List.mem_cons_self) firstOk).bind
      rw [← List.append_nil others.flatten]
      apply (reads_items (fun other member => short other (List.mem_cons_of_mem _ member))
        othersOk).bind
      exact reads_pure _

/-- A sequence within its limits is read back. -/
theorem reads_sequence {maxItems maxItemLength : Nat} {values : List Bytes} {written : Bytes}
    (few : values.length ≤ maxItems) (short : ∀ value ∈ values, value.length ≤ maxItemLength)
    (encoded : encodeSequence values = .ok written) :
    Reads (readSequence maxItems maxItemLength) written values := by
  simp only [encodeSequence, bind_eq_ok, raiseIf_eq_ok, exists_const, pure_eq_ok] at encoded
  obtain ⟨-, count, countOk, chunks, chunksOk, rfl⟩ := encoded
  rw [readSequence]
  apply (reads_u32 countOk).bind
  apply Reads.bind_nil (reads_check _ (by omega))
  rw [Int.toNat_natCast]
  exact reads_items short chunksOk

theorem length_items {maxItemLength : Nat} {values chunks : List Bytes}
    (short : ∀ value ∈ values, value.length ≤ maxItemLength)
    (encoded : values.mapM encodeBytes = .ok chunks) :
    chunks.flatten.length ≤ values.length * (4 + maxItemLength) := by
  rw [mapM_eq_ok] at encoded
  induction encoded with
  | nil => simp
  | @cons value chunk values chunks one rest ih =>
      have first := short value List.mem_cons_self
      have others := ih fun other member => short other (List.mem_cons_of_mem _ member)
      rw [List.flatten_cons, List.length_append, length_encodeBytes one, List.length_cons,
        Nat.add_mul]
      omega

/-- A sequence of short items has a bounded length. -/
theorem length_encodeSequence {values : List Bytes} {written : Bytes} {maxItemLength : Nat}
    (short : ∀ value ∈ values, value.length ≤ maxItemLength)
    (encoded : encodeSequence values = .ok written) :
    written.length ≤ 4 + values.length * (4 + maxItemLength) := by
  simp only [encodeSequence, bind_eq_ok, raiseIf_eq_ok, exists_const, pure_eq_ok] at encoded
  obtain ⟨-, count, countOk, chunks, chunksOk, rfl⟩ := encoded
  have items := length_items short chunksOk
  rw [List.length_append, length_encodeUnsigned countOk]
  omega

/-! ## Cumulative work -/

theorem encodeWireWork_eq_ok {work : Int} {written : Bytes} :
    encodeWireWork work = .ok written ↔
      (0 < work ∧ work < 2 ^ (workLength * 8)) ∧ BigEndian.toBytes workLength work.toNat = written := by
  simp [encodeWireWork]

/-- Work is decoded to itself. -/
theorem decodeWireWork_encodeWireWork {work : Int} {written : Bytes}
    (encoded : encodeWireWork work = .ok written) : decodeWireWork written = .ok work := by
  obtain ⟨⟨positive, bounded⟩, rfl⟩ := encodeWireWork_eq_ok.mp encoded
  have small : work.toNat < 256 ^ workLength := by
    rw [workLength] at bounded ⊢
    omega
  simp only [decodeWireWork, bind_eq_ok, raiseIf_eq_ok, exists_const, pure_eq_ok,
    BigEndian.ofBytes_toBytes small, BigEndian.length_toBytes]
  omega

theorem length_encodeWireWork {work : Int} {written : Bytes}
    (encoded : encodeWireWork work = .ok written) : written.length = workLength := by
  obtain ⟨-, rfl⟩ := encodeWireWork_eq_ok.mp encoded
  exact BigEndian.length_toBytes _ _

theorem exactBytes_eq_ok {value written : Bytes} {length : Nat} {name : String} :
    exactBytes value length name = .ok written ↔ value.length = length ∧ value = written := by
  simp [exactBytes]

/-! ## Small payloads -/

theorem decodePing_encodePing {nonce : Int} {payload : Bytes}
    (encoded : encodePing nonce = .ok payload) : decodePing payload = .ok nonce := by
  simp only [encodePing, bind_eq_ok, raiseIf_eq_ok, exists_const] at encoded
  rw [decodePing, rethrow_eq_ok]
  exact readAll_ensureFinished (reads_u64 encoded.2)

theorem BlockLocator.fromBytes_toBytes {locator : BlockLocator} {payload : Bytes}
    (encoded : locator.toBytes = .ok payload) : BlockLocator.fromBytes payload = .ok locator := by
  simp only [toBytes, bind_eq_ok, raiseIf_eq_ok, exists_const, pure_eq_ok] at encoded
  obtain ⟨count, domain, domainOk, hashes, hashesOk, body, bodyOk, rfl⟩ := encoded
  rw [not_not] at count
  have lengths : ∀ value ∈ locator.hashes, value.length = hashLength := by
    intro value member
    obtain ⟨_, one, -⟩ := exists_of_mapM_eq_ok hashesOk value member
    exact (exactBytes_eq_ok.mp one).1
  have each : (locator.hashes.mapM fun value => exactBytes value hashLength "locator hash") =
      .ok (locator.hashes.map id) :=
    mapM_eq_map fun value member => exactBytes_eq_ok.mpr ⟨lengths value member, rfl⟩
  rw [List.map_id] at each
  rw [each] at hashesOk
  cases hashesOk
  have read : Reads BlockLocator.reader (domain ++ body) locator.hashes := by
    apply (reads_bytes le_rfl domainOk).bind
    apply Reads.bind_nil (reads_check _ (by simp))
    exact reads_sequence count.2 (fun value member => (lengths value member).le) bodyOk
  rw [fromBytes, readAll_ensureFinished read]
  have nonempty : locator.hashes ≠ [] := List.length_pos_iff.mp count.1
  simp only [rethrow, ok_bind, each, bind_eq_ok, raiseIf_eq_ok, exists_const, pure_eq_ok, and_true]
  exact nonempty

theorem ChainSummary.fromBytes_toBytes {summary : ChainSummary} {payload : Bytes}
    (encoded : summary.toBytes = .ok payload) : ChainSummary.fromBytes payload = .ok summary := by
  simp only [toBytes, bind_eq_ok, pure_eq_ok, exactBytes_eq_ok] at encoded
  obtain ⟨domain, domainOk, _, ⟨tipLength, rfl⟩, tip, tipOk, height, heightOk, work, workOk, field,
    fieldOk, rfl⟩ := encoded
  have read : Reads ChainSummary.reader (domain ++ (tip ++ (height ++ (field ++ [])))) summary := by
    apply (reads_bytes le_rfl domainOk).bind
    apply Reads.bind_nil (reads_check _ (by simp))
    apply (reads_bytes tipLength.le tipOk).bind
    apply (reads_u64 heightOk).bind
    apply (reads_bytes (length_encodeWireWork workOk).le fieldOk).bind
    apply Reads.bind_nil (reads_lift (decodeWireWork_encodeWireWork workOk))
    exact reads_pure _
  simp only [List.append_nil] at read
  simp only [List.append_assoc]
  rw [fromBytes, readAll_ensureFinished read]
  simp only [rethrow, ok_bind, exactBytes_eq_ok.mpr ⟨tipLength, rfl⟩]
  rfl

variable [Platform]

theorem Hello.fromBytes_toBytes {hello : Hello} {payload : Bytes}
    (canonical : Canonical hello.chainId maxChainIdBytes) (encoded : hello.toBytes = .ok payload) :
    Hello.fromBytes payload = .ok hello := by
  simp only [toBytes, bind_eq_ok, raiseIf_eq_ok, exists_const, pure_eq_ok, exactBytes_eq_ok]
    at encoded
  obtain ⟨-, -, -, domain, domainOk, _, ⟨idLength, rfl⟩, nodeId, nodeIdOk, chainId, chainIdOk, _,
    ⟨genesisLength, rfl⟩, genesis, genesisOk, _, ⟨tipLength, rfl⟩, tip, tipOk, height, heightOk, work,
    workOk, field, fieldOk, port, portOk, rfl⟩ := encoded
  have read : Reads Hello.reader (domain ++ (nodeId ++ (chainId ++ (genesis ++ (tip ++ (height ++
      (field ++ (port ++ [])))))))) hello := by
    apply (reads_bytes le_rfl domainOk).bind
    apply Reads.bind_nil (reads_check _ (by simp))
    apply (reads_bytes idLength.le nodeIdOk).bind
    apply (reads_text canonical chainIdOk).bind
    apply (reads_bytes genesisLength.le genesisOk).bind
    apply (reads_bytes tipLength.le tipOk).bind
    apply (reads_u64 heightOk).bind
    apply (reads_bytes (length_encodeWireWork workOk).le fieldOk).bind
    apply Reads.bind_nil (reads_lift (decodeWireWork_encodeWireWork workOk))
    apply (reads_u16 portOk).bind
    exact reads_pure _
  simp only [List.append_nil] at read
  simp only [List.append_assoc]
  rw [fromBytes, readAll_ensureFinished read]
  simp only [rethrow, ok_bind, checkLengths, exactBytes_eq_ok.mpr ⟨idLength, rfl⟩,
    exactBytes_eq_ok.mpr ⟨genesisLength, rfl⟩, exactBytes_eq_ok.mpr ⟨tipLength, rfl⟩]
  rfl

theorem Reject.fromBytes_toBytes {rejection : Reject} {payload : Bytes}
    (canonical : Canonical rejection.reason 256) (encoded : rejection.toBytes = .ok payload) :
    Reject.fromBytes payload = .ok rejection := by
  simp only [toBytes, bind_eq_ok, raiseIf_eq_ok, exists_const, pure_eq_ok] at encoded
  obtain ⟨-, -, -, domain, domainOk, code, codeOk, reason, reasonOk, rfl⟩ := encoded
  have read : Reads Reject.reader (domain ++ (code ++ (reason ++ []))) rejection := by
    apply (reads_bytes le_rfl domainOk).bind
    apply Reads.bind_nil (reads_check _ (by simp))
    apply (reads_u16 codeOk).bind
    apply (reads_text canonical reasonOk).bind
    exact reads_pure _
  simp only [List.append_nil] at read
  simp only [List.append_assoc]
  rw [fromBytes, rethrow_eq_ok]
  exact readAll_ensureFinished read

/-! ## The block envelope -/

/-- Canonical text has a bounded field. -/
theorem length_encodeText {value : Text} {written : Bytes} {maxLength : Nat}
    (canonical : Canonical value maxLength) (encoded : encodeText value = .ok written) :
    written.length ≤ 4 + maxLength := by
  rw [encodeText, canonical.normal, bind_eq_ok] at encoded
  obtain ⟨utf8, utf8Ok, bytesOk⟩ := encoded
  have short := canonical.short utf8 utf8Ok
  rw [length_encodeBytes bytesOk]
  omega

theorem Transaction.length_toBytes {tx : Transaction} {written : Bytes} (readable : tx.Readable)
    (encoded : tx.toBytes = .ok written) : written.length ≤ 500 := by
  simp only [toBytes, signingBytes, bind_eq_ok, pure_eq_ok] at encoded
  obtain ⟨_, ⟨domain, domainOk, version, versionOk, chainId, chainIdOk, publicKey, publicKeyOk,
    sender, senderOk, recipient, recipientOk, amount, amountOk, fee, feeOk, nonce, nonceOk,
    validUntil, validUntilOk, rfl⟩, signature, signatureOk, rfl⟩ := encoded
  have domainLength := length_encodeBytes domainOk
  have versionLength := length_encodeUnsigned versionOk
  have chainIdLength := length_encodeText readable.chainId chainIdOk
  have keyLength := length_encodeBytes publicKeyOk
  have senderLength := length_encodeText readable.sender senderOk
  have recipientLength := length_encodeText readable.recipient recipientOk
  have amountLength := length_encodeUnsigned amountOk
  have feeLength := length_encodeUnsigned feeOk
  have nonceLength := length_encodeUnsigned nonceOk
  have untilLength := length_encodeUnsigned validUntilOk
  have signatureFieldLength := length_encodeBytes signatureOk
  have key := readable.publicKey
  have sig := readable.signature
  have domainSize : transactionDomain.length = 22 := by decide
  simp only [List.length_append]
  simp only [maxChainIdBytes, maxAddressBytes, publicKeyLength, signatureLength] at *
  omega

theorem RewardTransaction.length_toBytes {reward : RewardTransaction} {written : Bytes}
    (readable : reward.Readable) (encoded : reward.toBytes = .ok written) :
    written.length ≤ 2048 := by
  simp only [toBytes, bind_eq_ok, pure_eq_ok] at encoded
  obtain ⟨domain, domainOk, version, versionOk, chainId, chainIdOk, height, heightOk, miner, minerOk,
    amount, amountOk, rfl⟩ := encoded
  have domainLength := length_encodeBytes domainOk
  have versionLength := length_encodeUnsigned versionOk
  have chainIdLength := length_encodeText readable.chainId chainIdOk
  have heightLength := length_encodeUnsigned heightOk
  have minerLength := length_encodeText readable.miner minerOk
  have amountLength := length_encodeUnsigned amountOk
  have domainSize : rewardTransactionDomain.length = 17 := by decide
  simp only [List.length_append]
  simp only [maxChainIdBytes, maxAddressBytes] at *
  omega

theorem BlockHeader.length_toBytes {header : BlockHeader} {written : Bytes}
    (readable : header.Readable) (encoded : header.toBytes = .ok written) :
    written.length ≤ 4096 := by
  simp only [toBytes, bind_eq_ok, pure_eq_ok, exactHash_eq_ok, encodeTarget_eq_ok] at encoded
  obtain ⟨domain, domainOk, version, versionOk, chainId, chainIdOk, height, heightOk, _,
    ⟨previousLength, rfl⟩, previous, previousOk, _, ⟨txRootLength, rfl⟩, txRoot, txRootOk, _,
    ⟨stateRootLength, rfl⟩, stateRoot, stateRootOk, timestamp, timestampOk, _, ⟨-, rfl⟩,
    target, targetOk, nonce, nonceOk, miner, minerOk, rfl⟩ := encoded
  have domainLength := length_encodeBytes domainOk
  have versionLength := length_encodeUnsigned versionOk
  have chainIdLength := length_encodeText readable.chainId chainIdOk
  have heightLength := length_encodeUnsigned heightOk
  have previousField := length_encodeBytes previousOk
  have txRootField := length_encodeBytes txRootOk
  have stateRootField := length_encodeBytes stateRootOk
  have timestampLength := length_encodeUnsigned timestampOk
  have targetField := length_encodeBytes targetOk
  have nonceLength := length_encodeUnsigned nonceOk
  have minerLength := length_encodeText readable.miner minerOk
  have domainSize : blockHeaderDomain.length = 23 := by decide
  have targetSize := BigEndian.length_toBytes targetLength header.difficultyTarget.toNat
  simp only [List.length_append]
  simp only [maxChainIdBytes, maxAddressBytes, hashLength, targetLength] at *
  omega

/-- **A block whose parts are readable is decoded to itself.** -/
theorem decodeBlock_encodeBlock {block : Block} {payload : Bytes}
    (headerReadable : block.header.Readable) (rewardReadable : block.rewardTransaction.Readable)
    (transactionsReadable : ∀ tx ∈ block.transactions, tx.Readable)
    (few : block.transactions.length ≤ maxBlockTransactionsWire)
    (encoded : encodeBlock block = .ok payload) : decodeBlock payload = .ok block := by
  simp only [encodeBlock, bind_eq_ok, pure_eq_ok] at encoded
  obtain ⟨domain, domainOk, header, headerOk, headerField, headerFieldOk, reward, rewardOk,
    rewardField, rewardFieldOk, values, valuesOk, body, bodyOk, rfl⟩ := encoded
  have written := mapM_eq_ok.mp valuesOk
  have short : ∀ value ∈ values, value.length ≤ maxTransactionBytes := by
    intro value member
    obtain ⟨tx, txMem, txOk⟩ := (mem_of_mapM_eq_ok valuesOk).mp member
    have length := Transaction.length_toBytes (transactionsReadable tx txMem) txOk
    rw [maxTransactionBytes]
    omega
  have read : Reads blockReader (domain ++ (headerField ++ (rewardField ++ (body ++ []))))
      (block.header, block.rewardTransaction, values) := by
    apply (reads_bytes le_rfl domainOk).bind
    apply Reads.bind_nil (reads_check _ (by simp))
    apply (reads_bytes (BlockHeader.length_toBytes headerReadable headerOk)
      headerFieldOk).bind
    apply Reads.bind_nil
      (reads_lift (BlockHeader.fromBytes_toBytes headerReadable headerOk))
    apply (reads_bytes (RewardTransaction.length_toBytes rewardReadable rewardOk)
      rewardFieldOk).bind
    apply Reads.bind_nil
      (reads_lift (RewardTransaction.fromBytes_toBytes rewardReadable rewardOk))
    apply (reads_sequence (written.length_eq ▸ few) short bodyOk).bind
    exact reads_pure _
  have transactions : values.mapM Transaction.fromBytes = .ok block.transactions := by
    rw [mapM_eq_ok, List.forall₂_iff_get]
    obtain ⟨length, each⟩ := List.forall₂_iff_get.mp written
    refine ⟨length.symm, ?_⟩
    intro index inside inside'
    exact Transaction.fromBytes_toBytes
      (transactionsReadable _ (List.get_mem _ _)) (each index inside' inside)
  simp only [List.append_nil] at read
  simp only [List.append_assoc]
  rw [decodeBlock, rethrow_eq_ok, readAll_ensureFinished read]
  simp only [ok_bind, transactions]
  rfl

/-- The envelope of a block fits a frame. -/
theorem length_encodeBlock {block : Block} {payload : Bytes}
    (headerReadable : block.header.Readable) (rewardReadable : block.rewardTransaction.Readable)
    (transactionsReadable : ∀ tx ∈ block.transactions, tx.Readable)
    (few : block.transactions.length ≤ maxBlockTransactionsWire)
    (encoded : encodeBlock block = .ok payload) : payload.length ≤ maxFramePayload := by
  simp only [encodeBlock, bind_eq_ok, pure_eq_ok] at encoded
  obtain ⟨domain, domainOk, header, headerOk, headerField, headerFieldOk, reward, rewardOk,
    rewardField, rewardFieldOk, values, valuesOk, body, bodyOk, rfl⟩ := encoded
  have domainLength := length_encodeBytes domainOk
  have headerLength := length_encodeBytes headerFieldOk
  have rewardLength := length_encodeBytes rewardFieldOk
  have headerBound := BlockHeader.length_toBytes headerReadable headerOk
  have rewardBound := RewardTransaction.length_toBytes rewardReadable rewardOk
  have count := (mapM_eq_ok.mp valuesOk).length_eq
  have bodyLength : body.length ≤ 4 + values.length * (4 + 500) := by
    apply length_encodeSequence _ bodyOk
    intro value member
    obtain ⟨tx, txMem, txOk⟩ := (mem_of_mapM_eq_ok valuesOk).mp member
    exact Transaction.length_toBytes (transactionsReadable tx txMem) txOk
  have domainSize : blockBodyDomain.length = 20 := by decide
  simp only [List.length_append]
  simp only [maxFramePayload, maxBlockTransactionsWire] at *
  omega

end OurCoin
