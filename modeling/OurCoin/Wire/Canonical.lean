import OurCoin.Wire.Acceptance

/-!
# The consensus encodings are canonical

A `CanonicalCodec` accepts exactly what it writes: the bytes that it accepts are the encoding
of the value, and every value within the limits of its fields is written and read back. So a
value has at most one accepted encoding.

Transactions, rewards, headers and block envelopes are canonical codecs, and no byte string is
accepted as two of them (`consensusEncodings_canonical`): the first field of an encoding is its
domain, and the four domains have different lengths.
-/

set_option autoImplicit false

namespace OurCoin

open Raising

/-- A value is written, and read back as itself. -/
def ReadsBack {α : Type} (encode : α → Except Raised Bytes) (decode : Bytes → Except Raised α)
    (value : α) : Prop :=
  ∃ encoded, encode value = .ok encoded ∧ decode encoded = .ok value

/-- Values with the same bytes are equal when both are read back. -/
theorem ReadsBack.eq_of_encode {α : Type} {encode : α → Except Raised Bytes}
    {decode : Bytes → Except Raised α} {value value' : α} (back : ReadsBack encode decode value)
    (back' : ReadsBack encode decode value') {encoded : Bytes} (encodes : encode value = .ok encoded)
    (encodes' : encode value' = .ok encoded) : value = value' := by
  obtain ⟨written, writtenOk, decodes⟩ := back
  obtain ⟨written', writtenOk', decodes'⟩ := back'
  rw [encodes, Except.ok.injEq] at writtenOk
  rw [encodes', Except.ok.injEq] at writtenOk'
  subst writtenOk writtenOk'
  exact Except.ok.inj (decodes.symm.trans decodes')

/-- An encoder and a decoder that accept the same byte strings, for the values that fit. -/
structure CanonicalCodec {α : Type} (encode : α → Except Raised Bytes)
    (decode : Bytes → Except Raised α) (fits : α → Prop) : Prop where
  accepted : ∀ {encoded : Bytes} {value : α}, decode encoded = .ok value →
    encode value = .ok encoded
  readBack : ∀ {value : α}, fits value →
    ∃ encoded, encode value = .ok encoded ∧ decode encoded = .ok value
  unique : ∀ {first second : Bytes} {value : α}, decode first = .ok value →
    decode second = .ok value → first = second

/-- That an object has one encoding follows from what is accepted. -/
theorem CanonicalCodec.of_accepted {α : Type} {encode : α → Except Raised Bytes}
    {decode : Bytes → Except Raised α} {fits : α → Prop}
    (accepted : ∀ {encoded : Bytes} {value : α}, decode encoded = .ok value →
      encode value = .ok encoded)
    (readBack : ∀ {value : α}, fits value →
      ∃ encoded, encode value = .ok encoded ∧ decode encoded = .ok value) :
    CanonicalCodec encode decode fits where
  accepted := accepted
  readBack := readBack
  unique := by
    intro first second value firstOk secondOk
    have same : (Except.ok first : Except Raised Bytes) = .ok second :=
      (accepted firstOk).symm.trans (accepted secondOk)
    exact Except.ok.inj same

/-! ## Fields within their limits -/

/-- An unsigned integer of 16 bits. -/
def IsU16 (value : Int) : Prop := 0 ≤ value ∧ value ≤ u16Max

/-- An unsigned integer of 64 bits. -/
def IsU64 (value : Int) : Prop := 0 ≤ value ∧ value ≤ u64Max

theorem IsU16.exists_encodeU16 {value : Int} (range : IsU16 value) :
    ∃ written, encodeU16 value = .ok written :=
  ⟨_, encodeUnsigned_eq_ok.mpr ⟨range, rfl⟩⟩

theorem IsU64.exists_encodeU64 {value : Int} (range : IsU64 value) :
    ∃ written, encodeU64 value = .ok written :=
  ⟨_, encodeUnsigned_eq_ok.mpr ⟨range, rfl⟩⟩

/-- A field of at most `maxLength` bytes has an encoding. -/
theorem exists_encodeBytes_of_le {value : Bytes} {maxLength : Nat} (short : value.length ≤ maxLength)
    (limit : (maxLength : Int) ≤ u32Max) : ∃ written, encodeBytes value = .ok written :=
  exists_encodeBytes (by omega)

variable [Platform]

/-- An NFC text whose UTF-8 encoding has at most `maxLength` bytes. -/
structure FitsText (value : Text) (maxLength : Nat) : Prop where
  normal : Platform.normalizeNfc value = value
  short : ∃ encoded, encodeUtf8 value = .ok encoded ∧ encoded.length ≤ maxLength

namespace FitsText

variable {value : Text} {maxLength : Nat}

theorem canonical (fits : FitsText value maxLength) : Canonical value maxLength where
  normal := fits.normal
  short := by
    intro encoded encodedOk
    obtain ⟨encoded', encodedOk', short⟩ := fits.short
    rw [encodedOk] at encodedOk'
    cases encodedOk'
    exact short

theorem exists_encodeText (fits : FitsText value maxLength) (limit : (maxLength : Int) ≤ u32Max) :
    ∃ written, encodeText value = .ok written := by
  obtain ⟨encoded, encodedOk, short⟩ := fits.short
  obtain ⟨written, writtenOk⟩ := exists_encodeBytes_of_le short limit
  refine ⟨written, ?_⟩
  rw [encodeText, fits.normal, encodedOk, ok_bind, writtenOk]

end FitsText

/-! ## Transactions -/

/-- A transaction within the limits of its fields. -/
structure Transaction.InRange (tx : Transaction) : Prop where
  version : IsU16 tx.version
  chainId : FitsText tx.chainId maxChainIdBytes
  publicKey : tx.senderPublicKey.length ≤ publicKeyLength
  sender : FitsText tx.senderAddress maxAddressBytes
  recipient : FitsText tx.recipientAddress maxAddressBytes
  amount : IsU64 tx.amountAtoms
  fee : IsU64 tx.feeAtoms
  nonce : IsU64 tx.nonce
  validUntil : IsU64 tx.validUntilHeight
  signature : tx.signature.length ≤ signatureLength

theorem Transaction.InRange.readable {tx : Transaction} (range : tx.InRange) : tx.Readable where
  chainId := range.chainId.canonical
  publicKey := range.publicKey
  sender := range.sender.canonical
  recipient := range.recipient.canonical
  signature := range.signature

theorem Transaction.InRange.exists_toBytes {tx : Transaction} (range : tx.InRange) :
    ∃ encoded, tx.toBytes = .ok encoded := by
  obtain ⟨domain, domainOk⟩ : ∃ written, encodeBytes transactionDomain = .ok written :=
    exists_encodeBytes (by decide)
  obtain ⟨version, versionOk⟩ := range.version.exists_encodeU16
  obtain ⟨chainId, chainIdOk⟩ := range.chainId.exists_encodeText (by decide)
  obtain ⟨key, keyOk⟩ := exists_encodeBytes_of_le range.publicKey (by decide)
  obtain ⟨sender, senderOk⟩ := range.sender.exists_encodeText (by decide)
  obtain ⟨recipient, recipientOk⟩ := range.recipient.exists_encodeText (by decide)
  obtain ⟨amount, amountOk⟩ := range.amount.exists_encodeU64
  obtain ⟨fee, feeOk⟩ := range.fee.exists_encodeU64
  obtain ⟨nonce, nonceOk⟩ := range.nonce.exists_encodeU64
  obtain ⟨validUntil, validUntilOk⟩ := range.validUntil.exists_encodeU64
  obtain ⟨signature, signatureOk⟩ := exists_encodeBytes_of_le range.signature (by decide)
  simp only [toBytes, signingBytes, domainOk, versionOk, chainIdOk, keyOk, senderOk, recipientOk,
    amountOk, feeOk, nonceOk, validUntilOk, signatureOk, ok_bind]
  exact ⟨_, rfl⟩

/-- **Transactions have one encoding.** -/
theorem Transaction.canonicalCodec :
    CanonicalCodec Transaction.toBytes Transaction.fromBytes Transaction.InRange := by
  apply CanonicalCodec.of_accepted Transaction.toBytes_of_fromBytes
  intro tx range
  obtain ⟨encoded, encodedOk⟩ := range.exists_toBytes
  exact ⟨encoded, encodedOk, Transaction.fromBytes_toBytes range.readable encodedOk⟩

/-! ## Reward transactions -/

/-- A reward transaction within the limits of its fields. -/
structure RewardTransaction.InRange (reward : RewardTransaction) : Prop where
  version : IsU16 reward.version
  chainId : FitsText reward.chainId maxChainIdBytes
  height : IsU64 reward.height
  miner : FitsText reward.minerAddress maxAddressBytes
  amount : IsU64 reward.amountAtoms

theorem RewardTransaction.InRange.readable {reward : RewardTransaction} (range : reward.InRange) :
    reward.Readable where
  chainId := range.chainId.canonical
  miner := range.miner.canonical

theorem RewardTransaction.InRange.exists_toBytes {reward : RewardTransaction}
    (range : reward.InRange) : ∃ encoded, reward.toBytes = .ok encoded := by
  obtain ⟨domain, domainOk⟩ : ∃ written, encodeBytes rewardTransactionDomain = .ok written :=
    exists_encodeBytes (by decide)
  obtain ⟨version, versionOk⟩ := range.version.exists_encodeU16
  obtain ⟨chainId, chainIdOk⟩ := range.chainId.exists_encodeText (by decide)
  obtain ⟨height, heightOk⟩ := range.height.exists_encodeU64
  obtain ⟨miner, minerOk⟩ := range.miner.exists_encodeText (by decide)
  obtain ⟨amount, amountOk⟩ := range.amount.exists_encodeU64
  simp only [toBytes, domainOk, versionOk, chainIdOk, heightOk, minerOk, amountOk, ok_bind]
  exact ⟨_, rfl⟩

/-- **Reward transactions have one encoding.** -/
theorem RewardTransaction.canonicalCodec :
    CanonicalCodec RewardTransaction.toBytes RewardTransaction.fromBytes
      RewardTransaction.InRange := by
  apply CanonicalCodec.of_accepted RewardTransaction.toBytes_of_fromBytes
  intro reward range
  obtain ⟨encoded, encodedOk⟩ := range.exists_toBytes
  exact ⟨encoded, encodedOk, RewardTransaction.fromBytes_toBytes range.readable encodedOk⟩

/-! ## Headers -/

/-- A header within the limits of its fields. -/
structure BlockHeader.InRange (header : BlockHeader) : Prop where
  version : IsU16 header.version
  chainId : FitsText header.chainId maxChainIdBytes
  height : IsU64 header.height
  previous : header.previousBlockHash.length = hashLength
  transactionsRoot : header.transactionsRoot.length = hashLength
  stateRoot : header.stateRoot.length = hashLength
  timestamp : IsU64 header.timestamp
  target : 1 ≤ header.difficultyTarget ∧ header.difficultyTarget ≤ maxTarget
  nonce : IsU64 header.nonce
  miner : FitsText header.minerAddress maxAddressBytes

theorem BlockHeader.InRange.readable {header : BlockHeader} (range : header.InRange) :
    header.Readable where
  chainId := range.chainId.canonical
  miner := range.miner.canonical

theorem BlockHeader.InRange.encodable {header : BlockHeader} (range : header.InRange) :
    header.Encodable where
  version_range := range.version
  chainId_encodes := range.chainId.exists_encodeText (by decide)
  height_range := range.height
  previous_length := range.previous
  transactionsRoot_length := range.transactionsRoot
  stateRoot_length := range.stateRoot
  timestamp_range := range.timestamp
  target_range := range.target
  nonce_range := range.nonce
  miner_encodes := range.miner.exists_encodeText (by decide)

theorem BlockHeader.InRange.exists_toBytes {header : BlockHeader} (range : header.InRange) :
    ∃ encoded, header.toBytes = .ok encoded := by
  obtain ⟨hash, hashOk⟩ := BlockHeader.exists_blockHash.mpr range.encodable
  obtain ⟨encoded, encodedOk, -⟩ := bind_eq_ok.mp hashOk
  exact ⟨encoded, encodedOk⟩

/-- **Headers have one encoding.** -/
theorem BlockHeader.canonicalCodec :
    CanonicalCodec BlockHeader.toBytes BlockHeader.fromBytes BlockHeader.InRange := by
  apply CanonicalCodec.of_accepted BlockHeader.toBytes_of_fromBytes
  intro header range
  obtain ⟨encoded, encodedOk⟩ := range.exists_toBytes
  exact ⟨encoded, encodedOk, BlockHeader.fromBytes_toBytes range.readable encodedOk⟩

/-! ## Envelopes -/

/-- A block whose parts are within their limits and that has few enough transactions. -/
structure Block.InRange (block : Block) : Prop where
  header : block.header.InRange
  reward : block.rewardTransaction.InRange
  transactions : ∀ tx ∈ block.transactions, tx.InRange
  few : block.transactions.length ≤ maxBlockTransactionsWire

omit [Platform] in
/-- A sequence of short items that is not too long has an encoding. -/
theorem exists_encodeSequence {values : List Bytes} {maxItemLength : Nat}
    (few : (values.length : Int) ≤ u32Max)
    (short : ∀ value ∈ values, value.length ≤ maxItemLength)
    (limit : (maxItemLength : Int) ≤ u32Max) : ∃ written, encodeSequence values = .ok written := by
  have range : (0 : Int) ≤ values.length ∧ (values.length : Int) ≤ u32Max :=
    ⟨Int.natCast_nonneg _, few⟩
  obtain ⟨chunks, chunksOk⟩ : ∃ chunks, values.mapM encodeBytes = .ok chunks := by
    apply exists_mapM_eq_ok
    intro value member
    exact exists_encodeBytes_of_le (short value member) limit
  simp only [encodeSequence, bind_eq_ok, raiseIf_eq_ok, exists_const, encodeU32,
    encodeUnsigned_eq_ok, chunksOk, pure_eq_ok]
  exact ⟨_, by omega, _, ⟨range, rfl⟩, chunks, rfl, rfl⟩

theorem Block.InRange.exists_encodeBlock {block : Block} (range : block.InRange) :
    ∃ encoded, encodeBlock block = .ok encoded := by
  obtain ⟨domain, domainOk⟩ : ∃ written, encodeBytes blockBodyDomain = .ok written :=
    exists_encodeBytes (by decide)
  obtain ⟨header, headerOk⟩ := range.header.exists_toBytes
  obtain ⟨headerField, headerFieldOk⟩ :=
    exists_encodeBytes_of_le (BlockHeader.length_toBytes range.header.readable headerOk) (by decide)
  obtain ⟨reward, rewardOk⟩ := range.reward.exists_toBytes
  obtain ⟨rewardField, rewardFieldOk⟩ :=
    exists_encodeBytes_of_le (RewardTransaction.length_toBytes range.reward.readable rewardOk)
      (by decide)
  obtain ⟨values, valuesOk⟩ : ∃ values, block.transactions.mapM Transaction.toBytes = .ok values :=
    exists_mapM_eq_ok fun tx member => (range.transactions tx member).exists_toBytes
  have short : ∀ value ∈ values, value.length ≤ 500 := by
    intro value member
    obtain ⟨tx, txMember, txOk⟩ := (mem_of_mapM_eq_ok valuesOk).mp member
    exact Transaction.length_toBytes (range.transactions tx txMember).readable txOk
  have count : values.length = block.transactions.length := (mapM_eq_ok.mp valuesOk).length_eq.symm
  have few := range.few
  obtain ⟨body, bodyOk⟩ : ∃ written, encodeSequence values = .ok written := by
    apply exists_encodeSequence _ short (by decide)
    rw [maxBlockTransactionsWire] at few
    rw [u32Max]
    omega
  simp only [encodeBlock, domainOk, headerOk, headerFieldOk, rewardOk, rewardFieldOk, valuesOk,
    bodyOk, ok_bind]
  exact ⟨_, rfl⟩

/-- **Block envelopes have one encoding.** -/
theorem blockEnvelope_canonicalCodec : CanonicalCodec encodeBlock decodeBlock Block.InRange := by
  apply CanonicalCodec.of_accepted encodeBlock_of_decodeBlock
  intro block range
  obtain ⟨encoded, encodedOk⟩ := range.exists_encodeBlock
  refine ⟨encoded, encodedOk, ?_⟩
  exact decodeBlock_encodeBlock range.header.readable range.reward.readable
    (fun tx member => (range.transactions tx member).readable) range.few encodedOk

theorem take_encodeBlock {block : Block} {written : Bytes}
    (encoded : encodeBlock block = .ok written) : written.take 4 = [0, 0, 0, 20] := by
  simp only [encodeBlock, bind_eq_ok, pure_eq_ok] at encoded
  obtain ⟨domain, domainOk, _, -, _, -, _, -, _, -, _, -, _, -, rfl⟩ := encoded
  simp only [List.append_assoc]
  rw [take_of_encodeBytes domainOk]
  decide

/-! ## The four decoders -/

/-- The decoder accepts the byte string. -/
def Accepts {α : Type} (decode : Bytes → Except Raised α) (encoded : Bytes) : Prop :=
  ∃ value, decode encoded = .ok value

omit [Platform] in
/-- What a canonical codec accepts starts as its encodings do. -/
theorem CanonicalCodec.take_of_accepts {α : Type} {encode : α → Except Raised Bytes}
    {decode : Bytes → Except Raised α} {fits : α → Prop} {start : Bytes}
    (codec : CanonicalCodec encode decode fits)
    (starts : ∀ {value : α} {written : Bytes}, encode value = .ok written → written.take 4 = start)
    {encoded : Bytes} (accepts : Accepts decode encoded) : encoded.take 4 = start := by
  obtain ⟨value, decoded⟩ := accepts
  exact starts (codec.accepted decoded)

/-- **Consensus encodings are canonical both ways, and no byte string is accepted by two of
the four decoders.** -/
theorem consensusEncodings_canonical :
    CanonicalCodec Transaction.toBytes Transaction.fromBytes Transaction.InRange ∧
    CanonicalCodec RewardTransaction.toBytes RewardTransaction.fromBytes
      RewardTransaction.InRange ∧
    CanonicalCodec BlockHeader.toBytes BlockHeader.fromBytes BlockHeader.InRange ∧
    CanonicalCodec encodeBlock decodeBlock Block.InRange ∧
    [Accepts Transaction.fromBytes, Accepts RewardTransaction.fromBytes,
      Accepts BlockHeader.fromBytes, Accepts decodeBlock].Pairwise
        (fun first second => ∀ encoded, ¬ (first encoded ∧ second encoded)) := by
  refine ⟨Transaction.canonicalCodec, RewardTransaction.canonicalCodec, BlockHeader.canonicalCodec,
    blockEnvelope_canonicalCodec, ?_⟩
  have txStart : ∀ encoded, Accepts Transaction.fromBytes encoded →
      encoded.take 4 = [0, 0, 0, 22] := fun _ =>
    Transaction.canonicalCodec.take_of_accepts Transaction.take_toBytes
  have rewardStart : ∀ encoded, Accepts RewardTransaction.fromBytes encoded →
      encoded.take 4 = [0, 0, 0, 17] := fun _ =>
    RewardTransaction.canonicalCodec.take_of_accepts RewardTransaction.take_toBytes
  have headerStart : ∀ encoded, Accepts BlockHeader.fromBytes encoded →
      encoded.take 4 = [0, 0, 0, 23] := fun _ =>
    BlockHeader.canonicalCodec.take_of_accepts BlockHeader.take_toBytes
  have blockStart : ∀ encoded, Accepts decodeBlock encoded → encoded.take 4 = [0, 0, 0, 20] :=
    fun _ => blockEnvelope_canonicalCodec.take_of_accepts take_encodeBlock
  -- Two domains of different lengths give two different prefixes.
  have apart : ∀ {first second : Bytes → Prop} {start start' : Bytes},
      (∀ encoded, first encoded → encoded.take 4 = start) →
        (∀ encoded, second encoded → encoded.take 4 = start') → start ≠ start' →
          ∀ encoded, ¬ (first encoded ∧ second encoded) := by
    rintro first second start start' firstStart secondStart different encoded ⟨one, two⟩
    exact different ((firstStart encoded one).symm.trans (secondStart encoded two))
  simp only [List.pairwise_cons, List.mem_cons, List.not_mem_nil, or_false, forall_eq_or_imp,
    forall_eq, false_implies, implies_true, List.Pairwise.nil, and_true]
  exact ⟨⟨apart txStart rewardStart (by decide), apart txStart headerStart (by decide),
      apart txStart blockStart (by decide)⟩,
    ⟨apart rewardStart headerStart (by decide), apart rewardStart blockStart (by decide)⟩,
    apart headerStart blockStart (by decide)⟩

end OurCoin
