import OurCoin.Wire.Messages

/-!
# Accepted bytes are canonical

Whatever bytes a decoder accepts are the ones that the encoder writes for the value. The
fields come first: integers, byte strings and text. Text needs that UTF-8 has one encoding
for each text, which the decoder enforces (`encodeUtf8_decodeUtf8`). A record or an envelope
is then the chain of its fields.
-/

set_option autoImplicit false

namespace OurCoin

open Raising Reader

/-! ## Integers and byte strings -/

theorem consumes_unsigned {width : Nat} {maximum : Int} (whole : maximum = 256 ^ width - 1) :
    Consumes (readUnsigned width) fun consumed value =>
      encodeUnsigned value width maximum = .ok consumed := by
  rw [readUnsigned]
  apply (Consumes.take truncatedData width).bind
  rintro data _ ⟨rfl, length⟩
  apply Consumes.pure
  rw [List.append_nil, encodeUnsigned_eq_ok, Int.toNat_natCast]
  have bounded := BigEndian.ofBytes_lt data
  rw [length] at bounded
  refine ⟨⟨by omega, ?_⟩, ?_⟩
  · rw [whole]
    have bounded' : (BigEndian.ofBytes data : Int) < 256 ^ width := by exact_mod_cast bounded
    omega
  · rw [← length, BigEndian.toBytes_ofBytes]

theorem consumes_u16 : Consumes readU16 fun consumed value => encodeU16 value = .ok consumed :=
  consumes_unsigned (by decide)

theorem consumes_u32 : Consumes readU32 fun consumed value => encodeU32 value = .ok consumed :=
  consumes_unsigned (by decide)

theorem consumes_u64 : Consumes readU64 fun consumed value => encodeU64 value = .ok consumed :=
  consumes_unsigned (by decide)

theorem consumes_bytes (maxLength : Nat) :
    Consumes (readBytes maxLength) fun consumed value =>
      encodeBytes value = .ok consumed ∧ value.length ≤ maxLength := by
  rw [readBytes]
  apply consumes_u32.bind
  intro prefixBytes length encoded
  apply Consumes.bind_check
  intro short
  apply (Consumes.take truncatedData length.toNat).mono
  rintro value _ ⟨rfl, sized⟩
  obtain ⟨⟨nonneg, bounded⟩, -⟩ := encodeUnsigned_eq_ok.mp encoded
  have same : (value.length : Int) = length := by omega
  refine ⟨?_, by omega⟩
  simp only [encodeBytes, bind_eq_ok, raiseIf_eq_ok, exists_const, pure_eq_ok, same]
  exact ⟨by omega, prefixBytes, encoded, rfl⟩

/-! ## Text -/

theorem encodeUtf8_cons {c : Nat} {value : Text} {first rest : Bytes}
    (one : encodeUtf8Char c = some first) (others : encodeUtf8 value = .ok rest) :
    encodeUtf8 (c :: value) = .ok (first ++ rest) := by
  rw [encodeUtf8] at others ⊢
  cases chunked : value.mapM encodeUtf8Char with
  | none =>
      rw [chunked] at others
      cases others
  | some chunks =>
      rw [chunked] at others
      cases others
      rw [List.mapM_cons, one, chunked]
      rfl

/-- A byte is determined by its number. -/
theorem ofNat_eq {n : Nat} {byte : UInt8} (same : n = byte.toNat) : UInt8.ofNat n = byte := by
  rw [same, UInt8.ofNat_toNat]

/-- **UTF-8 encoding undoes decoding**: the decoder refuses overlong forms and surrogates. -/
theorem encodeUtf8_decodeUtf8 (encoded : Bytes) : ∀ {value : Text},
    decodeUtf8 encoded = some value → encodeUtf8 value = .ok encoded := by
  fun_induction decodeUtf8 encoded with
  | case1 =>
      intro value decoded
      cases decoded
      rfl
  | case2 b0 rest ascii ih =>
      intro value decoded
      obtain ⟨tail, tailOk, rfl⟩ := Option.map_eq_some_iff.mp decoded
      have one : encodeUtf8Char b0.toNat = some [b0] := by
        rw [encodeUtf8Char, if_pos ascii, ofNat_eq rfl]
      exact encodeUtf8_cons one (ih tailOk)
  | case3 =>
      intro value decoded
      cases decoded
  | case4 =>
      rename_i b0 notAscii b1 rest1 two isTwo ih
      intro value decoded
      obtain ⟨tail, tailOk, rfl⟩ := Option.map_eq_some_iff.mp decoded
      obtain ⟨low, high, cont⟩ := isTwo
      unfold isContinuation at cont
      change _ = Except.ok ([b0, b1] ++ rest1)
      apply encodeUtf8_cons _ (ih tailOk)
      rw [encodeUtf8Char, if_neg (by omega), if_pos (by omega), ofNat_eq (by omega : _ = b0.toNat),
        ofNat_eq (by omega : _ = b1.toNat)]
  | case5 =>
      intro value decoded
      cases decoded
  | case6 =>
      rename_i b0 notAscii b1 notTwo b2 rest2 three isThree ih
      intro value decoded
      obtain ⟨tail, tailOk, rfl⟩ := Option.map_eq_some_iff.mp decoded
      obtain ⟨low, high, cont1, cont2, notOverlong, notSurrogate⟩ := isThree
      unfold isContinuation at cont1 cont2
      change _ = Except.ok ([b0, b1, b2] ++ rest2)
      apply encodeUtf8_cons _ (ih tailOk)
      rw [encodeUtf8Char, if_neg (by omega), if_neg (by omega), if_neg notSurrogate,
        if_pos (by omega), ofNat_eq (by omega : _ = b0.toNat), ofNat_eq (by omega : _ = b1.toNat),
        ofNat_eq (by omega : _ = b2.toNat)]
  | case7 =>
      intro value decoded
      cases decoded
  | case8 =>
      rename_i b0 notAscii b1 notTwo b2 three notThree b3 rest3 four isFour ih
      intro value decoded
      obtain ⟨tail, tailOk, rfl⟩ := Option.map_eq_some_iff.mp decoded
      obtain ⟨low, high, cont1, cont2, cont3, notOverlong, inRange⟩ := isFour
      unfold isContinuation at cont1 cont2 cont3
      change _ = Except.ok ([b0, b1, b2, b3] ++ rest3)
      apply encodeUtf8_cons _ (ih tailOk)
      rw [encodeUtf8Char, if_neg (by omega), if_neg (by omega), if_neg (by omega),
        if_neg (by omega), if_pos (by omega), ofNat_eq (by omega : _ = b0.toNat),
        ofNat_eq (by omega : _ = b1.toNat), ofNat_eq (by omega : _ = b2.toNat),
        ofNat_eq (by omega : _ = b3.toNat)]
  | case9 =>
      intro value decoded
      cases decoded

section

variable [Platform]

theorem consumes_text (maxLength : Nat) :
    Consumes (readText maxLength) fun consumed value =>
      encodeText value = .ok consumed ∧ Canonical value maxLength := by
  rw [readText]
  apply (consumes_bytes maxLength).bind
  rintro consumed encoded ⟨encodedOk, short⟩
  cases decoded : decodeUtf8 encoded with
  | none =>
      intro data value rest accepted
      cases accepted
  | some value =>
      apply Consumes.bind_check
      intro normal
      rw [not_not] at normal
      have utf8 := encodeUtf8_decodeUtf8 encoded decoded
      apply Consumes.pure
      rw [List.append_nil]
      refine ⟨?_, normal, ?_⟩
      · rw [encodeText, normal, utf8]
        exact encodedOk
      · intro other otherOk
        rw [utf8] at otherOk
        cases otherOk
        exact short

/-! ## Records -/

/-- **A transaction that is accepted encodes to the accepted bytes.** -/
theorem Transaction.consumes_reader :
    Consumes Transaction.reader fun consumed tx => tx.toBytes = .ok consumed := by
  rw [Transaction.reader]
  apply (consumes_bytes _).bind
  rintro domain value ⟨domainOk, -⟩
  apply Consumes.bind_check
  intro known
  rw [not_not] at known
  subst known
  apply consumes_u16.bind
  intro version version' versionOk
  apply (consumes_text _).bind
  rintro chainId chainId' ⟨chainIdOk, -⟩
  apply (consumes_bytes _).bind
  rintro key key' ⟨keyOk, -⟩
  apply (consumes_text _).bind
  rintro sender sender' ⟨senderOk, -⟩
  apply (consumes_text _).bind
  rintro recipient recipient' ⟨recipientOk, -⟩
  apply consumes_u64.bind
  intro amount amount' amountOk
  apply consumes_u64.bind
  intro fee fee' feeOk
  apply consumes_u64.bind
  intro nonce nonce' nonceOk
  apply consumes_u64.bind
  intro validUntil validUntil' validUntilOk
  apply (consumes_bytes _).bind
  rintro signature signature' ⟨signatureOk, -⟩
  apply Consumes.pure
  have signing : Transaction.signingBytes ⟨version', chainId', key', sender', recipient', amount',
      fee', nonce', validUntil', signature'⟩ = .ok (domain ++ version ++ chainId ++ key ++ sender ++
        recipient ++ amount ++ fee ++ nonce ++ validUntil) := by
    simp only [Transaction.signingBytes, domainOk, versionOk, chainIdOk, keyOk, senderOk, recipientOk,
      amountOk, feeOk, nonceOk, validUntilOk, ok_bind]
    rfl
  rw [Transaction.toBytes, signing, signatureOk, ok_bind, ok_bind]
  simp only [List.append_assoc, List.append_nil]
  rfl

theorem Transaction.toBytes_of_fromBytes {encoded : Bytes} {tx : Transaction}
    (accepted : Transaction.fromBytes encoded = .ok tx) : tx.toBytes = .ok encoded := by
  rw [fromBytes, rethrow_eq_ok] at accepted
  exact readAll_finish_eq_ok Transaction.consumes_reader accepted

/-- **A reward that is accepted encodes to the accepted bytes.** -/
theorem RewardTransaction.consumes_reader :
    Consumes RewardTransaction.reader fun consumed reward => reward.toBytes = .ok consumed := by
  rw [RewardTransaction.reader]
  apply (consumes_bytes _).bind
  rintro domain value ⟨domainOk, -⟩
  apply Consumes.bind_check
  intro known
  rw [not_not] at known
  subst known
  apply consumes_u16.bind
  intro version version' versionOk
  apply (consumes_text _).bind
  rintro chainId chainId' ⟨chainIdOk, -⟩
  apply consumes_u64.bind
  intro height height' heightOk
  apply (consumes_text _).bind
  rintro miner miner' ⟨minerOk, -⟩
  apply consumes_u64.bind
  intro amount amount' amountOk
  apply Consumes.pure
  simp only [RewardTransaction.toBytes, domainOk, versionOk, chainIdOk, heightOk, minerOk, amountOk,
    ok_bind, List.append_assoc, List.append_nil]
  rfl

theorem RewardTransaction.toBytes_of_fromBytes {encoded : Bytes} {reward : RewardTransaction}
    (accepted : RewardTransaction.fromBytes encoded = .ok reward) : reward.toBytes = .ok encoded := by
  rw [fromBytes, rethrow_eq_ok] at accepted
  exact readAll_finish_eq_ok RewardTransaction.consumes_reader accepted

/-- The bytes of a header that was read, once its lengths are checked. -/
theorem BlockHeader.consumes_reader :
    Consumes BlockHeader.reader fun consumed read =>
      checkLengths read.1 read.2 = .ok () → read.1.toBytes = .ok consumed := by
  rw [BlockHeader.reader]
  apply (consumes_bytes _).bind
  rintro domain value ⟨domainOk, -⟩
  apply Consumes.bind_check
  intro known
  rw [not_not] at known
  subst known
  apply consumes_u16.bind
  intro version version' versionOk
  apply (consumes_text _).bind
  rintro chainId chainId' ⟨chainIdOk, -⟩
  apply consumes_u64.bind
  intro height height' heightOk
  apply (consumes_bytes _).bind
  rintro previous previous' ⟨previousOk, -⟩
  apply (consumes_bytes _).bind
  rintro txRoot txRoot' ⟨txRootOk, -⟩
  apply (consumes_bytes _).bind
  rintro stateRoot stateRoot' ⟨stateRootOk, -⟩
  apply consumes_u64.bind
  intro timestamp timestamp' timestampOk
  apply (consumes_bytes _).bind
  rintro target target' ⟨targetOk, -⟩
  apply consumes_u64.bind
  intro nonce nonce' nonceOk
  apply (consumes_text _).bind
  rintro miner miner' ⟨minerOk, -⟩
  apply Consumes.pure
  intro checked
  simp only [checkLengths, bind_eq_ok, exactHash_eq_ok, raiseIf_eq_ok, exists_const, not_not,
    encodeTarget_eq_ok] at checked
  obtain ⟨-, ⟨previousLength, -⟩, -, ⟨txRootLength, -⟩, -, ⟨stateRootLength, -⟩, targetSize, written,
    ⟨range, writtenEq⟩, -⟩ := checked
  have targetBytes : encodeTarget (BigEndian.ofBytes target' : Int) = .ok target' := by
    rw [encodeTarget_eq_ok, Int.toNat_natCast, ← targetSize, BigEndian.toBytes_ofBytes]
    exact ⟨range, rfl⟩
  simp only [BlockHeader.toBytes, domainOk, versionOk, chainIdOk, heightOk,
    exactHash_eq_ok.mpr ⟨previousLength, rfl⟩, exactHash_eq_ok.mpr ⟨txRootLength, rfl⟩,
    exactHash_eq_ok.mpr ⟨stateRootLength, rfl⟩, previousOk, txRootOk, stateRootOk, timestampOk,
    targetBytes, targetOk, nonceOk, minerOk, ok_bind, List.append_assoc, List.append_nil]
  rfl

/-- **A header that is accepted encodes to the accepted bytes.** -/
theorem BlockHeader.toBytes_of_fromBytes {encoded : Bytes} {header : BlockHeader}
    (accepted : BlockHeader.fromBytes encoded = .ok header) : header.toBytes = .ok encoded := by
  simp only [fromBytes, bind_eq_ok, rethrow_eq_ok, pure_eq_ok, Prod.exists] at accepted
  obtain ⟨header', targetBytes, readOk, _, checked, rfl⟩ := accepted
  exact readAll_finish_eq_ok BlockHeader.consumes_reader readOk checked

/-! ## Envelopes -/

omit [Platform] in
theorem consumes_items (maxItemLength : Nat) : ∀ count : Nat,
    Consumes ((List.replicate count ()).mapM fun _ => readBytes maxItemLength)
      fun consumed values => values.length = count ∧
        ∃ chunks, values.mapM encodeBytes = .ok chunks ∧ chunks.flatten = consumed
  | 0 => by
      rw [List.replicate_zero, List.mapM_nil]
      exact Consumes.pure ⟨rfl, [], rfl, rfl⟩
  | count + 1 => by
      rw [List.replicate_succ, List.mapM_cons]
      apply (consumes_bytes maxItemLength).bind
      rintro first value ⟨firstOk, -⟩
      apply (consumes_items maxItemLength count).bind
      rintro _ values ⟨length, chunks, chunksOk, rfl⟩
      apply Consumes.pure
      refine ⟨by rw [List.length_cons, length], first :: chunks, ?_, ?_⟩
      · rw [List.mapM_cons, firstOk, chunksOk]
        rfl
      · rw [List.flatten_cons, List.append_nil]

omit [Platform] in
theorem consumes_sequence (maxItems maxItemLength : Nat) :
    Consumes (readSequence maxItems maxItemLength) fun consumed values =>
      encodeSequence values = .ok consumed ∧ values.length ≤ maxItems := by
  rw [readSequence]
  apply consumes_u32.bind
  intro countBytes count countOk
  apply Consumes.bind_check
  intro few
  apply (consumes_items maxItemLength count.toNat).mono
  rintro _ values ⟨length, chunks, chunksOk, rfl⟩
  obtain ⟨⟨nonneg, bounded⟩, -⟩ := encodeUnsigned_eq_ok.mp countOk
  have same : (values.length : Int) = count := by omega
  refine ⟨?_, by omega⟩
  simp only [encodeSequence, same, bind_eq_ok, raiseIf_eq_ok, exists_const, pure_eq_ok]
  exact ⟨by omega, countBytes, countOk, chunks, chunksOk, rfl⟩

/-- The bytes of an envelope that was read, once its transactions are decoded. -/
theorem consumes_blockReader :
    Consumes blockReader fun consumed read => ∀ transactions,
      read.2.2.mapM Transaction.fromBytes = .ok transactions →
        encodeBlock ⟨read.1, read.2.1, transactions⟩ = .ok consumed := by
  rw [blockReader]
  apply (consumes_bytes _).bind
  rintro domain value ⟨domainOk, -⟩
  apply Consumes.bind_check
  intro known
  rw [not_not] at known
  subst known
  apply (consumes_bytes _).bind
  rintro headerField headerBytes ⟨headerFieldOk, -⟩
  apply Consumes.bind_lift
  intro header headerOk
  apply (consumes_bytes _).bind
  rintro rewardField rewardBytes ⟨rewardFieldOk, -⟩
  apply Consumes.bind_lift
  intro reward rewardOk
  apply (consumes_sequence _ _).bind
  rintro body values ⟨bodyOk, -⟩
  apply Consumes.pure
  intro transactions decoded
  have written : transactions.mapM Transaction.toBytes = .ok values := by
    rw [mapM_eq_ok]
    apply (mapM_eq_ok.mp decoded).flip.imp
    exact fun _ _ accepted => Transaction.toBytes_of_fromBytes accepted
  simp only [encodeBlock, domainOk, BlockHeader.toBytes_of_fromBytes headerOk, headerFieldOk,
    RewardTransaction.toBytes_of_fromBytes rewardOk, rewardFieldOk, written, bodyOk, ok_bind,
    List.append_assoc, List.append_nil]
  rfl

/-- **A block that is accepted encodes to the accepted bytes.** -/
theorem encodeBlock_of_decodeBlock {encoded : Bytes} {block : Block}
    (accepted : decodeBlock encoded = .ok block) : encodeBlock block = .ok encoded := by
  simp only [decodeBlock, rethrow_eq_ok, bind_eq_ok, pure_eq_ok, Prod.exists] at accepted
  obtain ⟨header, reward, values, readOk, transactions, decoded, rfl⟩ := accepted
  exact readAll_finish_eq_ok consumes_blockReader readOk transactions decoded

end

end OurCoin
