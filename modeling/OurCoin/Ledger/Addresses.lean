import OurCoin.Model.Address

/-!
# Address text is canonical

Accounts are keyed by the text of an address, so there must not be two texts for one key hash,
nor one text for two networks.

* `quantum_of_accumulate` and `accumulate_quantum`: eight Base32 characters and the number of
  40 bits that they stand for determine each other.
* `b32encode_of_b32decode`: text of 40 characters that decodes to 25 bytes is the encoding of
  them; in particular it has no padding. `b32decode_b32encode` is the other way round.
* `decodeAddress_eq_ok`: an address is accepted exactly if it is the text of a key hash.
* `decodeAddress_canonical` draws the conclusions.
-/

set_option autoImplicit false

namespace OurCoin

open Raising

/-! ## Base32 characters -/

theorem b32Digit_eq_some {c digit : Nat} :
    b32Digit c = some digit ↔ digit < 32 ∧ b32Character digit = c := by
  rw [b32Digit, b32Character]
  constructor
  · intro found
    split at found
    · cases found
      rw [if_pos (by omega)]
      omega
    · split at found
      · cases found
        rw [if_neg (by omega)]
        omega
      · cases found
  · rintro ⟨small, rfl⟩
    split
    · rw [if_pos (by omega), Nat.add_sub_cancel_left]
    · rw [if_neg (by omega), if_pos (by omega), Nat.add_sub_cancel_left]

/-- The characters of Base32: uppercase letters and the digits from 2 to 7. -/
def IsB32Character (c : Nat) : Prop := (65 ≤ c ∧ c ≤ 90) ∨ (50 ≤ c ∧ c ≤ 55)

theorem isB32Character_b32Character {digit : Nat} (small : digit < 32) :
    IsB32Character (b32Character digit) := by
  rw [IsB32Character, b32Character]
  split
  · omega
  · omega

/-! ## One quantum -/

/-- The characters of a number of 40 bits. -/
def b32Quantum (value : Nat) : Text :=
  [35, 30, 25, 20, 15, 10, 5, 0].map fun shift => b32Character (value / 2 ^ shift % 32)

theorem accumulate_cons {c acc : Nat} {rest : Text} :
    (c :: rest).foldlM (fun acc c => (b32Digit c).map fun digit => acc * 32 + digit) acc =
      (b32Digit c).bind fun digit =>
        rest.foldlM (fun acc c => (b32Digit c).map fun digit => acc * 32 + digit)
          (acc * 32 + digit) := by
  rw [List.foldlM_cons]
  cases b32Digit c with
  | none => rfl
  | some digit => rfl

/-- **The characters of a quantum are those of its number.** -/
theorem quantum_of_accumulate {c0 c1 c2 c3 c4 c5 c6 c7 acc : Nat}
    (accumulated : b32Accumulate [c0, c1, c2, c3, c4, c5, c6, c7] = some acc) :
    acc < 2 ^ 40 ∧ b32Quantum acc = [c0, c1, c2, c3, c4, c5, c6, c7] := by
  simp only [b32Accumulate, accumulate_cons, List.foldlM_nil, Option.bind_eq_some_iff,
    b32Digit_eq_some, Option.pure_def, Option.some.injEq] at accumulated
  obtain ⟨d0, ⟨s0, rfl⟩, d1, ⟨s1, rfl⟩, d2, ⟨s2, rfl⟩, d3, ⟨s3, rfl⟩, d4, ⟨s4, rfl⟩, d5,
    ⟨s5, rfl⟩, d6, ⟨s6, rfl⟩, d7, ⟨s7, rfl⟩, rfl⟩ := accumulated
  refine ⟨by omega, ?_⟩
  simp only [b32Quantum, List.map_cons, List.map_nil, List.cons.injEq, and_true]
  refine ⟨?_, ?_, ?_, ?_, ?_, ?_, ?_, ?_⟩ <;> exact congrArg b32Character (by omega)

/-- **The number of a quantum is read back from its characters.** -/
theorem accumulate_quantum {value : Nat} (small : value < 2 ^ 40) :
    b32Accumulate (b32Quantum value) = some value := by
  have digit : ∀ shift : Nat, b32Digit (b32Character (value / 2 ^ shift % 32)) =
      some (value / 2 ^ shift % 32) := fun shift =>
    b32Digit_eq_some.mpr ⟨Nat.mod_lt _ (by decide), rfl⟩
  simp only [b32Accumulate, b32Quantum, List.map_cons, List.map_nil, accumulate_cons, digit,
    Option.bind_some, List.foldlM_nil, Option.pure_def, Option.some.injEq]
  omega

/-! ## Whole texts -/

theorem exists_five {data : Bytes} (enough : 5 ≤ data.length) :
    ∃ b0 b1 b2 b3 b4 rest, data = b0 :: b1 :: b2 :: b3 :: b4 :: rest ∧
      rest.length + 5 = data.length := by
  rcases data with _ | ⟨b0, _ | ⟨b1, _ | ⟨b2, _ | ⟨b3, _ | ⟨b4, rest⟩⟩⟩⟩⟩
  all_goals simp only [List.length_nil, List.length_cons] at enough
  all_goals try omega
  exact ⟨b0, b1, b2, b3, b4, rest, rfl, rfl⟩

theorem exists_eight {quanta : Text} (enough : 8 ≤ quanta.length) :
    ∃ c0 c1 c2 c3 c4 c5 c6 c7 rest,
      quanta = c0 :: c1 :: c2 :: c3 :: c4 :: c5 :: c6 :: c7 :: rest ∧
        rest.length + 8 = quanta.length := by
  rcases quanta with
    _ | ⟨c0, _ | ⟨c1, _ | ⟨c2, _ | ⟨c3, _ | ⟨c4, _ | ⟨c5, _ | ⟨c6, _ | ⟨c7, rest⟩⟩⟩⟩⟩⟩⟩⟩
  all_goals simp only [List.length_nil, List.length_cons] at enough
  all_goals try omega
  exact ⟨c0, c1, c2, c3, c4, c5, c6, c7, rest, rfl, rfl⟩

/-- **What was encoded is decoded.** -/
theorem decode_encodeQuanta : ∀ {count : Nat} {data : Bytes}, data.length = 5 * count →
    (∃ last, b32DecodeQuanta (b32EncodeQuanta data) = some (data, last)) ∧
      (b32EncodeQuanta data).length = 8 * count ∧
      ∀ c ∈ b32EncodeQuanta data, IsB32Character c
  | 0, data, length => by
      rw [List.length_eq_zero_iff.mp length]
      exact ⟨⟨0, rfl⟩, rfl, nofun⟩
  | count + 1, data, length => by
      obtain ⟨b0, b1, b2, b3, b4, rest, rfl, shorter⟩ := exists_five (by omega : 5 ≤ data.length)
      have restLength : rest.length = 5 * count := by omega
      obtain ⟨⟨last, decoded⟩, encodedLength, characters⟩ := decode_encodeQuanta restLength
      have small : BigEndian.ofBytes [b0, b1, b2, b3, b4] < 2 ^ 40 := by
        calc BigEndian.ofBytes [b0, b1, b2, b3, b4] < 256 ^ 5 := BigEndian.ofBytes_lt _
          _ = 2 ^ 40 := by norm_num
      have split : b32EncodeQuanta (b0 :: b1 :: b2 :: b3 :: b4 :: rest) =
          b32Quantum (BigEndian.ofBytes [b0, b1, b2, b3, b4]) ++ b32EncodeQuanta rest := rfl
      have back : BigEndian.toBytes 5 (BigEndian.ofBytes [b0, b1, b2, b3, b4]) =
          [b0, b1, b2, b3, b4] := BigEndian.toBytes_ofBytes [b0, b1, b2, b3, b4]
      refine ⟨?_, ?_, ?_⟩
      · have quantum := accumulate_quantum small
        rw [split]
        simp only [b32Quantum, List.map_cons, List.map_nil] at quantum ⊢
        simp only [List.cons_append, List.nil_append, b32DecodeQuanta]
        rw [quantum, decoded]
        simp only [back]
        exact ⟨_, rfl⟩
      · rw [split, List.length_append, encodedLength]
        simp only [b32Quantum, List.length_map, List.length_cons, List.length_nil]
        omega
      · intro c member
        rw [split] at member
        rcases List.mem_append.mp member with here | later
        · obtain ⟨shift, -, rfl⟩ := List.mem_map.mp here
          exact isB32Character_b32Character (Nat.mod_lt _ (by decide))
        · exact characters c later

/-- **What is decoded was encoded**, if it consists of whole quanta. -/
theorem encode_decodeQuanta : ∀ {count : Nat} {quanta : Text} {data : Bytes} {last : Nat},
    quanta.length = 8 * count → b32DecodeQuanta quanta = some (data, last) →
      b32EncodeQuanta data = quanta ∧ data.length = 5 * count
  | 0, quanta, data, last, length, decoded => by
      rw [List.length_eq_zero_iff.mp length] at decoded ⊢
      cases decoded
      exact ⟨rfl, rfl⟩
  | count + 1, quanta, data, last, length, decoded => by
      obtain ⟨c0, c1, c2, c3, c4, c5, c6, c7, rest, rfl, shorter⟩ :=
        exists_eight (by omega : 8 ≤ quanta.length)
      have restLength : rest.length = 8 * count := by omega
      rw [b32DecodeQuanta] at decoded
      cases accumulated : b32Accumulate [c0, c1, c2, c3, c4, c5, c6, c7] with
      | none =>
          rw [accumulated] at decoded
          cases decoded
      | some acc =>
          cases others : b32DecodeQuanta rest with
          | none =>
              rw [accumulated, others] at decoded
              cases decoded
          | some result =>
              obtain ⟨data', last'⟩ := result
              rw [accumulated, others] at decoded
              cases decoded
              obtain ⟨small, quantum⟩ := quantum_of_accumulate accumulated
              obtain ⟨encoded, dataLength⟩ := encode_decodeQuanta restLength others
              have five := BigEndian.length_toBytes 5 acc
              obtain ⟨b0, b1, b2, b3, b4, none, bytes, shorter⟩ := exists_five five.ge
              rw [List.length_eq_zero_iff.mp (by omega : none.length = 0)] at bytes
              have back : BigEndian.ofBytes [b0, b1, b2, b3, b4] = acc :=
                bytes ▸ BigEndian.ofBytes_toBytes small
              refine ⟨?_, ?_⟩
              · have split : b32EncodeQuanta (b0 :: b1 :: b2 :: b3 :: b4 :: data') =
                    b32Quantum (BigEndian.ofBytes [b0, b1, b2, b3, b4]) ++
                      b32EncodeQuanta data' := rfl
                rw [bytes]
                simp only [List.cons_append, List.nil_append]
                rw [split, back, quantum, encoded]
                rfl
              · rw [List.length_append, five, dataLength]
                omega

/-- The last quantum decodes to five bytes even if it is not whole. -/
theorem length_decodeQuanta {quanta : Text} {data : Bytes} {last : Nat}
    (decoded : b32DecodeQuanta quanta = some (data, last)) :
    data.length = (quanta.length + 7) / 8 * 5 := by
  fun_induction b32DecodeQuanta quanta generalizing data last with
  | case1 =>
      cases decoded
      rfl
  | case2 c0 c1 c2 c3 c4 c5 c6 c7 rest acc data' last' others accumulated ih =>
      cases decoded
      rw [List.length_append, BigEndian.length_toBytes, ih others]
      simp only [List.length_cons]
      omega
  | case3 => cases decoded
  | case4 short nonempty notWhole acc accumulated =>
      cases decoded
      have some : 0 < short.length := List.length_pos_iff.mpr nonempty
      have few : short.length < 8 := by
        by_contra enough
        obtain ⟨c0, c1, c2, c3, c4, c5, c6, c7, rest, split, -⟩ :=
          exists_eight (Nat.le_of_not_lt enough)
        exact notWhole c0 c1 c2 c3 c4 c5 c6 c7 rest split
      rw [BigEndian.length_toBytes]
      omega
  | case5 => cases decoded

/-! ## Padding -/

/-- Text without padding characters at its end. -/
theorem dropWhile_padding {encoded : Text} (unpadded : ∀ c ∈ encoded, c ≠ 61) :
    (encoded.reverse.dropWhile (· == 61)).reverse = encoded := by
  have none : encoded.reverse.dropWhile (· == 61) = encoded.reverse := by
    cases reversed : encoded.reverse with
    | nil => rfl
    | cons c rest =>
        have differs : c ≠ 61 :=
          unpadded c (List.mem_reverse.mp (reversed ▸ List.mem_cons_self))
        rw [List.dropWhile_cons, beq_false_of_ne differs, if_neg Bool.false_ne_true]
  rw [none, List.reverse_reverse]

/-- **The encoding of 25 bytes.** -/
theorem b32encode_eq {data : Bytes} (whole : data.length = 5 * 5) :
    b32encode data = b32EncodeQuanta data := by
  rw [b32encode, whole]
  rfl

/-- **Encoded bytes are decoded.** -/
theorem b32decode_b32encode {data : Bytes} (whole : data.length = 5 * 5) :
    b32decode (b32encode data) = .ok data ∧ (b32encode data).length = 8 * 5 ∧
      ∀ c ∈ b32encode data, IsB32Character c := by
  obtain ⟨⟨last, decoded⟩, length, characters⟩ := decode_encodeQuanta whole
  rw [b32encode_eq whole]
  have unpadded : ∀ c ∈ b32EncodeQuanta data, c ≠ 61 := by
    rintro c member rfl
    rcases characters 61 member with range | range <;> omega
  refine ⟨?_, length, characters⟩
  rw [b32decode, dropWhile_padding unpadded, length, decoded]
  rfl

/-- **Text of 40 characters that decodes to 25 bytes is their encoding.** With padding there
would be fewer bytes. -/
theorem b32encode_of_b32decode {encoded : Text} {data : Bytes} (length : encoded.length = 8 * 5)
    (whole : data.length = 5 * 5) (decoded : b32decode encoded = .ok data) :
    b32encode data = encoded := by
  rw [b32decode, if_neg (by omega)] at decoded
  generalize stripped : (encoded.reverse.dropWhile (· == 61)).reverse = digits at decoded
  have shorter : digits.length ≤ encoded.length := by
    have sublist := (List.dropWhile_sublist (· == 61) (l := encoded.reverse)).length_le
    rw [← stripped, List.length_reverse]
    rwa [List.length_reverse] at sublist
  cases result : b32DecodeQuanta digits with
  | none =>
      rw [result] at decoded
      cases decoded
  | some bytes =>
      obtain ⟨bytes, acc⟩ := bytes
      rw [result] at decoded
      dsimp only at decoded
      have bytesLength := length_decodeQuanta result
      split at decoded
      · cases decoded
      · rename_i allowed
        split at decoded
        · -- The bytes of a padded quantum are cut off.
          exfalso
          rename_i padded
          cases decoded
          rw [List.length_append, List.length_take, List.length_take, BigEndian.length_toBytes]
            at whole
          simp only [List.mem_cons, List.not_mem_nil, or_false, not_not] at allowed
          omega
        · rename_i unpadded
          cases decoded
          have nonempty : data ≠ [] := by
            intro isNil
            rw [isNil] at whole
            cases whole
          have all : digits.length = encoded.length := by
            by_contra differ
            exact unpadded ⟨by omega, nonempty⟩
          have same : encoded.reverse.dropWhile (· == 61) = encoded.reverse :=
            (List.dropWhile_sublist _).eq_of_length (by
              rw [List.length_reverse, ← all, ← stripped, List.length_reverse])
          rw [← stripped, same, List.reverse_reverse] at result
          obtain ⟨encodes, -⟩ := encode_decodeQuanta length result
          rw [b32encode_eq whole]
          exact encodes

/-! ## Letter case -/

theorem lowerAscii_upperAscii {token : Text} (lowercase : token = lowerAscii token) :
    lowerAscii (upperAscii token) = token := by
  induction token with
  | nil => rfl
  | cons c rest ih =>
      rw [lowerAscii, List.map_cons, List.cons.injEq] at lowercase
      obtain ⟨here, later⟩ := lowercase
      have tail := ih later
      rw [upperAscii, List.map_cons, lowerAscii, List.map_cons]
      refine List.cons_eq_cons.mpr ⟨?_, tail⟩
      have notUpper : ¬ (65 ≤ c ∧ c ≤ 90) := by
        intro upper
        rw [if_pos upper] at here
        omega
      by_cases lower : 97 ≤ c ∧ c ≤ 122
      · rw [if_pos lower, if_pos (by omega)]
        omega
      · rw [if_neg lower, if_neg notUpper]

theorem upperAscii_lowerAscii {encoded : Text} (characters : ∀ c ∈ encoded, IsB32Character c) :
    upperAscii (lowerAscii encoded) = encoded := by
  induction encoded with
  | nil => rfl
  | cons c rest ih =>
      have tail := ih fun c member => characters c (List.mem_cons_of_mem _ member)
      rw [lowerAscii, List.map_cons, upperAscii, List.map_cons]
      refine List.cons_eq_cons.mpr ⟨?_, tail⟩
      rcases characters c List.mem_cons_self with letter | digit
      · rw [if_pos letter, if_pos (by omega), Nat.add_sub_cancel]
      · have notUpper : ¬ (65 ≤ c ∧ c ≤ 90) := by omega
        rw [if_neg notUpper, if_neg (by omega)]

theorem lowerAscii_append (front back : Text) :
    lowerAscii (front ++ back) = lowerAscii front ++ lowerAscii back :=
  List.map_append

/-- Lowercase text stays as it is. -/
theorem lowerAscii_eq_self {value : Text} (lowercase : ∀ c ∈ value, ¬ (65 ≤ c ∧ c ≤ 90)) :
    lowerAscii value = value := by
  rw [lowerAscii]
  refine (List.map_congr_left fun c member => if_neg (lowercase c member)).trans ?_
  exact List.map_id value

/-- What is lowercased is lowercase ASCII, if it was ASCII. -/
theorem lowerAscii_range {value : Text} (ascii : isAscii value) :
    ∀ c ∈ lowerAscii value, c < 128 ∧ ¬ (65 ≤ c ∧ c ≤ 90) := by
  intro c member
  obtain ⟨c', inside, rfl⟩ := List.mem_map.mp member
  have small := ascii c' inside
  split
  · omega
  · omega

/-! ## Addresses -/

/-- The version of a network and a key hash. -/
def addressPayload (network : NetworkConfig) (hash : Bytes) : Bytes :=
  UInt8.ofNat network.addressVersion :: hash

/-- The part of an address after its prefix. -/
def addressToken (payload : Bytes) : Text := lowerAscii (b32encode (payload ++ checksum payload))

/-- The text of a key hash on a network. -/
def addressText (network : NetworkConfig) (hash : Bytes) : Text :=
  addressPrefix network ++ addressToken (addressPayload network hash)

theorem addressFromPublicKey_eq_ok {key : Bytes} {network : NetworkConfig} {address : Text} :
    addressFromPublicKey key network = .ok address ↔
      ∃ hash, publicKeyHash key = .ok hash ∧ addressText network hash = address := by
  simp only [addressFromPublicKey, bind_eq_ok, pure_eq_ok]
  rfl

theorem length_publicKeyHash {key hash : Bytes} (hashOk : publicKeyHash key = .ok hash) :
    hash.length = publicKeyHashLength := by
  simp only [publicKeyHash, bind_eq_ok, pure_eq_ok] at hashOk
  obtain ⟨_, -, rfl⟩ := hashOk
  rw [List.length_take, sha256Digest, Sha256.length_digest]
  rfl

theorem length_checksum (payload : Bytes) : (checksum payload).length = addressChecksumLength := by
  rw [checksum, List.length_take, doubleSha256, sha256Digest, Sha256.length_digest]
  rfl

section Tokens

variable {payload : Bytes} (length : payload.length = 1 + publicKeyHashLength)

include length

/-- A payload and its checksum are five whole quanta. -/
theorem length_checked : (payload ++ checksum payload).length = 5 * 5 := by
  rw [List.length_append, length, length_checksum]
  rfl

theorem length_addressToken : (addressToken payload).length = addressTokenLength := by
  obtain ⟨-, encodedLength, -⟩ := b32decode_b32encode (length_checked length)
  rw [addressToken, lowerAscii, List.length_map, encodedLength]
  rfl

/-- A token is decoded to what it was made of. -/
theorem b32decode_addressToken :
    b32decode (upperAscii (addressToken payload)) = .ok (payload ++ checksum payload) := by
  obtain ⟨decoded, -, characters⟩ := b32decode_b32encode (length_checked length)
  rw [addressToken, upperAscii_lowerAscii characters, decoded]

theorem addressToken_range : ∀ c ∈ addressToken payload, c < 128 ∧ ¬ (65 ≤ c ∧ c ≤ 90) := by
  obtain ⟨-, -, characters⟩ := b32decode_b32encode (length_checked length)
  apply lowerAscii_range
  intro c member
  rcases characters c member with letter | digit <;> omega

/-- **A token determines its payload.** -/
theorem addressToken_injective {payload' : Bytes}
    (length' : payload'.length = 1 + publicKeyHashLength)
    (same : addressToken payload = addressToken payload') : payload = payload' := by
  have decoded := b32decode_addressToken length
  rw [same, b32decode_addressToken length', Except.ok.injEq] at decoded
  exact (List.append_inj decoded (length'.trans length.symm)).1.symm

end Tokens

theorem length_addressPayload (network : NetworkConfig) {hash : Bytes}
    (length : hash.length = publicKeyHashLength) :
    (addressPayload network hash).length = 1 + publicKeyHashLength := by
  rw [addressPayload, List.length_cons, length, Nat.add_comm]

/-- The prefix of a network is lowercase ASCII. -/
theorem addressPrefix_range (network : NetworkConfig) :
    ∀ c ∈ addressPrefix network, c < 128 ∧ ¬ (65 ≤ c ∧ c ≤ 90) := by
  intro c member
  rcases List.mem_append.mp member with inHrp | isSeparator
  · have alnum := network.addressHrp_valid.1 c inHrp
    rw [isLowerAlnum] at alnum
    omega
  · have separator : c = 49 := List.mem_singleton.mp isSeparator
    omega

/-- **What an accepted address is.** -/
theorem decodeAddress_eq_ok {address : Text} {network : NetworkConfig} {hash : Bytes} :
    decodeAddress address network = .ok hash ↔
      hash.length = publicKeyHashLength ∧ addressText network hash = address := by
  constructor
  · intro decoded
    simp only [decodeAddress, bind_eq_ok, raiseIf_eq_ok, rethrow_eq_ok, exists_const, pure_eq_ok,
      not_not, not_or] at decoded
    obtain ⟨⟨-, lowercase⟩, startsWith, tokenLength, data, dataOk, dataLength, version, checked,
      rfl⟩ := decoded
    obtain ⟨token, rfl⟩ := List.isPrefixOf_iff_prefix.mp startsWith
    rw [List.drop_left] at tokenLength dataOk
    have whole : data.length = 5 * 5 := dataLength
    -- The token is lowercase, so it is the lowercase of its uppercase.
    have tokenLower : token = lowerAscii token := by
      rw [lowerAscii_append] at lowercase
      exact (List.append_inj' lowercase (by rw [lowerAscii, List.length_map])).2
    have upperLength : (upperAscii token).length = 8 * 5 := by
      rw [upperAscii, List.length_map]
      exact tokenLength
    have encoded := b32encode_of_b32decode upperLength whole dataOk
    -- The version, the hash and the checksum are all of the data.
    obtain ⟨payload, payloadEq⟩ : ∃ payload,
        data.take (data.length - addressChecksumLength) = payload := ⟨_, rfl⟩
    have payloadLength : payload.length = 21 := by
      rw [← payloadEq, List.length_take, whole]
      rfl
    have dataEq : payload ++ checksum payload = data := by
      rw [payloadEq] at checked
      rw [← checked, ← payloadEq, List.take_append_drop]
    rw [payloadEq] at version ⊢
    obtain ⟨rest, isPayload⟩ := List.head?_eq_some_iff.mp version
    subst isPayload
    refine ⟨Nat.succ.inj payloadLength, ?_⟩
    rw [addressText, addressPayload, addressToken, List.tail_cons, dataEq, encoded,
      lowerAscii_upperAscii tokenLower]
  · rintro ⟨hashLength, rfl⟩
    have payloadLength := length_addressPayload network hashLength
    have range : ∀ c ∈ addressText network hash, c < 128 ∧ ¬ (65 ≤ c ∧ c ≤ 90) := by
      intro c member
      rcases List.mem_append.mp member with inPrefix | inToken
      · exact addressPrefix_range network c inPrefix
      · exact addressToken_range payloadLength c inToken
    have lowercase : addressText network hash = lowerAscii (addressText network hash) :=
      (lowerAscii_eq_self fun c member => (range c member).2).symm
    have token : (addressText network hash).drop (addressPrefix network).length =
        addressToken (addressPayload network hash) := List.drop_left
    have cut : (addressPayload network hash ++ checksum (addressPayload network hash)).length -
        addressChecksumLength = (addressPayload network hash).length := by
      rw [length_checked payloadLength, payloadLength]
      rfl
    simp only [decodeAddress, bind_eq_ok, raiseIf_eq_ok, rethrow_eq_ok, exists_const, pure_eq_ok,
      not_not, not_or, token]
    refine ⟨⟨fun c member => (range c member).1, lowercase⟩,
      List.isPrefixOf_iff_prefix.mpr (List.prefix_append _ _), length_addressToken payloadLength, _,
      b32decode_addressToken payloadLength, length_checked payloadLength, ?_⟩
    rw [cut, List.take_left, List.drop_left]
    exact ⟨rfl, rfl, rfl⟩

/-- **Address text is canonical and belongs to one network.** -/
theorem decodeAddress_canonical (network : NetworkConfig) :
    (∀ address hash, decodeAddress address network = .ok hash →
        address = addressText network hash ∧
          ∀ other, decodeAddress other network = .ok hash → other = address) ∧
      (∀ key address, addressFromPublicKey key network = .ok address →
        ∃ hash, publicKeyHash key = .ok hash ∧ decodeAddress address network = .ok hash) ∧
      ∀ network' : NetworkConfig, network'.addressHrp ≠ network.addressHrp ∨
        network'.addressVersion ≠ network.addressVersion →
          ∀ address hash hash', decodeAddress address network = .ok hash →
            decodeAddress address network' ≠ .ok hash' := by
  refine ⟨?_, ?_, ?_⟩
  · intro address hash decoded
    obtain ⟨-, isText⟩ := decodeAddress_eq_ok.mp decoded
    refine ⟨isText.symm, ?_⟩
    intro other decoded'
    obtain ⟨-, isText'⟩ := decodeAddress_eq_ok.mp decoded'
    exact isText'.symm.trans isText
  · intro key address written
    obtain ⟨hash, hashOk, isText⟩ := addressFromPublicKey_eq_ok.mp written
    exact ⟨hash, hashOk, decodeAddress_eq_ok.mpr ⟨length_publicKeyHash hashOk, isText⟩⟩
  · intro network' differ address hash hash' decoded decoded'
    obtain ⟨hashLength, isText⟩ := decodeAddress_eq_ok.mp decoded
    obtain ⟨hashLength', isText'⟩ := decodeAddress_eq_ok.mp decoded'
    have payloadLength := length_addressPayload network hashLength
    have payloadLength' := length_addressPayload network' hashLength'
    -- Both tokens have 40 characters, so the prefixes have one length.
    obtain ⟨prefixes, tokens⟩ := List.append_inj' (isText'.trans isText.symm)
      ((length_addressToken payloadLength').trans (length_addressToken payloadLength).symm)
    rcases differ with otherHrp | otherVersion
    · exact otherHrp (List.append_inj' prefixes rfl).1
    · have payloads := addressToken_injective payloadLength' payloadLength tokens
      have versions := congrArg UInt8.toNat (List.cons.inj payloads).1
      have small := network.addressVersion_valid
      have small' := network'.addressVersion_valid
      rw [UInt8.toNat_ofNat', UInt8.toNat_ofNat'] at versions
      omega

end OurCoin
