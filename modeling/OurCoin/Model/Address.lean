import OurCoin.Library.Sha256
import OurCoin.Model.Encoding

/-!
# Networks, keys and addresses

`config.py`, `crypto.py` and `address.py`. A network configuration carries the
conditions its constructor checks. An address is the network's prefix followed by
the Base32 text of a version byte, the 20-byte hash of a public key and a 4-byte
checksum.
-/

set_option autoImplicit false

namespace OurCoin

open Raising

/-! ## `config.py` -/

/-- `character.isalnum()`, for a lowercase ASCII character. -/
def isLowerAlnum (c : Nat) : Prop := (97 ≤ c ∧ c ≤ 122) ∨ (48 ≤ c ∧ c ≤ 57)

instance (c : Nat) : Decidable (isLowerAlnum c) :=
  inferInstanceAs (Decidable ((97 ≤ c ∧ c ≤ 122) ∨ (48 ≤ c ∧ c ≤ 57)))

/-- The identifiers of one isolated network. -/
structure NetworkConfig where
  name : Text
  chainId : Text
  addressHrp : Text
  addressVersion : Nat
  name_nonempty : name ≠ []
  chainId_valid : chainId ≠ [] ∧ isAscii chainId
  addressHrp_valid : (∀ c ∈ addressHrp, isLowerAlnum c) ∧ ∃ c ∈ addressHrp.head?, 97 ≤ c ∧ c ≤ 122
  addressVersion_valid : addressVersion ≤ 0xFF
  deriving DecidableEq

/-- `TESTNET`. -/
def testnet : NetworkConfig where
  name := text "testnet"
  chainId := text "ourcoin-testnet-v1"
  addressHrp := text "tour"
  addressVersion := 0x6F
  name_nonempty := by decide
  chainId_valid := by decide
  addressHrp_valid := ⟨by decide, 116, by decide⟩
  addressVersion_valid := by decide

/-! ## `crypto.py` -/

def privateKeyLength : Nat := 32
def publicKeyLength : Nat := 32
def signatureLength : Nat := 64
def publicKeyHashLength : Nat := 20

/-- `CryptoError(message)`. -/
def cryptoError (message : String) : Raised := ⟨.cryptoError, message⟩

/-- Refuse a value of another length. -/
def requireBytes (value : Bytes) (expectedLength : Nat) (name : String) : Except Raised Unit :=
  raiseIf (value.length ≠ expectedLength)
    (cryptoError s!"{name} must be exactly {expectedLength} bytes")

/-- `sha256_digest(data)`. -/
def sha256Digest (data : Bytes) : Bytes := Sha256.digest data

/-- SHA-256 of SHA-256. -/
def doubleSha256 (data : Bytes) : Bytes := sha256Digest (sha256Digest data)

/-- The raw public key of a raw private key. -/
def publicKeyFromPrivate [Platform] (privateKeyBytes : Bytes) : Except Raised Bytes := do
  requireBytes privateKeyBytes privateKeyLength "private key"
  return Platform.ed25519PublicKey privateKeyBytes

/-- Sign a message with a raw private key. -/
def sign [Platform] (privateKeyBytes message : Bytes) : Except Raised Bytes := do
  requireBytes privateKeyBytes privateKeyLength "private key"
  return Platform.ed25519Sign privateKeyBytes message

/-- `False` for every malformed key or signature. -/
def verifySignature [Platform] (publicKeyBytes message signature : Bytes) : Bool :=
  if publicKeyBytes.length ≠ publicKeyLength ∨ signature.length ≠ signatureLength then false
  else Platform.ed25519Verify publicKeyBytes message signature

/-- The first bytes of the double hash of a public key. -/
def publicKeyHash (publicKeyBytes : Bytes) : Except Raised Bytes := do
  requireBytes publicKeyBytes publicKeyLength "public key"
  return (sha256Digest publicKeyBytes).take publicKeyHashLength

/-! ## Base32 -/

/-- The character of a Base32 digit. -/
def b32Character (digit : Nat) : Nat := if digit < 26 then 65 + digit else 24 + digit

/-- The Base32 digit of a character. -/
def b32Digit (c : Nat) : Option Nat :=
  if 65 ≤ c ∧ c ≤ 90 then some (c - 65)
  else if 50 ≤ c ∧ c ≤ 55 then some (c - 24)
  else none

/-- Eight characters for every five bytes. -/
def b32EncodeQuanta : Bytes → Text
  | b0 :: b1 :: b2 :: b3 :: b4 :: rest =>
    let value := BigEndian.ofBytes [b0, b1, b2, b3, b4]
    [35, 30, 25, 20, 15, 10, 5, 0].map (fun shift => b32Character (value / 2 ^ shift % 32)) ++
      b32EncodeQuanta rest
  | _ => []

/-- `base64.b32encode(data)`. -/
def b32encode (data : Bytes) : Text :=
  let leftover := data.length % 5
  if leftover = 0 then b32EncodeQuanta data
  else
    let encoded := b32EncodeQuanta (data ++ List.replicate (5 - leftover) 0)
    let padding := if leftover = 1 then 6 else if leftover = 2 then 4 else if leftover = 3 then 3 else 1
    encoded.take (encoded.length - padding) ++ List.replicate padding 61

/-- `acc = (acc << 5) + b32rev[c]` over the characters of one quantum. -/
def b32Accumulate (quantum : Text) : Option Nat :=
  quantum.foldlM (fun acc c => (b32Digit c).map fun digit => acc * 32 + digit) 0

/-- Five bytes for every quantum of eight characters, and the accumulator of the last
quantum, which may be shorter. -/
def b32DecodeQuanta : Text → Option (Bytes × Nat)
  | [] => some ([], 0)
  | c0 :: c1 :: c2 :: c3 :: c4 :: c5 :: c6 :: c7 :: rest =>
    match b32Accumulate [c0, c1, c2, c3, c4, c5, c6, c7], b32DecodeQuanta rest with
    | some acc, some (decoded, last) =>
      some (BigEndian.toBytes 5 acc ++ decoded, if rest = [] then acc else last)
    | _, _ => none
  | short =>
    match b32Accumulate short with
    | some acc => some (BigEndian.toBytes 5 acc, acc)
    | none => none

/-- `binascii.Error(message)`. -/
def binasciiError (message : String) : Raised := ⟨.binasciiError, message⟩

/-- `base64.b32decode(encoded, casefold=False)`. -/
def b32decode (encoded : Text) : Except Raised Bytes :=
  let stripped := (encoded.reverse.dropWhile (· == 61)).reverse
  let padchars := encoded.length - stripped.length
  if encoded.length % 8 ≠ 0 then .error (binasciiError "Incorrect padding")
  else match b32DecodeQuanta stripped with
    | none => .error (binasciiError "Non-base32 digit found")
    | some (decoded, acc) =>
      if padchars ∉ [0, 1, 3, 4, 6] then .error (binasciiError "Incorrect padding")
      else if padchars ≠ 0 ∧ decoded ≠ [] then
        .ok (decoded.take (decoded.length - 5) ++
          (BigEndian.toBytes 5 (acc * 2 ^ (5 * padchars))).take ((43 - 5 * padchars) / 8))
      else .ok decoded

/-! ## `address.py` -/

def addressChecksumLength : Nat := 4
def addressSeparator : Text := text "1"
def addressDataLength : Nat := 1 + publicKeyHashLength + addressChecksumLength
def addressTokenLength : Nat := 40

/-- `AddressError(message)`. -/
def addressError (message : String) : Raised := ⟨.addressError, message⟩

/-- The checksum of an address payload. -/
def checksum (payload : Bytes) : Bytes := (doubleSha256 payload).take addressChecksumLength

/-- The prefix of every address of a network. -/
def addressPrefix (network : NetworkConfig) : Text := network.addressHrp ++ addressSeparator

/-- The address of a public key on a network. -/
def addressFromPublicKey (publicKeyBytes : Bytes) (network : NetworkConfig) :
    Except Raised Text := do
  let payload := UInt8.ofNat network.addressVersion :: (← publicKeyHash publicKeyBytes)
  let token := lowerAscii (b32encode (payload ++ checksum payload))
  return addressPrefix network ++ token

/-- Validate an address and return its 20-byte public-key hash. -/
def decodeAddress (address : Text) (network : NetworkConfig) : Except Raised Bytes := do
  raiseIf (¬ isAscii address ∨ address ≠ lowerAscii address)
    (addressError "address must be lowercase ASCII text")
  raiseIf (¬ (addressPrefix network).isPrefixOf address = true)
    (addressError "address belongs to another network or has an invalid prefix")
  let token := address.drop (addressPrefix network).length
  raiseIf (token.length ≠ addressTokenLength)
    (addressError "address payload has an invalid length")
  let decoded ← rethrow (reraiseAs (· == .binasciiError) .addressError
    "address payload is not valid Base32") (b32decode (upperAscii token))
  raiseIf (decoded.length ≠ addressDataLength)
    (addressError "address payload has an invalid decoded length")
  let payload := decoded.take (decoded.length - addressChecksumLength)
  let found := decoded.drop (decoded.length - addressChecksumLength)
  raiseIf (payload.head? ≠ some (UInt8.ofNat network.addressVersion))
    (addressError "address version does not match the selected network")
  raiseIf (found ≠ checksum payload) (addressError "address checksum does not match")
  return payload.tail

/-- An address of a network is lowercase ASCII of a fixed length. -/
theorem decodeAddress_shape {address : Text} {network : NetworkConfig} {hash : Bytes}
    (decoded : decodeAddress address network = .ok hash) :
    isAscii address ∧ address.length = (addressPrefix network).length + addressTokenLength := by
  simp only [decodeAddress, bind_eq_ok, raiseIf_eq_ok] at decoded
  obtain ⟨_, lowercase, _, startsWith, _, tokenLength, -⟩ := decoded
  obtain ⟨token, split⟩ := List.isPrefixOf_iff_prefix.mp (not_not.mp startsWith)
  refine ⟨not_not.mp (not_or.mp lowercase).1, ?_⟩
  have length := not_not.mp tokenLength
  rw [← split, List.drop_left] at length
  rw [← split, List.length_append, length]

end OurCoin
