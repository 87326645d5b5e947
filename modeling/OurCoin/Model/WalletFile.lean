import OurCoin.Library.Base64
import OurCoin.Library.Json
import OurCoin.Model.Node
import OurCoin.Model.Paths

/-!
# Encrypted wallet files

`Wallet.save_encrypted` and `Wallet.load_encrypted` of `wallet.py`, as far as the content of the
file goes: a JSON document whose metadata is authenticated along with the encrypted key.
How the file gets to its place is in `WalletSaving`.
-/

set_option autoImplicit false

namespace OurCoin

open Raising

/-- Scrypt and AES-GCM as the `cryptography` package exposes them, and the two things about
numbers and nesting in which `json` depends on the interpreter. -/
class Sealing where
  /-- `Scrypt(salt=salt, length=length, n=n, r=r, p=p).derive(password)`. -/
  scrypt : Bytes → Bytes → (length n r p : Nat) → Bytes
  /-- `AESGCM(key).encrypt(nonce, data, aad)`. -/
  encrypt : (key nonce data aad : Bytes) → Bytes
  /-- `AESGCM(key).decrypt(nonce, ciphertext, aad)`. There is none where it raises `InvalidTag`. -/
  decrypt : (key nonce ciphertext aad : Bytes) → Option Bytes
  /-- What was encrypted is decrypted. -/
  decrypt_encrypt : ∀ key nonce data aad, decrypt key nonce (encrypt key nonce data aad) aad = some data
  /-- The tag takes 16 bytes. -/
  length_encrypt : ∀ key nonce data aad, (encrypt key nonce data aad).length = data.length + 16
  /-- `float(numeral) == number`. -/
  floatEquals : Text → Int → Bool
  /-- How deeply JSON values may be nested. -/
  recursionLimit : Nat
  recursionLimit_valid : 2 ≤ recursionLimit

def walletFormat : Text := text "ourcoin-wallet-v1"
def walletAadDomain : Bytes := (text "OURCOIN:WALLET:V1").map UInt8.ofNat
def maxWalletFileBytes : Nat := 65536
def scryptN : Nat := 2 ^ 14
def scryptR : Nat := 8
def scryptP : Nat := 1
def scryptSaltLength : Nat := 16
def aesKeyLength : Nat := 32
def aesNonceLength : Nat := 12

/-- `sys.get_int_max_str_digits()`. -/
def maxStrDigits : Nat := 4300

/-- `WalletError(message)`. -/
def walletError (message : String) : Raised := ⟨.walletError, message⟩

/-- `WALLET_NAME_PATTERN.fullmatch(name)`. -/
def isWalletName (name : Text) : Prop :=
  (1 ≤ name.length ∧ name.length ≤ 64) ∧ ∀ c ∈ name,
    (65 ≤ c ∧ c ≤ 90) ∨ (97 ≤ c ∧ c ≤ 122) ∨ (48 ≤ c ∧ c ≤ 57) ∨ c = 95 ∨ c = 45

instance (name : Text) : Decidable (isWalletName name) := inferInstanceAs (Decidable (_ ∧ _))

/-- The error of every name that is refused. -/
def invalidName : Raised :=
  walletError "wallet name must use 1-64 ASCII letters, digits, '_' or '-'"

/-- `_validate_name(name)`, of a value that may be no text. -/
def validateName : Json.Value → Except Raised Text
  | .string name => do
    raiseIf (¬ isWalletName name) invalidName
    return name
  | _ => throw invalidName

/-- The bytes of a password, which must not be empty. -/
def passwordBytes [Platform] (password : Text) : Except Raised Bytes := do
  raiseIf (password = []) (walletError "wallet password must not be empty")
  encodeUtf8 (Platform.normalizeNfc password)

/-- The key that scrypt derives from a password and a salt. -/
def deriveKey [Platform] [Sealing] (password : Text) (salt : Bytes) : Except Raised Bytes := do
  let password ← passwordBytes password
  return Sealing.scrypt password salt aesKeyLength scryptN scryptR scryptP

/-- What is authenticated with the ciphertext: format, name, network and public key. -/
def walletAad [Platform] (name chainId address : Text) (publicKey : Bytes) :
    Except Raised Bytes := do
  let domain ← encodeBytes walletAadDomain
  let name ← encodeText name
  let chainId ← encodeText chainId
  let address ← encodeText address
  let publicKey ← encodeBytes publicKey
  return domain ++ name ++ chainId ++ address ++ publicKey

/-- `_decode_base64(value, name, expected_length)`, of a value that may be missing. -/
def decodeBase64 (value : Option Json.Value) (name : String) (expectedLength : Option Nat) :
    Except Raised Bytes :=
  match value with
  | some (.string value) => do
    raiseIf (¬ isAscii value) (walletError s!"{name} must be Base64 ASCII text")
    match Base64.decode value with
    | none => throw (walletError s!"{name} is not valid Base64")
    | some decoded => do
      raiseIf (expectedLength.any (· ≠ decoded.length))
        (walletError s!"{name} has an invalid length")
      return decoded
  | _ => throw (walletError s!"{name} must be Base64 ASCII text")

/-- The value of a hexadecimal digit. -/
def hexValue (c : Nat) : Option Nat :=
  if 48 ≤ c ∧ c ≤ 57 then some (c - 48)
  else if 97 ≤ c ∧ c ≤ 102 then some (c - 87)
  else if 65 ≤ c ∧ c ≤ 70 then some (c - 55)
  else none

/-- ASCII whitespace. -/
def isHexSpace (c : Nat) : Prop := c = 32 ∨ (9 ≤ c ∧ c ≤ 13)

instance (c : Nat) : Decidable (isHexSpace c) := inferInstanceAs (Decidable (_ ∨ _))

/-- `bytes.fromhex(value)`: whitespace may stand between bytes. -/
def bytesFromHex : Text → Option Bytes
  | [] => some []
  | c :: rest =>
    if isHexSpace c then bytesFromHex rest
    else match rest with
      | [] => none
      | d :: rest =>
        match hexValue c, hexValue d with
        | some high, some low => (bytesFromHex rest).map (UInt8.ofNat (high * 16 + low) :: ·)
        | _, _ => none

/-- A wallet with its name. -/
structure NamedWallet where
  name : Text
  wallet : Wallet

/-- `Wallet(name, private_key_bytes, network=network)`. -/
def NamedWallet.new [Platform] (name : Text) (privateKeyBytes : Bytes) (network : NetworkConfig) :
    Except Raised NamedWallet := do
  let name ← validateName (.string name)
  return { name, wallet := ← Wallet.new privateKeyBytes network }

/-! ## `save_encrypted` -/

/-- The document of a wallet. -/
def NamedWallet.document (wallet : NamedWallet) (salt nonce ciphertext : Bytes) : Json.Value :=
  .object
    [(text "format", .string walletFormat),
     (text "name", .string wallet.name),
     (text "chain_id", .string wallet.wallet.network.chainId),
     (text "address", .string wallet.wallet.address),
     (text "public_key_hex", .string (hexText wallet.wallet.publicKey)),
     (text "kdf", .object
       [(text "name", .string (text "scrypt")),
        (text "salt_base64", .string (Base64.encode salt)),
        (text "n", .int scryptN),
        (text "r", .int scryptR),
        (text "p", .int scryptP)]),
     (text "cipher", .object
       [(text "name", .string (text "aes-256-gcm")),
        (text "nonce_base64", .string (Base64.encode nonce)),
        (text "ciphertext_base64", .string (Base64.encode ciphertext))])]

/-- The content that `save_encrypted` gives the file. -/
def NamedWallet.encrypted [Platform] [Sealing] (wallet : NamedWallet) (password : Text)
    (salt nonce : Bytes) : Except Raised Bytes := do
  let aad ← walletAad wallet.name wallet.wallet.network.chainId wallet.wallet.address
    wallet.wallet.publicKey
  let key ← deriveKey password salt
  let ciphertext := Sealing.encrypt key nonce wallet.wallet.privateKeyBytes aad
  encodeUtf8 ((wallet.document salt nonce ciphertext).dumps 2 ++ [10])

/-! ## `load_encrypted` -/

/-- The error of a file that is no JSON document. -/
def unreadableFile : Raised := walletError "wallet file cannot be read as valid JSON"

/-- The members of the document. There is no content where the file cannot be read. A document
that is nested too deeply is a `RecursionError`, which is not caught. -/
def readDocument [Sealing] (file : Option Bytes) : Except Raised (List (Text × Json.Value)) :=
  match file with
  | none => throw unreadableFile
  | some content => do
    let encodedDocument := content.take (maxWalletFileBytes + 1)
    raiseIf (encodedDocument.length > maxWalletFileBytes)
      (walletError "wallet file exceeds its size limit")
    match decodeUtf8 encodedDocument with
    | none => throw unreadableFile
    | some rawDocument =>
      match Json.parse maxStrDigits Sealing.recursionLimit rawDocument with
      | .error .invalid => throw unreadableFile
      | .error .tooLong =>
        throw ⟨.valueError, "Exceeds the limit (4300 digits) for integer string conversion"⟩
      | .error .tooDeep => throw ⟨.diverges, "maximum recursion depth exceeded"⟩
      | .ok (.object members) => return members
      | .ok _ => throw (walletError "wallet document must be a JSON object")

/-- `document[field]`. -/
def requiredField (document : List (Text × Json.Value)) (field : String) :
    Except Raised Json.Value :=
  match Dict.lookupItem (text field) document with
  | some value => return value
  | none => throw (walletError "wallet document is missing a required field")

/-- `value == expected`, for a text. -/
def equalsText (value : Option Json.Value) (expected : Text) : Bool :=
  match value with
  | some (.string value) => decide (value = expected)
  | _ => false

/-- `value == expected`, for a number. `True` counts as one. -/
def equalsNumber [Sealing] (value : Option Json.Value) (expected : Int) : Bool :=
  match value with
  | some (.int value) => decide (value = expected)
  | some (.bool truth) => decide ((if truth = true then 1 else 0) = expected)
  | some (.float numeral) => Sealing.floatEquals numeral expected
  | _ => false

/-- What a document says about a wallet. -/
structure WalletMetadata where
  name : Text
  address : Text
  publicKey : Bytes
  salt : Bytes
  nonce : Bytes
  ciphertext : Bytes

/-- The checks of a document. -/
def readMetadata [Sealing] (document : List (Text × Json.Value)) (network : NetworkConfig) :
    Except Raised WalletMetadata := do
  let format ← requiredField document "format"
  let name ← requiredField document "name"
  let chainId ← requiredField document "chain_id"
  let address ← requiredField document "address"
  let publicKeyHex ← requiredField document "public_key_hex"
  let kdf ← requiredField document "kdf"
  let cipher ← requiredField document "cipher"
  raiseIf (¬ equalsText (some format) walletFormat) (walletError "unsupported wallet format")
  let name ← validateName name
  raiseIf (¬ equalsText (some chainId) network.chainId)
    (walletError "wallet belongs to another network")
  match address, publicKeyHex with
  | .string address, .string publicKeyHex =>
    match bytesFromHex publicKeyHex with
    | none => throw (walletError "wallet public key is not valid hexadecimal")
    | some publicKey =>
      match kdf, cipher with
      | .object kdf, .object cipher => do
        raiseIf (¬ (equalsText (Dict.lookupItem (text "name") kdf) (text "scrypt") ∧
            equalsNumber (Dict.lookupItem (text "n") kdf) scryptN ∧
            equalsNumber (Dict.lookupItem (text "r") kdf) scryptR ∧
            equalsNumber (Dict.lookupItem (text "p") kdf) scryptP))
          (walletError "wallet uses unsupported KDF parameters")
        raiseIf (¬ equalsText (Dict.lookupItem (text "name") cipher) (text "aes-256-gcm"))
          (walletError "wallet uses an unsupported cipher")
        let salt ← decodeBase64 (Dict.lookupItem (text "salt_base64") kdf) "wallet salt"
          (some scryptSaltLength)
        let nonce ← decodeBase64 (Dict.lookupItem (text "nonce_base64") cipher)
          "wallet cipher nonce" (some aesNonceLength)
        let ciphertext ← decodeBase64 (Dict.lookupItem (text "ciphertext_base64") cipher)
          "wallet ciphertext" none
        return { name, address, publicKey, salt, nonce, ciphertext }
      | _, _ => throw (walletError "wallet cryptographic metadata must be objects")
  | _, _ => throw (walletError "wallet public metadata has invalid types")

/-- The wallet that the encrypted key belongs to. -/
def WalletMetadata.decrypt [Platform] [Sealing] (metadata : WalletMetadata) (password : Text)
    (network : NetworkConfig) : Except Raised NamedWallet := do
  let aad ← walletAad metadata.name network.chainId metadata.address metadata.publicKey
  let key ← deriveKey password metadata.salt
  match Sealing.decrypt key metadata.nonce metadata.ciphertext aad with
  | none => throw (walletError "wallet password is invalid or the file was modified")
  | some privateKey => do
    let wallet ← NamedWallet.new metadata.name privateKey network
    raiseIf (wallet.wallet.address ≠ metadata.address ∨
        wallet.wallet.publicKey ≠ metadata.publicKey)
      (walletError "wallet public metadata does not match the private key")
    return wallet

/-- `Wallet.load_encrypted(path, password, network=network)`, given the content of the file. -/
def loadEncrypted [Platform] [Sealing] (file : Option Bytes) (password : Text)
    (network : NetworkConfig) : Except Raised NamedWallet := do
  let document ← readDocument file
  let metadata ← readMetadata document network
  metadata.decrypt password network

end OurCoin
