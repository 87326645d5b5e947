import OurCoin.Ledger.Addresses
import OurCoin.Ledger.Failures
import OurCoin.Model.WalletFile
import OurCoin.Storage.Paths
import OurCoin.Wire.Primitives

/-!
# The document of a wallet

What `save_encrypted` writes is read back by `load_encrypted`, as far as the metadata goes.

* `readDocument_document`: the file is a JSON document with the members of the wallet.
* `readMetadata_members`: they pass every check, and give back what was written.
* `walletAad_injective`: the bytes that are authenticated determine the metadata.
-/

set_option autoImplicit false

namespace OurCoin

open Raising

/-! ## Hexadecimal text -/

theorem hexValue_hexCharacter : ∀ digit < 16, hexValue (hexCharacter digit) = some digit := by
  decide

theorem hexCharacter_range : ∀ digit < 16, ¬ isHexSpace (hexCharacter digit) ∧
    hexCharacter digit < 128 := by
  decide

/-- **Bytes are read back from their hexadecimal text.** -/
theorem bytesFromHex_hexText (data : Bytes) : bytesFromHex (hexText data) = some data := by
  induction data with
  | nil => rfl
  | cons byte data ih =>
      have small := byte.toNat_lt
      have text_eq : hexText (byte :: data) = hexCharacter (byte.toNat / 16) ::
          hexCharacter (byte.toNat % 16) :: hexText data := rfl
      rw [text_eq, bytesFromHex, if_neg (hexCharacter_range _ (by omega)).1,
        hexValue_hexCharacter _ (by omega), hexValue_hexCharacter _ (by omega)]
      dsimp only
      rw [ih, Option.map_some, show byte.toNat / 16 * 16 + byte.toNat % 16 = byte.toNat by omega,
        UInt8.ofNat_toNat]

theorem hexText_ascii (data : Bytes) : isAscii (hexText data) := by
  intro c member
  obtain ⟨byte, -, inByte⟩ := List.mem_flatMap.mp member
  have small := byte.toNat_lt
  rcases List.mem_cons.mp inByte with rfl | last
  · exact (hexCharacter_range _ (by omega)).2
  · rw [List.mem_singleton.mp last]
    exact (hexCharacter_range _ (by omega)).2

/-! ## Texts of a wallet -/

theorem isWalletName_ascii {name : Text} (valid : isWalletName name) : isAscii name := by
  intro c member
  have range := valid.2 c member
  omega

theorem base64_ascii (data : Bytes) : isAscii (Base64.encode data) := by
  intro c member
  have range := Base64.encode_range member
  omega

/-- The address of a key is short and ASCII. -/
theorem addressFromPublicKey_shape {publicKey : Bytes} {network : NetworkConfig} {address : Text}
    (made : addressFromPublicKey publicKey network = .ok address) :
    isAscii address ∧ address.length = network.addressHrp.length + 41 ∧
      publicKey.length = publicKeyLength := by
  obtain ⟨hash, hashOk, isText⟩ := addressFromPublicKey_eq_ok.mp made
  obtain ⟨ascii, length⟩ :=
    decodeAddress_shape (decodeAddress_eq_ok.mpr ⟨length_publicKeyHash hashOk, isText⟩)
  refine ⟨ascii, ?_, ?_⟩
  · rw [length, addressPrefix, List.length_append]
    rfl
  · simp only [publicKeyHash, requireBytes, bind_eq_ok, raiseIf_eq_ok, not_not] at hashOk
    obtain ⟨_, keyLength, -⟩ := hashOk
    exact keyLength

variable [Platform]

/-- What a wallet is made of. -/
theorem NamedWallet.new_eq_ok {name : Text} {privateKey : Bytes} {network : NetworkConfig}
    {wallet : NamedWallet} :
    NamedWallet.new name privateKey network = .ok wallet ↔
      isWalletName name ∧ privateKey.length = privateKeyLength ∧ ∃ address,
        addressFromPublicKey (Platform.ed25519PublicKey privateKey) network = .ok address ∧
        wallet = ⟨name, network, privateKey, Platform.ed25519PublicKey privateKey, address⟩ := by
  simp only [NamedWallet.new, validateName, Wallet.new, publicKeyFromPrivate, requireBytes,
    bind_eq_ok, raiseIf_eq_ok, pure_eq_ok, not_not, exists_const]
  constructor
  · rintro ⟨_, ⟨named, rfl⟩, _, ⟨length, _, ⟨-, rfl⟩, address, addressOk, rfl⟩, rfl⟩
    exact ⟨named, length, address, addressOk, rfl⟩
  · rintro ⟨named, length, address, addressOk, rfl⟩
    exact ⟨name, ⟨named, rfl⟩, _, ⟨length, _, ⟨length, rfl⟩, address, addressOk, rfl⟩, rfl⟩

/-- A wallet keeps what it was made with. -/
theorem NamedWallet.new_fields {name : Text} {privateKey : Bytes} {network : NetworkConfig}
    {wallet : NamedWallet} (made : NamedWallet.new name privateKey network = .ok wallet) :
    wallet.name = name ∧ wallet.wallet.privateKeyBytes = privateKey ∧
      wallet.wallet.network = network ∧ isWalletName name ∧ privateKey.length = privateKeyLength := by
  obtain ⟨named, length, address, -, rfl⟩ := NamedWallet.new_eq_ok.mp made
  exact ⟨rfl, rfl, rfl, named, length⟩

/-- What the texts of a wallet have in common. -/
structure NamedWallet.Writable (wallet : NamedWallet) : Prop where
  name_ascii : isAscii wallet.name
  name_length : wallet.name.length ≤ 64
  chainId_ascii : isAscii wallet.wallet.network.chainId
  address_ascii : isAscii wallet.wallet.address
  address_length : wallet.wallet.address.length = wallet.wallet.network.addressHrp.length + 41
  publicKey_length : wallet.wallet.publicKey.length = publicKeyLength
  privateKey_length : wallet.wallet.privateKeyBytes.length = privateKeyLength

theorem NamedWallet.writable {name : Text} {privateKey : Bytes} {network : NetworkConfig}
    {wallet : NamedWallet} (made : NamedWallet.new name privateKey network = .ok wallet) :
    wallet.Writable := by
  obtain ⟨named, length, address, addressOk, rfl⟩ := NamedWallet.new_eq_ok.mp made
  obtain ⟨ascii, addressLength, keyLength⟩ := addressFromPublicKey_shape addressOk
  exact ⟨isWalletName_ascii named, named.1.2, network.chainId_valid.2, ascii, addressLength,
    keyLength, length⟩

/-! ## The document -/

omit [Platform] in
theorem escapable_of_ascii {value : Text} (ascii : isAscii value) : Json.Escapable value :=
  .of_small fun c member => (ascii c member).trans (by decide)

/-- The members of `kdf` in order. -/
def kdfMembers (salt : Bytes) : List (Text × Json.Value) :=
  [(text "n", .int scryptN),
   (text "name", .string (text "scrypt")),
   (text "p", .int scryptP),
   (text "r", .int scryptR),
   (text "salt_base64", .string (Base64.encode salt))]

/-- The members of `cipher` in order. -/
def cipherMembers (nonce ciphertext : Bytes) : List (Text × Json.Value) :=
  [(text "ciphertext_base64", .string (Base64.encode ciphertext)),
   (text "name", .string (text "aes-256-gcm")),
   (text "nonce_base64", .string (Base64.encode nonce))]

/-- The members of the document in order. -/
def NamedWallet.members (wallet : NamedWallet) (salt nonce ciphertext : Bytes) :
    List (Text × Json.Value) :=
  [(text "address", .string wallet.wallet.address),
   (text "chain_id", .string wallet.wallet.network.chainId),
   (text "cipher", .object (cipherMembers nonce ciphertext)),
   (text "format", .string walletFormat),
   (text "kdf", .object (kdfMembers salt)),
   (text "name", .string wallet.name),
   (text "public_key_hex", .string (hexText wallet.wallet.publicKey))]

omit [Platform] in
theorem NamedWallet.document_sorted (wallet : NamedWallet) (salt nonce ciphertext : Bytes) :
    (wallet.document salt nonce ciphertext).sorted = .object (wallet.members salt nonce ciphertext) :=
  rfl

omit [Platform] in
/-- The document can be read back. -/
theorem NamedWallet.Writable.plain {wallet : NamedWallet} (writable : wallet.Writable)
    (salt nonce ciphertext : Bytes) (depth : Nat) :
    (wallet.document salt nonce ciphertext).Plain maxStrDigits (depth + 2) := by
  have key : ∀ literal : String, isAscii (text literal) → Json.Escapable (text literal) :=
    fun _ => escapable_of_ascii
  have string : ∀ {value : Text} (depth : Nat), isAscii value →
      (Json.Value.string value).Plain maxStrDigits depth := by
    intro value depth ascii
    have scalar : (Json.Value.string value).Scalar maxStrDigits := escapable_of_ascii ascii
    exact scalar.plain depth
  have int : ∀ {number : Nat} (depth : Nat), number < 10 ^ 5 →
      (Json.Value.int number).Plain maxStrDigits depth := by
    intro number depth small
    have scalar : (Json.Value.int number).Scalar maxStrDigits :=
      (Decimal.length_write_le small (by decide)).trans (by decide)
    exact scalar.plain depth
  rw [document, Json.Value.Plain]
  constructor
  · change [text "format", text "name", text "chain_id", text "address", text "public_key_hex",
      text "kdf", text "cipher"].Nodup
    decide
  intro member inside
  simp only [List.mem_cons, List.not_mem_nil, or_false] at inside
  rcases inside with rfl | rfl | rfl | rfl | rfl | rfl | rfl
  · exact ⟨key "format" (by decide), string _ (by decide)⟩
  · exact ⟨key "name" (by decide), string _ writable.name_ascii⟩
  · exact ⟨key "chain_id" (by decide), string _ writable.chainId_ascii⟩
  · exact ⟨key "address" (by decide), string _ writable.address_ascii⟩
  · exact ⟨key "public_key_hex" (by decide), string _ (hexText_ascii _)⟩
  · refine ⟨key "kdf" (by decide), ?_⟩
    rw [Json.Value.Plain]
    constructor
    · change [text "name", text "salt_base64", text "n", text "r", text "p"].Nodup
      decide
    intro member inside
    simp only [List.mem_cons, List.not_mem_nil, or_false] at inside
    rcases inside with rfl | rfl | rfl | rfl | rfl
    · exact ⟨key "name" (by decide), string _ (by decide)⟩
    · exact ⟨key "salt_base64" (by decide), string _ (base64_ascii _)⟩
    · exact ⟨key "n" (by decide), int _ (by decide)⟩
    · exact ⟨key "r" (by decide), int _ (by decide)⟩
    · exact ⟨key "p" (by decide), int _ (by decide)⟩
  · refine ⟨key "cipher" (by decide), ?_⟩
    rw [Json.Value.Plain]
    constructor
    · change [text "name", text "nonce_base64", text "ciphertext_base64"].Nodup
      decide
    intro member inside
    simp only [List.mem_cons, List.not_mem_nil, or_false] at inside
    rcases inside with rfl | rfl | rfl
    · exact ⟨key "name" (by decide), string _ (by decide)⟩
    · exact ⟨key "nonce_base64" (by decide), string _ (base64_ascii _)⟩
    · exact ⟨key "ciphertext_base64" (by decide), string _ (base64_ascii _)⟩

omit [Platform] in
/-- How long the document gets. -/
theorem NamedWallet.Writable.length_dumps {wallet : NamedWallet} (writable : wallet.Writable)
    {salt nonce ciphertext : Bytes} (saltLength : salt.length = scryptSaltLength)
    (nonceLength : nonce.length = aesNonceLength) (ciphertextLength : ciphertext.length = 48) :
    ((wallet.document salt nonce ciphertext).dumps 2).length ≤
      3000 + 6 * (wallet.wallet.network.chainId.length + wallet.wallet.network.addressHrp.length) := by
  have fixed : (Json.quote (text "address")).length = 9 ∧ (Json.quote (text "chain_id")).length = 10 ∧
      (Json.quote (text "cipher")).length = 8 ∧ (Json.quote (text "ciphertext_base64")).length = 19 ∧
      (Json.quote (text "name")).length = 6 ∧ (Json.quote (text "aes-256-gcm")).length = 13 ∧
      (Json.quote (text "nonce_base64")).length = 14 ∧ (Json.quote (text "format")).length = 8 ∧
      (Json.quote walletFormat).length = 19 ∧ (Json.quote (text "kdf")).length = 5 ∧
      (Json.quote (text "n")).length = 3 ∧ (Json.quote (text "scrypt")).length = 8 ∧
      (Json.quote (text "p")).length = 3 ∧ (Json.quote (text "r")).length = 3 ∧
      (Json.quote (text "salt_base64")).length = 13 ∧ (Json.quote (text "public_key_hex")).length = 16 := by
    decide
  have number : ∀ {value : Nat}, value < 10 ^ 5 → (Json.writeInt value).length ≤ 5 := by
    intro value small
    rw [Json.writeInt, if_neg (by omega), Int.natAbs_natCast]
    exact Decimal.length_write_le small (by decide)
  have bound : ∀ {value : Text}, isAscii value → (Json.quote value).length ≤ 6 * value.length + 2 :=
    fun ascii => Json.length_quote_le fun c member => (ascii c member).trans (by decide)
  have ofName := bound writable.name_ascii
  have ofChainId := bound writable.chainId_ascii
  have ofAddress := bound writable.address_ascii
  have ofKey := bound (hexText_ascii wallet.wallet.publicKey)
  have ofSalt := bound (base64_ascii salt)
  have ofNonce := bound (base64_ascii nonce)
  have ofCiphertext := bound (base64_ascii ciphertext)
  have n : (Json.writeInt scryptN).length ≤ 5 := number (by decide)
  have r : (Json.writeInt scryptR).length ≤ 5 := number (by decide)
  have p : (Json.writeInt scryptP).length ≤ 5 := number (by decide)
  have short := writable.name_length
  rw [writable.address_length] at ofAddress
  rw [length_hexText, writable.publicKey_length] at ofKey
  rw [Base64.length_encode, saltLength] at ofSalt
  rw [Base64.length_encode, nonceLength] at ofNonce
  rw [Base64.length_encode, ciphertextLength] at ofCiphertext
  rw [Json.Value.dumps, document_sorted, members, kdfMembers, cipherMembers]
  simp only [Json.Value.write, Json.writeMembers, Json.enclose, List.flatMap_cons, List.flatMap_nil, Json.newline,
    List.length_append, List.length_cons, List.length_nil, List.length_replicate, List.append_nil]
  rw [publicKeyLength] at ofKey
  rw [scryptSaltLength] at ofSalt
  rw [aesNonceLength] at ofNonce
  omega
/-! ## Reading the document -/

section Reading

variable [Sealing] {wallet : NamedWallet} {salt nonce ciphertext : Bytes}

omit [Platform] in
/-- **The file of a wallet is read as its members**, unless it is too large. -/
theorem readDocument_document (writable : wallet.Writable) (saltLength : salt.length = scryptSaltLength)
    (nonceLength : nonce.length = aesNonceLength) (ciphertextLength : ciphertext.length = 48)
    (small : wallet.wallet.network.chainId.length + wallet.wallet.network.addressHrp.length ≤ 10000) :
    ∃ file, encodeUtf8 ((wallet.document salt nonce ciphertext).dumps 2 ++ [10]) = .ok file ∧
      readDocument (some file) = .ok (wallet.members salt nonce ciphertext) := by
  obtain ⟨depth, limit⟩ := Nat.exists_eq_add_of_le' Sealing.recursionLimit_valid
  have plain := writable.plain salt nonce ciphertext depth
  have length := writable.length_dumps saltLength nonceLength ciphertextLength
  generalize written : (wallet.document salt nonce ciphertext).dumps 2 = document at length ⊢
  have ascii : isAscii (document ++ [10]) := by
    intro c member
    rcases List.mem_append.mp member with inDocument | last
    · rw [← written] at inDocument
      exact Json.write_ascii plain.sorted c inDocument
    · rw [List.mem_singleton.mp last]
      decide
  have encoded := encodeUtf8_ascii ascii
  refine ⟨_, encoded, ?_⟩
  have whole : (document ++ [10]).length ≤ maxWalletFileBytes := by
    rw [List.length_append, List.length_singleton, maxWalletFileBytes]
    omega
  have parsed : Json.parse maxStrDigits Sealing.recursionLimit (document ++ [10]) =
      .ok (.object (wallet.members salt nonce ciphertext)) := by
    rw [limit, ← written, ← NamedWallet.document_sorted]
    refine Json.parse_dumps plain ?_ rfl
    rintro c head
    cases head
    exact .inr rfl
  rw [readDocument, List.take_of_length_le (by rw [List.length_map]; omega), List.length_map, raiseIf,
    if_neg (not_lt.mpr whole), ok_bind, decodeUtf8_encodeUtf8 encoded]
  simp only [parsed]
  rfl

omit [Platform] in
/-- **The members pass every check.** -/
theorem readMetadata_members (named : isWalletName wallet.name)
    (saltLength : salt.length = scryptSaltLength) (nonceLength : nonce.length = aesNonceLength) :
    readMetadata (wallet.members salt nonce ciphertext) wallet.wallet.network =
      .ok ⟨wallet.name, wallet.wallet.address, wallet.wallet.publicKey, salt, nonce, ciphertext⟩ := by
  have base64 : ∀ {data : Bytes} {name : String} {expected : Option Nat},
      expected.any (· ≠ data.length) = false →
      decodeBase64 (some (.string (Base64.encode data))) name expected = .ok data := by
    intro data name expected fits
    rw [decodeBase64, raiseIf, if_neg (not_not.mpr (base64_ascii data)), ok_bind,
      Base64.decode_encode]
    dsimp only
    rw [fits]
    rfl
  have format : requiredField (wallet.members salt nonce ciphertext) "format" =
    .ok (.string walletFormat) := rfl
  have name : requiredField (wallet.members salt nonce ciphertext) "name" =
    .ok (.string wallet.name) := rfl
  have chainId : requiredField (wallet.members salt nonce ciphertext) "chain_id" =
    .ok (.string wallet.wallet.network.chainId) := rfl
  have address : requiredField (wallet.members salt nonce ciphertext) "address" =
    .ok (.string wallet.wallet.address) := rfl
  have publicKeyHex : requiredField (wallet.members salt nonce ciphertext) "public_key_hex" =
    .ok (.string (hexText wallet.wallet.publicKey)) := rfl
  have kdf : requiredField (wallet.members salt nonce ciphertext) "kdf" =
    .ok (.object (kdfMembers salt)) := rfl
  have cipher : requiredField (wallet.members salt nonce ciphertext) "cipher" =
    .ok (.object (cipherMembers nonce ciphertext)) := rfl
  rw [readMetadata, format, ok_bind, name, ok_bind, chainId, ok_bind, address, ok_bind, publicKeyHex,
    ok_bind, kdf, ok_bind, cipher, ok_bind]
  have isName : validateName (.string wallet.name) = .ok wallet.name := by
    rw [validateName, raiseIf, if_neg (not_not.mpr named)]
    rfl
  have isText : ∀ value : Text, equalsText (some (.string value)) value = true := fun _ =>
    decide_eq_true rfl
  have isNumber : ∀ value : Int, equalsNumber (some (.int value)) value = true := fun _ =>
    decide_eq_true rfl
  have kdfName : Dict.lookupItem (text "name") (kdfMembers salt) =
    some (.string (text "scrypt")) := rfl
  have kdfN : Dict.lookupItem (text "n") (kdfMembers salt) = some (.int scryptN) := rfl
  have kdfR : Dict.lookupItem (text "r") (kdfMembers salt) = some (.int scryptR) := rfl
  have kdfP : Dict.lookupItem (text "p") (kdfMembers salt) = some (.int scryptP) := rfl
  have kdfSalt : Dict.lookupItem (text "salt_base64") (kdfMembers salt) =
    some (.string (Base64.encode salt)) := rfl
  have cipherName : Dict.lookupItem (text "name") (cipherMembers nonce ciphertext) =
    some (.string (text "aes-256-gcm")) := rfl
  have cipherNonce : Dict.lookupItem (text "nonce_base64") (cipherMembers nonce ciphertext) =
    some (.string (Base64.encode nonce)) := rfl
  have cipherText : Dict.lookupItem (text "ciphertext_base64") (cipherMembers nonce ciphertext) =
    some (.string (Base64.encode ciphertext)) := rfl
  have saltOk := @base64 salt "wallet salt" (some scryptSaltLength) (by simp [saltLength])
  have nonceOk := @base64 nonce "wallet cipher nonce" (some aesNonceLength) (by simp [nonceLength])
  have ciphertextOk := @base64 ciphertext "wallet ciphertext" none rfl
  simp only [isText, isName, bytesFromHex_hexText, kdfName, kdfN, kdfR, kdfP, kdfSalt, cipherName,
    cipherNonce, cipherText, isNumber, raiseIf, not_true_eq_false, if_false, and_self, ok_bind,
    saltOk, nonceOk, ciphertextOk]
  rfl

end Reading

/-! ## What is authenticated -/

/-- The metadata of a wallet can be authenticated. -/
theorem NamedWallet.Writable.exists_walletAad {wallet : NamedWallet} (writable : wallet.Writable)
    (small : wallet.wallet.network.chainId.length + wallet.wallet.network.addressHrp.length ≤ 10000) :
    ∃ aad, walletAad wallet.name wallet.wallet.network.chainId wallet.wallet.address
      wallet.wallet.publicKey = .ok aad := by
  have short : ∀ {length : Nat}, length ≤ 10041 → (length : Int) ≤ u32Max := by
    intro length bound
    rw [u32Max]
    omega
  obtain ⟨domain, domainOk⟩ : ∃ written, encodeBytes walletAadDomain = .ok written :=
    exists_encodeBytes (by decide)
  obtain ⟨name, nameOk⟩ := exists_encodeText_ascii writable.name_ascii
    (short (writable.name_length.trans (by decide)))
  obtain ⟨chainId, chainOk⟩ := exists_encodeText_ascii writable.chainId_ascii (short (by omega))
  obtain ⟨address, addressOk⟩ := exists_encodeText_ascii writable.address_ascii
    (short (by rw [writable.address_length]; omega))
  obtain ⟨publicKey, keyOk⟩ : ∃ written, encodeBytes wallet.wallet.publicKey = .ok written :=
    exists_encodeBytes (short (by rw [writable.publicKey_length]; decide))
  rw [walletAad, domainOk, ok_bind, nameOk, ok_bind, chainOk, ok_bind, addressOk, ok_bind, keyOk,
    ok_bind]
  exact ⟨_, rfl⟩

end OurCoin
