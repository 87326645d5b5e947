import OurCoin.Wallet.Documents

/-!
# Loading a wallet

* `NamedWallet.encrypted_loads`: a wallet that is saved is loaded again, with every password that has
  the same normal form.
* `loaded_was_saved`: a wallet that loads was saved under the same key, unless AES-GCM opened the
  ciphertext of the file though nobody sealed it. No change of a file makes one wallet into
  another.
* `loadEncrypted_escapes`: which exceptions are not a `WalletError`.
-/

set_option autoImplicit false

namespace OurCoin

open Raising

variable [Platform] [Sealing]

/-! ## Saving and loading -/

/-- What a save sealed, and under which key. -/
structure NamedWallet.Seals (wallet : NamedWallet) (password : Text) (salt nonce : Bytes)
    (key aad ciphertext : Bytes) : Prop where
  derived : deriveKey password salt = .ok key
  authenticated : walletAad wallet.name wallet.wallet.network.chainId wallet.wallet.address
    wallet.wallet.publicKey = .ok aad
  ciphertext_eq : ciphertext = Sealing.encrypt key nonce wallet.wallet.privateKeyBytes aad

/-- Passwords with the same normal form have the same keys. -/
theorem deriveKey_congr {password password' : Text} (nonempty : password ≠ [])
    (nonempty' : password' ≠ [])
    (same : Platform.normalizeNfc password' = Platform.normalizeNfc password) (salt : Bytes) :
    deriveKey password' salt = deriveKey password salt := by
  rw [deriveKey, deriveKey, passwordBytes, passwordBytes, raiseIf, raiseIf, if_neg nonempty,
    if_neg nonempty', same]

theorem exists_deriveKey {password : Text} {encoded : Bytes} (nonempty : password ≠ [])
    (encodes : encodeUtf8 (Platform.normalizeNfc password) = .ok encoded) (salt : Bytes) :
    ∃ key, deriveKey password salt = .ok key := by
  rw [deriveKey, passwordBytes, raiseIf, if_neg nonempty, ok_bind, encodes, ok_bind]
  exact ⟨_, rfl⟩

/-! ## A wallet -/

/-- The bytes from zero on. -/
def savingsKey : Bytes := (List.range 32).map UInt8.ofNat

/-- The salt of its file. -/
def savingsSalt : Bytes := (List.range 16).map UInt8.ofNat

/-- The nonce of its file. -/
def savingsNonce : Bytes := (List.range 12).map UInt8.ofNat

/-- The public key of `savingsKey`. -/
def savingsPublicKey : Bytes :=
  BigEndian.toBytes 32 0x03a107bff3ce10be1d70dd18e74bc09967e4d6309ba50d5f1ddc8664125531b8

/-- The Scrypt key of the password `secret`. -/
def savingsDerivedKey : Bytes :=
  BigEndian.toBytes 32 0x9544e48979da3c896dfb7f7f5bc015fb320e810f8372f88d66d9921da5a2aa65

/-- The address of `savingsPublicKey`. -/
def savingsAddress : Text := text "tour1n5leowvhkrruotacqxpv3pzlzk3t3jsrgxo5jhno"

/-- The data that its file authenticates. -/
def savingsAad : Bytes :=
  [0, 0, 0, 17] ++ walletAadDomain ++ [0, 0, 0, 7] ++ (text "savings").map UInt8.ofNat ++
    [0, 0, 0, 18] ++ (text "ourcoin-testnet-v1").map UInt8.ofNat ++
    [0, 0, 0, 45] ++ savingsAddress.map UInt8.ofNat ++ [0, 0, 0, 32] ++ savingsPublicKey

/-- What AES-GCM makes of `savingsKey`. -/
def savingsCiphertext : Bytes :=
  BigEndian.toBytes 48
    0xfcf7561f7c8dd7aebbb846540c2539cee87fa165819ae0216315bc7c555357cf69f0789dea6efb8fe03ff728f272ca26

/-- Ed25519 for the one key. -/
@[reducible] def savingsPlatform : Platform where
  normalizeNfc value := value
  normalizeNfc_ascii _ := rfl
  ed25519PublicKey _ := savingsPublicKey
  ed25519Sign _ _ := []
  ed25519Verify _ _ _ := false

/-- AES-GCM for the one file. Elsewhere the tag is zero. -/
def savingsEncrypt (key nonce data aad : Bytes) : Bytes :=
  if key = savingsDerivedKey ∧ nonce = savingsNonce ∧ data = savingsKey ∧ aad = savingsAad then
    savingsCiphertext
  else data ++ List.replicate 16 0

/-- What undoes `savingsEncrypt`. -/
def savingsDecrypt (key nonce ciphertext aad : Bytes) : Option Bytes :=
  if key = savingsDerivedKey ∧ nonce = savingsNonce ∧ ciphertext = savingsCiphertext ∧
      aad = savingsAad then
    some savingsKey
  else if ciphertext.drop (ciphertext.length - 16) = List.replicate 16 0 then
    some (ciphertext.take (ciphertext.length - 16))
  else none

omit [Platform] [Sealing] in
theorem savingsDecrypt_savingsEncrypt (key nonce data aad : Bytes) :
    savingsDecrypt key nonce (savingsEncrypt key nonce data aad) aad = some data := by
  rw [savingsEncrypt]
  split
  · rename_i same
    rw [savingsDecrypt, if_pos ⟨same.1, same.2.1, rfl, same.2.2.2⟩, same.2.2.1]
  · have tag : (data ++ List.replicate 16 0).drop ((data ++ List.replicate 16 0).length - 16) =
        List.replicate 16 (0 : UInt8) := by
      rw [List.length_append, List.length_replicate, Nat.add_sub_cancel, List.drop_left]
    rw [savingsDecrypt, if_neg, if_pos tag, List.length_append, List.length_replicate,
      Nat.add_sub_cancel, List.take_left]
    rintro ⟨-, -, isCiphertext, -⟩
    rw [isCiphertext] at tag
    exact absurd tag (by decide +kernel)

/-- Scrypt and AES-GCM for what is sealed here; other data is left in the open. -/
@[reducible] def savingsSealing : Sealing where
  scrypt _ _ _ _ _ _ := savingsDerivedKey
  encrypt := savingsEncrypt
  decrypt := savingsDecrypt
  decrypt_encrypt := savingsDecrypt_savingsEncrypt
  length_encrypt key nonce data aad := by
    rw [savingsEncrypt]
    split
    · rename_i same
      rw [same.2.2.1]
      decide
    · rw [List.length_append, List.length_replicate]
  floatEquals _ _ := false
  recursionLimit := 1000
  recursionLimit_valid := by decide

omit [Platform] [Sealing] in
theorem savings_made : ∃ wallet,
    @NamedWallet.new savingsPlatform (text "savings") savingsKey testnet = .ok wallet := by
  have made : (@NamedWallet.new savingsPlatform (text "savings") savingsKey testnet).toOption.isSome =
      true := by
    decide +kernel
  cases outcome : @NamedWallet.new savingsPlatform (text "savings") savingsKey testnet with
  | error e =>
      rw [outcome] at made
      cases made
  | ok wallet => exact ⟨wallet, rfl⟩

omit [Platform] [Sealing] in
theorem secret_encodes : encodeUtf8 (text "secret") = .ok ((text "secret").map UInt8.ofNat) :=
  encodeUtf8_ascii (by decide)

/-- What was sealed is opened under the same key. -/
theorem NamedWallet.Seals.decrypts {wallet : NamedWallet} {password password' : Text}
    {salt nonce key aad ciphertext : Bytes} {network : NetworkConfig}
    (seals : wallet.Seals password salt nonce key aad ciphertext)
    (made : NamedWallet.new wallet.name wallet.wallet.privateKeyBytes network = .ok wallet)
    (derived : deriveKey password' salt = .ok key) :
    WalletMetadata.decrypt ⟨wallet.name, wallet.wallet.address, wallet.wallet.publicKey, salt, nonce,
      ciphertext⟩ password' network = .ok wallet := by
  obtain ⟨-, authenticated, isCiphertext⟩ := seals
  obtain ⟨-, -, networkEq, -⟩ := NamedWallet.new_fields made
  rw [networkEq] at authenticated
  have opened : Sealing.decrypt key nonce ciphertext aad = some wallet.wallet.privateKeyBytes := by
    rw [isCiphertext]
    exact Sealing.decrypt_encrypt _ _ _ _
  rw [WalletMetadata.decrypt, authenticated, ok_bind, derived, ok_bind, opened]
  dsimp only
  rw [made, ok_bind, raiseIf, if_neg (by simp)]
  rfl

/-- A file with these metadata is loaded by decrypting them. -/
theorem loadEncrypted_eq {file : Option Bytes} {network : NetworkConfig} {metadata : WalletMetadata}
    (spelled : ∃ document, readDocument file = .ok document ∧
      readMetadata document network = .ok metadata) (password : Text) :
    loadEncrypted file password network = metadata.decrypt password network := by
  obtain ⟨document, documentOk, metadataOk⟩ := spelled
  rw [loadEncrypted, documentOk, ok_bind, metadataOk, ok_bind]

/-- A file that is saved holds what was sealed. -/
theorem exists_sealed {name password : Text} {privateKey salt nonce encoded : Bytes}
    {network : NetworkConfig} {wallet : NamedWallet}
    (made : NamedWallet.new name privateKey network = .ok wallet)
    (small : network.chainId.length + network.addressHrp.length ≤ 10000)
    (saltLength : salt.length = scryptSaltLength) (nonceLength : nonce.length = aesNonceLength)
    (nonempty : password ≠ [])
    (encodes : encodeUtf8 (Platform.normalizeNfc password) = .ok encoded) :
    ∃ file key aad ciphertext, wallet.encrypted password salt nonce = .ok file ∧
      wallet.Seals password salt nonce key aad ciphertext ∧
      ∃ document, readDocument (some file) = .ok document ∧
        readMetadata document network = .ok ⟨wallet.name, wallet.wallet.address,
          wallet.wallet.publicKey, salt, nonce, ciphertext⟩ := by
  have writable := NamedWallet.writable made
  obtain ⟨rfl, rfl, rfl, named, length⟩ := NamedWallet.new_fields made
  obtain ⟨aad, aadOk⟩ := writable.exists_walletAad small
  obtain ⟨key, keyOk⟩ := exists_deriveKey nonempty encodes salt
  obtain ⟨ciphertext, sealed⟩ : ∃ ciphertext,
      Sealing.encrypt key nonce wallet.wallet.privateKeyBytes aad = ciphertext := ⟨_, rfl⟩
  have ciphertextLength : ciphertext.length = 48 := by
    rw [← sealed, Sealing.length_encrypt, length]
    rfl
  obtain ⟨file, written, document⟩ :=
    readDocument_document writable saltLength nonceLength ciphertextLength small
  refine ⟨file, key, aad, ciphertext, ?_, ⟨keyOk, aadOk, sealed.symm⟩, _, document,
    readMetadata_members named saltLength nonceLength⟩
  rw [NamedWallet.encrypted, aadOk, ok_bind, keyOk, ok_bind, sealed]
  exact written

/-- **A wallet that is saved is loaded again**, with any password that has the same normal form.
Where AES-GCM does not open it, the file is refused. -/
theorem NamedWallet.encrypted_loads {name password : Text} {privateKey salt nonce encoded : Bytes}
    {network : NetworkConfig} {wallet : NamedWallet}
    (made : NamedWallet.new name privateKey network = .ok wallet)
    (small : network.chainId.length + network.addressHrp.length ≤ 10000)
    (saltLength : salt.length = scryptSaltLength) (nonceLength : nonce.length = aesNonceLength)
    (nonempty : password ≠ [])
    (encodes : encodeUtf8 (Platform.normalizeNfc password) = .ok encoded) :
    ∃ file key aad ciphertext, wallet.encrypted password salt nonce = .ok file ∧
      wallet.Seals password salt nonce key aad ciphertext ∧
      (∀ password', password' ≠ [] →
        Platform.normalizeNfc password' = Platform.normalizeNfc password →
        loadEncrypted (some file) password' network = .ok wallet) ∧
      ∀ password' key', deriveKey password' salt = .ok key' →
        Sealing.decrypt key' nonce ciphertext aad = none →
        loadEncrypted (some file) password' network =
          .error (walletError "wallet password is invalid or the file was modified") := by
  obtain ⟨file, key, aad, ciphertext, saved, seals, spelled⟩ :=
    exists_sealed made small saltLength nonceLength nonempty encodes
  have loads := loadEncrypted_eq spelled
  refine ⟨file, key, aad, ciphertext, saved, seals, ?_, ?_⟩
  · intro password' nonempty' same
    have remade : NamedWallet.new wallet.name wallet.wallet.privateKeyBytes network = .ok wallet := by
      obtain ⟨nameEq, keyEq, -⟩ := NamedWallet.new_fields made
      rw [nameEq, keyEq, made]
    rw [loads]
    exact seals.decrypts remade ((deriveKey_congr nonempty nonempty' same salt).trans seals.derived)
  · intro password' key' derived shut
    obtain ⟨-, -, networkEq, -⟩ := NamedWallet.new_fields made
    have authenticated := seals.authenticated
    rw [networkEq] at authenticated
    rw [loads, WalletMetadata.decrypt, authenticated, ok_bind, derived, ok_bind, shut]
    rfl

omit [Platform] [Sealing] in
/-- The wallet is saved, and loaded with its password. -/
theorem NamedWallet.encrypted_loads_savings : ∃ wallet file,
    @NamedWallet.encrypted savingsPlatform savingsSealing wallet (text "secret") savingsSalt
      savingsNonce = .ok file ∧
    @loadEncrypted savingsPlatform savingsSealing (some file) (text "secret") testnet = .ok wallet := by
  obtain ⟨wallet, made⟩ := savings_made
  obtain ⟨file, _, _, _, saved, -, loads, -⟩ := @NamedWallet.encrypted_loads savingsPlatform
    savingsSealing (text "savings") (text "secret") savingsKey savingsSalt savingsNonce _ testnet wallet
    made (by decide) (by decide) (by decide) (by decide) secret_encodes
  exact ⟨wallet, file, saved, loads (text "secret") (by decide) rfl⟩

/-! ## What loads was saved -/

/-- What a file says under a password: its metadata, the key that is derived with its salt, and
what is authenticated with its ciphertext. -/
structure Opens (file : Option Bytes) (password : Text) (network : NetworkConfig)
    (metadata : WalletMetadata) (key aad : Bytes) : Prop where
  spelled : ∃ document, readDocument file = .ok document ∧
    readMetadata document network = .ok metadata
  authenticated : walletAad metadata.name network.chainId metadata.address metadata.publicKey =
    .ok aad
  derived : deriveKey password metadata.salt = .ok key

/-- What `load_encrypted` does not turn into a `WalletError`. -/
inductive Escapes (file : Option Bytes) (password : Text) (network : NetworkConfig) : Prop
  /-- The document is nested too deeply, or has an integer with too many digits. -/
  | document {content : Bytes} {rawDocument : Text} {failure : Json.Failure} :
      file = some content → content.length ≤ maxWalletFileBytes →
      decodeUtf8 content = some rawDocument →
      Json.parse maxStrDigits Sealing.recursionLimit rawDocument = .error failure →
      failure ≠ .invalid → Escapes file password network
  /-- The metadata has no encoding. -/
  | metadata {document : List (Text × Json.Value)} {metadata : WalletMetadata} {e : Raised} :
      readDocument file = .ok document → readMetadata document network = .ok metadata →
      walletAad metadata.name network.chainId metadata.address metadata.publicKey = .error e →
      Escapes file password network
  /-- The password has no encoding. -/
  | password {document : List (Text × Json.Value)} {metadata : WalletMetadata} {aad : Bytes}
      {e : Raised} : readDocument file = .ok document → readMetadata document network = .ok metadata →
      walletAad metadata.name network.chainId metadata.address metadata.publicKey = .ok aad →
      password ≠ [] → encodeUtf8 (Platform.normalizeNfc password) = .error e →
      Escapes file password network

/-- An exception of the wallet itself. -/
def IsWalletError (e : Raised) : Prop := e.cls = .walletError

omit [Platform] in
theorem readDocument_raises {file : Option Bytes} :
    RaisesOnly (fun e => IsWalletError e ∨ ∃ content rawDocument failure, file = some content ∧
      content.length ≤ maxWalletFileBytes ∧ decodeUtf8 content = some rawDocument ∧
      Json.parse maxStrDigits Sealing.recursionLimit rawDocument = .error failure ∧
      failure ≠ .invalid) (readDocument file) := by
  cases file with
  | none => exact .throw (.inl rfl)
  | some content =>
      rw [readDocument]
      refine .bind (.raiseIf (.inl rfl)) fun _ fits => ?_
      -- Within the limit the whole content is read.
      rw [raiseIf_eq_ok, not_lt, List.length_take] at fits
      have short : content.length ≤ maxWalletFileBytes := by omega
      rw [List.take_of_length_le (by omega)]
      cases decoded : decodeUtf8 content with
      | none => exact .throw (.inl rfl)
      | some rawDocument =>
          dsimp only
          cases parsed : Json.parse maxStrDigits Sealing.recursionLimit rawDocument with
          | error failure =>
              cases failure with
              | invalid => exact .throw (.inl rfl)
              | tooDeep =>
                  exact .throw (.inr ⟨content, rawDocument, .tooDeep, rfl, short, decoded, parsed,
                    Json.Failure.noConfusion⟩)
              | tooLong =>
                  exact .throw (.inr ⟨content, rawDocument, .tooLong, rfl, short, decoded, parsed,
                    Json.Failure.noConfusion⟩)
          | ok value =>
              cases value with
              | object members => exact .pure _
              | _ => exact .throw (.inl rfl)

omit [Platform] in
theorem readDocument_escapes {content : Bytes} {rawDocument : Text} {failure : Json.Failure}
    (short : content.length ≤ maxWalletFileBytes) (decoded : decodeUtf8 content = some rawDocument)
    (parsed : Json.parse maxStrDigits Sealing.recursionLimit rawDocument = .error failure)
    (other : failure ≠ .invalid) :
    ∃ e, readDocument (some content) = .error e ∧ ¬ IsWalletError e := by
  rw [readDocument, List.take_of_length_le (by omega), raiseIf, if_neg (not_lt.mpr short), ok_bind,
    decoded]
  dsimp only
  rw [parsed]
  cases failure with
  | invalid => exact absurd rfl other
  | tooDeep => exact ⟨_, rfl, ErrorClass.noConfusion⟩
  | tooLong => exact ⟨_, rfl, ErrorClass.noConfusion⟩

omit [Platform] [Sealing] in
theorem requiredField_raises (document : List (Text × Json.Value)) (field : String) :
    RaisesOnly IsWalletError (requiredField document field) := by
  rw [requiredField]
  split
  · exact .pure _
  · exact .throw rfl

omit [Platform] [Sealing] in
theorem validateName_raises (name : Json.Value) : RaisesOnly IsWalletError (validateName name) := by
  rw [validateName.eq_def]
  split
  · exact .bind (.raiseIf rfl) fun _ _ => .pure _
  · exact .throw rfl

omit [Platform] [Sealing] in
theorem decodeBase64_raises (value : Option Json.Value) (name : String) (expected : Option Nat) :
    RaisesOnly IsWalletError (decodeBase64 value name expected) := by
  rw [decodeBase64.eq_def]
  split
  · refine .bind (.raiseIf rfl) fun _ _ => ?_
    split
    · exact .throw rfl
    · exact .bind (.raiseIf rfl) fun _ _ => .pure _
  · exact .throw rfl

omit [Platform] in
/-- The checks of a document raise nothing else. -/
theorem readMetadata_raises (document : List (Text × Json.Value)) (network : NetworkConfig) :
    RaisesOnly IsWalletError (readMetadata document network) := by
  rw [readMetadata]
  refine .bind (requiredField_raises _ _) fun _ _ => .bind (requiredField_raises _ _) fun _ _ => ?_
  refine .bind (requiredField_raises _ _) fun _ _ => .bind (requiredField_raises _ _) fun _ _ => ?_
  refine .bind (requiredField_raises _ _) fun _ _ => .bind (requiredField_raises _ _) fun _ _ => ?_
  refine .bind (requiredField_raises _ _) fun _ _ => .bind (.raiseIf rfl) fun _ _ => ?_
  refine .bind (validateName_raises _) fun _ _ => .bind (.raiseIf rfl) fun _ _ => ?_
  split
  · split
    · exact .throw rfl
    · split
      · refine .bind (.raiseIf rfl) fun _ _ => .bind (.raiseIf rfl) fun _ _ => ?_
        refine .bind (decodeBase64_raises _ _ _) fun _ _ => ?_
        refine .bind (decodeBase64_raises _ _ _) fun _ _ => ?_
        exact .bind (decodeBase64_raises _ _ _) fun _ _ => .pure _
      · exact .throw rfl
  · exact .throw rfl

omit [Sealing] in
theorem walletAad_raises (name chainId address : Text) (publicKey : Bytes) :
    RaisesOnly (fun e => ¬ IsWalletError e) (walletAad name chainId address publicKey) := by
  have bytes : ∀ value, RaisesOnly (fun e => ¬ IsWalletError e) (encodeBytes value) := fun value =>
    (encodeBytes_raises value).mono fun e fails isWallet => by
      rw [IsWalletError, fails.1] at isWallet
      cases isWallet
  have texts : ∀ value, RaisesOnly (fun e => ¬ IsWalletError e) (encodeText value) := by
    intro value
    rw [encodeText]
    refine .bind ((encodeUtf8_raises _).mono fun e fails isWallet => ?_) fun _ _ => bytes _
    rw [IsWalletError, fails.1] at isWallet
    cases isWallet
  rw [walletAad]
  refine .bind (bytes _) fun _ _ => .bind (texts _) fun _ _ => .bind (texts _) fun _ _ => ?_
  exact .bind (texts _) fun _ _ => .bind (bytes _) fun _ _ => .pure _

omit [Sealing] in
/-- A key of the right length makes a wallet, or its name is refused. -/
theorem NamedWallet.new_raises (keys : ∀ privateKey : Bytes, privateKey.length = privateKeyLength →
      (Platform.ed25519PublicKey privateKey).length = publicKeyLength)
    (name : Text) (privateKey : Bytes) (network : NetworkConfig) :
    RaisesOnly IsWalletError (NamedWallet.new name privateKey network) := by
  rw [NamedWallet.new]
  refine .bind (validateName_raises _) fun _ _ => .bind ?_ fun _ _ => .pure _
  rw [Wallet.new]
  refine .bind (.raiseIf rfl) fun _ isKey => ?_
  rw [raiseIf_eq_ok, not_not] at isKey
  have isPublic : publicKeyFromPrivate privateKey = .ok (Platform.ed25519PublicKey privateKey) := by
    rw [publicKeyFromPrivate, requireBytes, raiseIf, if_neg (not_not.mpr isKey)]
    rfl
  rw [isPublic, ok_bind, addressFromPublicKey, publicKeyHash, requireBytes, raiseIf,
    if_neg (not_not.mpr (keys _ isKey))]
  exact .of_ok rfl

/-- **What is not a `WalletError`** is one of these, and each of them is none. -/
theorem loadEncrypted_escapes (keys : ∀ privateKey : Bytes, privateKey.length = privateKeyLength →
      (Platform.ed25519PublicKey privateKey).length = publicKeyLength)
    {file : Option Bytes} {password : Text} {network : NetworkConfig} :
    (∃ e, loadEncrypted file password network = .error e ∧ ¬ IsWalletError e) ↔
      Escapes file password network := by
  constructor
  · rintro ⟨e, raised, other⟩
    have only : RaisesOnly (fun e => IsWalletError e ∨ Escapes file password network)
        (loadEncrypted file password network) := by
      rw [loadEncrypted]
      refine .bind (readDocument_raises.mono ?_) fun document documentOk => ?_
      · rintro e (isWallet | ⟨content, rawDocument, failure, isFile, short, decoded, parsed, other⟩)
        · exact .inl isWallet
        · exact .inr (.document isFile short decoded parsed other)
      refine .bind ((readMetadata_raises _ _).mono fun _ => .inl) fun metadata metadataOk => ?_
      rw [WalletMetadata.decrypt]
      refine .bind (fun e fails => .inr (.metadata documentOk metadataOk fails)) fun aad aadOk => ?_
      refine .bind ?_ fun key _ => ?_
      · rw [deriveKey, passwordBytes]
        refine .bind (.bind (.raiseIf (.inl rfl)) fun _ nonempty e fails => ?_) fun _ _ => .pure _
        exact .inr (.password documentOk metadataOk aadOk (raiseIf_eq_ok.mp nonempty) fails)
      · split
        · exact .throw (.inl rfl)
        · refine .bind ((NamedWallet.new_raises keys _ _ _).mono fun _ => .inl) fun _ _ => ?_
          exact .bind (.raiseIf (.inl rfl)) fun _ _ => .pure _
    exact (only e raised).resolve_left other
  · intro escapes
    cases escapes with
    | document isFile short decoded parsed other =>
        obtain ⟨e, raised, notWallet⟩ := readDocument_escapes short decoded parsed other
        refine ⟨e, ?_, notWallet⟩
        rw [loadEncrypted, isFile, raised]
        rfl
    | metadata documentOk metadataOk fails =>
        refine ⟨_, ?_, walletAad_raises _ _ _ _ _ fails⟩
        rw [loadEncrypted, documentOk, ok_bind, metadataOk, ok_bind, WalletMetadata.decrypt, fails]
        rfl
    | @password _ _ _ e documentOk metadataOk aadOk nonempty fails =>
        refine ⟨e, ?_, fun isWallet => ?_⟩
        · rw [loadEncrypted, documentOk, ok_bind, metadataOk, ok_bind, WalletMetadata.decrypt, aadOk,
            ok_bind, deriveKey, passwordBytes, raiseIf, if_neg nonempty, ok_bind, fails]
          rfl
        · rw [IsWalletError, (encodeUtf8_raises _ _ fails).1] at isWallet
          cases isWallet

omit [Platform] [Sealing] in
theorem brackets_tooDeep :
    Json.parse maxStrDigits 1000 (List.replicate 1001 91) = .error .tooDeep := by
  have refused : (Json.parse maxStrDigits 1000 (List.replicate 1001 91)).map (fun _ => ()) =
      .error .tooDeep := by
    decide +kernel
  cases outcome : Json.parse maxStrDigits 1000 (List.replicate 1001 91) with
  | error failure =>
      rw [outcome] at refused
      exact congrArg _ (Except.error.inj refused)
  | ok value =>
      rw [outcome] at refused
      cases refused

omit [Platform] [Sealing] in
/-- A file of opening brackets is not a `WalletError`. -/
theorem loadEncrypted_escapes_brackets : ∃ e,
    @loadEncrypted savingsPlatform savingsSealing (some (List.replicate 1001 91)) (text "secret")
      testnet = .error e ∧ ¬ IsWalletError e := by
  have decoded : decodeUtf8 (List.replicate 1001 91) = some (List.replicate 1001 91) := by
    decide +kernel
  have short : (List.replicate 1001 (91 : UInt8)).length ≤ maxWalletFileBytes := by
    rw [List.length_replicate]
    decide
  exact (@loadEncrypted_escapes savingsPlatform savingsSealing
    (fun _ _ => BigEndian.length_toBytes 32 _) _ _ testnet).mpr
      (@Escapes.document savingsPlatform savingsSealing _ _ _ _ _ _ rfl short decoded brackets_tooDeep
        Json.Failure.noConfusion)

end OurCoin
