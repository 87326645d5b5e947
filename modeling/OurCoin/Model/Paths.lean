import OurCoin.Library.PurePath
import OurCoin.Model.Platform

/-!
# The place of a database

`database_path_for_identity` of `storage.py`: a directory for each chain ID, and in it one
for each genesis hash.
-/

set_option autoImplicit false

namespace OurCoin

open Raising

/-- `SAFE_CHAIN_ID.fullmatch(value)`, for the pattern `[A-Za-z0-9._-]{1,64}`. -/
def isSafeChainId (value : Text) : Prop :=
  (1 ≤ value.length ∧ value.length ≤ 64) ∧ ∀ c ∈ value,
    (65 ≤ c ∧ c ≤ 90) ∨ (97 ≤ c ∧ c ≤ 122) ∨ (48 ≤ c ∧ c ≤ 57) ∨ c = 46 ∨ c = 95 ∨ c = 45

instance (value : Text) : Decidable (isSafeChainId value) :=
  inferInstanceAs (Decidable (_ ∧ _))

/-- The character of a hexadecimal digit. -/
def hexCharacter (digit : Nat) : Nat := if digit < 10 then 48 + digit else 87 + digit

/-- `data.hex()`. -/
def hexText (data : Bytes) : Text :=
  data.flatMap fun byte => [hexCharacter (byte.toNat / 16), hexCharacter (byte.toNat % 16)]

/-- `DATABASE_FILENAME`. -/
def databaseFilename : Text := text "blockchain.sqlite3"

/-- `StorageError(message)`, raised for an identity that has no place. -/
def identityError (message : String) : Raised := ⟨.storageError, message⟩

/-- The path of the database of a network under a base directory. -/
def databasePathForIdentity (baseDataDir : PurePath) (chainId : Text) (genesisHash : Bytes) :
    Except Raised PurePath := do
  raiseIf (¬ isSafeChainId chainId)
    (identityError "chain_id is not safe for a data-directory name")
  raiseIf (genesisHash.length ≠ 32) (identityError "genesis hash must be exactly 32 bytes")
  return ((baseDataDir.join chainId).join (hexText genesisHash)).join databaseFilename

end OurCoin
