import OurCoin.Library.BigEndian
import OurCoin.Library.Raising

/-!
# What the program runs on

The Python values the program is made of that Lean does not have itself, and the
third-party functions it calls.

* `Text` is `str`: a sequence of code points, lone surrogates included.
* `Raised` is an exception: its class and its message. All classes are subclasses
  of `ValueError`, except the storage, mining and SQLite errors (`RuntimeError` and
  `sqlite3.Error`), `ConnectionError` and `KeyError`. `Raised.diverges` is not an exception: it marks
  a loop that did not end within the bound its model gives it.
* `Platform` holds the two things that are not part of this repository: NFC
  normalization, which leaves ASCII text alone, and Ed25519.
-/

set_option autoImplicit false

namespace OurCoin

/-! ## Text -/

/-- A Python `str` as its code points. -/
abbrev Text : Type := List Nat

instance : LawfulBEq Text := inferInstance

/-- A text literal. -/
def text (literal : String) : Text := literal.toList.map Char.toNat

/-- `value.isascii()`. -/
def isAscii (value : Text) : Prop := ∀ c ∈ value, c < 128

instance (value : Text) : Decidable (isAscii value) :=
  inferInstanceAs (Decidable (∀ c ∈ value, c < 128))

/-- `value.lower()` on ASCII text. -/
def lowerAscii (value : Text) : Text :=
  value.map fun c => if 65 ≤ c ∧ c ≤ 90 then c + 32 else c

/-- `value.upper()` on ASCII text. -/
def upperAscii (value : Text) : Text :=
  value.map fun c => if 97 ≤ c ∧ c ≤ 122 then c - 32 else c

/-! ## Exceptions -/

/-- The exception classes of the program. -/
inductive ErrorClass where
  | unicodeError
  | keyError
  | binasciiError
  | encodingError
  | cryptoError
  | addressError
  | merkleError
  | accountError
  | transactionError
  | blockEncodingError
  | stateError
  | blockError
  | chainError
  | mempoolError
  | walletError
  | nodeError
  | miningError
  | storageError
  | storageClosedError
  | storageIntegrityError
  | networkMismatchError
  | blockNotFoundError
  | unsupportedSchemaVersionError
  | sqliteError
  | protocolError
  | unsupportedProtocolVersionError
  | peerDisconnectedError
  | peerFrameTimeoutError
  | connectionError
  | p2pError
  | localTestnetOnlyError
  | peerLimitError
  | cliError
  | valueError
  | diverges
  deriving DecidableEq

/-- A raised exception. -/
structure Raised where
  cls : ErrorClass
  message : String
  deriving DecidableEq

namespace ErrorClass

/-- `issubclass(cls, ValueError)`. -/
def isValueError : ErrorClass → Bool
  | keyError | miningError | storageError | storageClosedError | storageIntegrityError
  | networkMismatchError | blockNotFoundError | unsupportedSchemaVersionError | sqliteError
  | connectionError | p2pError | localTestnetOnlyError | peerLimitError | diverges => false
  | _ => true

end ErrorClass

/-- `except classes as error: raise cls(message) from error`, everything else passing
through. -/
def reraiseAs (caught : ErrorClass → Bool) (cls : ErrorClass) (message : String) (e : Raised) :
    Raised :=
  if caught e.cls then ⟨cls, message⟩ else e

/-- `except classes as error: raise cls(str(error)) from error`. -/
def reraiseSame (caught : ErrorClass → Bool) (cls : ErrorClass) (e : Raised) : Raised :=
  if caught e.cls then ⟨cls, e.message⟩ else e

/-! ## Third-party functions -/

/-- `unicodedata.normalize("NFC", ·)`, which does not change ASCII text, and Ed25519 as
the `cryptography` package exposes it. -/
class Platform where
  normalizeNfc : Text → Text
  normalizeNfc_ascii : ∀ {value : Text}, isAscii value → normalizeNfc value = value
  ed25519PublicKey : Bytes → Bytes
  ed25519Sign : Bytes → Bytes → Bytes
  ed25519Verify : Bytes → Bytes → Bytes → Bool

/-- A platform for evaluations: text is in normal form as it is, and no signature
verifies. -/
@[reducible] def asciiPlatform : Platform where
  normalizeNfc value := value
  normalizeNfc_ascii _ := rfl
  ed25519PublicKey _ := []
  ed25519Sign _ _ := []
  ed25519Verify _ _ _ := false

/-- A platform for evaluations on which every signature of the right length verifies. -/
@[reducible] def trustingPlatform : Platform where
  normalizeNfc value := value
  normalizeNfc_ascii _ := rfl
  ed25519PublicKey _ := []
  ed25519Sign _ _ := []
  ed25519Verify _ _ _ := true

end OurCoin
