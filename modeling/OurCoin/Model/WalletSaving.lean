import OurCoin.Model.WalletFile

/-!
# Saving a wallet

`Wallet.save_encrypted` of `wallet.py` as a sequence of calls to the operating system, by any number
of callers that save to one place. Every call may fail, and a caller may stop for good between two
calls. A directory has names for files; a file can have several names, as after `os.link`.
-/

set_option autoImplicit false

namespace OurCoin

open Raising

/-! ## The directory -/

/-- The names of a directory and the contents of its files. -/
structure Directory where
  names : Text → Option Nat
  contents : Nat → Bytes
  /-- The files from here on were not made. -/
  next : Nat

namespace Directory

/-- The content of the file with a name, read at once. -/
def read (directory : Directory) (name : Text) : Option Bytes :=
  (directory.names name).map directory.contents

/-- A new, empty file. -/
def create (directory : Directory) (name : Text) : Directory where
  names := Function.update directory.names name (some directory.next)
  contents := Function.update directory.contents directory.next []
  next := directory.next + 1

/-- Bytes are written to the end of an open file. -/
def append (directory : Directory) (file : Nat) (bytes : Bytes) : Directory :=
  { directory with
    contents := Function.update directory.contents file (directory.contents file ++ bytes) }

/-- One more name for a file. -/
def link (directory : Directory) (name : Text) (file : Nat) : Directory :=
  { directory with names := Function.update directory.names name (some file) }

/-- Remove a name; its file stays for those who have it open. -/
def unlink (directory : Directory) (name : Text) : Directory :=
  { directory with names := Function.update directory.names name none }

end Directory

/-- A name that `tempfile.mkstemp` makes for a destination: eight characters between the prefix and
the suffix. -/
def IsTemporary (destination temporary : Text) : Prop :=
  ∃ middle : Text, middle.length = 8 ∧
    temporary = text "." ++ destination ++ text "." ++ middle ++ text ".tmp"

/-! ## A caller -/

/-- Why a save fails. -/
inductive SaveFailure where
  | raised (e : Raised)
  | osError

/-- Where a save stands. -/
inductive SaveStage where
  /-- Before `destination.exists()`. -/
  | checking
  /-- Before the directory is made and the document is encrypted. -/
  | preparing
  /-- Before `tempfile.mkstemp`. -/
  | creating (content : Bytes)
  /-- The rest of the document is to be written to the temporary file. -/
  | writing (temporary : Text) (file : Nat) (rest : Bytes)
  /-- Before `os.replace` or `os.link`. -/
  | publishing (temporary : Text)
  /-- In the `finally` block. -/
  | cleaning (temporary : Text) (outcome : Except SaveFailure Unit)
  | done (outcome : Except SaveFailure Unit)

/-- The temporary file of a save, until it is cleaned up. -/
def SaveStage.temporary : SaveStage → Option Text
  | .writing temporary _ _ | .publishing temporary | .cleaning temporary _ => some temporary
  | _ => none

/-- The wallet is in its place. -/
def SaveStage.published : SaveStage → Prop
  | .cleaning _ (.ok _) | .done (.ok _) => True
  | _ => False

/-- A call of `save_encrypted`, with the random bytes that it draws. -/
structure SaveCall where
  wallet : NamedWallet
  password : Text
  salt : Bytes
  nonce : Bytes
  salt_length : salt.length = scryptSaltLength
  nonce_length : nonce.length = aesNonceLength
  overwrite : Bool

/-- What the call writes. -/
def SaveCall.content [Platform] [Sealing] (call : SaveCall) : Except Raised Bytes :=
  call.wallet.encrypted call.password call.salt call.nonce

/-- A caller of `save_encrypted` and how far it is. -/
structure Saver where
  call : SaveCall
  stage : SaveStage

/-- The error of a caller that finds the name taken. -/
def alreadyExists : SaveFailure := .raised (walletError "wallet file already exists")

variable [Platform] [Sealing]

/-- The next call to the operating system. -/
inductive SaveStage.Step (destination : Text) (call : SaveCall) :
    Directory → SaveStage → Directory → SaveStage → Prop
  | found {directory : Directory} : call.overwrite = false →
      directory.names destination ≠ none →
      Step destination call directory .checking directory (.done (.error alreadyExists))
  | absent {directory : Directory} : call.overwrite = true ∨ directory.names destination = none →
      Step destination call directory .checking directory .preparing
  | checkFails {directory : Directory} :
      Step destination call directory .checking directory (.done (.error .osError))
  | prepare {directory : Directory} {content : Bytes} : call.content = .ok content →
      Step destination call directory .preparing directory (.creating content)
  | refuse {directory : Directory} {e : Raised} : call.content = .error e →
      Step destination call directory .preparing directory (.done (.error (.raised e)))
  /-- The directory cannot be made. -/
  | prepareFails {directory : Directory} :
      Step destination call directory .preparing directory (.done (.error .osError))
  | create {directory : Directory} {content : Bytes} {temporary : Text} :
      IsTemporary destination temporary → directory.names temporary = none →
      Step destination call directory (.creating content) (directory.create temporary)
        (.writing temporary directory.next content)
  | createFails {directory : Directory} {content : Bytes} :
      Step destination call directory (.creating content) directory (.done (.error .osError))
  /-- Some bytes reach the file. -/
  | write {directory : Directory} {temporary : Text} {file : Nat} {rest : Bytes} (count : Nat) :
      Step destination call directory (.writing temporary file rest)
        (directory.append file (rest.take count)) (.writing temporary file (rest.drop count))
  /-- The file is synchronized, closed and given its mode. -/
  | close {directory : Directory} {temporary : Text} {file : Nat} :
      Step destination call directory (.writing temporary file []) directory (.publishing temporary)
  | writeFails {directory : Directory} {temporary : Text} {file : Nat} {rest : Bytes} :
      Step destination call directory (.writing temporary file rest) directory
        (.cleaning temporary (.error .osError))
  /-- `os.replace(temporary, destination)`. -/
  | replace {directory : Directory} {temporary : Text} {file : Nat} : call.overwrite = true →
      directory.names temporary = some file →
      Step destination call directory (.publishing temporary)
        ((directory.link destination file).unlink temporary) (.cleaning temporary (.ok ()))
  /-- `os.link(temporary, destination)`. -/
  | link {directory : Directory} {temporary : Text} {file : Nat} : call.overwrite = false →
      directory.names temporary = some file → directory.names destination = none →
      Step destination call directory (.publishing temporary) (directory.link destination file)
        (.cleaning temporary (.ok ()))
  | linkExists {directory : Directory} {temporary : Text} : call.overwrite = false →
      directory.names destination ≠ none →
      Step destination call directory (.publishing temporary) directory
        (.cleaning temporary (.error alreadyExists))
  | publishFails {directory : Directory} {temporary : Text} :
      Step destination call directory (.publishing temporary) directory
        (.cleaning temporary (.error .osError))
  /-- `temporary.unlink()`, if the name is there. -/
  | clean {directory : Directory} {temporary : Text} {outcome : Except SaveFailure Unit} :
      Step destination call directory (.cleaning temporary outcome) (directory.unlink temporary)
        (.done outcome)
  | cleanFails {directory : Directory} {temporary : Text} {outcome : Except SaveFailure Unit} :
      Step destination call directory (.cleaning temporary outcome) directory
        (.done (.error .osError))

/-! ## All callers -/

/-- A directory, and everyone who saves to one place in it. -/
structure Saves where
  directory : Directory
  savers : List Saver

namespace Saves

/-- One caller makes its next call, or another one begins. -/
inductive Step (destination : Text) : Saves → Saves → Prop
  | begin {directory : Directory} {savers : List Saver} (call : SaveCall) :
      Step destination ⟨directory, savers⟩ ⟨directory, savers ++ [⟨call, .checking⟩]⟩
  | step {directory directory' : Directory} {front back : List Saver} {call : SaveCall}
      {stage stage' : SaveStage} : SaveStage.Step destination call directory stage directory' stage' →
      Step destination ⟨directory, front ++ ⟨call, stage⟩ :: back⟩
        ⟨directory', front ++ ⟨call, stage'⟩ :: back⟩

/-- A name that a save still goes by is no longer there, and it is drawn again. -/
def Redraws (before after : Saves) : Prop :=
  ∃ saver ∈ before.savers, ∃ temporary, saver.stage.temporary = some temporary ∧
    before.directory.names temporary = none ∧ after.directory.names temporary ≠ none

/-- No one overwrites. -/
def Exclusive (saves : Saves) : Prop := ∀ saver ∈ saves.savers, saver.call.overwrite = false

/-- A step that does not draw a lost name again. -/
def FreshStep (destination : Text) (before after : Saves) : Prop :=
  Step destination before after ∧ ¬ Redraws before after

/-- A step after which still no one overwrites. -/
def ExclusiveStep (destination : Text) (before after : Saves) : Prop :=
  Step destination before after ∧ Exclusive after

end Saves

end OurCoin
