import OurCoin.Library.Decimal
import OurCoin.Model.Consensus

/-!
# Amounts on the command line

`parse_our_amount` and `format_atoms` of `cli.py`: an amount of OUR as text with up to eight
decimal places, and as atoms.
-/

set_option autoImplicit false

namespace OurCoin

open Raising

/-! ## Text -/

/-- `character.isspace()`. -/
def isSpace (c : Nat) : Prop :=
  (9 ≤ c ∧ c ≤ 13) ∨ (28 ≤ c ∧ c ≤ 32) ∨ c = 0x85 ∨ c = 0xA0 ∨ c = 0x1680 ∨
    (0x2000 ≤ c ∧ c ≤ 0x200A) ∨ c = 0x2028 ∨ c = 0x2029 ∨ c = 0x202F ∨ c = 0x205F ∨ c = 0x3000

instance (c : Nat) : Decidable (isSpace c) :=
  inferInstanceAs (Decidable (_ ∨ _))

/-- `value.strip()`. -/
def strip (value : Text) : Text :=
  ((value.dropWhile (isSpace ·)).reverse.dropWhile (isSpace ·)).reverse

/-- `value.partition(separator)`. -/
def partition (value : Text) (separator : Nat) : Text × Text × Text :=
  match value.dropWhile (· ≠ separator) with
  | [] => (value, [], [])
  | found :: after => (value.takeWhile (· ≠ separator), [found], after)

/-- `value.isdecimal()`, on ASCII text. -/
def isDecimal (value : Text) : Prop := value ≠ [] ∧ ∀ c ∈ value, Decimal.IsDigit c

instance (value : Text) : Decidable (isDecimal value) :=
  inferInstanceAs (Decidable (_ ∧ _))

/-- `value.ljust(width, fill)`. -/
def ljust (value : Text) (width fill : Nat) : Text :=
  value ++ List.replicate (width - value.length) fill

/-- `sys.get_int_max_str_digits()`. -/
def intMaxStrDigits : Nat := 4300

/-- `ValueError(message)`. -/
def valueError (message : String) : Raised := ⟨.valueError, message⟩

/-- `int(digits)`, on ASCII digits. -/
def intFromText (digits : Text) : Except Raised Int := do
  let count := digits.length
  raiseIf (count > intMaxStrDigits) (valueError (
    s!"Exceeds the limit ({intMaxStrDigits} digits) for integer string conversion: " ++
    s!"value has {count} digits; use sys.set_int_max_str_digits() to increase the limit"))
  return Decimal.value digits

/-! ## `cli.py` -/

/-- `CliError(message)`. -/
def cliError (message : String) : Raised := ⟨.cliError, message⟩

/-- Read an amount of OUR in plain decimal notation, as atoms. -/
def parseOurAmount (value : Text) (allowZero : Bool) : Except Raised Int := do
  raiseIf (value = [] ∨ strip value ≠ value) (cliError "amount must be plain decimal text")
  let (whole, separator, fraction) := partition value 46
  raiseIf (¬ isAscii whole ∨ ¬ isDecimal whole)
    (cliError "amount must be a non-negative plain decimal")
  raiseIf (separator ≠ [] ∧ (fraction = [] ∨ ¬ isAscii fraction ∨ ¬ isDecimal fraction))
    (cliError "amount fraction must contain decimal digits")
  raiseIf (fraction.length > 8) (cliError "amount supports at most 8 decimal places")
  let padded := ljust fraction 8 48
  let atoms := (← intFromText whole) * atomsPerOur +
    (← intFromText (if padded = [] then text "0" else padded))
  raiseIf (atoms > u64Max) (cliError "amount exceeds the uint64 range")
  raiseIf (atoms = 0 ∧ allowZero = false) (cliError "amount must be positive")
  return atoms

/-- Print atoms as OUR with eight decimals. -/
def formatAtoms (atoms : Int) : Except Raised Text := do
  raiseIf (¬ (0 ≤ atoms ∧ atoms ≤ u64Max))
    (cliError "atoms must be an unsigned 64-bit integer")
  let whole := atoms / atomsPerOur
  let fraction := atoms % atomsPerOur
  return Decimal.write whole.toNat ++ text "." ++ Decimal.pad 8 (Decimal.write fraction.toNat)

end OurCoin
