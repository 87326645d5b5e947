import OurCoin.Library.Decimal
import OurCoin.Library.Dict
import OurCoin.Library.Raising

/-!
# JSON

Values, their texts, and a parser, on lists of code points. The writer and the parser are
those of Python's `json`: the writer escapes all that is not printable ASCII and indents, the
parser takes lone surrogates, `NaN` and repeated names, of which the last one counts. It gives up
on values that are nested too deeply, and on integers with too many digits. A number with a
fraction or an exponent is kept as it was written.

* `scanString_quote`: a string is read back, unless it holds both halves of a surrogate pair
  side by side.
* `scanOnce_write`: a value is read back from the front of a text.
* `parse_write`: a value is read back, and so it is with its names sorted (`parse_dumps`).
-/

set_option autoImplicit false

namespace Json

open Raising

/-- The number in a value is not converted when it has a fraction or an exponent. -/
inductive Value where
  | null
  | bool (truth : Bool)
  | int (number : Int)
  | float (numeral : List Nat)
  | string (characters : List Nat)
  | array (items : List Value)
  | object (members : List (List Nat × Value))

/-- Why a text is refused. -/
inductive Failure where
  /-- It is no JSON. -/
  | invalid
  /-- It is nested more deeply than the parser goes. -/
  | tooDeep
  /-- An integer has more digits than are converted. -/
  | tooLong
  deriving DecidableEq

/-! ## Writing -/

/-- The character of a hexadecimal digit. -/
def hexCharacter (digit : Nat) : Nat := if digit < 10 then 48 + digit else 87 + digit

/-- Four hexadecimal digits. -/
def writeHex (unit : Nat) : List Nat :=
  [hexCharacter (unit / 4096 % 16), hexCharacter (unit / 256 % 16),
    hexCharacter (unit / 16 % 16), hexCharacter (unit % 16)]

/-- `\uXXXX`. -/
def escapeUnit (unit : Nat) : List Nat := 92 :: 117 :: writeHex unit

/-- A character inside a string. -/
def escape (c : Nat) : List Nat :=
  if c = 34 then [92, 34]
  else if c = 92 then [92, 92]
  else if c = 10 then [92, 110]
  else if c = 13 then [92, 114]
  else if c = 9 then [92, 116]
  else if c = 12 then [92, 102]
  else if c = 8 then [92, 98]
  else if 32 ≤ c ∧ c ≤ 126 then [c]
  else if c < 0x10000 then escapeUnit c
  else escapeUnit (0xD800 + (c - 0x10000) / 0x400) ++ escapeUnit (0xDC00 + (c - 0x10000) % 0x400)

/-- A string literal. -/
def quote (characters : List Nat) : List Nat := 34 :: (characters.flatMap escape ++ [34])

/-- The text of an integer. -/
def writeInt (number : Int) : List Nat :=
  if number < 0 then 45 :: Decimal.write number.natAbs else Decimal.write number.natAbs

/-- A new line. -/
def newline (indent level : Nat) : List Nat := 10 :: List.replicate (indent * level) 32

/-- What follows an opening bracket, one item a line. -/
def enclose (close indent level : Nat) : List (List Nat) → List Nat
  | [] => [close]
  | first :: rest =>
    newline indent (level + 1) ++ first ++
      rest.flatMap (fun item => 44 :: newline indent (level + 1) ++ item) ++
      newline indent level ++ [close]

mutual

/-- The text of a value at an indentation level. -/
def Value.write (indent level : Nat) : Value → List Nat
  | .null => [110, 117, 108, 108]
  | .bool true => [116, 114, 117, 101]
  | .bool false => [102, 97, 108, 115, 101]
  | .int number => writeInt number
  | .float numeral => numeral
  | .string characters => quote characters
  | .array items => 91 :: enclose 93 indent level (writeItems indent (level + 1) items)
  | .object members => 123 :: enclose 125 indent level (writeMembers indent (level + 1) members)

/-- The texts of the items of an array. -/
def writeItems (indent level : Nat) : List Value → List (List Nat)
  | [] => []
  | item :: rest => item.write indent level :: writeItems indent level rest

/-- The texts of the members of an object. -/
def writeMembers (indent level : Nat) : List (List Nat × Value) → List (List Nat)
  | [] => []
  | (name, value) :: rest =>
    (quote name ++ [58, 32] ++ value.write indent level) :: writeMembers indent level rest

end

mutual

/-- The value with the names of every object in order. -/
def Value.sorted : Value → Value
  | .array items => .array (sortItems items)
  | .object members =>
    .object ((sortMembers members).insertionSort fun member other => member.1 ≤ other.1)
  | .null => .null
  | .bool truth => .bool truth
  | .int number => .int number
  | .float numeral => .float numeral
  | .string characters => .string characters

/-- The items of an array, each with its names in order. -/
def sortItems : List Value → List Value
  | [] => []
  | item :: rest => item.sorted :: sortItems rest

/-- The members of an object, each value with its names in order. -/
def sortMembers : List (List Nat × Value) → List (List Nat × Value)
  | [] => []
  | (name, value) :: rest => (name, value.sorted) :: sortMembers rest

end

/-- `json.dumps(value, indent=indent, sort_keys=True)`. -/
def Value.dumps (indent : Nat) (value : Value) : List Nat := value.sorted.write indent 0

/-! ## Reading -/

/-- What reads something from the front of a text. -/
abbrev ScannerOf (α : Type) : Type := List Nat → Except Failure (α × List Nat)

/-- What reads a value. -/
abbrev Scanner : Type := ScannerOf Value

/-- White space between tokens. -/
def isSpace (c : Nat) : Bool := c = 32 || c = 9 || c = 10 || c = 13

/-- The text after its leading white space. -/
def skip (text : List Nat) : List Nat := text.dropWhile isSpace

/-- The value of a hexadecimal digit. -/
def hexDigit (c : Nat) : Option Nat :=
  if 48 ≤ c ∧ c ≤ 57 then some (c - 48)
  else if 97 ≤ c ∧ c ≤ 102 then some (c - 87)
  else if 65 ≤ c ∧ c ≤ 70 then some (c - 55)
  else none

/-- Four hexadecimal digits. -/
def scanHex : List Nat → Option (Nat × List Nat)
  | a :: b :: c :: d :: rest =>
    match hexDigit a, hexDigit b, hexDigit c, hexDigit d with
    | some a, some b, some c, some d => some (((a * 16 + b) * 16 + c) * 16 + d, rest)
    | _, _, _, _ => none
  | _ => none

/-- A high surrogate. -/
def IsHigh (unit : Nat) : Prop := 0xD800 ≤ unit ∧ unit ≤ 0xDBFF

/-- A low surrogate. -/
def IsLow (unit : Nat) : Prop := 0xDC00 ≤ unit ∧ unit ≤ 0xDFFF

instance (unit : Nat) : Decidable (IsHigh unit) := inferInstanceAs (Decidable (_ ∧ _))

instance (unit : Nat) : Decidable (IsLow unit) := inferInstanceAs (Decidable (_ ∧ _))

/-- The escape of a high surrogate takes that of a low one with it. -/
def scanUnit (text : List Nat) : Option (Nat × List Nat) :=
  match scanHex text with
  | none => none
  | some (unit, rest) =>
    match rest with
    | 92 :: 117 :: more =>
      if IsHigh unit then
        match scanHex more with
        | none => none
        | some (low, rest') =>
          if IsLow low then some (0x10000 + (unit - 0xD800) * 0x400 + (low - 0xDC00), rest')
          else some (unit, rest)
      else some (unit, rest)
    | _ => some (unit, rest)

/-- What follows a backslash. -/
def unescape : List Nat → Option (Nat × List Nat)
  | 34 :: rest => some (34, rest)
  | 92 :: rest => some (92, rest)
  | 47 :: rest => some (47, rest)
  | 98 :: rest => some (8, rest)
  | 102 :: rest => some (12, rest)
  | 110 :: rest => some (10, rest)
  | 114 :: rest => some (13, rest)
  | 116 :: rest => some (9, rest)
  | 117 :: rest => scanUnit rest
  | _ => none

/-- A string after its opening quote. Every round takes a character, so that the length of the
text is fuel enough. -/
def scanString : Nat → ScannerOf (List Nat)
  | 0, _ => throw .invalid
  | _ + 1, [] => throw .invalid
  | fuel + 1, c :: rest =>
    if c = 34 then return ([], rest)
    else if c = 92 then
      match unescape rest with
      | none => throw .invalid
      | some (c, rest) => do
        let (characters, rest) ← scanString fuel rest
        return (c :: characters, rest)
    else if c < 32 then throw .invalid
    else do
      let (characters, rest) ← scanString fuel rest
      return (c :: characters, rest)

/-- The digits in front. -/
def takeDigits (text : List Nat) : List Nat := text.takeWhile fun c => decide (Decimal.IsDigit c)

/-- The minus sign in front. -/
def takeSign : List Nat → List Nat
  | 45 :: _ => [45]
  | _ => []

/-- The digits in front of a point. None follow a zero. -/
def takeInteger (text : List Nat) : List Nat :=
  match text with
  | 48 :: _ => [48]
  | _ => takeDigits text

/-- A point with the digits that follow it. -/
def takeFraction : List Nat → List Nat
  | 46 :: rest => if takeDigits rest = [] then [] else 46 :: takeDigits rest
  | _ => []

/-- An exponent with its digits. -/
def takeExponent : List Nat → List Nat
  | c :: rest =>
    if c = 69 ∨ c = 101 then
      let sign := match rest with
        | 43 :: _ => [43]
        | 45 :: _ => [45]
        | _ => []
      let digits := takeDigits (rest.drop sign.length)
      if digits = [] then [] else c :: sign ++ digits
    else []
  | [] => []

/-- An integer, or the numeral of a float. -/
def scanNumber (maxDigits : Nat) : Scanner := fun text =>
  let sign := takeSign text
  let text := text.drop sign.length
  let digits := takeInteger text
  if digits = [] then throw .invalid
  else
    let text := text.drop digits.length
    let fraction := takeFraction text
    let text := text.drop fraction.length
    let exponent := takeExponent text
    let text := text.drop exponent.length
    if fraction = [] ∧ exponent = [] then
      if maxDigits < digits.length then throw .tooLong
      else
        let number : Int := Decimal.value digits
        return (.int (if sign = [] then number else -number), text)
    else return (.float (sign ++ digits ++ fraction ++ exponent), text)

/-- What stands in front of a closing bracket, from an item on. -/
def scanItems {α : Type} (scan : ScannerOf α) (close : Nat) : Nat → ScannerOf (List α)
  | 0, _ => throw .invalid
  | fuel + 1, text => do
    let (item, text) ← scan text
    match skip text with
    | [] => throw .invalid
    | c :: rest =>
      if c = close then return ([item], rest)
      else if c = 44 then do
        let (items, rest) ← scanItems scan close fuel (skip rest)
        return (item :: items, rest)
      else throw .invalid

/-- What stands after an opening bracket. -/
def scanEnclosed {α : Type} (scan : ScannerOf α) (close : Nat) : ScannerOf (List α) := fun text =>
  match skip text with
  | [] => throw .invalid
  | c :: rest =>
    if c = close then return ([], rest)
    else scanItems scan close (c :: rest).length (c :: rest)

/-- A name with its value. -/
def scanMember (scan : Scanner) : ScannerOf (List Nat × Value)
  | 34 :: rest => do
    let (name, rest) ← scanString rest.length rest
    match skip rest with
    | 58 :: rest => do
      let (value, rest) ← scan (skip rest)
      return ((name, value), rest)
    | _ => throw .invalid
  | _ => throw .invalid

/-- A value, whose items and members are read by `nested` if it may have any. -/
def scanWith (maxDigits : Nat) (nested : Option Scanner) : Scanner
  | 34 :: rest => do
    let (characters, rest) ← scanString rest.length rest
    return (.string characters, rest)
  | 123 :: rest =>
    match nested with
    | none => throw .tooDeep
    | some scan => do
      let (members, rest) ← scanEnclosed (scanMember scan) 125 rest
      return (.object (Dict.ofItems members).items, rest)
  | 91 :: rest =>
    match nested with
    | none => throw .tooDeep
    | some scan => do
      let (items, rest) ← scanEnclosed scan 93 rest
      return (.array items, rest)
  | 110 :: 117 :: 108 :: 108 :: rest => return (.null, rest)
  | 116 :: 114 :: 117 :: 101 :: rest => return (.bool true, rest)
  | 102 :: 97 :: 108 :: 115 :: 101 :: rest => return (.bool false, rest)
  | 78 :: 97 :: 78 :: rest => return (.float [78, 97, 78], rest)
  | 73 :: 110 :: 102 :: 105 :: 110 :: 105 :: 116 :: 121 :: rest =>
    return (.float [73, 110, 102, 105, 110, 105, 116, 121], rest)
  | 45 :: 73 :: 110 :: 102 :: 105 :: 110 :: 105 :: 116 :: 121 :: rest =>
    return (.float [45, 73, 110, 102, 105, 110, 105, 116, 121], rest)
  | text => scanNumber maxDigits text

/-- A value that is nested at most so deeply. -/
def scanOnce (maxDigits : Nat) : Nat → Scanner
  | 0 => scanWith maxDigits none
  | depth + 1 => scanWith maxDigits (some (scanOnce maxDigits depth))

/-- `json.loads(text)`. -/
def parse (maxDigits depth : Nat) (text : List Nat) : Except Failure Value :=
  if text.head? = some 0xFEFF then throw .invalid
  else do
    let (value, rest) ← scanOnce maxDigits depth (skip text)
    if skip rest = [] then return value else throw .invalid

/-! ## Strings are read back -/

/-- A string whose escapes stand for its characters: no two of them are taken for a pair. -/
structure Escapable (characters : List Nat) : Prop where
  bounded : ∀ c ∈ characters, c < 0x110000
  apart : characters.IsChain fun c d => ¬ (IsHigh c ∧ IsLow d)

/-- Text without surrogates can be escaped. -/
theorem Escapable.of_small {characters : List Nat} (small : ∀ c ∈ characters, c < 0xD800) :
    Escapable characters := by
  refine ⟨fun c member => (small c member).trans (by decide), ?_⟩
  induction characters with
  | nil => exact .nil
  | cons c characters ih =>
      refine (ih fun d member => small d (List.mem_cons_of_mem _ member)).cons fun d _ paired => ?_
      have high := paired.1.1
      have less := small c List.mem_cons_self
      omega

theorem hexDigit_hexCharacter : ∀ digit < 16, hexDigit (hexCharacter digit) = some digit := by
  decide

theorem scanHex_writeHex {unit : Nat} (small : unit < 0x10000) (rest : List Nat) :
    scanHex (writeHex unit ++ rest) = some (unit, rest) := by
  have digit : ∀ number, hexDigit (hexCharacter (number % 16)) = some (number % 16) := fun number =>
    hexDigit_hexCharacter _ (Nat.mod_lt _ (by decide))
  simp only [writeHex, List.cons_append, List.nil_append, scanHex, digit, Option.some.injEq,
    Prod.mk.injEq, and_true]
  omega

/-- What follows the escape of a character is no escape of a low surrogate. -/
def Follows (c : Nat) (tail : List Nat) : Prop :=
  ∀ more, tail = 92 :: 117 :: more → IsHigh c →
    ∃ unit rest, scanHex more = some (unit, rest) ∧ ¬ IsLow unit

theorem scanUnit_single {unit : Nat} {tail : List Nat} (small : unit < 0x10000)
    (follows : Follows unit tail) : scanUnit (writeHex unit ++ tail) = some (unit, tail) := by
  rw [scanUnit, scanHex_writeHex small]
  dsimp only
  split
  · rename_i more
    split
    · rename_i high
      obtain ⟨next, rest, scanned, notLow⟩ := follows more rfl high
      rw [scanned]
      dsimp only
      rw [if_neg notLow]
    · rfl
  · rfl

theorem scanUnit_pair {c : Nat} (large : 0x10000 ≤ c) (bounded : c < 0x110000) (tail : List Nat) :
    scanUnit (writeHex (0xD800 + (c - 0x10000) / 0x400) ++
      (escapeUnit (0xDC00 + (c - 0x10000) % 0x400) ++ tail)) = some (c, tail) := by
  have high : IsHigh (0xD800 + (c - 0x10000) / 0x400) := by
    rw [IsHigh]
    omega
  have low : IsLow (0xDC00 + (c - 0x10000) % 0x400) := by
    rw [IsLow]
    omega
  rw [scanUnit, scanHex_writeHex (by omega)]
  dsimp only [escapeUnit, List.cons_append]
  simp only [if_pos high]
  rw [scanHex_writeHex (by omega)]
  dsimp only
  rw [if_pos low, Option.some.injEq, Prod.mk.injEq]
  exact ⟨by omega, rfl⟩

/-- The escape of a character is taken for that character. -/
theorem scanString_escape {c fuel : Nat} {tail characters rest : List Nat} (bounded : c < 0x110000)
    (follows : Follows c tail) (scanned : scanString fuel tail = .ok (characters, rest)) :
    scanString (fuel + 1) (escape c ++ tail) = .ok (c :: characters, rest) := by
  -- After a backslash, what is read is the character and leaves the tail.
  have escaped : ∀ {code : List Nat}, unescape (code ++ tail) = some (c, tail) →
      scanString (fuel + 1) ((92 :: code) ++ tail) = .ok (c :: characters, rest) := by
    intro code read
    rw [List.cons_append, scanString, if_neg (by decide), if_pos rfl, read]
    dsimp only
    rw [scanned]
    rfl
  rw [escape]
  split_ifs with quoted backslash line carriage tab form back printable unit
  · subst quoted
    exact escaped rfl
  · subst backslash
    exact escaped rfl
  · subst line
    exact escaped rfl
  · subst carriage
    exact escaped rfl
  · subst tab
    exact escaped rfl
  · subst form
    exact escaped rfl
  · subst back
    exact escaped rfl
  · rw [List.singleton_append, scanString, if_neg quoted, if_neg backslash, if_neg (by omega),
      scanned]
    rfl
  · refine escaped ?_
    rw [List.cons_append, unescape]
    exact scanUnit_single unit follows
  · rw [List.append_assoc]
    have read := @escaped (117 :: writeHex (0xD800 + (c - 0x10000) / 0x400) ++
      escapeUnit (0xDC00 + (c - 0x10000) % 0x400))
    rw [List.append_assoc, List.cons_append, unescape, scanUnit_pair (by omega) bounded] at read
    exact read rfl

/-- The escapes of a character are those of one unit, or begin with a high surrogate. -/
theorem scanHex_of_escape {d : Nat} {tail more : List Nat} (bounded : d < 0x110000)
    (escaped : escape d ++ tail = 92 :: 117 :: more) :
    ∃ unit rest, scanHex more = some (unit, rest) ∧ (unit = d ∨ IsHigh unit) := by
  rw [escape] at escaped
  split_ifs at escaped with quoted backslash line carriage tab form back printable small
  · cases escaped
  · cases escaped
  · cases escaped
  · cases escaped
  · cases escaped
  · cases escaped
  · cases escaped
  · cases escaped
    exact absurd rfl backslash
  · rw [escapeUnit, List.cons_append, List.cons_append] at escaped
    cases escaped
    exact ⟨d, tail, scanHex_writeHex small tail, .inl rfl⟩
  · rw [List.append_assoc, escapeUnit, List.cons_append, List.cons_append] at escaped
    cases escaped
    refine ⟨_, _, scanHex_writeHex (by omega) _, .inr ?_⟩
    rw [IsHigh]
    omega

theorem not_low_of_high {unit : Nat} (high : IsHigh unit) : ¬ IsLow unit := by
  rw [IsHigh] at high
  rw [IsLow]
  omega

/-- **A string is read back.** -/
theorem scanString_quote (rest : List Nat) {characters : List Nat} :
    ∀ {fuel : Nat}, characters.length < fuel → Escapable characters →
      scanString fuel (characters.flatMap escape ++ 34 :: rest) = .ok (characters, rest) := by
  induction characters with
  | nil =>
      intro fuel enough _
      obtain ⟨fuel, rfl⟩ := Nat.exists_eq_succ_of_ne_zero (Nat.pos_iff_ne_zero.mp enough)
      rfl
  | cons c characters ih =>
      rintro fuel enough ⟨bounded, apart⟩
      obtain ⟨fuel, rfl⟩ := Nat.exists_eq_succ_of_ne_zero (Nat.ne_zero_of_lt enough)
      have escapable : Escapable characters :=
        ⟨fun d member => bounded d (List.mem_cons_of_mem _ member), apart.tail⟩
      rw [List.flatMap_cons, List.append_assoc]
      refine scanString_escape (bounded c List.mem_cons_self) ?_
        (ih (Nat.lt_of_succ_lt_succ enough) escapable)
      intro more isEscape high
      cases characters with
      | nil => cases isEscape
      | cons d characters =>
          rw [List.flatMap_cons, List.append_assoc] at isEscape
          obtain ⟨unit, rest', scanned, isUnit⟩ :=
            scanHex_of_escape (escapable.bounded d List.mem_cons_self) isEscape
          refine ⟨unit, rest', scanned, ?_⟩
          rcases isUnit with rfl | isHigh
          · intro low
            exact apart.rel ⟨high, low⟩
          · exact not_low_of_high isHigh

/-! ## Numbers are read back -/

/-- What follows a value: the text ends, or the line does. -/
def Ends (rest : List Nat) : Prop := ∀ c ∈ rest.head?, c = 44 ∨ c = 10

theorem takeDigits_append {digits rest : List Nat} (areDigits : ∀ c ∈ digits, Decimal.IsDigit c)
    (ends : Ends rest) : takeDigits (digits ++ rest) = digits := by
  induction digits with
  | nil =>
      cases rest with
      | nil => rfl
      | cons c rest =>
          have noDigit : ¬ Decimal.IsDigit c := by
            rcases ends c rfl with rfl | rfl <;> decide
          rw [List.nil_append, takeDigits, List.takeWhile_cons, if_neg (by simpa using noDigit)]
  | cons c digits ih =>
      have isDigit := areDigits c List.mem_cons_self
      rw [List.cons_append, takeDigits, List.takeWhile_cons, if_pos (by simpa using isDigit)]
      exact congrArg (c :: ·) (ih fun d member => areDigits d (List.mem_cons_of_mem _ member))

theorem takeFraction_ends {rest : List Nat} (ends : Ends rest) : takeFraction rest = [] := by
  cases rest with
  | nil => rfl
  | cons c rest => rcases ends c rfl with rfl | rfl <;> rfl

theorem takeExponent_ends {rest : List Nat} (ends : Ends rest) : takeExponent rest = [] := by
  cases rest with
  | nil => rfl
  | cons c rest => rcases ends c rfl with rfl | rfl <;> rfl

/-- A number without leading zeros begins with a digit, which is zero in `0` only. -/
theorem exists_write (number : Nat) : ∃ c digits, Decimal.write number = c :: digits ∧
    Decimal.IsDigit c ∧ (c = 48 → digits = []) := by
  obtain ⟨c, digits, written⟩ := List.exists_cons_of_ne_nil (Decimal.write_ne_nil number)
  refine ⟨c, digits, written, Decimal.isDigit_write (written ▸ List.mem_cons_self), ?_⟩
  rintro rfl
  rw [Decimal.write] at written
  split at written
  · exact (List.cons.inj written).2.symm
  · rename_i positive
    obtain ⟨front, last, digits_eq⟩ : ∃ front last, Nat.digits 10 number = front ++ [last] :=
      ⟨_, _, (List.dropLast_append_getLast (Nat.digits_ne_nil_iff_ne_zero.mpr positive)).symm⟩
    have lead := Nat.getLast_digit_ne_zero 10 positive
    simp only [digits_eq, List.getLast_append_singleton] at lead
    rw [digits_eq, List.reverse_append, List.reverse_singleton, List.singleton_append,
      List.map_cons] at written
    have isZero := (List.cons.inj written).1
    omega

/-- The digits of a number are taken from the front of a text. -/
theorem scanNumber_write {maxDigits number : Nat} {rest : List Nat} (ends : Ends rest)
    (few : (Decimal.write number).length ≤ maxDigits) :
    scanNumber maxDigits (Decimal.write number ++ rest) = .ok (.int number, rest) ∧
      scanNumber maxDigits (45 :: (Decimal.write number ++ rest)) = .ok (.int (-number), rest) := by
  obtain ⟨c, digits, written, isDigit, lead⟩ := exists_write number
  have taken : takeInteger (Decimal.write number ++ rest) = Decimal.write number := by
    have all : takeDigits (Decimal.write number ++ rest) = Decimal.write number :=
      takeDigits_append (fun d member => Decimal.isDigit_write member) ends
    rw [written, List.cons_append] at all ⊢
    by_cases isZero : c = 48
    · rw [isZero, lead isZero]
      rfl
    · rw [takeInteger, all]
      rintro tail isTail
      exact isZero (List.cons.inj isTail).1
  have unsigned : takeSign (Decimal.write number ++ rest) = [] := by
    rw [written, List.cons_append, takeSign]
    rintro tail isTail
    rw [(List.cons.inj isTail).1] at isDigit
    exact absurd isDigit (by decide)
  have left : (Decimal.write number ++ rest).drop (Decimal.write number).length = rest :=
    List.drop_left
  constructor
  · simp only [scanNumber, unsigned, List.length_nil, List.drop_zero, taken,
      if_neg (Decimal.write_ne_nil _), left, takeFraction_ends ends, takeExponent_ends ends,
      and_self, if_true, if_neg (Nat.not_lt.mpr few), Decimal.value_write]
    rfl
  · simp only [scanNumber, takeSign, List.length_singleton, List.drop_succ_cons, List.length_nil,
      List.drop_zero, taken, if_neg (Decimal.write_ne_nil _), left, takeFraction_ends ends,
      takeExponent_ends ends, and_self, if_true, if_neg (Nat.not_lt.mpr few), Decimal.value_write]
    rfl

/-! ## Values are read back -/

/-- A value that is no array and no object, and can be read back. -/
def Value.Scalar (maxDigits : Nat) : Value → Prop
  | .null | .bool _ => True
  | .int number => (Decimal.write number.natAbs).length ≤ maxDigits
  | .string characters => Escapable characters
  | .float _ | .array _ | .object _ => False

/-- A value that can be read back, nested at most so deeply. -/
def Value.Plain (maxDigits : Nat) : Nat → Value → Prop
  | depth + 1, .array items => ∀ item ∈ items, item.Plain maxDigits depth
  | depth + 1, .object members => (members.map Prod.fst).Nodup ∧
      ∀ member ∈ members, Escapable member.1 ∧ member.2.Plain maxDigits depth
  | _, value => value.Scalar maxDigits

/-- A text that begins a value. -/
def Opens (text : List Nat) : Prop :=
  ∃ c rest, text = c :: rest ∧ c < 128 ∧ isSpace c = false ∧ c ≠ 93 ∧ c ≠ 125

/-- A text is read as a value wherever it stands. -/
structure Reads {α : Type} (scan : ScannerOf α) (text : List Nat) (value : α) : Prop where
  opens : Opens text
  scans : ∀ rest, Ends rest → scan (text ++ rest) = .ok (value, rest)

theorem Opens.skip_eq {text : List Nat} (opens : Opens text) (rest : List Nat) :
    skip (text ++ rest) = text ++ rest := by
  obtain ⟨c, more, rfl, -, noSpace, -⟩ := opens
  rw [List.cons_append, skip, List.dropWhile_cons, noSpace]
  rfl

theorem skip_newline (indent level : Nat) (text : List Nat) :
    skip (newline indent level ++ text) = skip text := by
  have blanks : ∀ count, skip (List.replicate count 32 ++ text) = skip text := by
    intro count
    induction count with
    | zero => rfl
    | succ count ih => exact ih
  exact blanks _

theorem ends_newline (indent level : Nat) (text : List Nat) :
    Ends (newline indent level ++ text) := by
  rintro c head
  cases head
  exact .inr rfl

theorem length_le_flatMap {α : Type} (write : α → List Nat) (positive : ∀ a, 1 ≤ (write a).length)
    (items : List α) : items.length ≤ (items.flatMap write).length := by
  induction items with
  | nil => exact Nat.le_refl _
  | cons item items ih =>
      have first := positive item
      rw [List.flatMap_cons, List.length_append, List.length_cons]
      omega

theorem length_escape (c : Nat) : 1 ≤ (escape c).length := by
  rw [escape]
  split_ifs <;> simp [escapeUnit]

theorem length_escape_le {c : Nat} (small : c < 0x10000) : (escape c).length ≤ 6 := by
  rw [escape]
  split_ifs <;> simp [escapeUnit, writeHex]

/-- A string takes at most six characters for each of its own. -/
theorem length_quote_le {characters : List Nat} (small : ∀ c ∈ characters, c < 0x10000) :
    (quote characters).length ≤ 6 * characters.length + 2 := by
  have each : (characters.flatMap escape).length ≤ 6 * characters.length := by
    induction characters with
    | nil => exact Nat.le_refl _
    | cons c characters ih =>
        have first := length_escape_le (small c List.mem_cons_self)
        have rest := ih fun d member => small d (List.mem_cons_of_mem _ member)
        rw [List.flatMap_cons, List.length_append, List.length_cons]
        omega
  rw [quote, List.length_cons, List.length_append, List.length_singleton]
  omega

section Enclosed

variable {α : Type} {scan : ScannerOf α} {close indent level : Nat} {texts : List (List Nat)}
  {items : List α}

/-- The items after the first one. -/
theorem scanItems_reads (noSpace : isSpace close = false) (noComma : close ≠ 44) (rest : List Nat)
    (reads : List.Forall₂ (Reads scan) texts items) :
    ∀ {first : List Nat} {item : α} {fuel : Nat}, Reads scan first item → texts.length < fuel →
      scanItems scan close fuel (first ++
        (texts.flatMap (fun text => 44 :: newline indent (level + 1) ++ text) ++
          (newline indent level ++ close :: rest))) = .ok (item :: items, rest) := by
  induction reads with
  | nil =>
      intro first item fuel readsFirst enough
      obtain ⟨fuel, rfl⟩ := Nat.exists_eq_succ_of_ne_zero (Nat.ne_zero_of_lt enough)
      have closes : skip (newline indent level ++ close :: rest) = close :: rest := by
        rw [skip_newline, skip, List.dropWhile_cons, noSpace]
        rfl
      rw [scanItems, List.flatMap_nil, List.nil_append,
        readsFirst.scans _ (ends_newline _ _ _), ok_bind]
      dsimp only
      rw [closes]
      dsimp only
      rw [if_pos rfl]
      rfl
  | @cons text item' texts items readsText _ ih =>
      intro first item fuel readsFirst enough
      obtain ⟨fuel, rfl⟩ := Nat.exists_eq_succ_of_ne_zero (Nat.ne_zero_of_lt enough)
      have whole : (text :: texts).flatMap (fun text => 44 :: newline indent (level + 1) ++ text) ++
          (newline indent level ++ close :: rest) = 44 :: (newline indent (level + 1) ++ (text ++
            (texts.flatMap (fun text => 44 :: newline indent (level + 1) ++ text) ++
              (newline indent level ++ close :: rest)))) := by
        simp only [List.flatMap_cons, List.cons_append, List.append_assoc]
      have comma : ∀ more, skip (44 :: more) = 44 :: more := fun _ => rfl
      rw [scanItems, whole, readsFirst.scans _ (by rintro c head; cases head; exact .inl rfl),
        ok_bind]
      dsimp only
      rw [comma]
      dsimp only
      rw [if_neg (Ne.symm noComma), if_pos rfl, skip_newline, readsText.opens.skip_eq,
        ih readsText (Nat.lt_of_succ_lt_succ enough)]
      rfl

/-- **What is enclosed is read back.** -/
theorem scanEnclosed_reads (bracket : close = 93 ∨ close = 125) (rest : List Nat)
    (reads : List.Forall₂ (Reads scan) texts items) :
    scanEnclosed scan close (enclose close indent level texts ++ rest) = .ok (items, rest) := by
  have noSpace : isSpace close = false := by rcases bracket with rfl | rfl <;> rfl
  have noComma : close ≠ 44 := by rcases bracket with rfl | rfl <;> decide
  cases reads with
  | nil =>
      rw [scanEnclosed, enclose, List.singleton_append, skip, List.dropWhile_cons, noSpace]
      rw [if_neg Bool.false_ne_true]
      dsimp only
      rw [if_pos rfl]
      rfl
  | @cons first item texts items readsFirst reads =>
      have whole : enclose close indent level (first :: texts) ++ rest =
          newline indent (level + 1) ++ (first ++
            (texts.flatMap (fun text => 44 :: newline indent (level + 1) ++ text) ++
              (newline indent level ++ close :: rest))) := by
        rw [enclose]
        simp only [List.append_assoc, List.singleton_append]
      obtain ⟨c, more, isFirst, -, -, notArray, notObject⟩ := readsFirst.opens
      have other : c ≠ close := by
        rcases bracket with rfl | rfl
        · exact notArray
        · exact notObject
      rw [whole, scanEnclosed, skip_newline, readsFirst.opens.skip_eq, isFirst, List.cons_append]
      dsimp only
      rw [if_neg other, ← List.cons_append, ← isFirst]
      refine scanItems_reads noSpace noComma rest reads readsFirst ?_
      have apart := length_le_flatMap (fun text => 44 :: newline indent (level + 1) ++ text)
        (fun _ => Nat.le_add_left 1 _) texts
      rw [List.length_append, List.length_append, isFirst, List.length_cons]
      omega

end Enclosed

/-- A member is read back. -/
theorem scanMember_reads {scan : Scanner} {name text : List Nat} {value : Value}
    (escapable : Escapable name) (reads : Reads scan text value) :
    Reads (scanMember scan) (quote name ++ [58, 32] ++ text) (name, value) := by
  refine ⟨⟨34, _, rfl, by decide, rfl, by decide, by decide⟩, fun rest ends => ?_⟩
  have whole : quote name ++ [58, 32] ++ text ++ rest =
      34 :: (name.flatMap escape ++ 34 :: (58 :: 32 :: (text ++ rest))) := by
    simp [quote]
  have enough : name.length < (name.flatMap escape ++ 34 :: (58 :: 32 :: (text ++ rest))).length := by
    have each := length_le_flatMap escape length_escape name
    rw [List.length_append, List.length_cons]
    omega
  rw [whole, scanMember, scanString_quote _ enough escapable, ok_bind]
  have colon : skip (58 :: 32 :: (text ++ rest)) = 58 :: 32 :: (text ++ rest) := rfl
  have blank : skip (32 :: (text ++ rest)) = skip (text ++ rest) := rfl
  simp only [colon, blank, reads.opens.skip_eq, reads.scans rest ends]
  rfl

section Values

variable {maxDigits indent level : Nat} {value : Value} {nested : Option Scanner}

/-- A number is told from a literal by its first characters. -/
theorem scanWith_number {text : List Nat} {c : Nat} {rest : List Nat} (isText : text = c :: rest)
    (digit : Decimal.IsDigit c ∨ c = 45 ∧ ∃ d more, rest = d :: more ∧ Decimal.IsDigit d) :
    scanWith maxDigits nested text = scanNumber maxDigits text := by
  have first : ∀ {other : Nat} {more : List Nat}, text = other :: more → c = other := by
    rintro other more isOther
    exact (List.cons.inj (isText.symm.trans isOther)).1
  have noDigit : ∀ {other : Nat} {more : List Nat}, ¬ Decimal.IsDigit other → other ≠ 45 →
      text ≠ other :: more := by
    intro other more notDigit notSign isOther
    rw [first isOther] at digit
    rcases digit with isDigit | ⟨isSign, -⟩
    · exact notDigit isDigit
    · exact notSign isSign
  rw [scanWith]
  · exact fun _ => noDigit (by decide) (by decide)
  · exact fun _ => noDigit (by decide) (by decide)
  · exact fun _ => noDigit (by decide) (by decide)
  · exact fun _ => noDigit (by decide) (by decide)
  · exact fun _ => noDigit (by decide) (by decide)
  · exact fun _ => noDigit (by decide) (by decide)
  · exact fun _ => noDigit (by decide) (by decide)
  · exact fun _ => noDigit (by decide) (by decide)
  · intro _ isInfinity
    rcases digit with isDigit | ⟨-, d, more, isRest, isDigit⟩
    · rw [first isInfinity] at isDigit
      exact absurd isDigit (by decide)
    · rw [isText, isRest] at isInfinity
      cases isInfinity
      exact absurd isDigit (by decide)

/-- Values without items and members are read back. -/
theorem scanWith_scalar (scalar : value.Scalar maxDigits) {rest : List Nat} (ends : Ends rest) :
    scanWith maxDigits nested (value.write indent level ++ rest) = .ok (value, rest) := by
  cases value with
  | null => rfl
  | bool truth => cases truth <;> rfl
  | int number =>
      obtain ⟨c, digits, written, isDigit, -⟩ := exists_write number.natAbs
      rw [Value.write, writeInt]
      split
      · rename_i negative
        rw [List.cons_append, scanWith_number rfl (.inr ⟨rfl, c, digits ++ rest, by rw [written]; rfl,
          isDigit⟩), (scanNumber_write ends scalar).2, Int.ofNat_natAbs_of_nonpos negative.le, neg_neg]
      · rename_i nonnegative
        rw [scanWith_number (by rw [written]; rfl) (.inl isDigit), (scanNumber_write ends scalar).1,
          Int.natAbs_of_nonneg (not_lt.mp nonnegative)]
  | float numeral => exact scalar.elim
  | string characters =>
      have enough : characters.length < (characters.flatMap escape ++ 34 :: rest).length := by
        have each := length_le_flatMap escape length_escape characters
        rw [List.length_append, List.length_cons]
        omega
      have whole : (Value.string characters).write indent level ++ rest =
          34 :: (characters.flatMap escape ++ 34 :: rest) := by
        simp [Value.write, quote]
      rw [whole, scanWith, scanString_quote rest enough scalar]
      rfl
  | array items => exact scalar.elim
  | object members => exact scalar.elim

theorem opens_scalar (scalar : value.Scalar maxDigits) : Opens (value.write indent level) := by
  cases value with
  | null => exact ⟨110, _, rfl, by decide, rfl, by decide, by decide⟩
  | bool truth =>
      cases truth with
      | false => exact ⟨102, _, rfl, by decide, rfl, by decide, by decide⟩
      | true => exact ⟨116, _, rfl, by decide, rfl, by decide, by decide⟩
  | int number =>
      obtain ⟨c, digits, written, ⟨least, most⟩, -⟩ := exists_write number.natAbs
      rw [Value.write, writeInt]
      split
      · exact ⟨45, _, rfl, by decide, rfl, by decide, by decide⟩
      · refine ⟨c, digits, written, by omega, ?_, by omega, by omega⟩
        simp only [isSpace, Bool.or_eq_false_iff, decide_eq_false_iff_not]
        omega
  | float numeral => exact scalar.elim
  | string characters => exact ⟨34, _, rfl, by decide, rfl, by decide, by decide⟩
  | array items => exact scalar.elim
  | object members => exact scalar.elim

theorem writeItems_eq (items : List Value) :
    writeItems indent level items = items.map (Value.write indent level) := by
  induction items with
  | nil => rfl
  | cons item items ih => rw [writeItems, ih, List.map_cons]

theorem writeMembers_eq (members : List (List Nat × Value)) :
    writeMembers indent level members = members.map fun member =>
      quote member.1 ++ [58, 32] ++ member.2.write indent level := by
  induction members with
  | nil => rfl
  | cons member members ih => rw [writeMembers, ih, List.map_cons]

theorem scalar_of_plain (plain : value.Plain maxDigits 0) : value.Scalar maxDigits := by
  rw [Value.Plain] at plain
  · exact plain
  · rintro _ _ ⟨⟩
  · rintro _ _ ⟨⟩

theorem Value.Scalar.plain (scalar : value.Scalar maxDigits) (depth : Nat) :
    value.Plain maxDigits depth := by
  cases depth with
  | zero =>
      rw [Value.Plain]
      · exact scalar
      · rintro _ _ ⟨⟩
      · rintro _ _ ⟨⟩
  | succ depth =>
      cases value with
      | array items => exact scalar.elim
      | object members => exact scalar.elim
      | _ => exact scalar

theorem forall₂_map {α : Type} {write : α → List Nat} {scan : ScannerOf α} {items : List α}
    (reads : ∀ item ∈ items, Reads scan (write item) item) :
    List.Forall₂ (Reads scan) (items.map write) items := by
  rw [List.forall₂_map_left_iff]
  exact List.forall₂_same.mpr reads

/-- **A value is read back** from the front of a text. -/
theorem scanOnce_write : ∀ {depth level : Nat} {value : Value}, value.Plain maxDigits depth →
    Reads (scanOnce maxDigits depth) (value.write indent level) value := by
  intro depth
  induction depth with
  | zero =>
      intro level value plain
      have scalar := scalar_of_plain plain
      exact ⟨opens_scalar scalar, fun rest ends => scanWith_scalar scalar ends⟩
  | succ depth ih =>
      intro level value plain
      cases value with
      | array items =>
          rw [Value.Plain] at plain
          have reads := forall₂_map fun item member => @ih (level + 1) _ (plain item member)
          refine ⟨⟨91, _, rfl, by decide, rfl, by decide, by decide⟩, fun rest _ => ?_⟩
          rw [Value.write, writeItems_eq, List.cons_append, scanOnce, scanWith,
            scanEnclosed_reads (.inl rfl) rest reads]
          rfl
      | object members =>
          rw [Value.Plain] at plain
          obtain ⟨nodup, plain⟩ := plain
          have reads := forall₂_map fun member inside =>
            scanMember_reads (plain member inside).1 (@ih (level + 1) _ (plain member inside).2)
          refine ⟨⟨123, _, rfl, by decide, rfl, by decide, by decide⟩, fun rest _ => ?_⟩
          rw [Value.write, writeMembers_eq, List.cons_append, scanOnce, scanWith,
            scanEnclosed_reads (.inr rfl) rest reads, ok_bind]
          dsimp only
          rw [Dict.items_ofItems nodup]
          rfl
      | null => exact ⟨opens_scalar plain, fun rest ends => scanWith_scalar plain ends⟩
      | bool truth => exact ⟨opens_scalar plain, fun rest ends => scanWith_scalar plain ends⟩
      | int number => exact ⟨opens_scalar plain, fun rest ends => scanWith_scalar plain ends⟩
      | float numeral => exact plain.elim
      | string characters => exact ⟨opens_scalar plain, fun rest ends => scanWith_scalar plain ends⟩

/-- **A text is parsed to the value that was written**, whatever space follows. -/
theorem parse_write {depth : Nat} (plain : value.Plain maxDigits depth) {rest : List Nat}
    (ends : Ends rest) (blank : skip rest = []) :
    parse maxDigits depth (value.write indent 0 ++ rest) = .ok value := by
  have reads : Reads _ (value.write indent 0) value := scanOnce_write plain
  have noMark : (value.write indent 0 ++ rest).head? ≠ some 0xFEFF := by
    obtain ⟨c, more, isText, small, -⟩ := reads.opens
    rw [isText, List.cons_append, List.head?_cons, Ne, Option.some.injEq]
    omega
  rw [parse, if_neg noMark, reads.opens.skip_eq, reads.scans rest ends, ok_bind]
  dsimp only
  rw [if_pos blank]
  rfl

theorem sortItems_eq (items : List Value) : sortItems items = items.map Value.sorted := by
  induction items with
  | nil => rfl
  | cons item items ih => rw [sortItems, ih, List.map_cons]

theorem sortMembers_eq (members : List (List Nat × Value)) :
    sortMembers members = members.map fun member => (member.1, member.2.sorted) := by
  induction members with
  | nil => rfl
  | cons member members ih => rw [sortMembers, ih, List.map_cons]

/-- Sorting names keeps a value plain. -/
theorem Value.Plain.sorted : ∀ {depth : Nat} {value : Value}, value.Plain maxDigits depth →
    value.sorted.Plain maxDigits depth := by
  intro depth
  induction depth with
  | zero =>
      intro value plain
      cases value with
      | array items => exact absurd plain (by simp [Value.Plain, Value.Scalar])
      | object members => exact absurd plain (by simp [Value.Plain, Value.Scalar])
      | _ => exact plain
  | succ depth ih =>
      intro value plain
      cases value with
      | array items =>
          rw [Value.Plain] at plain
          rw [Value.sorted, Value.Plain, sortItems_eq]
          intro item inside
          obtain ⟨item, inside', rfl⟩ := List.mem_map.mp inside
          exact ih (plain item inside')
      | object members =>
          rw [Value.Plain] at plain
          obtain ⟨nodup, plain⟩ := plain
          rw [Value.sorted, Value.Plain, sortMembers_eq]
          have perm := List.perm_insertionSort (fun member other : List Nat × Value => member.1 ≤ other.1)
            (members.map fun member => (member.1, member.2.sorted))
          constructor
          · rw [(perm.map Prod.fst).nodup_iff, List.map_map]
            exact nodup
          · intro member inside
            obtain ⟨member, inside', rfl⟩ := List.mem_map.mp (perm.mem_iff.mp inside)
            exact ⟨(plain member inside').1, ih (plain member inside').2⟩
      | _ => exact plain

/-- **A value is parsed back with its names in order.** -/
theorem parse_dumps {depth : Nat} (plain : value.Plain maxDigits depth) {rest : List Nat}
    (ends : Ends rest) (blank : skip rest = []) :
    parse maxDigits depth (value.dumps indent ++ rest) = .ok value.sorted :=
  parse_write plain.sorted ends blank

end Values

/-! ## What is written is ASCII -/

theorem hexCharacter_small : ∀ digit < 16, hexCharacter digit < 128 := by decide

theorem escapeUnit_ascii (unit : Nat) : ∀ d ∈ escapeUnit unit, d < 128 := by
  have small : ∀ number, hexCharacter (number % 16) < 128 := fun number =>
    hexCharacter_small _ (Nat.mod_lt _ (by decide))
  simp [escapeUnit, writeHex, small]

theorem escape_ascii (c : Nat) : ∀ d ∈ escape c, d < 128 := by
  rw [escape]
  split_ifs
  · decide
  · decide
  · decide
  · decide
  · decide
  · decide
  · decide
  · rintro d member
    rw [List.mem_singleton.mp member]
    omega
  · exact escapeUnit_ascii c
  · intro d member
    rcases List.mem_append.mp member with high | low
    · exact escapeUnit_ascii _ d high
    · exact escapeUnit_ascii _ d low

theorem quote_ascii (characters : List Nat) : ∀ d ∈ quote characters, d < 128 := by
  intro d member
  rw [quote, List.mem_cons, List.mem_append, List.mem_flatMap, List.mem_singleton] at member
  rcases member with rfl | ⟨c, -, escaped⟩ | rfl
  · decide
  · exact escape_ascii c d escaped
  · decide

theorem newline_ascii (indent level : Nat) : ∀ d ∈ newline indent level, d < 128 := by
  intro d member
  rcases List.mem_cons.mp member with rfl | blank
  · decide
  · rw [List.eq_of_mem_replicate blank]
    decide

theorem enclose_ascii {close : Nat} (small : close < 128) (indent level : Nat)
    {texts : List (List Nat)} (ascii : ∀ text ∈ texts, ∀ d ∈ text, d < 128) :
    ∀ d ∈ enclose close indent level texts, d < 128 := by
  cases texts with
  | nil =>
      intro d member
      rwa [List.mem_singleton.mp member]
  | cons first texts =>
      intro d member
      simp only [enclose, List.mem_append, List.mem_flatMap, List.mem_cons, List.not_mem_nil,
        or_false] at member
      rcases member with (((line | inFirst) | ⟨text, inside, (rfl | line) | inText⟩) | line) | rfl
      · exact newline_ascii _ _ d line
      · exact ascii first List.mem_cons_self d inFirst
      · decide
      · exact newline_ascii _ _ d line
      · exact ascii text (List.mem_cons_of_mem _ inside) d inText
      · exact newline_ascii _ _ d line
      · exact small

section Ascii

variable {maxDigits indent : Nat}

theorem writeInt_ascii (number : Int) : ∀ d ∈ writeInt number, d < 128 := by
  have digits : ∀ d ∈ Decimal.write number.natAbs, d < 128 := fun d member =>
    (Decimal.isDigit_write member).2.trans_lt (by decide)
  intro d member
  rw [writeInt] at member
  split at member
  · rcases List.mem_cons.mp member with rfl | inDigits
    · decide
    · exact digits d inDigits
  · exact digits d member

theorem scalar_ascii {value : Value} (scalar : value.Scalar maxDigits) (level : Nat) :
    ∀ d ∈ value.write indent level, d < 128 := by
  cases value with
  | null =>
      rw [Value.write]
      decide
  | bool truth => cases truth <;> (rw [Value.write]; decide)
  | int number => exact writeInt_ascii number
  | float numeral => exact scalar.elim
  | string characters => exact quote_ascii characters
  | array items => exact scalar.elim
  | object members => exact scalar.elim

/-- **The text of a value is ASCII.** -/
theorem write_ascii : ∀ {depth level : Nat} {value : Value}, value.Plain maxDigits depth →
    ∀ d ∈ value.write indent level, d < 128 := by
  intro depth
  induction depth with
  | zero =>
      intro level value plain
      exact scalar_ascii (scalar_of_plain plain) level
  | succ depth ih =>
      intro level value plain
      cases value with
      | array items =>
          rw [Value.Plain] at plain
          intro d member
          rw [Value.write, writeItems_eq, List.mem_cons] at member
          rcases member with rfl | member
          · decide
          · refine enclose_ascii (by decide) _ _ ?_ d member
            intro text inside
            obtain ⟨item, inside', rfl⟩ := List.mem_map.mp inside
            exact ih (plain item inside')
      | object members =>
          rw [Value.Plain] at plain
          intro d member
          rw [Value.write, writeMembers_eq, List.mem_cons] at member
          rcases member with rfl | member
          · decide
          · refine enclose_ascii (by decide) _ _ ?_ d member
            intro text inside c isIn
            obtain ⟨member, inside', rfl⟩ := List.mem_map.mp inside
            simp only [List.mem_append, List.mem_cons, List.not_mem_nil, or_false] at isIn
            rcases isIn with (inName | rfl | rfl) | inValue
            · exact quote_ascii _ c inName
            · decide
            · decide
            · exact ih (plain.2 member inside').2 c inValue
      | null => exact scalar_ascii plain level
      | bool truth => exact scalar_ascii plain level
      | int number => exact scalar_ascii plain level
      | float numeral => exact plain.elim
      | string characters => exact scalar_ascii plain level

end Ascii

end Json
