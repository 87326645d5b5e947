import Mathlib.Algebra.Order.Field.Basic
import Mathlib.Tactic.FieldSimp
import OurCoin.Model.Amount

/-!
# Amount text is exact fixed point

`parse_our_amount` accepts exactly the plain decimals with up to eight decimal places, and
gives their exact value in atoms.

* `partition_eq_iff`: what splitting a text at its first point finds.
* `amountText_iff`: the grammar, by the parts that the code looks at.
* `atomsOf_eq`: padding the fraction on the right is multiplying by 10^8.
* `parseOurAmount_eq_ok` puts this together, and `parseOurAmount_formatAtoms` is the way back.
-/

set_option autoImplicit false

namespace OurCoin

open Raising

/-! ## Splitting and stripping -/

/-- The parts around the first separator. -/
theorem partition_append {before after : Text} {separator : Nat} (first : separator ∉ before) :
    partition (before ++ separator :: after) separator = (before, [separator], after) := by
  have others : ∀ c ∈ before, decide (c ≠ separator) = true := by
    intro c member
    exact decide_eq_true fun same => first (same ▸ member)
  have stops : decide (separator ≠ separator) = false := decide_eq_false fun differ => differ rfl
  rw [partition, List.dropWhile_append_of_pos others, List.dropWhile_cons, stops,
    if_neg Bool.false_ne_true, List.takeWhile_append_of_pos others, List.takeWhile_cons, stops,
    if_neg Bool.false_ne_true, List.append_nil]

theorem partition_of_not_mem {value : Text} {separator : Nat} (absent : separator ∉ value) :
    partition value separator = (value, [], []) := by
  have others : ∀ c ∈ value, decide (c ≠ separator) = true := by
    intro c member
    exact decide_eq_true fun same => absent (same ▸ member)
  rw [partition, List.dropWhile_eq_nil_iff.mpr others]

/-- **What splitting finds.** -/
theorem partition_eq_iff {value before found after : Text} {separator : Nat} :
    partition value separator = (before, found, after) ↔
      separator ∉ before ∧ (found = [] ∧ after = [] ∧ value = before ∨
        found = [separator] ∧ value = before ++ separator :: after) := by
  constructor
  · intro split
    by_cases present : separator ∈ value
    · obtain ⟨front, back, rfl, first⟩ := List.eq_append_cons_of_mem present
      rw [partition_append first] at split
      cases split
      exact ⟨first, .inr ⟨rfl, rfl⟩⟩
    · rw [partition_of_not_mem present] at split
      cases split
      exact ⟨present, .inl ⟨rfl, rfl, rfl⟩⟩
  · rintro ⟨first, ⟨rfl, rfl, rfl⟩ | ⟨rfl, rfl⟩⟩
    · exact partition_of_not_mem first
    · exact partition_append first

/-- A text without whitespace is stripped of nothing. -/
theorem strip_eq_self {value : Text} (plain : ∀ c ∈ value, ¬ isSpace c) : strip value = value := by
  have none : ∀ {text : Text}, (∀ c ∈ text, ¬ isSpace c) →
      text.dropWhile (isSpace ·) = text := by
    intro text plain
    cases text with
    | nil => rfl
    | cons c rest =>
        rw [List.dropWhile_cons, decide_eq_false (plain c List.mem_cons_self),
          if_neg Bool.false_ne_true]
  rw [strip, none plain, none fun c member => plain c (List.mem_reverse.mp member),
    List.reverse_reverse]

/-! ## The grammar -/

/-- One or more digits, and at most eight more after a point. -/
inductive AmountText : Text → Text → Text → Prop
  | plain {whole : Text} : isDecimal whole → AmountText whole whole []
  | pointed {whole fraction : Text} : isDecimal whole → isDecimal fraction → fraction.length ≤ 8 →
      AmountText (whole ++ 46 :: fraction) whole fraction

/-- The number that the two parts of an amount stand for. -/
def decimalValue (whole fraction : Text) : ℚ :=
  Decimal.value whole + Decimal.value fraction / 10 ^ fraction.length

/-- The atoms that the code computes from the two parts. -/
def atomsOf (whole fraction : Text) : Int :=
  Decimal.value whole * atomsPerOur + Decimal.value (ljust fraction 8 48)

theorem isDecimal.isAscii {value : Text} (decimal : isDecimal value) : isAscii value := by
  intro c member
  obtain ⟨-, upper⟩ := decimal.2 c member
  omega

/-- Digits are neither points nor whitespace. -/
theorem isDecimal.not_mem_point {value : Text} (decimal : isDecimal value) : 46 ∉ value := by
  intro member
  obtain ⟨lower, -⟩ := decimal.2 46 member
  omega

theorem isDecimal.not_isSpace {value : Text} (decimal : isDecimal value) :
    ∀ c ∈ value, ¬ isSpace c := by
  intro c member
  obtain ⟨lower, upper⟩ := decimal.2 c member
  rw [isSpace]
  omega

namespace AmountText

variable {value whole fraction : Text}

theorem nonempty (amount : AmountText value whole fraction) : value ≠ [] := by
  cases amount with
  | plain wholeOk => exact wholeOk.1
  | pointed wholeOk _ _ => exact fun empty => wholeOk.1 (List.append_eq_nil_iff.mp empty).1

theorem strip_eq (amount : AmountText value whole fraction) : strip value = value := by
  apply strip_eq_self
  cases amount with
  | plain wholeOk => exact wholeOk.not_isSpace
  | pointed wholeOk fractionOk _ =>
      intro c member
      rcases List.mem_append.mp member with inWhole | rest
      · exact wholeOk.not_isSpace c inWhole
      · rcases List.mem_cons.mp rest with rfl | inFraction
        · decide
        · exact fractionOk.not_isSpace c inFraction

end AmountText

/-- **The grammar, by the parts around the first point.** -/
theorem amountText_iff {value whole fraction : Text} :
    AmountText value whole fraction ↔
      ∃ separator, partition value 46 = (whole, separator, fraction) ∧ isDecimal whole ∧
        (separator ≠ [] → isDecimal fraction) ∧ fraction.length ≤ 8 := by
  constructor
  · intro amount
    cases amount with
    | plain wholeOk =>
        exact ⟨[], partition_of_not_mem wholeOk.not_mem_point, wholeOk, fun some => absurd rfl some,
          Nat.zero_le _⟩
    | pointed wholeOk fractionOk short =>
        exact ⟨[46], partition_append wholeOk.not_mem_point, wholeOk, fun _ => fractionOk, short⟩
  · rintro ⟨separator, split, wholeOk, fractionOk, short⟩
    obtain ⟨-, ⟨rfl, rfl, rfl⟩ | ⟨rfl, rfl⟩⟩ := partition_eq_iff.mp split
    · exact .plain wholeOk
    · exact .pointed wholeOk (fractionOk (List.cons_ne_nil _ _)) short

/-! ## Values -/

theorem intFromText_eq_ok {digits : Text} {number : Int} :
    intFromText digits = .ok number ↔
      digits.length ≤ intMaxStrDigits ∧ (Decimal.value digits : Int) = number := by
  simp only [intFromText, bind_eq_ok, raiseIf_eq_ok, exists_const, pure_eq_ok, gt_iff_lt, not_lt]

/-- **Padding a fraction is scaling it.** -/
theorem atomsOf_eq {whole fraction : Text} (short : fraction.length ≤ 8) :
    (atomsOf whole fraction : ℚ) = decimalValue whole fraction * 10 ^ 8 := by
  have padded : Decimal.value (ljust fraction 8 48) =
      Decimal.value fraction * 10 ^ (8 - fraction.length) := by
    rw [ljust, Decimal.value_append, Decimal.value_zeros, List.length_replicate, Nat.add_zero]
  have scale : (10 : ℚ) ^ 8 = 10 ^ fraction.length * 10 ^ (8 - fraction.length) := by
    rw [← pow_add, Nat.add_sub_of_le short]
  have positive : (10 : ℚ) ^ fraction.length ≠ 0 := pow_ne_zero _ (by norm_num)
  have shifted : (Decimal.value fraction : ℚ) / 10 ^ fraction.length * 10 ^ 8 =
      Decimal.value fraction * 10 ^ (8 - fraction.length) := by
    rw [scale, ← mul_assoc, div_mul_cancel₀ _ positive]
  rw [decimalValue, add_mul, shifted, atomsOf, padded, atomsPerOur]
  push_cast
  norm_num

/-! ## `parse_our_amount` -/

/-- The padded fraction has eight digits. -/
theorem length_ljust {fraction : Text} (short : fraction.length ≤ 8) :
    (ljust fraction 8 48).length = 8 := by
  rw [ljust, List.length_append, List.length_replicate]
  omega

/-- So `or "0"` never applies. -/
theorem ljust_ne_nil (fraction : Text) : ljust fraction 8 48 ≠ [] := by
  intro empty
  have length := congrArg List.length empty
  rw [ljust, List.length_append, List.length_replicate, List.length_nil] at length
  omega

/-- **What is accepted, and the atoms that it stands for.** -/
theorem parseOurAmount_eq_ok {value : Text} {allowZero : Bool} {atoms : Int} :
    parseOurAmount value allowZero = .ok atoms ↔
      ∃ whole fraction, AmountText value whole fraction ∧ whole.length ≤ intMaxStrDigits ∧
        atomsOf whole fraction = atoms ∧ atoms ≤ u64Max ∧ (atoms = 0 → allowZero = true) := by
  rcases split : partition value 46 with ⟨whole, separator, fraction⟩
  have computed : parseOurAmount value allowZero = .ok atoms ↔
      (value ≠ [] ∧ strip value = value) ∧ (isAscii whole ∧ isDecimal whole) ∧
        (separator ≠ [] → fraction ≠ [] ∧ isAscii fraction ∧ isDecimal fraction) ∧
        fraction.length ≤ 8 ∧ whole.length ≤ intMaxStrDigits ∧ atomsOf whole fraction = atoms ∧
        atoms ≤ u64Max ∧ (atoms = 0 → allowZero = true) := by
    rw [parseOurAmount, split]
    simp only [bind_eq_ok, raiseIf_eq_ok, exists_const, intFromText_eq_ok, pure_eq_ok,
      if_neg (ljust_ne_nil fraction), not_or, not_and, not_not, gt_iff_lt, not_lt, Ne,
      Bool.not_eq_false]
    constructor
    · rintro ⟨given, wholeOk, fractionOk, short, _, ⟨within, rfl⟩, _, ⟨-, rfl⟩, fits, positive, rfl⟩
      exact ⟨given, wholeOk, fractionOk, short, within, rfl, fits, positive⟩
    · rintro ⟨given, wholeOk, fractionOk, short, within, rfl, fits, positive⟩
      have within' : (ljust fraction 8 48).length ≤ intMaxStrDigits := by
        rw [length_ljust short]
        decide
      exact ⟨given, wholeOk, fractionOk, short, _, ⟨within, rfl⟩, _, ⟨within', rfl⟩, fits, positive,
        rfl⟩
  rw [computed]
  constructor
  · rintro ⟨-, ⟨-, wholeOk⟩, fractionOk, short, within, rest⟩
    exact ⟨whole, fraction, amountText_iff.mpr ⟨separator, split, wholeOk,
      fun some => (fractionOk some).2.2, short⟩, within, rest⟩
  · rintro ⟨whole', fraction', amount, within, rest⟩
    obtain ⟨separator', split', wholeOk, fractionOk, short⟩ := amountText_iff.mp amount
    cases split.symm.trans split'
    exact ⟨⟨amount.nonempty, amount.strip_eq⟩, ⟨wholeOk.isAscii, wholeOk⟩,
      fun some => ⟨(fractionOk some).1, (fractionOk some).isAscii, fractionOk some⟩, short, within,
      rest⟩

theorem raisesOnly_cliError {bad : Prop} [Decidable bad] (message : String) :
    RaisesOnly (fun e => e.cls = .cliError) (raiseIf bad (cliError message)) :=
  RaisesOnly.raiseIf rfl

/-- **Whatever is refused is refused with a `CliError`**, unless the whole part is too long for
`int`. -/
theorem raisesOnly_parseOurAmount {value : Text} (allowZero : Bool)
    (within : (partition value 46).1.length ≤ intMaxStrDigits) :
    RaisesOnly (fun e => e.cls = .cliError) (parseOurAmount value allowZero) := by
  rcases split : partition value 46 with ⟨whole, separator, fraction⟩
  rw [split] at within
  dsimp only at within
  -- Both conversions succeed.
  have wholeOk := intFromText_eq_ok.mpr ⟨within, rfl⟩
  rw [parseOurAmount, split]
  apply RaisesOnly.bind (raisesOnly_cliError _)
  intro _ _
  apply RaisesOnly.bind (raisesOnly_cliError _)
  intro _ _
  apply RaisesOnly.bind (raisesOnly_cliError _)
  intro _ _
  apply RaisesOnly.bind (raisesOnly_cliError _)
  intro _ checked
  have short := Nat.le_of_not_lt (raiseIf_eq_ok.mp checked)
  have fractionOk := intFromText_eq_ok.mpr ⟨(length_ljust short).trans_le (by decide), rfl⟩
  dsimp only
  rw [if_neg (ljust_ne_nil fraction), wholeOk, ok_bind, fractionOk, ok_bind]
  apply RaisesOnly.bind (raisesOnly_cliError _)
  intro _ _
  apply RaisesOnly.bind (raisesOnly_cliError _)
  intro _ _
  exact RaisesOnly.pure _

/-! ## `format_atoms` -/

/-- **Every amount is read back from its text.** -/
theorem parseOurAmount_formatAtoms {atoms : Int} (range : 0 ≤ atoms ∧ atoms ≤ u64Max) :
    ∃ written, formatAtoms atoms = .ok written ∧ parseOurAmount written true = .ok atoms := by
  have unit : (0 : Int) < atomsPerOur := by decide
  have fractionSmall : (atoms % atomsPerOur).toNat < 10 ^ 8 := by
    have small := Int.emod_lt_of_pos atoms unit
    rw [atomsPerOur] at small ⊢
    omega
  have wholeSmall : (atoms / atomsPerOur).toNat < 10 ^ 20 := by
    have bounded := range.2
    rw [u64Max] at bounded
    rw [atomsPerOur]
    omega
  have length : (Decimal.pad 8 (Decimal.write (atoms % atomsPerOur).toNat)).length = 8 :=
    Decimal.length_pad (Decimal.length_write_le fractionSmall (by decide))
  have nonempty : Decimal.pad 8 (Decimal.write (atoms % atomsPerOur).toNat) ≠ [] := by
    intro empty
    rw [empty] at length
    cases length
  have parts := AmountText.pointed
    ⟨Decimal.write_ne_nil (atoms / atomsPerOur).toNat, fun c => Decimal.isDigit_write⟩
    ⟨nonempty, fun c => Decimal.isDigit_pad⟩ length.le
  refine ⟨_, ?_, parseOurAmount_eq_ok.mpr ⟨_, _, parts, ?_, ?_, range.2, fun _ => rfl⟩⟩
  · rw [formatAtoms, bind_eq_ok]
    refine ⟨(), raiseIf_eq_ok.mpr (not_not.mpr range), ?_⟩
    rw [pure_eq_ok, List.append_assoc]
    rfl
  · exact (Decimal.length_write_le wholeSmall (by decide)).trans (by decide)
  · rw [atomsOf, ljust, length, Nat.sub_self, List.replicate_zero, List.append_nil,
      Decimal.value_write, Decimal.value_pad, Decimal.value_write,
      Int.toNat_of_nonneg (Int.ediv_nonneg range.1 unit.le),
      Int.toNat_of_nonneg (Int.emod_nonneg _ unit.ne')]
    exact Int.ediv_mul_add_emod atoms atomsPerOur

/-- **Amount text is exact fixed point**, for every text with a whole part that `int` takes. -/
theorem parseOurAmount_exact {value : Text} (allowZero : Bool)
    (within : (partition value 46).1.length ≤ intMaxStrDigits) :
    (∀ atoms : Int, parseOurAmount value allowZero = .ok atoms ↔
      ∃ whole fraction, AmountText value whole fraction ∧
        (atoms : ℚ) = decimalValue whole fraction * 10 ^ 8 ∧ atoms ≤ 2 ^ 64 - 1 ∧
        (0 < atoms ∨ atoms = 0 ∧ allowZero = true)) ∧
      (∀ e, parseOurAmount value allowZero = .error e → e.cls = .cliError) ∧
      ∀ atoms : Int, 0 ≤ atoms → atoms ≤ 2 ^ 64 - 1 →
        ∃ written, formatAtoms atoms = .ok written ∧ parseOurAmount written true = .ok atoms := by
  refine ⟨?_, raisesOnly_parseOurAmount allowZero within,
    fun atoms nonneg bounded => parseOurAmount_formatAtoms ⟨nonneg, bounded⟩⟩
  intro atoms
  rw [parseOurAmount_eq_ok]
  constructor
  · rintro ⟨whole, fraction, amount, -, rfl, bounded, zero⟩
    obtain ⟨-, -, -, -, short⟩ := amountText_iff.mp amount
    have nonneg : 0 ≤ atomsOf whole fraction := by
      rw [atomsOf, atomsPerOur]
      omega
    refine ⟨whole, fraction, amount, atomsOf_eq short, bounded, ?_⟩
    rcases nonneg.lt_or_eq with positive | isZero
    · exact .inl positive
    · exact .inr ⟨isZero.symm, zero isZero.symm⟩
  · rintro ⟨whole, fraction, amount, exact, bounded, positive⟩
    obtain ⟨separator, split, -, -, short⟩ := amountText_iff.mp amount
    have same : atomsOf whole fraction = atoms := by
      have equal := (atomsOf_eq short).trans exact.symm
      exact_mod_cast equal
    rw [split] at within
    refine ⟨whole, fraction, amount, within, same, bounded, ?_⟩
    rintro rfl
    rcases positive with impossible | ⟨-, allowed⟩
    · exact absurd impossible (lt_irrefl 0)
    · exact allowed

/-- Twelve and a half. -/
theorem parseOurAmount_exact_half : parseOurAmount (text "12.5") false = .ok 1250000000 := by
  have parts : AmountText (text "12.5") (text "12") (text "5") :=
    @AmountText.pointed (text "12") (text "5") (by decide) (by decide) (by decide)
  refine ((@parseOurAmount_exact (text "12.5") false (by decide)).1 1250000000).mpr
    ⟨_, _, parts, ?_, by norm_num, .inl (by norm_num)⟩
  have whole : Decimal.value (text "12") = 12 := by decide
  have fraction : Decimal.value (text "5") = 5 := by decide
  have length : (text "5").length = 1 := by decide
  rw [decimalValue, whole, fraction, length]
  norm_num

end OurCoin
