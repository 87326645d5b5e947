import Mathlib.Data.Nat.Digits.Lemmas
import Mathlib.Tactic.Ring

/-!
# Decimal numerals

Numbers as strings of decimal digits, given by their code points.

* `value_append`: the value of a numeral that is split in two.
* `value_write`: a number that is written and read is the same, and so it is with leading
  zeros (`value_pad`).
* `length_write_le`: how long a numeral gets.
-/

set_option autoImplicit false

namespace Decimal

/-- The code points of the digits `0` to `9`. -/
def IsDigit (c : Nat) : Prop := 48 ≤ c ∧ c ≤ 57

instance (c : Nat) : Decidable (IsDigit c) := inferInstanceAs (Decidable (48 ≤ c ∧ c ≤ 57))

/-- The number that a string of digits stands for. -/
def value (digits : List Nat) : Nat := digits.foldl (fun value c => value * 10 + (c - 48)) 0

/-- A number without leading zeros. -/
def write (number : Nat) : List Nat :=
  if number = 0 then [48] else (Nat.digits 10 number).reverse.map (48 + ·)

/-- Leading zeros up to a width. -/
def pad (width : Nat) (digits : List Nat) : List Nat :=
  List.replicate (width - digits.length) 48 ++ digits

/-! ## Reading -/

@[simp] theorem value_nil : value [] = 0 := rfl

theorem value_concat (front : List Nat) (c : Nat) :
    value (front ++ [c]) = value front * 10 + (c - 48) := by
  rw [value, List.foldl_append]
  rfl

/-- **A numeral that is split in two.** -/
theorem value_append (front back : List Nat) :
    value (front ++ back) = value front * 10 ^ back.length + value back := by
  induction back using List.reverseRecOn with
  | nil => rw [List.append_nil, List.length_nil, pow_zero, mul_one, value_nil, Nat.add_zero]
  | append_singleton back c ih =>
      rw [← List.append_assoc, value_concat, ih, value_concat, List.length_append,
        List.length_singleton, pow_succ]
      ring

@[simp] theorem value_zeros (count : Nat) : value (List.replicate count 48) = 0 := by
  induction count with
  | zero => rfl
  | succ count ih => rw [List.replicate_succ', value_concat, ih]

/-- Leading zeros count for nothing. -/
theorem value_pad (width : Nat) (digits : List Nat) : value (pad width digits) = value digits := by
  rw [pad, value_append, value_zeros, Nat.zero_mul, Nat.zero_add]

/-! ## Writing -/

/-- **Reading what was written gives the number.** -/
theorem value_write (number : Nat) : value (write number) = number := by
  rw [write]
  split
  · rename_i zero
    rw [zero]
    rfl
  · -- The digits of a number are listed from the last one.
    have folded : ∀ digits : List Nat,
        value (digits.reverse.map (48 + ·)) = Nat.ofDigits 10 digits := by
      intro digits
      induction digits with
      | nil => rfl
      | cons digit digits ih =>
          rw [List.reverse_cons, List.map_append, List.map_singleton, value_concat, ih,
            Nat.ofDigits_cons, Nat.add_sub_cancel_left, Nat.mul_comm, Nat.add_comm]
    rw [folded, Nat.ofDigits_digits]

theorem isDigit_write {number c : Nat} (member : c ∈ write number) : IsDigit c := by
  rw [write] at member
  split at member
  · rw [List.mem_singleton.mp member]
    decide
  · obtain ⟨digit, digitMem, rfl⟩ := List.mem_map.mp member
    have small : digit < 10 := Nat.digits_lt_base (by decide) (List.mem_reverse.mp digitMem)
    rw [IsDigit]
    omega

theorem write_ne_nil (number : Nat) : write number ≠ [] := by
  rw [write]
  split
  · exact List.cons_ne_nil _ _
  · rename_i positive
    rw [Ne, List.map_eq_nil_iff, List.reverse_eq_nil_iff]
    exact Nat.digits_ne_nil_iff_ne_zero.mpr positive

/-- **How long a numeral gets.** -/
theorem length_write_le {number width : Nat} (small : number < 10 ^ width) (positive : 0 < width) :
    (write number).length ≤ width := by
  rw [write]
  split
  · exact positive
  · rw [List.length_map, List.length_reverse]
    exact (Nat.digits_length_le_iff (by decide) number).mpr small

theorem isDigit_pad {width number c : Nat} (member : c ∈ pad width (write number)) : IsDigit c := by
  rcases List.mem_append.mp member with zero | digit
  · rw [List.eq_of_mem_replicate zero]
    decide
  · exact isDigit_write digit

theorem length_pad {width : Nat} {digits : List Nat} (fits : digits.length ≤ width) :
    (pad width digits).length = width := by
  rw [pad, List.length_append, List.length_replicate]
  omega

end Decimal
