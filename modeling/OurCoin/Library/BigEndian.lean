import Mathlib

/-!
# Big-endian numbers

A byte string read as a number in base 256, most significant byte first, and a
number written with a fixed number of bytes. Writing a number that fits and
reading it back gives the number (`ofBytes_toBytes`), and reading a byte string and
writing it back with its own length gives the byte string (`toBytes_ofBytes`). Numbers
written with one width compare as their bytes do (`toBytes_lt`).
-/

set_option autoImplicit false

/-- A byte string. -/
abbrev Bytes : Type := List UInt8

namespace BigEndian

/-- `int.from_bytes(data, "big")`. -/
def ofBytes (data : Bytes) : Nat :=
  data.foldl (fun value byte => value * 256 + byte.toNat) 0

/-- `value.to_bytes(width, "big")`, for a value that fits. A larger value is
reduced modulo `256 ^ width`. -/
def toBytes : Nat → Nat → Bytes
  | 0, _ => []
  | width + 1, value => toBytes width (value / 256) ++ [UInt8.ofNat (value % 256)]

@[simp] theorem length_toBytes (width value : Nat) : (toBytes width value).length = width := by
  induction width generalizing value with
  | zero => rfl
  | succ width ih => simp [toBytes, ih]

@[simp] theorem ofBytes_nil : ofBytes [] = 0 := rfl

theorem ofBytes_concat (data : Bytes) (byte : UInt8) :
    ofBytes (data ++ [byte]) = ofBytes data * 256 + byte.toNat := by
  simp [ofBytes]

/-- **Reading what was written gives the number.** -/
theorem ofBytes_toBytes {width value : Nat} (fits : value < 256 ^ width) :
    ofBytes (toBytes width value) = value := by
  induction width generalizing value with
  | zero =>
      have zero : value = 0 := by simpa using fits
      rw [zero, toBytes, ofBytes_nil]
  | succ width ih =>
      have quotient : value / 256 < 256 ^ width := by
        rw [pow_succ] at fits
        exact Nat.div_lt_of_lt_mul (by rwa [Nat.mul_comm] at fits)
      have digit : (UInt8.ofNat (value % 256)).toNat = value % 256 := by
        rw [UInt8.toNat_ofNat']
        omega
      rw [toBytes, ofBytes_concat, ih quotient, digit]
      omega

/-- **Writing what was read gives the bytes.** -/
theorem toBytes_ofBytes (data : Bytes) : toBytes data.length (ofBytes data) = data := by
  induction data using List.reverseRecOn with
  | nil => rfl
  | append_singleton data byte ih =>
      have small : byte.toNat < 256 := byte.toNat_lt
      have quotient : (ofBytes data * 256 + byte.toNat) / 256 = ofBytes data := by omega
      have remainder : (ofBytes data * 256 + byte.toNat) % 256 = byte.toNat := by omega
      rw [List.length_append, List.length_singleton, toBytes, ofBytes_concat, quotient, remainder,
        ih, UInt8.ofNat_toNat]

/-- A byte string of a given length holds a number below the power of 256. -/
theorem ofBytes_lt (data : Bytes) : ofBytes data < 256 ^ data.length := by
  induction data using List.reverseRecOn with
  | nil => simp
  | append_singleton data byte ih =>
      have small : byte.toNat < 256 := byte.toNat_lt
      rw [ofBytes_concat, List.length_append, List.length_singleton, pow_succ]
      omega

/-- Numbers that fit are written differently when they differ. -/
theorem toBytes_injective {width first second : Nat} (firstFits : first < 256 ^ width)
    (secondFits : second < 256 ^ width) (same : toBytes width first = toBytes width second) :
    first = second := by
  rw [← ofBytes_toBytes firstFits, ← ofBytes_toBytes secondFits, same]

/-! ## Order -/

/-- Lists of one length that differ keep their order when they are continued. -/
theorem append_lt_append {first second : List Nat} (sameLength : first.length = second.length)
    (less : first < second) (x y : List Nat) : first ++ x < second ++ y := by
  induction first generalizing second with
  | nil =>
      rw [List.length_nil, eq_comm, List.length_eq_zero_iff] at sameLength
      subst sameLength
      exact absurd less (lt_irrefl _)
  | cons a first ih =>
      cases second with
      | nil => cases sameLength
      | cons b second =>
          rw [List.cons_append, List.cons_append]
          rcases List.cons_lt_cons_iff.mp less with smaller | ⟨rfl, rest⟩
          · exact List.cons_lt_cons_iff.mpr (.inl smaller)
          · exact List.cons_lt_cons_iff.mpr (.inr ⟨rfl, ih (Nat.succ.inj sameLength) rest⟩)

/-- **The bytes of a smaller number are smaller**, compared from the first on. -/
theorem toBytes_lt {width first second : Nat} (less : first < second)
    (fits : second < 256 ^ width) :
    (toBytes width first).map UInt8.toNat < (toBytes width second).map UInt8.toNat := by
  induction width generalizing first second with
  | zero =>
      rw [pow_zero] at fits
      omega
  | succ width ih =>
      have quotient : second / 256 < 256 ^ width := by
        rw [pow_succ] at fits
        exact Nat.div_lt_of_lt_mul (by rwa [Nat.mul_comm] at fits)
      have digit : ∀ n : Nat, (UInt8.ofNat (n % 256)).toNat = n % 256 := by
        intro n
        rw [UInt8.toNat_ofNat']
        omega
      rw [toBytes, toBytes, List.map_append, List.map_append, List.map_singleton,
        List.map_singleton, digit, digit]
      by_cases higher : first / 256 < second / 256
      · exact append_lt_append (by simp) (ih higher quotient) _ _
      · have same : first / 256 = second / 256 := by omega
        have lower : first % 256 < second % 256 := by omega
        rw [same]
        exact List.append_left_lt (List.cons_lt_cons_iff.mpr (.inl lower))

end BigEndian
