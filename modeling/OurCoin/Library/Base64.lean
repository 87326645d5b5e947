import Mathlib.Data.List.Basic
import Mathlib.Tactic.Ring

/-!
# Base64

Bytes as characters of the standard alphabet, given by their code points, with padding. The
decoder is the strict one: it takes nothing but whole groups of four characters, of which the
last may be padded. Bits that a padded group has left over are not looked at.

* `decode_encode`: bytes that are encoded and decoded are the same.
* `length_encode`, `encode_range`: how long the text is, and which characters it has.
-/

set_option autoImplicit false

namespace Base64

/-- The character of a number below 64. -/
def character (sextet : Nat) : Nat :=
  if sextet < 26 then 65 + sextet
  else if sextet < 52 then 71 + sextet
  else if sextet < 62 then sextet - 4
  else if sextet = 62 then 43
  else 47

/-- The value of a character of the alphabet. -/
def sextet (c : Nat) : Option Nat :=
  if 65 ≤ c ∧ c ≤ 90 then some (c - 65)
  else if 97 ≤ c ∧ c ≤ 122 then some (c - 71)
  else if 48 ≤ c ∧ c ≤ 57 then some (c + 4)
  else if c = 43 then some 62
  else if c = 47 then some 63
  else none

/-- `base64.b64encode(data)`. -/
def encode : List UInt8 → List Nat
  | a :: b :: c :: rest =>
    character (a.toNat / 4) :: character (a.toNat % 4 * 16 + b.toNat / 16) ::
      character (b.toNat % 16 * 4 + c.toNat / 64) :: character (c.toNat % 64) :: encode rest
  | [a, b] =>
    [character (a.toNat / 4), character (a.toNat % 4 * 16 + b.toNat / 16),
      character (b.toNat % 16 * 4), 61]
  | [a] => [character (a.toNat / 4), character (a.toNat % 4 * 16), 61, 61]
  | [] => []

/-- A last group, which is padded. -/
def decodePadded (a b c : Nat) : Option (List UInt8) :=
  if c = 61 then
    match sextet a, sextet b with
    | some a, some b => some [UInt8.ofNat (a * 4 + b / 16)]
    | _, _ => none
  else
    match sextet a, sextet b, sextet c with
    | some a, some b, some c =>
      some [UInt8.ofNat (a * 4 + b / 16), UInt8.ofNat (b % 16 * 16 + c / 4)]
    | _, _, _ => none

/-- `base64.b64decode(text, validate=True)`. -/
def decode : List Nat → Option (List UInt8)
  | [] => some []
  | a :: b :: c :: d :: rest =>
    if d = 61 ∧ rest = [] then decodePadded a b c
    else
      match sextet a, sextet b, sextet c, sextet d with
      | some a, some b, some c, some d =>
        (decode rest).map fun decoded => UInt8.ofNat (a * 4 + b / 16) ::
          UInt8.ofNat (b % 16 * 16 + c / 4) :: UInt8.ofNat (c % 4 * 64 + d) :: decoded
      | _, _, _, _ => none
  | _ => none

/-! ## Round trip -/

theorem sextet_character : ∀ number < 64, sextet (character number) = some number := by decide

/-- No character of the alphabet is the padding. -/
theorem character_range : ∀ number < 64,
    32 ≤ character number ∧ character number ≤ 126 ∧ character number ≠ 34 ∧
      character number ≠ 92 ∧ character number ≠ 61 := by
  decide

theorem ofNat_eq {byte : UInt8} {number : Nat} (same : number = byte.toNat) :
    UInt8.ofNat number = byte := by
  rw [same, UInt8.ofNat_toNat]

/-- **Bytes that are encoded and decoded are the same.** -/
theorem decode_encode (data : List UInt8) : decode (encode data) = some data := by
  fun_induction encode data with
  | case1 a b c rest ih =>
      have aSmall := a.toNat_lt
      have bSmall := b.toNat_lt
      have cSmall := c.toNat_lt
      have unpadded := (character_range (c.toNat % 64) (by omega)).2.2.2.2
      rw [decode, if_neg (fun padded => unpadded padded.1), sextet_character _ (by omega),
        sextet_character _ (by omega), sextet_character _ (by omega), sextet_character _ (by omega)]
      dsimp only
      rw [ih, Option.map_some, @ofNat_eq a _ (by omega), @ofNat_eq b _ (by omega),
        @ofNat_eq c _ (by omega)]
  | case2 a b =>
      have aSmall := a.toNat_lt
      have bSmall := b.toNat_lt
      have unpadded := (character_range (b.toNat % 16 * 4) (by omega)).2.2.2.2
      rw [decode, if_pos ⟨rfl, rfl⟩, decodePadded, if_neg unpadded, sextet_character _ (by omega),
        sextet_character _ (by omega), sextet_character _ (by omega)]
      dsimp only
      rw [@ofNat_eq a _ (by omega), @ofNat_eq b _ (by omega)]
  | case3 a =>
      have aSmall := a.toNat_lt
      rw [decode, if_pos ⟨rfl, rfl⟩, decodePadded, if_pos rfl, sextet_character _ (by omega),
        sextet_character _ (by omega)]
      dsimp only
      rw [@ofNat_eq a _ (by omega)]
  | case4 => rfl

/-- Four characters for every three bytes, or what is left of three. -/
theorem length_encode (data : List UInt8) : (encode data).length = (data.length + 2) / 3 * 4 := by
  fun_induction encode data with
  | case1 a b c rest ih =>
      simp only [List.length_cons, ih]
      omega
  | case2 a b => simp
  | case3 a => simp
  | case4 => rfl

/-- The text is printable, and needs no escapes. -/
theorem encode_range {data : List UInt8} {c : Nat} (member : c ∈ encode data) :
    32 ≤ c ∧ c ≤ 126 ∧ c ≠ 34 ∧ c ≠ 92 := by
  have printable : ∀ number < 64, 32 ≤ character number ∧ character number ≤ 126 ∧
      character number ≠ 34 ∧ character number ≠ 92 := fun number small =>
    ⟨(character_range number small).1, (character_range number small).2.1,
      (character_range number small).2.2.1, (character_range number small).2.2.2.1⟩
  fun_induction encode data with
  | case1 a b c rest ih =>
      have aSmall := a.toNat_lt
      have bSmall := b.toNat_lt
      have cSmall := c.toNat_lt
      simp only [List.mem_cons] at member
      rcases member with rfl | rfl | rfl | rfl | member
      · exact printable _ (by omega)
      · exact printable _ (by omega)
      · exact printable _ (by omega)
      · exact printable _ (by omega)
      · exact ih member
  | case2 a b =>
      have aSmall := a.toNat_lt
      have bSmall := b.toNat_lt
      simp only [List.mem_cons, List.not_mem_nil, or_false] at member
      rcases member with rfl | rfl | rfl | rfl
      · exact printable _ (by omega)
      · exact printable _ (by omega)
      · exact printable _ (by omega)
      · decide
  | case3 a =>
      have aSmall := a.toNat_lt
      simp only [List.mem_cons, List.not_mem_nil, or_false] at member
      rcases member with rfl | rfl | rfl | rfl
      · exact printable _ (by omega)
      · exact printable _ (by omega)
      · decide
      · decide
  | case4 => cases member

end Base64
