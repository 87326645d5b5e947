import OurCoin.Library.Reader
import OurCoin.Model.Platform

/-!
# Canonical binary primitives

`encoding.py`: fixed-width big-endian integers, length-prefixed byte and text
fields, and the strict forward-only reader for them. Text is NFC-normalized before
it is encoded as UTF-8, and the reader refuses text that is not in NFC.
-/

set_option autoImplicit false

namespace OurCoin

open Raising

def u16Max : Int := 2 ^ 16 - 1
def u32Max : Int := 2 ^ 32 - 1
def u64Max : Int := 2 ^ 64 - 1

/-- `EncodingError(message)`. -/
def encodingError (message : String) : Raised := ⟨.encodingError, message⟩

/-! ## Encoders -/

/-- `_encode_unsigned`: big-endian bytes of a fixed width. -/
def encodeUnsigned (value : Int) (width : Nat) (maximum : Int) : Except Raised Bytes := do
  raiseIf (¬ (0 ≤ value ∧ value ≤ maximum))
    (encodingError s!"unsigned integer does not fit in {width} bytes")
  return BigEndian.toBytes width value.toNat

/-- An unsigned integer in two bytes. -/
def encodeU16 (value : Int) : Except Raised Bytes := encodeUnsigned value 2 u16Max

/-- An unsigned integer in four bytes. -/
def encodeU32 (value : Int) : Except Raised Bytes := encodeUnsigned value 4 u32Max

/-- An unsigned integer in eight bytes. -/
def encodeU64 (value : Int) : Except Raised Bytes := encodeUnsigned value 8 u64Max

/-- Bytes with an unsigned 32-bit length prefix. -/
def encodeBytes (value : Bytes) : Except Raised Bytes := do
  raiseIf ((value.length : Int) > u32Max) (encodingError "byte field is too long")
  return (← encodeU32 value.length) ++ value

/-- The UTF-8 bytes of one code point. A surrogate has none. -/
def encodeUtf8Char (c : Nat) : Option Bytes :=
  if c < 0x80 then some [UInt8.ofNat c]
  else if c < 0x800 then some [UInt8.ofNat (0xC0 + c / 0x40), UInt8.ofNat (0x80 + c % 0x40)]
  else if 0xD800 ≤ c ∧ c ≤ 0xDFFF then none
  else if c < 0x10000 then
    some [UInt8.ofNat (0xE0 + c / 0x1000), UInt8.ofNat (0x80 + c / 0x40 % 0x40),
      UInt8.ofNat (0x80 + c % 0x40)]
  else if c < 0x110000 then
    some [UInt8.ofNat (0xF0 + c / 0x40000), UInt8.ofNat (0x80 + c / 0x1000 % 0x40),
      UInt8.ofNat (0x80 + c / 0x40 % 0x40), UInt8.ofNat (0x80 + c % 0x40)]
  else none

/-- `value.encode("utf-8")`. -/
def encodeUtf8 (value : Text) : Except Raised Bytes :=
  match value.mapM encodeUtf8Char with
  | some chunks => .ok chunks.flatten
  | none => .error ⟨.unicodeError, "surrogates not allowed"⟩

/-- Text as NFC-normalized UTF-8 with a byte-length prefix. -/
def encodeText [Platform] (value : Text) : Except Raised Bytes := do
  encodeBytes (← encodeUtf8 (Platform.normalizeNfc value))

/-- An ordered sequence of length-prefixed byte fields. -/
def encodeSequence (values : List Bytes) : Except Raised Bytes := do
  raiseIf ((values.length : Int) > u32Max) (encodingError "sequence contains too many items")
  return (← encodeU32 values.length) ++ (← values.mapM encodeBytes).flatten

/-! ## The canonical reader -/

/-- The error of every read beyond the end. -/
def truncatedData : Raised := encodingError "truncated canonical data"

/-- `_read_unsigned`: the next bytes as a big-endian integer. -/
def readUnsigned (width : Nat) : Reader Raised Int := do
  return (BigEndian.ofBytes (← Reader.take truncatedData width) : Int)

/-- An unsigned integer from two bytes. -/
def readU16 : Reader Raised Int := readUnsigned 2

/-- An unsigned integer from four bytes. -/
def readU32 : Reader Raised Int := readUnsigned 4

/-- An unsigned integer from eight bytes. -/
def readU64 : Reader Raised Int := readUnsigned 8

/-- `read_bytes(max_length=maxLength)`. -/
def readBytes (maxLength : Nat) : Reader Raised Bytes := do
  let length ← readU32
  Reader.check (length > maxLength) (encodingError "byte field exceeds its allowed length")
  Reader.take truncatedData length.toNat

/-- A UTF-8 continuation byte. -/
def isContinuation (b : UInt8) : Prop := 0x80 ≤ b.toNat ∧ b.toNat ≤ 0xBF

instance (b : UInt8) : Decidable (isContinuation b) :=
  inferInstanceAs (Decidable (0x80 ≤ b.toNat ∧ b.toNat ≤ 0xBF))

/-- `encoded.decode("utf-8", errors="strict")`: overlong forms, surrogates and values
above `0x10FFFF` are refused. -/
def decodeUtf8 : Bytes → Option Text
  | [] => some []
  | b0 :: rest =>
    if b0.toNat < 0x80 then (decodeUtf8 rest).map (b0.toNat :: ·)
    else match rest with
      | [] => none
      | b1 :: rest1 =>
        let two := (b0.toNat - 0xC0) * 0x40 + (b1.toNat - 0x80)
        if 0xC2 ≤ b0.toNat ∧ b0.toNat ≤ 0xDF ∧ isContinuation b1 then
          (decodeUtf8 rest1).map (two :: ·)
        else match rest1 with
          | [] => none
          | b2 :: rest2 =>
            let three := ((b0.toNat - 0xE0) * 0x40 + (b1.toNat - 0x80)) * 0x40 + (b2.toNat - 0x80)
            if 0xE0 ≤ b0.toNat ∧ b0.toNat ≤ 0xEF ∧ isContinuation b1 ∧ isContinuation b2 ∧
                0x800 ≤ three ∧ ¬ (0xD800 ≤ three ∧ three ≤ 0xDFFF) then
              (decodeUtf8 rest2).map (three :: ·)
            else match rest2 with
              | [] => none
              | b3 :: rest3 =>
                let four := (((b0.toNat - 0xF0) * 0x40 + (b1.toNat - 0x80)) * 0x40 +
                  (b2.toNat - 0x80)) * 0x40 + (b3.toNat - 0x80)
                if 0xF0 ≤ b0.toNat ∧ b0.toNat ≤ 0xF4 ∧ isContinuation b1 ∧ isContinuation b2 ∧
                    isContinuation b3 ∧ 0x10000 ≤ four ∧ four ≤ 0x10FFFF then
                  (decodeUtf8 rest3).map (four :: ·)
                else none

/-- `read_text(max_length=maxLength)`. -/
def readText [Platform] (maxLength : Nat) : Reader Raised Text := do
  let encoded ← readBytes maxLength
  match decodeUtf8 encoded with
  | none => throw (encodingError "text field is not valid UTF-8")
  | some value => do
    Reader.check (Platform.normalizeNfc value ≠ value)
      (encodingError "text field is not in canonical NFC form")
    return value

/-- Refuse bytes after the value. -/
def ensureFinished : Reader Raised Unit :=
  Reader.finish (encodingError "trailing bytes after canonical value")

/-! ## What the encoders accept -/

theorem encodeUnsigned_eq_ok {value maximum : Int} {width : Nat} {written : Bytes} :
    encodeUnsigned value width maximum = .ok written ↔
      (0 ≤ value ∧ value ≤ maximum) ∧ BigEndian.toBytes width value.toNat = written := by
  simp [encodeUnsigned]

/-- A byte string short enough for its length prefix encodes. -/
theorem exists_encodeBytes {value : Bytes} (short : (value.length : Int) ≤ u32Max) :
    ∃ written, encodeBytes value = .ok written := by
  refine ⟨BigEndian.toBytes 4 value.length ++ value, ?_⟩
  simp only [encodeBytes, bind_eq_ok, raiseIf_eq_ok, pure_eq_ok, encodeU32, encodeUnsigned_eq_ok]
  exact ⟨(), by omega, _, ⟨⟨by omega, short⟩, rfl⟩, by simp⟩

end OurCoin
