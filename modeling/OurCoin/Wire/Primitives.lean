import OurCoin.Model.Encoding

/-!
# Round trips of the primitives

What the encoders write, the canonical reader reads back, whatever follows it: integers
of a fixed width (`reads_unsigned`), byte strings up to a length (`reads_bytes`) and text
in normal form (`reads_text`).

UTF-8 decoding undoes encoding code point by code point (`decodeUtf8_encodeUtf8Char`), one
case for each length of the encoding.
-/

set_option autoImplicit false

namespace OurCoin

open Raising Reader

/-! ## Integers -/

/-- An integer that fits its width is read back. -/
theorem reads_unsigned {value maximum : Int} {width : Nat} {written : Bytes}
    (fits : maximum < 256 ^ width) (encoded : encodeUnsigned value width maximum = .ok written) :
    Reads (readUnsigned width) written value := by
  obtain ⟨⟨nonneg, bounded⟩, rfl⟩ := encodeUnsigned_eq_ok.mp encoded
  have small : value.toNat < 256 ^ width := by
    zify
    rw [Int.toNat_of_nonneg nonneg]
    omega
  rw [readUnsigned, ← List.append_nil (BigEndian.toBytes width value.toNat)]
  apply (reads_take truncatedData (BigEndian.length_toBytes width value.toNat)).bind
  rw [BigEndian.ofBytes_toBytes small, Int.toNat_of_nonneg nonneg]
  exact reads_pure value

theorem reads_u16 {value : Int} {written : Bytes} (encoded : encodeU16 value = .ok written) :
    Reads readU16 written value :=
  reads_unsigned (by decide) encoded

theorem reads_u32 {value : Int} {written : Bytes} (encoded : encodeU32 value = .ok written) :
    Reads readU32 written value :=
  reads_unsigned (by decide) encoded

theorem reads_u64 {value : Int} {written : Bytes} (encoded : encodeU64 value = .ok written) :
    Reads readU64 written value :=
  reads_unsigned (by decide) encoded

/-! ## Byte strings -/

/-- A byte string within the limit of its field is read back. -/
theorem reads_bytes {value written : Bytes} {maxLength : Nat} (short : value.length ≤ maxLength)
    (encoded : encodeBytes value = .ok written) : Reads (readBytes maxLength) written value := by
  simp only [encodeBytes, bind_eq_ok, raiseIf_eq_ok, exists_const, pure_eq_ok] at encoded
  obtain ⟨-, length, lengthOk, rfl⟩ := encoded
  rw [readBytes]
  apply (reads_u32 lengthOk).bind
  apply Reads.bind_nil (reads_check _ (by omega))
  exact reads_take truncatedData (by simp)

/-! ## Text -/

section Utf8

theorem toNat_ofNat {n : Nat} (small : n < 256) : (UInt8.ofNat n).toNat = n := by
  rw [UInt8.toNat_ofNat']
  omega

/-- The bytes of one code point are decoded to it. -/
theorem decodeUtf8_encodeUtf8Char {c : Nat} {bytes rest : Bytes} {value : Text}
    (encoded : encodeUtf8Char c = some bytes) (decoded : decodeUtf8 rest = some value) :
    decodeUtf8 (bytes ++ rest) = some (c :: value) := by
  unfold encodeUtf8Char at encoded
  split at encoded
  · cases encoded
    rename_i ascii
    rw [List.singleton_append, decodeUtf8.eq_def]
    simp only [toNat_ofNat (by omega : c < 256), if_pos ascii, decoded, Option.map_some]
  · split at encoded
    · cases encoded
      rename_i notAscii two
      have lead := toNat_ofNat (n := 0xC0 + c / 0x40) (by omega)
      have last := toNat_ofNat (n := 0x80 + c % 0x40) (by omega)
      rw [List.cons_append, List.singleton_append, decodeUtf8.eq_def]
      have whole : (0xC0 + c / 0x40 - 0xC0) * 0x40 + (0x80 + c % 0x40 - 0x80) = c := by omega
      simp only [isContinuation, lead, last, decoded, whole]
      rw [if_neg (by omega), if_pos (by omega), Option.map_some]
    · split at encoded
      · cases encoded
      · split at encoded
        · cases encoded
          rename_i notAscii notTwo notSurrogate three
          have lead := toNat_ofNat (n := 0xE0 + c / 0x1000) (by omega)
          have middle := toNat_ofNat (n := 0x80 + c / 0x40 % 0x40) (by omega)
          have last := toNat_ofNat (n := 0x80 + c % 0x40) (by omega)
          rw [List.cons_append, List.cons_append, List.singleton_append, decodeUtf8.eq_def]
          have whole : ((0xE0 + c / 0x1000 - 0xE0) * 0x40 + (0x80 + c / 0x40 % 0x40 - 0x80)) * 0x40 +
              (0x80 + c % 0x40 - 0x80) = c := by omega
          simp only [isContinuation, lead, middle, last, decoded, whole]
          rw [if_neg (by omega), if_neg (by omega), if_pos (by omega), Option.map_some]
        · split at encoded
          · cases encoded
            rename_i notAscii notTwo notSurrogate notThree four
            have lead := toNat_ofNat (n := 0xF0 + c / 0x40000) (by omega)
            have second := toNat_ofNat (n := 0x80 + c / 0x1000 % 0x40) (by omega)
            have third := toNat_ofNat (n := 0x80 + c / 0x40 % 0x40) (by omega)
            have last := toNat_ofNat (n := 0x80 + c % 0x40) (by omega)
            rw [List.cons_append, List.cons_append, List.cons_append, List.singleton_append,
              decodeUtf8.eq_def]
            have whole : (((0xF0 + c / 0x40000 - 0xF0) * 0x40 +
                (0x80 + c / 0x1000 % 0x40 - 0x80)) * 0x40 + (0x80 + c / 0x40 % 0x40 - 0x80)) * 0x40 +
                (0x80 + c % 0x40 - 0x80) = c := by omega
            simp only [isContinuation, lead, second, third, last, decoded, whole]
            rw [if_neg (by omega), if_neg (by omega), if_neg (by omega), if_pos (by omega),
              Option.map_some]
          · cases encoded

/-- **UTF-8 decoding undoes encoding.** -/
theorem decodeUtf8_encodeUtf8 {value : Text} {encoded : Bytes}
    (written : encodeUtf8 value = .ok encoded) : decodeUtf8 encoded = some value := by
  rw [encodeUtf8] at written
  cases chunked : value.mapM encodeUtf8Char with
  | none =>
      rw [chunked] at written
      cases written
  | some chunks =>
      rw [chunked] at written
      cases written
      induction value generalizing chunks with
      | nil =>
          cases chunked
          rfl
      | cons c value ih =>
          rw [List.mapM_cons] at chunked
          obtain ⟨first, firstOk, rest⟩ := Option.bind_eq_some_iff.mp chunked
          obtain ⟨others, othersOk, made⟩ := Option.bind_eq_some_iff.mp rest
          cases made
          rw [List.flatten_cons]
          exact decodeUtf8_encodeUtf8Char firstOk (ih others othersOk)

/-- ASCII text has one byte for each character. -/
theorem encodeUtf8_ascii {value : Text} (ascii : isAscii value) :
    encodeUtf8 value = .ok (value.map UInt8.ofNat) := by
  have chunks : value.mapM encodeUtf8Char = some (value.map fun c => [UInt8.ofNat c]) := by
    induction value with
    | nil => rfl
    | cons c value ih =>
        have small : c < 0x80 := ascii c List.mem_cons_self
        rw [List.mapM_cons, ih fun d member => ascii d (List.mem_cons_of_mem _ member),
          encodeUtf8Char, if_pos small]
        rfl
  rw [encodeUtf8, chunks]
  simp only [Except.ok.injEq]
  exact List.flatMap_pure_eq_map UInt8.ofNat value

end Utf8

variable [Platform]

/-- A text that the canonical reader accepts in a field with a limit. -/
structure Canonical (value : Text) (maxLength : Nat) : Prop where
  normal : Platform.normalizeNfc value = value
  short : ∀ encoded, encodeUtf8 value = .ok encoded → encoded.length ≤ maxLength

/-- Short ASCII text is canonical. -/
theorem Canonical.of_ascii {value : Text} {maxLength : Nat} (ascii : isAscii value)
    (short : value.length ≤ maxLength) : Canonical value maxLength := by
  refine ⟨Platform.normalizeNfc_ascii ascii, ?_⟩
  intro encoded written
  rw [encodeUtf8_ascii ascii] at written
  cases written
  rwa [List.length_map]

/-- Canonical text is read back. -/
theorem reads_text {value : Text} {written : Bytes} {maxLength : Nat}
    (canonical : Canonical value maxLength) (encoded : encodeText value = .ok written) :
    Reads (readText maxLength) written value := by
  rw [encodeText, canonical.normal, bind_eq_ok] at encoded
  obtain ⟨utf8, utf8Ok, bytesOk⟩ := encoded
  rw [readText, ← List.append_nil written]
  apply (reads_bytes (canonical.short utf8 utf8Ok) bytesOk).bind
  rw [decodeUtf8_encodeUtf8 utf8Ok]
  apply Reads.bind_nil (reads_check _ (by rw [canonical.normal]; simp))
  exact reads_pure value

end OurCoin
