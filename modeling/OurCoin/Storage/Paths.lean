import OurCoin.Model.Paths

/-!
# Data directories are isolated

The database of an identity lies in a directory that is named after its chain ID, inside the
base directory, and no other identity shares its place, except for the two chain IDs that are
not the name of a directory: a single point and two points.

* `resolve_databasePath`: where the path of an identity leads to.
* `hexText_injective`: the hexadecimal text of a hash determines the hash.
* `isolated_iff`: which identities are isolated.
-/

set_option autoImplicit false

namespace OurCoin

open Raising PurePath

/-! ## Hexadecimal text -/

theorem hexCharacter_cases {digit : Nat} (small : digit < 16) :
    (48 ≤ hexCharacter digit ∧ hexCharacter digit ≤ 57 ∧ hexCharacter digit = 48 + digit) ∨
      (97 ≤ hexCharacter digit ∧ hexCharacter digit ≤ 102 ∧ hexCharacter digit = 87 + digit) := by
  rw [hexCharacter]
  split
  · exact .inl ⟨by omega, by omega, rfl⟩
  · exact .inr ⟨by omega, by omega, rfl⟩

theorem hexCharacter_injective {digit digit' : Nat} (small : digit < 16) (small' : digit' < 16)
    (same : hexCharacter digit = hexCharacter digit') : digit = digit' := by
  rcases hexCharacter_cases small with ⟨_, _, here⟩ | ⟨_, _, here⟩ <;>
    rcases hexCharacter_cases small' with ⟨_, _, there⟩ | ⟨_, _, there⟩ <;>
    omega

theorem hexText_cons (byte : UInt8) (rest : Bytes) :
    hexText (byte :: rest) =
      hexCharacter (byte.toNat / 16) :: hexCharacter (byte.toNat % 16) :: hexText rest := rfl

theorem length_hexText : ∀ data : Bytes, (hexText data).length = 2 * data.length
  | [] => rfl
  | byte :: rest => by
      rw [hexText_cons, List.length_cons, List.length_cons, length_hexText rest, List.length_cons]
      omega

/-- **The text determines the bytes.** -/
theorem hexText_injective : ∀ {data data' : Bytes}, hexText data = hexText data' → data = data'
  | [], [], _ => rfl
  | [], byte :: rest, same => by cases same
  | byte :: rest, [], same => by cases same
  | byte :: rest, byte' :: rest', same => by
      rw [hexText_cons, hexText_cons, List.cons.injEq, List.cons.injEq] at same
      obtain ⟨high, low, others⟩ := same
      have range := byte.toNat_lt
      have range' := byte'.toNat_lt
      have highEq := hexCharacter_injective (by omega) (by omega) high
      have lowEq := hexCharacter_injective (by omega) (by omega) low
      have byteEq : byte = byte' := UInt8.toNat_inj.mp (by omega)
      rw [byteEq, hexText_injective others]

theorem not_mem_hexText : ∀ data : Bytes, 47 ∉ hexText data
  | [] => List.not_mem_nil
  | byte :: rest => by
      have range := byte.toNat_lt
      rw [hexText_cons, List.mem_cons, List.mem_cons]
      rintro (high | low | others)
      · rcases @hexCharacter_cases (byte.toNat / 16) (by omega) with bound | bound <;> omega
      · rcases @hexCharacter_cases (byte.toNat % 16) (by omega) with bound | bound <;> omega
      · exact not_mem_hexText rest others

/-- A hash is the name of a directory, and not one that leads back. -/
theorem isPart_hexText {hash : Bytes} (length : hash.length = 32) :
    IsPart (hexText hash) ∧ hexText hash ≠ [46, 46] := by
  have longText := length_hexText hash
  rw [length] at longText
  refine ⟨⟨?_, ?_, not_mem_hexText hash⟩, ?_⟩
  · rintro isNil
    rw [isNil] at longText
    cases longText
  · rintro isPoint
    rw [isPoint] at longText
    cases longText
  · rintro isPoints
    rw [isPoints] at longText
    cases longText

/-! ## Where a path leads to -/

/-- The directory of a chain ID. -/
def chainDirectory (directory : List Text) (chainId : Text) : List Text :=
  if chainId = text "." then directory
  else if chainId = text ".." then directory.dropLast
  else directory ++ [chainId]

theorem databasePathForIdentity_eq_ok {base path : PurePath} {chainId : Text}
    {genesisHash : Bytes} : databasePathForIdentity base chainId genesisHash = .ok path ↔
      isSafeChainId chainId ∧ genesisHash.length = 32 ∧
        ((base.join chainId).join (hexText genesisHash)).join databaseFilename = path := by
  simp only [databasePathForIdentity, bind_eq_ok, raiseIf_eq_ok, exists_const, pure_eq_ok, not_not]

theorem exists_databasePath (base : PurePath) {chainId : Text} {genesisHash : Bytes}
    (safe : isSafeChainId chainId) (length : genesisHash.length = 32) :
    ∃ path, databasePathForIdentity base chainId genesisHash = .ok path :=
  ⟨_, databasePathForIdentity_eq_ok.mpr ⟨safe, length, rfl⟩⟩

/-- **Where the path of an identity leads to.** -/
theorem resolve_databasePath {base path : PurePath} {chainId : Text} {genesisHash : Bytes}
    (accepted : databasePathForIdentity base chainId genesisHash = .ok path)
    (workingDirectory : List Text) :
    path.resolve workingDirectory =
      chainDirectory (base.resolve workingDirectory) chainId ++
        [hexText genesisHash, databaseFilename] := by
  obtain ⟨⟨⟨nonempty, -⟩, safe⟩, length, rfl⟩ := databasePathForIdentity_eq_ok.mp accepted
  obtain ⟨hashPart, hashStays⟩ := isPart_hexText length
  have filePart : IsPart databaseFilename := by decide
  have fileStays : databaseFilename ≠ [46, 46] := by decide
  have noSlash : 47 ∉ chainId := by
    intro member
    have allowed := safe 47 member
    omega
  have chain : (base.join chainId).resolve workingDirectory =
      chainDirectory (base.resolve workingDirectory) chainId := by
    rw [chainDirectory]
    split
    · rename_i isPoint
      rw [isPoint]
      exact resolve_join_point base workingDirectory
    · rename_i notPoint
      exact resolve_join ⟨List.length_pos_iff.mp nonempty, notPoint, noSlash⟩ workingDirectory
  rw [resolve_join filePart, resolve_join hashPart, chain, enter_of_ne hashStays,
    enter_of_ne fileStays, List.append_assoc]
  rfl

/-! ## Isolation -/

/-- The path of an identity leads into a directory that is named after its chain ID, in the
base directory, and no other identity has a path to the same place. -/
structure Isolated (workingDirectory : List Text) (base : PurePath) (chainId : Text)
    (genesisHash : Bytes) (path : PurePath) : Prop where
  inside : ∃ rest, rest ≠ [] ∧
    path.resolve workingDirectory = base.resolve workingDirectory ++ chainId :: rest
  apart : ∀ chainId' genesisHash' path', databasePathForIdentity base chainId' genesisHash' =
    .ok path' → path'.resolve workingDirectory = path.resolve workingDirectory →
      chainId' = chainId ∧ genesisHash' = genesisHash

/-- **Which identities are isolated**: all but those of the chain IDs `.` and `..`, from every
working directory. -/
theorem isolated_iff {base path : PurePath} {chainId : Text} {genesisHash : Bytes}
    (accepted : databasePathForIdentity base chainId genesisHash = .ok path)
    (workingDirectory : List Text) :
    Isolated workingDirectory base chainId genesisHash path ↔
      chainId ≠ text "." ∧ chainId ≠ text ".." := by
  have place := resolve_databasePath accepted workingDirectory
  obtain ⟨-, length, -⟩ := databasePathForIdentity_eq_ok.mp accepted
  obtain ⟨hashPart, hashStays⟩ := isPart_hexText length
  constructor
  · rintro ⟨⟨rest, someRest, inside⟩, -⟩
    rw [place] at inside
    constructor
    · -- Without a directory of its own the hash stands where the chain ID should.
      rintro rfl
      rw [chainDirectory, if_pos rfl, List.append_cancel_left_eq, List.cons.injEq] at inside
      exact hashPart.2.1 inside.1
    · -- The base is left as well, so there are not enough components, unless it is the root.
      rintro rfl
      have other : text ".." ≠ text "." := by decide
      rw [chainDirectory, if_neg other, if_pos rfl] at inside
      have lengths := congrArg List.length inside
      simp only [List.length_append, List.length_dropLast, List.length_cons, List.length_nil]
        at lengths
      have positive := List.length_pos_iff.mpr someRest
      have root : base.resolve workingDirectory = [] := List.length_eq_zero_iff.mp (by omega)
      rw [root] at inside
      exact hashStays (List.cons.inj inside).1
  · rintro ⟨notPoint, notPoints⟩
    have own : chainDirectory (base.resolve workingDirectory) chainId =
        base.resolve workingDirectory ++ [chainId] := by
      rw [chainDirectory, if_neg notPoint, if_neg notPoints]
    refine ⟨⟨[hexText genesisHash, databaseFilename], List.cons_ne_nil _ _, ?_⟩, ?_⟩
    · rw [place, own, List.append_assoc]
      rfl
    · intro chainId' genesisHash' path' accepted' same
      rw [place, resolve_databasePath accepted' workingDirectory, own] at same
      obtain ⟨directories, files⟩ := List.append_inj' same rfl
      refine ⟨?_, hexText_injective (List.cons.inj files).1⟩
      have lengths := congrArg List.length directories
      rw [chainDirectory] at directories lengths
      split at directories
      · -- The other path does not enter a directory for its chain ID.
        rename_i point
        rw [if_pos point, List.length_append, List.length_singleton] at lengths
        omega
      · rename_i point
        rw [if_neg point] at lengths
        split at directories
        · rename_i points
          rw [if_pos points, List.length_append, List.length_singleton, List.length_dropLast]
            at lengths
          omega
        · exact (List.cons.inj (List.append_cancel_left directories)).1

/-- The identity of the test network is isolated. -/
theorem isolated_testnet : ∃ path,
    databasePathForIdentity (ofText (text "/srv/ourcoin")) (text "ourcoin-testnet-v1")
        (List.replicate 32 0) = .ok path ∧
      Isolated [] (ofText (text "/srv/ourcoin")) (text "ourcoin-testnet-v1") (List.replicate 32 0)
        path := by
  obtain ⟨path, accepted⟩ := @exists_databasePath (ofText (text "/srv/ourcoin"))
    (text "ourcoin-testnet-v1") (List.replicate 32 0) (by decide) (by decide)
  exact ⟨path, accepted, (isolated_iff accepted []).mpr (by decide)⟩

/-- The chain ID `..` leads out of the base directory. -/
theorem not_isolated : ∃ path,
    databasePathForIdentity (ofText (text "/srv/ourcoin")) (text "..") (List.replicate 32 0) =
        .ok path ∧
      path.resolve [] = [text "srv", List.replicate 64 48, text "blockchain.sqlite3"] ∧
      ¬ Isolated [] (ofText (text "/srv/ourcoin")) (text "..") (List.replicate 32 0) path := by
  obtain ⟨path, accepted⟩ := @exists_databasePath (ofText (text "/srv/ourcoin")) (text "..")
    (List.replicate 32 0) (by decide) (by decide)
  have place : path.resolve [] = [text "srv", List.replicate 64 48, text "blockchain.sqlite3"] :=
    (resolve_databasePath accepted []).trans (by decide)
  refine ⟨_, accepted, place, ?_⟩
  rintro ⟨⟨rest, -, inside⟩, -⟩
  have base : PurePath.resolve [] (ofText (text "/srv/ourcoin")) = [text "srv", text "ourcoin"] := by
    decide
  rw [place, base] at inside
  have second : List.replicate 64 48 = text "ourcoin" :=
    (List.cons.inj (List.cons.inj inside).2).1
  exact absurd second (by decide)

end OurCoin
