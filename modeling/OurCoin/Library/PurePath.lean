import Mathlib.Data.List.Basic

/-!
# Paths

POSIX paths as `pathlib` takes them apart: an anchor and the components between slashes,
without the empty ones and those that are a single point. Components `..` stay.

* `PurePath.ofText` and `PurePath.join` are `Path(text)` and `path / name`.
* `PurePath.resolve` is the place that a path leads to, from a working directory: a component
  `..` leaves a directory, every other one enters one.
* `PurePath.resolve_join`: where a path leads to after one more name.
-/

set_option autoImplicit false

/-- `text.split("/")`. -/
def splitPath : List Nat → List (List Nat)
  | [] => [[]]
  | c :: rest => if c = 47 then [] :: splitPath rest else (splitPath rest).modifyHead (c :: ·)

/-- What a path keeps as a component. -/
def IsPart (part : List Nat) : Prop := part ≠ [] ∧ part ≠ [46] ∧ 47 ∉ part

instance (part : List Nat) : Decidable (IsPart part) :=
  inferInstanceAs (Decidable (_ ∧ _ ∧ _))

/-- A path: what it starts from, and its components. -/
structure PurePath where
  anchor : List Nat
  parts : List (List Nat)
  parts_valid : ∀ part ∈ parts, IsPart part
  deriving DecidableEq

/-! ## Splitting -/

theorem splitPath_ne_nil : ∀ text : List Nat, splitPath text ≠ []
  | [] => List.cons_ne_nil _ _
  | c :: rest => by
      rw [splitPath]
      split
      · exact List.cons_ne_nil _ _
      · rw [Ne, List.modifyHead_eq_nil_iff]
        exact splitPath_ne_nil rest

/-- There is no slash between slashes. -/
theorem not_mem_of_mem_splitPath : ∀ {text part : List Nat}, part ∈ splitPath text → 47 ∉ part
  | [], part, member => by
      rw [List.mem_singleton.mp member]
      exact List.not_mem_nil
  | c :: rest, part, member => by
      rw [splitPath] at member
      split at member
      · rcases List.mem_cons.mp member with rfl | later
        · exact List.not_mem_nil
        · exact not_mem_of_mem_splitPath later
      · rename_i notSlash
        obtain ⟨first, others, parts⟩ := List.exists_cons_of_ne_nil (splitPath_ne_nil rest)
        have apart : ∀ other ∈ first :: others, 47 ∉ other := fun other inRest =>
          not_mem_of_mem_splitPath (parts ▸ inRest)
        rw [parts, List.modifyHead_cons] at member
        rcases List.mem_cons.mp member with rfl | later
        · intro slash
          rcases List.mem_cons.mp slash with same | inside
          · exact notSlash same.symm
          · exact apart first List.mem_cons_self inside
        · exact apart part (List.mem_cons_of_mem _ later)

theorem splitPath_of_not_mem : ∀ {text : List Nat}, 47 ∉ text → splitPath text = [text]
  | [], _ => rfl
  | c :: rest, absent => by
      have notSlash : c ≠ 47 := fun same => absent (same ▸ List.mem_cons_self)
      rw [splitPath, if_neg notSlash,
        splitPath_of_not_mem fun inside => absent (List.mem_cons_of_mem _ inside)]
      rfl

namespace PurePath

/-- The slashes that a path starts with count as one, unless there are exactly two. -/
def anchorOf (text : List Nat) : List Nat :=
  let slashes := text.takeWhile (· = 47)
  if slashes.length = 2 then slashes else slashes.take 1

/-- `Path(text)`. -/
def ofText (text : List Nat) : PurePath where
  anchor := anchorOf text
  parts := (splitPath text).filter fun part => part ≠ [] ∧ part ≠ [46]
  parts_valid := by
    intro part member
    obtain ⟨inText, kept⟩ := List.mem_filter.mp member
    obtain ⟨nonempty, notPoint⟩ := of_decide_eq_true kept
    exact ⟨nonempty, notPoint, not_mem_of_mem_splitPath inText⟩

/-- `path / name`. -/
def join (path : PurePath) (name : List Nat) : PurePath :=
  if (ofText name).anchor ≠ [] then ofText name
  else
    { anchor := path.anchor
      parts := path.parts ++ (ofText name).parts
      parts_valid := by
        intro part member
        rcases List.mem_append.mp member with old | new
        · exact path.parts_valid part old
        · exact (ofText name).parts_valid part new }

/-- One component on from a directory. -/
def enter (directory : List (List Nat)) (part : List Nat) : List (List Nat) :=
  if part = [46, 46] then directory.dropLast else directory ++ [part]

/-- Where a path leads to, from a working directory. -/
def resolve (workingDirectory : List (List Nat)) (path : PurePath) : List (List Nat) :=
  path.parts.foldl enter (if path.anchor = [] then workingDirectory else [])

theorem enter_of_ne {part : List Nat} (stays : part ≠ [46, 46]) (directory : List (List Nat)) :
    enter directory part = directory ++ [part] := if_neg stays

/-! ## Joining -/

theorem parts_ofText (text : List Nat) :
    (ofText text).parts = (splitPath text).filter fun part => part ≠ [] ∧ part ≠ [46] := rfl

/-- A name without an anchor continues the path. -/
theorem join_of_relative {name : List Nat} (relative : (ofText name).anchor = [])
    (path : PurePath) :
    (path.join name).anchor = path.anchor ∧
      (path.join name).parts = path.parts ++ (ofText name).parts := by
  rw [join, if_neg (not_not.mpr relative)]
  exact ⟨rfl, rfl⟩

theorem resolve_of_relative {name : List Nat} (relative : (ofText name).anchor = [])
    (path : PurePath) (workingDirectory : List (List Nat)) :
    (path.join name).resolve workingDirectory =
      (ofText name).parts.foldl enter (path.resolve workingDirectory) := by
  obtain ⟨anchor, parts⟩ := join_of_relative relative path
  rw [resolve, anchor, parts, List.foldl_append, resolve]

theorem anchorOf_of_not_mem {name : List Nat} (absent : 47 ∉ name) : anchorOf name = [] := by
  have none : name.takeWhile (· = 47) = [] := by
    cases name with
    | nil => rfl
    | cons c rest =>
        have notSlash : c ≠ 47 := fun same => absent (same ▸ List.mem_cons_self)
        rw [List.takeWhile_cons, decide_eq_false notSlash, if_neg Bool.false_ne_true]
  rw [anchorOf, none]
  rfl

/-- A name that is one component. -/
theorem parts_ofText_part {name : List Nat} (part : IsPart name) : (ofText name).parts = [name] := by
  obtain ⟨nonempty, notPoint, absent⟩ := part
  rw [parts_ofText, splitPath_of_not_mem absent]
  exact List.filter_eq_self.mpr fun other member =>
    List.mem_singleton.mp member ▸ decide_eq_true ⟨nonempty, notPoint⟩

/-- **A name that is one component** is entered. -/
theorem resolve_join {path : PurePath} {name : List Nat} (part : IsPart name)
    (workingDirectory : List (List Nat)) :
    (path.join name).resolve workingDirectory = enter (path.resolve workingDirectory) name := by
  rw [resolve_of_relative (anchorOf_of_not_mem part.2.2), parts_ofText_part part]
  rfl

/-- **A single point** leads nowhere. -/
theorem resolve_join_point (path : PurePath) (workingDirectory : List (List Nat)) :
    (path.join [46]).resolve workingDirectory = path.resolve workingDirectory := by
  have none : (ofText [46]).parts = [] := by decide
  rw [resolve_of_relative (anchorOf_of_not_mem (by decide)), none]
  rfl

end PurePath
