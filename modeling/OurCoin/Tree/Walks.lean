import OurCoin.Library.Ancestry
import OurCoin.Model.Chain

/-!
# The loops along parent hashes

What the loops of `chain.py` return on a branch whose lineage is known and whose
heights count its entries. None of them raises there and none exceeds its bound.

* `walkDown_eq` and `ancestorAtHeight_eq`: the entry at a height.
* `reorganizationPaths_eq`: with two lineages split after their common part, the loops
  return the last common hash, the rest of the first lineage from its end, and the
  rest of the second from its start.
* `collectBranch_eq`: the blocks of the lineage, the root first.
-/

set_option autoImplicit false

namespace OurCoin

open Raising Ancestry

namespace Chain

/-- The entries from the root of the tree to a stored hash. -/
abbrev Lineage (chain : Chain) : Bytes → List (Bytes × ChainEntry) → Prop :=
  Ancestry.Lineage chain.entries.get? fun entry => entry.record.parentHash

/-- The record of every entry counts the entries before it. -/
def CountsHeights (path : List (Bytes × ChainEntry)) : Prop :=
  ∀ {front back : List (Bytes × ChainEntry)} {item : Bytes × ChainEntry},
    path = front ++ item :: back → item.2.record.height = front.length

theorem CountsHeights.of_prefix {front back : List (Bytes × ChainEntry)}
    (counts : CountsHeights (front ++ back)) : CountsHeights front := by
  intro front' back' item split
  refine @counts front' (back' ++ back) item ?_
  rw [split]
  simp

theorem entryOf_eq_ok {chain : Chain} {hash : Bytes} {unknown : Raised} {entry : ChainEntry} :
    chain.entryOf hash unknown = .ok entry ↔ chain.entries.get? hash = some entry := by
  unfold entryOf
  split <;> simp_all

theorem contains_eq_true {chain : Chain} {hash : Bytes} :
    chain.contains hash = true ↔ ∃ entry, chain.entries.get? hash = some entry :=
  Dict.contains_eq_true

theorem not_contains {chain : Chain} {hash : Bytes} :
    ¬ chain.contains hash = true ↔ chain.entries.get? hash = none := by
  rw [Bool.not_eq_true]
  exact Dict.contains_eq_false

variable {chain : Chain}

/-! ## Downwards -/

/-- A walk to a height that is not below it stays where it is. -/
theorem walkDown_stays {height : Int} {noParent : Raised} {fuel : Nat} {walk : Walk}
    (low : walk.entry.record.height ≤ height) :
    chain.walkDown height noParent fuel walk = .ok walk := by
  rw [walkDown.eq_def]
  exact if_neg (by omega)

/-- A walk above the height moves to the parent. -/
theorem walkDown_moves {height : Int} {noParent : Raised} {fuel : Nat} {walk : Walk}
    {parentHash : Bytes} {parent : ChainEntry} (above : walk.entry.record.height > height)
    (hasParent : walk.entry.record.parentHash = some parentHash)
    (stored : chain.entries.get? parentHash = some parent) :
    chain.walkDown height noParent (fuel + 1) walk =
      chain.walkDown height noParent fuel ⟨parentHash, parent, walk.passed ++ [walk.hash]⟩ := by
  rw [walkDown.eq_def]
  simp only [if_pos above, hasParent, entryOf_eq_ok.mpr stored, ok_bind]

/-- **The walk down a branch** ends at the wanted height, and collects the hashes above
it from the top. -/
theorem walkDown_eq {front back : List (Bytes × ChainEntry)} {hash target : Bytes}
    {entry here : ChainEntry} {noParent : Raised} {passed : List Bytes} {fuel : Nat}
    (lineage : chain.Lineage hash (front ++ (target, here) :: back))
    (counts : CountsHeights (front ++ (target, here) :: back))
    (stored : chain.entries.get? hash = some entry) (enough : back.length ≤ fuel) :
    chain.walkDown front.length noParent fuel ⟨hash, entry, passed⟩ =
      .ok ⟨target, here, passed ++ (back.map Prod.fst).reverse⟩ := by
  induction back using List.reverseRecOn generalizing hash entry passed fuel with
  | nil =>
      obtain ⟨rfl, rfl⟩ := lineage.last_eq stored
      rw [walkDown_stays (@counts front [] _ rfl).le]
      simp
  | append_singleton back last ih =>
      obtain ⟨lastHash, lastEntry⟩ := last
      rw [← List.cons_append, ← List.append_assoc] at lineage counts
      obtain ⟨rfl, rfl⟩ := lineage.last_eq stored
      obtain ⟨parentHash, parent, hasParent, parentStored, parentLineage⟩ :=
        lineage.of_concat (by simp)
      -- The entry is above the wanted height, so the loop moves to its parent.
      have height := counts rfl
      have above : lastEntry.record.height > (front.length : Int) := by
        rw [height, List.length_append, List.length_cons]
        push_cast
        omega
      rw [List.length_append, List.length_singleton] at enough
      obtain ⟨fuel, rfl⟩ : ∃ less, fuel = less + 1 := ⟨fuel - 1, by omega⟩
      rw [walkDown_moves above hasParent parentStored,
        ih parentLineage counts.of_prefix parentStored (by omega)]
      simp

theorem ancestorAtHeight_eq {front back : List (Bytes × ChainEntry)} {hash target : Bytes}
    {here : ChainEntry} (lineage : chain.Lineage hash (front ++ (target, here) :: back))
    (counts : CountsHeights (front ++ (target, here) :: back)) :
    chain.ancestorAtHeight hash front.length = .ok here := by
  obtain ⟨front', entry, eq, stored⟩ := lineage.exists_last
  have height := @counts front' [] (hash, entry) eq
  have lengths := congrArg List.length eq
  simp only [List.length_append, List.length_cons, List.length_nil] at lengths
  rw [ancestorAtHeight, entryOf_eq_ok.mpr stored, ok_bind]
  have inside : raiseIf (¬ (0 ≤ (front.length : Int) ∧ (front.length : Int) ≤ entry.record.height))
      (chainError "ancestor height is outside the branch") = .ok () := by
    rw [raiseIf_eq_ok, height]
    omega
  rw [inside, ok_bind, walkDown_eq lineage counts stored (by rw [height]; omega), ok_bind]
  rfl

/-! ## Two branches together -/

theorem walkTogether_meets {fuel : Nat} {hash : Bytes} {oldEntry newEntry : ChainEntry}
    {oldPassed newPassed : List Bytes} :
    chain.walkTogether fuel ⟨hash, oldEntry, oldPassed⟩ ⟨hash, newEntry, newPassed⟩ =
      .ok (⟨hash, oldEntry, oldPassed⟩, ⟨hash, newEntry, newPassed⟩) := by
  rw [walkTogether.eq_def]
  exact if_neg (fun apart => apart rfl)

theorem walkTogether_moves {fuel : Nat} {oldWalk newWalk : Walk} {oldHash newHash : Bytes}
    {oldParent newParent : ChainEntry} (apart : oldWalk.hash ≠ newWalk.hash)
    (oldHasParent : oldWalk.entry.record.parentHash = some oldHash)
    (newHasParent : newWalk.entry.record.parentHash = some newHash)
    (oldStored : chain.entries.get? oldHash = some oldParent)
    (newStored : chain.entries.get? newHash = some newParent) :
    chain.walkTogether (fuel + 1) oldWalk newWalk =
      chain.walkTogether fuel ⟨oldHash, oldParent, oldWalk.passed ++ [oldWalk.hash]⟩
        ⟨newHash, newParent, newWalk.passed ++ [newWalk.hash]⟩ := by
  rw [walkTogether.eq_def]
  simp only [if_pos apart, oldHasParent, newHasParent, entryOf_eq_ok.mpr oldStored,
    entryOf_eq_ok.mpr newStored, ok_bind]

/-- Two branches of one length are walked down to their last common entry. -/
theorem walkTogether_eq {common left right : List (Bytes × ChainEntry)} {meeting : Bytes}
    {here : ChainEntry} {oldHash newHash : Bytes} {oldEntry newEntry : ChainEntry}
    {oldPassed newPassed : List Bytes} {fuel : Nat}
    (oldLineage : chain.Lineage oldHash (common ++ (meeting, here) :: left))
    (newLineage : chain.Lineage newHash (common ++ (meeting, here) :: right))
    (oldStored : chain.entries.get? oldHash = some oldEntry)
    (newStored : chain.entries.get? newHash = some newEntry)
    (differ : ∀ x ∈ left.head?, ∀ y ∈ right.head?, x ≠ y)
    (sameLength : left.length = right.length) (enough : left.length ≤ fuel) :
    chain.walkTogether fuel ⟨oldHash, oldEntry, oldPassed⟩ ⟨newHash, newEntry, newPassed⟩ =
      .ok (⟨meeting, here, oldPassed ++ (left.map Prod.fst).reverse⟩,
        ⟨meeting, here, newPassed ++ (right.map Prod.fst).reverse⟩) := by
  induction left using List.reverseRecOn
    generalizing right oldHash newHash oldEntry newEntry oldPassed newPassed fuel with
  | nil =>
      have noRight : right = [] := List.length_eq_zero_iff.mp sameLength.symm
      subst noRight
      obtain ⟨rfl, rfl⟩ := oldLineage.last_eq oldStored
      obtain ⟨rfl, rfl⟩ := newLineage.last_eq newStored
      rw [walkTogether_meets]
      simp
  | append_singleton left oldLast ih =>
      obtain ⟨lastHash, lastEntry⟩ := oldLast
      cases right using List.reverseRecOn with
      | nil => simp at sameLength
      | append_singleton right newLast =>
          obtain ⟨lastHash', lastEntry'⟩ := newLast
          -- The hashes differ: otherwise the lineages are one, and so are the parts after
          -- the common one.
          have apart : oldHash ≠ newHash := by
            rintro rfl
            have same := List.append_cancel_left (oldLineage.unique newLineage)
            have tails := (List.cons.inj same).2
            rw [← tails] at differ
            cases left with
            | nil => simp at differ
            | cons first rest => simp at differ
          rw [← List.cons_append, ← List.append_assoc] at oldLineage newLineage
          obtain ⟨rfl, rfl⟩ := oldLineage.last_eq oldStored
          obtain ⟨rfl, rfl⟩ := newLineage.last_eq newStored
          obtain ⟨oldParent, oldParentEntry, oldHasParent, oldParentStored, oldParentLineage⟩ :=
            oldLineage.of_concat (by simp)
          obtain ⟨newParent, newParentEntry, newHasParent, newParentStored, newParentLineage⟩ :=
            newLineage.of_concat (by simp)
          have differ' : ∀ x ∈ left.head?, ∀ y ∈ right.head?, x ≠ y := by
            intro x xHead y yHead
            refine differ x ?_ y ?_
            · rw [List.head?_append, Option.mem_def.mp xHead]
              rfl
            · rw [List.head?_append, Option.mem_def.mp yHead]
              rfl
          rw [List.length_append, List.length_singleton] at enough
          obtain ⟨fuel, rfl⟩ : ∃ less, fuel = less + 1 := ⟨fuel - 1, by omega⟩
          rw [walkTogether_moves apart oldHasParent newHasParent oldParentStored newParentStored,
            ih oldParentLineage newParentLineage oldParentStored newParentStored differ'
              (by simpa using sameLength) (by omega)]
          simp

/-- A walk down to the level that is a number of entries above the meeting point. -/
theorem exists_level {common branch : List (Bytes × ChainEntry)} {meeting hash : Bytes}
    {here entry : ChainEntry} {count : Nat}
    (lineage : chain.Lineage hash (common ++ (meeting, here) :: branch))
    (counts : CountsHeights (common ++ (meeting, here) :: branch))
    (stored : chain.entries.get? hash = some entry) (within : count ≤ branch.length) :
    ∃ (level : Bytes) (levelEntry : ChainEntry),
      levelEntry.record.height = common.length + count ∧
      chain.Lineage level (common ++ (meeting, here) :: branch.take count) ∧
      chain.entries.get? level = some levelEntry ∧
      ∀ {noParent : Raised} {fuel : Nat} {passed : List Bytes}, branch.length ≤ fuel →
        chain.walkDown (common.length + count) noParent fuel ⟨hash, entry, passed⟩ =
          .ok ⟨level, levelEntry, passed ++ ((branch.drop count).map Prod.fst).reverse⟩ := by
  obtain ⟨front, ⟨level, levelEntry⟩, upTo⟩ :
      ∃ front last, common ++ (meeting, here) :: branch.take count = front ++ [last] := by
    rcases List.eq_nil_or_concat' (common ++ (meeting, here) :: branch.take count) with
      empty | concat
    · simp at empty
    · exact concat
  have frontLength := congrArg List.length upTo
  simp only [List.length_append, List.length_cons, List.length_nil, List.length_take,
    Nat.min_eq_left within] at frontLength
  have split : common ++ (meeting, here) :: branch =
      front ++ (level, levelEntry) :: branch.drop count := by
    have rejoined : common ++ (meeting, here) :: branch =
        (common ++ (meeting, here) :: branch.take count) ++ branch.drop count := by simp
    rw [rejoined, upTo]
    simp
  have levelHeight : levelEntry.record.height = front.length := counts split
  have levelLineage := lineage.of_prefix split
  have position : (common.length + count : Int) = front.length := by omega
  refine ⟨level, levelEntry, by omega, upTo ▸ levelLineage, levelLineage.find_of_mem (by simp), ?_⟩
  intro noParent fuel passed enough
  rw [position]
  refine walkDown_eq (split ▸ lineage) (split ▸ counts) stored ?_
  rw [List.length_drop]
  omega

theorem head?_take_of_mem {α : Type} {xs : List α} {count : Nat} {x : α}
    (member : x ∈ (xs.take count).head?) : x ∈ xs.head? := by
  rw [List.head?_take] at member
  split at member
  · cases member
  · exact member

/-- **The paths of a reorganization.** -/
theorem reorganizationPaths_eq {common left right : List (Bytes × ChainEntry)} {meeting : Bytes}
    {here : ChainEntry} {oldHash newHash : Bytes}
    (oldLineage : chain.Lineage oldHash (common ++ (meeting, here) :: left))
    (newLineage : chain.Lineage newHash (common ++ (meeting, here) :: right))
    (oldCounts : CountsHeights (common ++ (meeting, here) :: left))
    (newCounts : CountsHeights (common ++ (meeting, here) :: right))
    (differ : ∀ x ∈ left.head?, ∀ y ∈ right.head?, x ≠ y) :
    chain.reorganizationPaths oldHash newHash =
      .ok (meeting, (left.map Prod.fst).reverse, right.map Prod.fst) := by
  obtain ⟨oldFront, oldEntry, oldSplit, oldStored⟩ := oldLineage.exists_last
  obtain ⟨newFront, newEntry, newSplit, newStored⟩ := newLineage.exists_last
  have oldHeight : oldEntry.record.height = oldFront.length := oldCounts oldSplit
  have newHeight : newEntry.record.height = newFront.length := newCounts newSplit
  have oldLength := congrArg List.length oldSplit
  have newLength := congrArg List.length newSplit
  simp only [List.length_append, List.length_cons, List.length_nil] at oldLength newLength
  have oldTall : oldEntry.record.height = common.length + left.length := by omega
  have newTall : newEntry.record.height = common.length + right.length := by omega
  rw [reorganizationPaths, entryOf_eq_ok.mpr oldStored, ok_bind, entryOf_eq_ok.mpr newStored,
    ok_bind]
  rcases le_total right.length left.length with newLower | oldLower
  · -- The old branch is the longer one: the first loop walks it down, the second stays.
    obtain ⟨level, levelEntry, levelHeight, levelLineage, levelStored, walked⟩ :=
      exists_level oldLineage oldCounts oldStored newLower
    rw [newTall, walked (by omega), ok_bind, walkDown_stays (by simp only; omega), ok_bind,
      walkTogether_eq levelLineage newLineage levelStored newStored
        (fun x xHead => differ x (head?_take_of_mem xHead))
        (by rw [List.length_take]; omega) (by rw [List.length_take]; simp only; omega), ok_bind]
    simp only [List.nil_append, List.reverse_reverse]
    rw [← List.reverse_append, ← List.map_append, List.take_append_drop]
    rfl
  · -- The new branch is the longer one: the first loop stays, the second walks it down.
    obtain ⟨level, levelEntry, levelHeight, levelLineage, levelStored, walked⟩ :=
      exists_level newLineage newCounts newStored oldLower
    rw [walkDown_stays (by simp only; omega), ok_bind, oldTall, walked (by omega), ok_bind,
      walkTogether_eq oldLineage levelLineage oldStored levelStored
        (fun x xHead y yHead => differ x xHead y (head?_take_of_mem yHead))
        (by rw [List.length_take]; omega) (by omega), ok_bind]
    simp only [List.nil_append]
    rw [← List.reverse_append, ← List.map_append, List.take_append_drop, List.reverse_reverse]
    rfl

/-! ## Upwards -/

/-- The blocks of a lineage are collected from its root. -/
theorem collectBranch_eq {path : List (Bytes × ChainEntry)} {hash : Bytes} {entry : ChainEntry}
    {fuel : Nat} {later : List Block} (lineage : chain.Lineage hash path)
    (stored : chain.entries.get? hash = some entry) (enough : path.length ≤ fuel + 1) :
    chain.collectBranch fuel entry later = .ok (path.map (fun item => item.2.block) ++ later) := by
  induction lineage generalizing entry fuel later with
  | root found isRoot =>
      rw [stored] at found
      cases found
      cases fuel <;> simp only [collectBranch, isRoot, List.map_cons, List.map_nil] <;> rfl
  | @child hash parent entry' path found hasParent ancestors ih =>
      rw [stored] at found
      cases found
      obtain ⟨front, parentEntry, eq, parentStored⟩ := ancestors.exists_last
      obtain ⟨fuel, rfl⟩ : ∃ less, fuel = less + 1 := by
        have positive := List.length_pos_iff.mpr ancestors.ne_nil
        rw [List.length_append, List.length_singleton] at enough
        exact ⟨fuel - 1, by omega⟩
      have enough' : path.length ≤ fuel + 1 := by
        rw [List.length_append, List.length_singleton] at enough
        omega
      rw [collectBranch.eq_def]
      simp only [hasParent, entryOf_eq_ok.mpr parentStored, ok_bind, ih parentStored enough']
      simp

end Chain

end OurCoin
