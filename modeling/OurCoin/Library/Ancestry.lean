import Mathlib

/-!
# Trees of parent links

A store of nodes in which a node names its parent by key. `Lineage find parentOf k path`
says that following parent links from `k` ends at a root, and `path` lists the nodes
passed, the root first and `k` last, each with its key.

* The lineage of a key is unique (`Lineage.unique`), so no key occurs twice on it
  (`Lineage.nodup`), and every initial part of it is the lineage of its last key
  (`Lineage.of_prefix`).
* A store that grows keeps its lineages (`Lineage.mono`).
* Any two lists split after their longest common part (`exists_fork`), which for two
  lineages is the lineage of the lowest common ancestor.
-/

set_option autoImplicit false

namespace Ancestry

universe u v

variable {κ : Type u} {ν : Type v}

/-- The nodes from a root to a key along parent links. -/
inductive Lineage (find : κ → Option ν) (parentOf : ν → Option κ) : κ → List (κ × ν) → Prop
  | root {k : κ} {v : ν} : find k = some v → parentOf v = none → Lineage find parentOf k [(k, v)]
  | child {k p : κ} {v : ν} {path : List (κ × ν)} : find k = some v → parentOf v = some p →
      Lineage find parentOf p path → Lineage find parentOf k (path ++ [(k, v)])

namespace Lineage

variable {find find' : κ → Option ν} {parentOf : ν → Option κ} {k : κ} {path : List (κ × ν)}

/-- A lineage ends with its key. -/
theorem exists_last (lineage : Lineage find parentOf k path) :
    ∃ front v, path = front ++ [(k, v)] ∧ find k = some v := by
  cases lineage with
  | root found isRoot => exact ⟨[], _, rfl, found⟩
  | child found hasParent ancestors => exact ⟨_, _, rfl, found⟩

theorem ne_nil (lineage : Lineage find parentOf k path) : path ≠ [] := by
  obtain ⟨front, v, rfl, -⟩ := lineage.exists_last
  simp

theorem last_eq {front : List (κ × ν)} {k' : κ} {v w : ν}
    (lineage : Lineage find parentOf k (front ++ [(k', v)])) (found : find k = some w) :
    k' = k ∧ v = w := by
  obtain ⟨front', v', same, found'⟩ := lineage.exists_last
  cases (List.append_inj' same rfl).2
  rw [found] at found'
  cases found'
  exact ⟨rfl, rfl⟩

/-- Below its last node a lineage is the lineage of the parent. -/
theorem of_concat {front : List (κ × ν)} {k' : κ} {v : ν}
    (lineage : Lineage find parentOf k (front ++ [(k', v)])) (notRoot : front ≠ []) :
    ∃ p w, parentOf v = some p ∧ find p = some w ∧ Lineage find parentOf p front := by
  generalize whole : front ++ [(k', v)] = path at lineage
  cases lineage with
  | root found isRoot =>
      have lengths := congrArg List.length whole
      have positive := List.length_pos_iff.mpr notRoot
      simp only [List.length_append, List.length_singleton] at lengths
      omega
  | child found hasParent ancestors =>
      obtain ⟨same, last⟩ := List.append_inj' whole rfl
      cases last
      subst same
      obtain ⟨-, w, -, parentFound⟩ := ancestors.exists_last
      exact ⟨_, w, hasParent, parentFound, ancestors⟩

/-- **A key has one lineage.** -/
theorem unique (lineage : Lineage find parentOf k path) {path' : List (κ × ν)}
    (lineage' : Lineage find parentOf k path') : path = path' := by
  induction lineage generalizing path' with
  | root found isRoot =>
      cases lineage' with
      | root found' isRoot' =>
          rw [found] at found'
          cases found'
          rfl
      | child found' hasParent' ancestors' =>
          rw [found] at found'
          cases found'
          rw [isRoot] at hasParent'
          cases hasParent'
  | child found hasParent ancestors ih =>
      cases lineage' with
      | root found' isRoot' =>
          rw [found] at found'
          cases found'
          rw [hasParent] at isRoot'
          cases isRoot'
      | child found' hasParent' ancestors' =>
          rw [found] at found'
          cases found'
          rw [hasParent] at hasParent'
          cases hasParent'
          rw [ih ancestors']

theorem mono (lineage : Lineage find parentOf k path)
    (grows : ∀ k v, find k = some v → find' k = some v) : Lineage find' parentOf k path := by
  induction lineage with
  | root found isRoot => exact .root (grows _ _ found) isRoot
  | child found hasParent ancestors ih => exact .child (grows _ _ found) hasParent ih

/-- Every initial part of a lineage is a lineage. -/
theorem of_prefix (lineage : Lineage find parentOf k path) :
    ∀ {front back : List (κ × ν)} {k' : κ} {v' : ν}, path = front ++ (k', v') :: back →
      Lineage find parentOf k' (front ++ [(k', v')]) := by
  induction lineage with
  | root found isRoot =>
      intro front back k' v' split
      cases front with
      | nil =>
          cases split
          exact .root found isRoot
      | cons item rest => simp at split
  | @child k p v path found hasParent ancestors ih =>
      intro front back k' v' split
      cases back using List.reverseRecOn with
      | nil =>
          obtain ⟨rfl, eq⟩ := List.append_inj' split rfl
          cases eq
          exact .child found hasParent ancestors
      | append_singleton back last =>
          rw [← List.cons_append, ← List.append_assoc] at split
          exact ih (List.append_inj' split rfl).1

theorem find_of_mem (lineage : Lineage find parentOf k path) {k' : κ} {v' : ν}
    (member : (k', v') ∈ path) : find k' = some v' := by
  obtain ⟨front, back, split⟩ := List.append_of_mem member
  obtain ⟨front', v, eq, found⟩ := (lineage.of_prefix split).exists_last
  have same := (List.append_inj' eq rfl).2
  cases same
  exact found

/-- **No key occurs twice on a lineage.** -/
theorem nodup (lineage : Lineage find parentOf k path) : (path.map Prod.fst).Nodup := by
  induction lineage with
  | root found isRoot => simp
  | @child k p v path found hasParent ancestors ih =>
      rw [List.map_append, List.nodup_append]
      refine ⟨ih, by simp, ?_⟩
      intro k' before k'' here
      rw [List.map_singleton, List.mem_singleton] at here
      subst here
      rintro rfl
      obtain ⟨⟨k', v'⟩, member, rfl⟩ := List.mem_map.mp before
      obtain ⟨front, back, split⟩ := List.append_of_mem member
      have whole := (Lineage.child found hasParent ancestors).unique (ancestors.of_prefix split)
      have lengths := congrArg List.length whole
      rw [split] at lengths
      simp at lengths

/-- The first node of a lineage has no parent. -/
theorem root_of_cons (lineage : Lineage find parentOf k path) {item : κ × ν}
    {rest : List (κ × ν)} (split : path = item :: rest) : parentOf item.2 = none := by
  have atStart : path = [] ++ (item.1, item.2) :: rest := split
  have first := lineage.of_prefix atStart
  generalize whole : [] ++ [(item.1, item.2)] = whole' at first
  cases first with
  | root found isRoot =>
      cases whole
      exact isRoot
  | child found hasParent ancestors =>
      have short := congrArg List.length whole
      have long := List.length_pos_iff.mpr ancestors.ne_nil
      simp only [List.length_append, List.length_singleton, List.length_nil] at short
      omega

end Lineage

/-- **Two lists share a longest initial part.** After it one of them ends or they
differ. -/
theorem exists_fork {α : Type u} (xs ys : List α) :
    ∃ common left right, xs = common ++ left ∧ ys = common ++ right ∧
      ∀ x ∈ left.head?, ∀ y ∈ right.head?, x ≠ y := by
  classical
  induction xs generalizing ys with
  | nil => exact ⟨[], [], ys, rfl, rfl, by simp⟩
  | cons x xs ih =>
      cases ys with
      | nil => exact ⟨[], x :: xs, [], rfl, rfl, by simp⟩
      | cons y ys =>
          by_cases same : x = y
          · obtain ⟨common, left, right, rfl, rfl, differ⟩ := ih ys
            exact ⟨x :: common, left, right, rfl, by rw [same]; rfl, differ⟩
          · exact ⟨[], x :: xs, y :: ys, rfl, rfl, by simpa using same⟩

end Ancestry
