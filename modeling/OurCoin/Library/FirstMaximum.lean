import Mathlib

/-!
# The first of the heaviest

`IsFirstMax weight xs x` says that `x` is the first element of greatest weight in a
list. Appending an element that is not heavier keeps it, and appending a heavier one
replaces it, which is how a running maximum with a strict comparison behaves
(`IsFirstMax.concat_of_le`, `IsFirstMax.concat_of_lt`). Lists with the same members have
the same greatest weight (`IsFirstMax.weight_eq`), and the same first maximum when only
one element attains it (`IsFirstMax.eq_of_unique`).
-/

set_option autoImplicit false

universe u v

variable {α : Type u} {ω : Type v} [LinearOrder ω] {weight : α → ω}

/-- The first element of greatest weight. -/
def IsFirstMax (weight : α → ω) (xs : List α) (x : α) : Prop :=
  ∃ front back, xs = front ++ x :: back ∧ (∀ y ∈ front, weight y < weight x) ∧
    ∀ y ∈ back, weight y ≤ weight x

namespace IsFirstMax

variable {xs ys : List α} {x y new : α}

theorem singleton (x : α) : IsFirstMax weight [x] x :=
  ⟨[], [], rfl, by simp, by simp⟩

theorem mem (first : IsFirstMax weight xs x) : x ∈ xs := by
  obtain ⟨front, back, rfl, -, -⟩ := first
  simp

theorem le (first : IsFirstMax weight xs x) (member : y ∈ xs) : weight y ≤ weight x := by
  obtain ⟨front, back, rfl, before, after⟩ := first
  rcases List.mem_append.mp member with inFront | inRest
  · exact (before y inFront).le
  · rcases List.mem_cons.mp inRest with rfl | inBack
    · exact le_rfl
    · exact after y inBack

/-- A new element that is not heavier does not replace the maximum. -/
theorem concat_of_le (first : IsFirstMax weight xs x) (light : weight new ≤ weight x) :
    IsFirstMax weight (xs ++ [new]) x := by
  obtain ⟨front, back, rfl, before, after⟩ := first
  refine ⟨front, back ++ [new], by simp, before, ?_⟩
  intro y member
  rcases List.mem_append.mp member with inBack | isNew
  · exact after y inBack
  · rwa [List.mem_singleton.mp isNew]

/-- A heavier new element is the maximum. -/
theorem concat_of_lt (first : IsFirstMax weight xs x) (heavy : weight x < weight new) :
    IsFirstMax weight (xs ++ [new]) new :=
  ⟨xs, [], rfl, fun _ member => (first.le member).trans_lt heavy, by simp⟩

/-- The first maximum of another list with the same keys and weights. -/
theorem of_map {β κ : Type u} {key : α → κ} {key' : β → κ} {weight' : β → ω} {zs : List β}
    (first : IsFirstMax weight xs x)
    (same : xs.map (fun a => (key a, weight a)) = zs.map fun b => (key' b, weight' b)) :
    ∃ z, key' z = key x ∧ IsFirstMax weight' zs z := by
  obtain ⟨front, back, rfl, before, after⟩ := first
  rw [List.map_append, List.map_cons] at same
  obtain ⟨front', rest, rfl, frontEq, restEq⟩ := List.map_eq_append_iff.mp same.symm
  obtain ⟨z, back', rfl, zEq, backEq⟩ := List.map_eq_cons_iff.mp restEq
  obtain ⟨keyEq, weightEq⟩ := Prod.mk.inj zEq
  have weighed : ∀ {as : List α} {bs : List β}, bs.map (fun b => (key' b, weight' b)) =
      as.map (fun a => (key a, weight a)) → ∀ b ∈ bs, ∃ a ∈ as, weight a = weight' b := by
    intro as bs same b member
    have inMap : (key' b, weight' b) ∈ bs.map fun b => (key' b, weight' b) :=
      List.mem_map_of_mem (f := fun b => (key' b, weight' b)) member
    rw [same] at inMap
    obtain ⟨a, inList, pairEq⟩ := List.mem_map.mp inMap
    exact ⟨a, inList, (Prod.mk.inj pairEq).2⟩
  refine ⟨z, keyEq, front', back', rfl, ?_, ?_⟩
  · intro y member
    obtain ⟨a, inFront, same⟩ := weighed frontEq y member
    rw [← same, weightEq]
    exact before a inFront
  · intro y member
    obtain ⟨a, inBack, same⟩ := weighed backEq y member
    rw [← same, weightEq]
    exact after a inBack

/-- Lists with the same members have the same greatest weight. -/
theorem weight_eq (first : IsFirstMax weight xs x) (second : IsFirstMax weight ys y)
    (same : ∀ z, z ∈ xs ↔ z ∈ ys) : weight x = weight y :=
  le_antisymm (second.le ((same x).mp first.mem)) (first.le ((same y).mpr second.mem))

/-- The maximum does not depend on the order when only one element attains it. -/
theorem eq_of_unique (first : IsFirstMax weight xs x) (second : IsFirstMax weight ys y)
    (same : ∀ z, z ∈ xs ↔ z ∈ ys) (unique : ∀ z ∈ xs, weight z = weight x → z = x) : y = x :=
  unique y ((same y).mpr second.mem) (first.weight_eq second same).symm

end IsFirstMax
