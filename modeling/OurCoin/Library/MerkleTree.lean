import Mathlib.Data.List.Nodup
import Mathlib.Logic.Function.Iterate

/-!
# Trees that combine neighbours

A list is reduced to one value by combining neighbours level by level with a function
`node`. The last value of a level of odd length is combined with itself, so a list and
the same list with its last part repeated are reduced to the same value.

* `pairUp_injective`: among lists without repetitions a level determines the values
  below it, although the last pair may stand for one value or two.
* `nodup_level`: no repetitions below, none above.
* `eq_of_reduce_eq`: lists without repetitions that are reduced to the same value are
  equal, when `node` is injective on the pairs that were combined (`Combined`) and no
  value of one list is a combination made from the other. The second condition is what
  tells apart trees of different heights.
-/

set_option autoImplicit false

namespace MerkleTree

variable {α : Type}

/-! ## One level -/

/-- Neighbours, with the last value of a list of odd length next to itself. -/
def pairUp : List α → List (α × α)
  | [] => []
  | [last] => [(last, last)]
  | left :: right :: rest => (left, right) :: pairUp rest

/-- **Without repetitions the pairs determine the list.** -/
theorem pairUp_injective : ∀ {first second : List α}, first.Nodup → second.Nodup →
    pairUp first = pairUp second → first = second
  | [], [], _, _, _ => rfl
  | [], [_], _, _, same => by simp [pairUp] at same
  | [], _ :: _ :: _, _, _, same => by simp [pairUp] at same
  | [_], [], _, _, same => by simp [pairUp] at same
  | _ :: _ :: _, [], _, _, same => by simp [pairUp] at same
  | [a], [b], _, _, same => by
      simp only [pairUp, List.cons.injEq, Prod.mk.injEq, and_true] at same
      rw [same.1]
  | [a], b :: c :: rest, _, nodup, same => by
      -- The pair of one value with itself against two different values.
      simp only [pairUp, List.cons.injEq, Prod.mk.injEq] at same
      obtain ⟨⟨rfl, rfl⟩, -⟩ := same
      simp at nodup
  | b :: c :: rest, [a], nodup, _, same => by
      simp only [pairUp, List.cons.injEq, Prod.mk.injEq] at same
      obtain ⟨⟨rfl, rfl⟩, -⟩ := same
      simp at nodup
  | a :: b :: first, c :: d :: second, nodup, nodup', same => by
      simp only [pairUp, List.cons.injEq, Prod.mk.injEq] at same
      obtain ⟨⟨rfl, rfl⟩, same⟩ := same
      have rests := pairUp_injective (nodup.of_cons.of_cons) (nodup'.of_cons.of_cons) same
      rw [rests]

/-- The left values of the pairs stand in the list in their order. -/
theorem sublist_pairUp : ∀ values : List α, List.Sublist ((pairUp values).map Prod.fst) values
  | [] => .slnil
  | [_] => .refl _
  | left :: right :: rest => ((sublist_pairUp rest).cons right).cons_cons left

theorem mem_of_mem_pairUp : ∀ {values : List α} {pair : α × α}, pair ∈ pairUp values →
    pair.1 ∈ values ∧ pair.2 ∈ values
  | [last], pair, member => by
      rw [pairUp, List.mem_singleton] at member
      subst member
      simp
  | left :: right :: rest, pair, member => by
      rw [pairUp, List.mem_cons] at member
      rcases member with rfl | later
      · simp
      · obtain ⟨leftMem, rightMem⟩ := mem_of_mem_pairUp later
        exact ⟨List.mem_cons_of_mem _ (List.mem_cons_of_mem _ leftMem),
          List.mem_cons_of_mem _ (List.mem_cons_of_mem _ rightMem)⟩

theorem length_pairUp : ∀ values : List α, (pairUp values).length = (values.length + 1) / 2
  | [] => by simp [pairUp]
  | [_] => by simp [pairUp]
  | left :: right :: rest => by
      rw [pairUp, List.length_cons, length_pairUp rest, List.length_cons, List.length_cons]
      omega

variable (node : α → α → α)

/-- The combinations of neighbours. -/
def level (values : List α) : List α := (pairUp values).map fun pair => node pair.1 pair.2

theorem length_level (values : List α) : (level node values).length = (values.length + 1) / 2 := by
  rw [level, List.length_map, length_pairUp]

/-- Different pairs have different combinations, among those of a set. -/
def InjectiveOn (pairs : α × α → Prop) : Prop :=
  ∀ first second, pairs first → pairs second →
    node first.1 first.2 = node second.1 second.2 → first = second

variable {node}

theorem InjectiveOn.mono {pairs fewer : α × α → Prop} (injective : InjectiveOn node pairs)
    (within : ∀ pair, fewer pair → pairs pair) : InjectiveOn node fewer :=
  fun first second firstIn secondIn =>
    injective first second (within first firstIn) (within second secondIn)

/-- **No repetitions below, none above.** -/
theorem nodup_level {values : List α} (nodup : values.Nodup)
    (injective : InjectiveOn node (· ∈ pairUp values)) : (level node values).Nodup := by
  apply List.Nodup.map_on
  · intro first firstMem second secondMem same
    exact injective first second firstMem secondMem same
  · exact List.Nodup.of_map Prod.fst (nodup.sublist (sublist_pairUp values))

/-- Lists are equal when their images are, under a function that is injective on their
members. -/
theorem eq_of_map_eq {β γ : Type} {f : β → γ} : ∀ {first second : List β},
    (∀ x y, (x ∈ first ∨ x ∈ second) → (y ∈ first ∨ y ∈ second) → f x = f y → x = y) →
      first.map f = second.map f → first = second
  | [], [], _, _ => rfl
  | [], _ :: _, _, same => by simp at same
  | _ :: _, [], _, same => by simp at same
  | x :: first, y :: second, injective, same => by
      rw [List.map_cons, List.map_cons, List.cons.injEq] at same
      obtain ⟨heads, tails⟩ := same
      have later : ∀ z, (z ∈ first ∨ z ∈ second) → (z ∈ x :: first ∨ z ∈ y :: second) :=
        fun z member => member.imp (List.mem_cons_of_mem _) (List.mem_cons_of_mem _)
      rw [injective x y (.inl List.mem_cons_self) (.inr List.mem_cons_self) heads,
        eq_of_map_eq (fun z w zMem wMem => injective z w (later z zMem) (later w wMem)) tails]

/-- A level determines the values below it. -/
theorem level_injective {first second : List α} (nodup : first.Nodup) (nodup' : second.Nodup)
    (injective : InjectiveOn node fun pair => pair ∈ pairUp first ∨ pair ∈ pairUp second)
    (same : level node first = level node second) : first = second := by
  apply pairUp_injective nodup nodup'
  exact eq_of_map_eq injective same

/-! ## All levels -/

variable (node)

/-- Levels as long as there is more than one value, at most the given number of them. -/
def reduce : Nat → List α → List α
  | 0, values => values
  | fuel + 1, values => if values.length > 1 then reduce fuel (level node values) else values

/-- A pair that is combined in the reduction of a list. -/
def Combined (values : List α) (pair : α × α) : Prop :=
  ∃ height, 1 < ((level node)^[height] values).length ∧
    pair ∈ pairUp ((level node)^[height] values)

variable {node}

/-- The reduction of a nonempty list goes through its levels, up to the first one with a
single value. -/
theorem exists_height : ∀ {fuel : Nat} {values : List α}, values ≠ [] → values.length ≤ fuel →
    ∃ height root, reduce node fuel values = [root] ∧ (level node)^[height] values = [root] ∧
      ∀ lower < height, 1 < ((level node)^[lower] values).length
  | 0, values, nonempty, enough => by
      have positive := List.length_pos_iff.mpr nonempty
      omega
  | fuel + 1, values, nonempty, enough => by
      have positive := List.length_pos_iff.mpr nonempty
      rw [reduce]
      split
      · rename_i several
        have length := length_level node values
        obtain ⟨height, root, reduced, reached, above⟩ :=
          @exists_height fuel (level node values) (List.length_pos_iff.mp (by omega)) (by omega)
        refine ⟨height + 1, root, reduced, reached, ?_⟩
        intro lower below
        cases lower with
        | zero => exact several
        | succ lower => exact above lower (by omega)
      · obtain ⟨root, single⟩ := List.length_eq_one_iff.mp (by omega : values.length = 1)
        exact ⟨0, root, single, single, fun lower below => absurd below (Nat.not_lt_zero _)⟩

/-- A single value is combined with nothing. -/
theorem not_combined_singleton (value : α) (pair : α × α) : ¬ Combined node [value] pair := by
  rintro ⟨height, several, -⟩
  have length : ((level node)^[height] [value]).length = 1 := by
    clear several
    induction height with
    | zero => rfl
    | succ height ih => rw [Function.iterate_succ_apply', length_level, ih]
  omega

/-- Nothing is combined in the reduction of the empty list. -/
theorem not_combined_nil (pair : α × α) : ¬ Combined node [] pair := by
  rintro ⟨height, several, -⟩
  have length : ((level node)^[height] []).length = 0 := by
    clear several
    induction height with
    | zero => rfl
    | succ height ih => rw [Function.iterate_succ_apply', length_level, ih]
  omega

/-- What is combined stands side by side, or is combined one level up. -/
theorem combined_iff {values : List α} {pair : α × α} : Combined node values pair ↔
    1 < values.length ∧ (pair ∈ pairUp values ∨ Combined node (level node values) pair) := by
  constructor
  · intro combined
    have several : 1 < values.length := by
      by_contra few
      rcases Nat.le_one_iff_eq_zero_or_eq_one.mp (Nat.not_lt.mp few) with none | one
      · rw [List.eq_nil_of_length_eq_zero none] at combined
        exact not_combined_nil pair combined
      · obtain ⟨value, rfl⟩ := List.length_eq_one_iff.mp one
        exact not_combined_singleton value pair combined
    refine ⟨several, ?_⟩
    obtain ⟨height, above, member⟩ := combined
    cases height with
    | zero => exact .inl member
    | succ height => exact .inr ⟨height, above, member⟩
  · rintro ⟨several, member | ⟨height, above, member⟩⟩
    · exact ⟨0, several, member⟩
    · exact ⟨height + 1, above, member⟩

/-- A property of the values that every combination has holds of all combined pairs. -/
theorem Combined.forall {P : α → Prop} {values : List α} (leaves : ∀ x ∈ values, P x)
    (closed : ∀ x y, P x → P y → P (node x y)) {pair : α × α} (combined : Combined node values pair) :
    P pair.1 ∧ P pair.2 := by
  obtain ⟨height, -, member⟩ := combined
  have all : ∀ (height : Nat), ∀ x ∈ (level node)^[height] values, P x := by
    intro height
    induction height with
    | zero => exact leaves
    | succ height ih =>
        rw [Function.iterate_succ_apply']
        intro x member
        obtain ⟨below, belowMem, rfl⟩ := List.mem_map.mp member
        obtain ⟨leftMem, rightMem⟩ := mem_of_mem_pairUp belowMem
        exact closed _ _ (ih _ leftMem) (ih _ rightMem)
  obtain ⟨leftMem, rightMem⟩ := mem_of_mem_pairUp member
  exact ⟨all height _ leftMem, all height _ rightMem⟩

theorem nodup_iterate {values : List α} (nodup : values.Nodup) : ∀ {height : Nat},
    (∀ lower < height, InjectiveOn node (· ∈ pairUp ((level node)^[lower] values))) →
      ((level node)^[height] values).Nodup
  | 0, _ => nodup
  | height + 1, injective => by
      rw [Function.iterate_succ_apply']
      exact nodup_level (nodup_iterate nodup fun lower below => injective lower (by omega))
        (injective height (by omega))

/-- Levels of the same height determine the values they were made from. -/
theorem iterate_injective : ∀ {height : Nat} {first second : List α}, first.Nodup → second.Nodup →
    (∀ lower < height, InjectiveOn node fun pair =>
      pair ∈ pairUp ((level node)^[lower] first) ∨ pair ∈ pairUp ((level node)^[lower] second)) →
    (level node)^[height] first = (level node)^[height] second → first = second
  | 0, _, _, _, _, _, same => same
  | height + 1, first, second, nodup, nodup', injective, same => by
      have here := injective 0 (by omega)
      have upper : level node first = level node second :=
        iterate_injective (nodup_level nodup (here.mono fun pair => .inl))
          (nodup_level nodup' (here.mono fun pair => .inr))
          (fun lower below => injective (lower + 1) (by omega)) same
      exact level_injective nodup nodup' here upper

/-- The part of `eq_of_reduce_eq` in which the first tree is not higher. -/
theorem eq_of_iterate_eq {first second : List α} {height extra : Nat} (nonempty : first ≠ [])
    (nodup : first.Nodup) (nodup' : second.Nodup)
    (injective : InjectiveOn node fun pair => Combined node first pair ∨ Combined node second pair)
    (leaves : ∀ x ∈ first, ∀ pair, Combined node second pair → x ≠ node pair.1 pair.2)
    (above : ∀ lower < height, 1 < ((level node)^[lower] first).length)
    (above' : ∀ lower < height + extra, 1 < ((level node)^[lower] second).length)
    (same : (level node)^[height] first = (level node)^[height + extra] second) :
    first = second := by
  have lifted : ∀ lower, (level node)^[lower] ((level node)^[extra] second) =
      (level node)^[lower + extra] second := fun lower => (Function.iterate_add_apply ..).symm
  have base : first = (level node)^[extra] second := by
    refine @iterate_injective _ node height _ _ nodup ?_ ?_ ?_
    · exact nodup_iterate nodup' fun lower below => injective.mono fun pair member =>
        .inr ⟨lower, above' lower (by omega), member⟩
    · intro lower below
      rw [lifted]
      refine injective.mono fun pair member => ?_
      exact member.imp (fun inFirst => ⟨lower, above lower below, inFirst⟩)
        (fun inSecond => ⟨lower + extra, above' _ (by omega), inSecond⟩)
    · rw [lifted, same]
  cases extra with
  | zero => exact base
  | succ extra =>
      -- The leaves of the first tree would be combinations made in the second.
      obtain ⟨leaf, member⟩ := List.exists_mem_of_ne_nil first nonempty
      have inner := member
      rw [base, Function.iterate_succ_apply'] at inner
      obtain ⟨pair, pairMem, rfl⟩ := List.mem_map.mp inner
      exact absurd rfl (leaves _ member pair ⟨extra, above' _ (by omega), pairMem⟩)

/-- **The root determines the leaves**, in lists without repetitions. -/
theorem eq_of_reduce_eq {first second : List α} {fuel fuel' : Nat} (nonempty : first ≠ [])
    (nonempty' : second ≠ []) (enough : first.length ≤ fuel) (enough' : second.length ≤ fuel')
    (nodup : first.Nodup) (nodup' : second.Nodup)
    (injective : InjectiveOn node fun pair => Combined node first pair ∨ Combined node second pair)
    (leaves : ∀ x ∈ first, ∀ pair, Combined node second pair → x ≠ node pair.1 pair.2)
    (leaves' : ∀ x ∈ second, ∀ pair, Combined node first pair → x ≠ node pair.1 pair.2)
    (same : reduce node fuel first = reduce node fuel' second) : first = second := by
  obtain ⟨height, root, reduced, reached, above⟩ := @exists_height _ node _ _ nonempty enough
  obtain ⟨height', root', reduced', reached', above'⟩ := @exists_height _ node _ _ nonempty' enough'
  rw [reduced, reduced'] at same
  rcases Nat.le_total height height' with lower | higher
  · obtain ⟨extra, rfl⟩ := Nat.exists_eq_add_of_le lower
    exact eq_of_iterate_eq nonempty nodup nodup' injective leaves above above'
      (by rw [reached, reached', same])
  · obtain ⟨extra, rfl⟩ := Nat.exists_eq_add_of_le higher
    exact (eq_of_iterate_eq nonempty' nodup' nodup (injective.mono fun pair => Or.symm) leaves'
      above' above (by rw [reached, reached', same])).symm

end MerkleTree
