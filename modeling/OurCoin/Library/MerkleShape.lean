import OurCoin.Library.MerkleTree

/-!
# The shape of a reduction

What `reduce` computes before any function is applied: the tree of combinations over the values
of a list (`shapes`). Lists with repetitions can have one shape although they differ, because an
odd level is completed by a copy of its last value. That is the only ambiguity.

* `reduce_eq_eval`: the value of the shape is the value of the list.
* `shapes_eq_of_reduce_eq`: lists with the same value have the same shape, when the function is
  injective on the pairs that were combined and no value of one list is a combination made from
  the other.
* `mem_iff_of_shapes_eq`: lists of one shape have the same members.
* `shapes_map_eq` and `shapes_eq_of_map`: relabelling the values keeps equal shapes equal, and
  different ones different when it is injective.
-/

set_option autoImplicit false

namespace MerkleTree

variable {α : Type}

/-- The combinations that reduce a list to one value. -/
inductive Shape (α : Type) where
  | leaf (value : α)
  | node (left right : Shape α)
  deriving DecidableEq

namespace Shape

variable (node : α → α → α)

/-- The value of a tree of combinations. -/
def eval : Shape α → α
  | leaf value => value
  | .node left right => node left.eval right.eval

/-- The leaves of a tree are among some values, and its pairs are combined in their reduction. -/
def Within (values : List α) : Shape α → Prop
  | leaf value => value ∈ values
  | .node left right => left.Within values ∧ right.Within values ∧
      Combined node values (left.eval node, right.eval node)

variable {node}

/-- **Trees with one value are equal**, when combinations determine what was combined and are
told apart from leaves. -/
theorem eq_of_eval_eq {first second : List α}
    (injective : InjectiveOn node fun pair => Combined node first pair ∨ Combined node second pair)
    (leaves : ∀ x ∈ first, ∀ pair, Combined node second pair → x ≠ node pair.1 pair.2)
    (leaves' : ∀ x ∈ second, ∀ pair, Combined node first pair → x ≠ node pair.1 pair.2) :
    ∀ {tree tree' : Shape α}, tree.Within node first → tree'.Within node second →
      tree.eval node = tree'.eval node → tree = tree'
  | leaf value, leaf value', _, _, same => by
      rw [eval, eval] at same
      rw [same]
  | leaf value, .node left right, within, within', same =>
      absurd same (leaves value within _ within'.2.2)
  | .node left right, leaf value, within, within', same =>
      absurd same.symm (leaves' value within' _ within.2.2)
  | .node left right, .node left' right', within, within', same => by
      have pairs := injective _ _ (.inl within.2.2) (.inr within'.2.2) same
      rw [Prod.mk.injEq] at pairs
      rw [eq_of_eval_eq injective leaves leaves' within.1 within'.1 pairs.1,
        eq_of_eval_eq injective leaves leaves' within.2.1 within'.2.1 pairs.2]

end Shape

/-! ## Shapes of lists -/

/-- The reduction of a list, without applying a function. -/
def shapes (values : List α) : List (Shape α) :=
  reduce Shape.node values.length (values.map Shape.leaf)

theorem pairUp_map {β : Type} (f : α → β) : ∀ values : List α,
    pairUp (values.map f) = (pairUp values).map fun pair => (f pair.1, f pair.2)
  | [] => rfl
  | [_] => rfl
  | left :: right :: rest => by
      rw [List.map_cons, List.map_cons, pairUp, pairUp, List.map_cons, pairUp_map f rest]

section Homomorphism

variable {β : Type} {node : α → α → α} {node' : β → β → β} {f : α → β}
  (commutes : ∀ x y, f (node x y) = node' (f x) (f y))

include commutes

theorem level_map (values : List α) : level node' (values.map f) = (level node values).map f := by
  rw [level, level, pairUp_map, List.map_map, List.map_map]
  apply List.map_congr_left
  intro pair _
  exact (commutes pair.1 pair.2).symm

theorem iterate_level_map (height : Nat) (values : List α) :
    (level node')^[height] (values.map f) = ((level node)^[height] values).map f := by
  induction height with
  | zero => rfl
  | succ height ih =>
      rw [Function.iterate_succ_apply', Function.iterate_succ_apply', ih, level_map commutes]

/-- **Reduction commutes with a function that commutes with the combination.** -/
theorem reduce_map : ∀ (fuel : Nat) (values : List α),
    reduce node' fuel (values.map f) = (reduce node fuel values).map f
  | 0, _ => rfl
  | fuel + 1, values => by
      rw [reduce, reduce, List.length_map]
      split
      · rw [level_map commutes, reduce_map fuel]
      · rfl

end Homomorphism

variable {node : α → α → α}

theorem map_eval_leaf (values : List α) :
    (values.map Shape.leaf).map (Shape.eval node) = values := by
  rw [List.map_map]
  exact List.map_id values

/-- **The value of the shape is the value of the list.** -/
theorem reduce_eq_eval (values : List α) :
    reduce node values.length values = (shapes values).map (Shape.eval node) := by
  rw [shapes, ← @reduce_map _ _ Shape.node node (Shape.eval node) fun _ _ => rfl, map_eval_leaf]

/-- The trees of a level are made of what was combined below it. -/
theorem within_iterate (values : List α) : ∀ {height : Nat},
    (∀ lower < height, 1 < ((level node)^[lower] values).length) →
      ∀ tree ∈ (level Shape.node)^[height] (values.map Shape.leaf), tree.Within node values
  | 0, _, tree, member => by
      obtain ⟨value, isLeaf, rfl⟩ := List.mem_map.mp member
      exact isLeaf
  | height + 1, several, tree, member => by
      rw [Function.iterate_succ_apply'] at member
      obtain ⟨pair, pairMem, rfl⟩ := List.mem_map.mp member
      have below := @within_iterate values height fun lower less => several lower (by omega)
      obtain ⟨left, right⟩ := mem_of_mem_pairUp pairMem
      refine ⟨below _ left, below _ right, height, several height (by omega), ?_⟩
      have here := @iterate_level_map _ _ Shape.node node (Shape.eval node) (fun _ _ => rfl) height
        (values.map Shape.leaf)
      rw [map_eval_leaf] at here
      rw [here, pairUp_map]
      exact List.mem_map.mpr ⟨pair, pairMem, rfl⟩

/-- The shape of a nonempty list is one tree. -/
theorem exists_shape {values : List α} (nonempty : values ≠ []) :
    ∃ tree, shapes values = [tree] ∧ tree.Within node values := by
  have leavesNonempty : values.map Shape.leaf ≠ [] := by simpa using nonempty
  obtain ⟨height, tree, reduced, reached, above⟩ :=
    @exists_height _ Shape.node values.length _ leavesNonempty (Nat.le_of_eq (List.length_map _))
  refine ⟨tree, reduced, ?_⟩
  apply within_iterate values _ tree (by rw [reached]; exact List.mem_singleton_self tree)
  intro lower below
  have here := @iterate_level_map _ _ Shape.node node (Shape.eval node) (fun _ _ => rfl) lower
    (values.map Shape.leaf)
  rw [map_eval_leaf] at here
  rw [here, List.length_map]
  exact above lower below

/-- **Lists with the same value have the same shape.** -/
theorem shapes_eq_of_reduce_eq {first second : List α} (nonempty : first ≠ [])
    (nonempty' : second ≠ [])
    (injective : InjectiveOn node fun pair => Combined node first pair ∨ Combined node second pair)
    (leaves : ∀ x ∈ first, ∀ pair, Combined node second pair → x ≠ node pair.1 pair.2)
    (leaves' : ∀ x ∈ second, ∀ pair, Combined node first pair → x ≠ node pair.1 pair.2)
    (same : reduce node first.length first = reduce node second.length second) :
    shapes first = shapes second := by
  obtain ⟨tree, shape, within⟩ := @exists_shape _ node _ nonempty
  obtain ⟨tree', shape', within'⟩ := @exists_shape _ node _ nonempty'
  rw [reduce_eq_eval, reduce_eq_eval, shape, shape', List.map_singleton, List.map_singleton,
    List.singleton_inj] at same
  rw [shape, shape', Shape.eq_of_eval_eq injective leaves leaves' within within' same]

/-- Lists with the same shape have the same value. -/
theorem reduce_eq_of_shapes_eq {first second : List α} (same : shapes first = shapes second) :
    reduce node first.length first = reduce node second.length second := by
  rw [reduce_eq_eval, reduce_eq_eval, same]

/-! ## Relabelling -/

namespace Shape

variable {β : Type}

/-- A tree with other leaves. -/
def map (f : α → β) : Shape α → Shape β
  | leaf value => leaf (f value)
  | .node left right => .node (left.map f) (right.map f)

/-- The leaves of a tree, from left to right. -/
def leaves : Shape α → List α
  | leaf value => [value]
  | .node left right => left.leaves ++ right.leaves

theorem eq_of_map_eq {f : α → β} {members : α → Prop}
    (injective : ∀ x y, members x → members y → f x = f y → x = y) :
    ∀ {tree tree' : Shape α}, (∀ x ∈ tree.leaves, members x) → (∀ x ∈ tree'.leaves, members x) →
      tree.map f = tree'.map f → tree = tree'
  | leaf x, leaf y, inside, inside', same => by
      have values : f x = f y := Shape.leaf.inj same
      rw [injective x y (inside x (by simp [leaves])) (inside' y (by simp [leaves])) values]
  | leaf _, .node _ _, _, _, same => by cases same
  | .node _ _, leaf _, _, _, same => by cases same
  | .node left right, .node left' right', inside, inside', same => by
      obtain ⟨lefts, rights⟩ := Shape.node.inj same
      rw [eq_of_map_eq injective (fun x member => inside x (List.mem_append_left _ member))
          (fun x member => inside' x (List.mem_append_left _ member)) lefts,
        eq_of_map_eq injective (fun x member => inside x (List.mem_append_right _ member))
          (fun x member => inside' x (List.mem_append_right _ member)) rights]

end Shape

theorem exists_mem_pairUp : ∀ {values : List α} {value : α}, value ∈ values →
    ∃ pair ∈ pairUp values, pair.1 = value ∨ pair.2 = value
  | [last], value, member => by
      rw [List.mem_singleton.mp member]
      exact ⟨(last, last), List.mem_singleton_self _, .inl rfl⟩
  | left :: right :: rest, value, member => by
      rcases List.mem_cons.mp member with rfl | member
      · exact ⟨_, List.mem_cons_self, .inl rfl⟩
      · rcases List.mem_cons.mp member with rfl | later
        · exact ⟨_, List.mem_cons_self, .inr rfl⟩
        · obtain ⟨pair, pairMem, isValue⟩ := exists_mem_pairUp later
          exact ⟨pair, List.mem_cons_of_mem _ pairMem, isValue⟩

/-- A round of the reduction keeps the leaves. -/
theorem mem_leaves_level {x : α} {trees : List (Shape α)} :
    (∃ tree ∈ level Shape.node trees, x ∈ tree.leaves) ↔ ∃ tree ∈ trees, x ∈ tree.leaves := by
  constructor
  · rintro ⟨tree, member, isLeaf⟩
    obtain ⟨pair, pairMem, rfl⟩ := List.mem_map.mp member
    obtain ⟨left, right⟩ := mem_of_mem_pairUp pairMem
    rcases List.mem_append.mp isLeaf with inLeft | inRight
    · exact ⟨pair.1, left, inLeft⟩
    · exact ⟨pair.2, right, inRight⟩
  · rintro ⟨tree, member, isLeaf⟩
    obtain ⟨pair, pairMem, isTree⟩ := exists_mem_pairUp member
    refine ⟨Shape.node pair.1 pair.2, List.mem_map_of_mem pairMem, ?_⟩
    rcases isTree with rfl | rfl
    · exact List.mem_append_left _ isLeaf
    · exact List.mem_append_right _ isLeaf

theorem mem_leaves_reduce {x : α} : ∀ {fuel : Nat} {trees : List (Shape α)},
    (∃ tree ∈ reduce Shape.node fuel trees, x ∈ tree.leaves) ↔ ∃ tree ∈ trees, x ∈ tree.leaves
  | 0, _ => Iff.rfl
  | fuel + 1, trees => by
      rw [reduce]
      split
      · rw [mem_leaves_reduce, mem_leaves_level]
      · rfl

theorem mem_leaves_shapes {x : α} {values : List α} :
    (∃ tree ∈ shapes values, x ∈ tree.leaves) ↔ x ∈ values := by
  rw [shapes, mem_leaves_reduce]
  simp [Shape.leaves]

/-- **Lists of one shape have the same members.** -/
theorem mem_iff_of_shapes_eq {first second : List α} (same : shapes first = shapes second) {x : α} :
    x ∈ first ↔ x ∈ second := by
  rw [← mem_leaves_shapes, same, mem_leaves_shapes]

theorem shapes_map {β : Type} (f : α → β) (values : List α) :
    shapes (values.map f) = (shapes values).map (Shape.map f) := by
  rw [shapes, shapes, List.length_map,
    ← @reduce_map _ _ Shape.node Shape.node (Shape.map f) fun _ _ => rfl, List.map_map, List.map_map]
  rfl

/-- Relabelling keeps equal shapes equal. -/
theorem shapes_map_eq {β : Type} (f : α → β) {first second : List α}
    (same : shapes first = shapes second) : shapes (first.map f) = shapes (second.map f) := by
  rw [shapes_map, shapes_map, same]

/-- **An injective relabelling keeps different shapes different.** -/
theorem shapes_eq_of_map {β : Type} {f : α → β} {first second : List α} (nonempty : first ≠ [])
    (nonempty' : second ≠ [])
    (injective : ∀ x y, (x ∈ first ∨ x ∈ second) → (y ∈ first ∨ y ∈ second) → f x = f y → x = y)
    (same : shapes (first.map f) = shapes (second.map f)) : shapes first = shapes second := by
  -- Any combination will do for the existence of the trees.
  obtain ⟨tree, shape, -⟩ := @exists_shape _ (fun x _ => x) _ nonempty
  obtain ⟨tree', shape', -⟩ := @exists_shape _ (fun x _ => x) _ nonempty'
  rw [shapes_map, shapes_map, shape, shape', List.map_singleton, List.map_singleton,
    List.singleton_inj] at same
  have leaf : ∀ x ∈ tree.leaves, x ∈ first ∨ x ∈ second := fun x isLeaf =>
    .inl (mem_leaves_shapes.mp ⟨tree, by rw [shape]; exact List.mem_singleton_self _, isLeaf⟩)
  have leaf' : ∀ x ∈ tree'.leaves, x ∈ first ∨ x ∈ second := fun x isLeaf =>
    .inr (mem_leaves_shapes.mp ⟨tree', by rw [shape']; exact List.mem_singleton_self _, isLeaf⟩)
  rw [shape, shape', Shape.eq_of_map_eq injective leaf leaf' same]

end MerkleTree
