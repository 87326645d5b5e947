import Mathlib

/-!
# Dictionaries that keep insertion order

`Dict κ ν` is a finite map whose items are kept in the order in which their keys
were first inserted. Setting a key that is present replaces its value in place,
setting a fresh key appends it, and removing a key keeps the order of the others.
The type carries the proof that no key occurs twice.

* Lookup after an update is `get?_set` and `get?_pop`.
* Two dictionaries that agree on every lookup have the same items up to order
  (`Dict.Agrees.perm`), so what does not depend on the order of the items, such as
  a sum over the values (`sumBy`) or the items sorted by key (`sortedItems`), is
  the same for both (`Agrees.sumBy_eq`, `Agrees.sortedItems_eq`).
* A sum over the values changes by the new value minus the replaced one
  (`sumBy_set`).
-/

set_option autoImplicit false

universe u v

/-- A finite map with its items in insertion order. -/
structure Dict (κ : Type u) (ν : Type v) where
  items : List (κ × ν)
  nodupKeys : (items.map Prod.fst).Nodup

namespace Dict

variable {κ : Type u} {ν : Type v}

instance [DecidableEq κ] [DecidableEq ν] : DecidableEq (Dict κ ν) := fun d d' =>
  decidable_of_iff (d.items = d'.items) (by cases d; cases d'; simp)

/-- `{}`. -/
def empty : Dict κ ν := ⟨[], List.nodup_nil⟩

/-- `list(d)`. -/
def keys (d : Dict κ ν) : List κ := d.items.map Prod.fst

/-- `d.values()`. -/
def values (d : Dict κ ν) : List ν := d.items.map Prod.snd

/-- `len(d)`. -/
def size (d : Dict κ ν) : Nat := d.items.length

variable [DecidableEq κ]

/-- The value of the first item with the given key. -/
def lookupItem (k : κ) : List (κ × ν) → Option ν
  | [] => none
  | (k', v) :: rest => if k' = k then some v else lookupItem k rest

/-- Replace the value of the first item with the given key, or append an item. -/
def setItem (k : κ) (v : ν) : List (κ × ν) → List (κ × ν)
  | [] => [(k, v)]
  | (k', v') :: rest => if k' = k then (k, v) :: rest else (k', v') :: setItem k v rest

/-- `d.get(k)`. -/
def get? (d : Dict κ ν) (k : κ) : Option ν := lookupItem k d.items

/-- `k in d`. -/
def contains (d : Dict κ ν) (k : κ) : Bool := (d.get? k).isSome

theorem setItem_keys (k : κ) (v : ν) (items : List (κ × ν)) :
    (setItem k v items).map Prod.fst =
      if k ∈ items.map Prod.fst then items.map Prod.fst else items.map Prod.fst ++ [k] := by
  induction items with
  | nil => simp [setItem]
  | cons item rest ih =>
      obtain ⟨k', v'⟩ := item
      by_cases same : k' = k
      · simp [setItem, same]
      · have other : k ≠ k' := fun h => same h.symm
        simp only [setItem, if_neg same, List.map_cons, ih, List.mem_cons, other, false_or]
        split <;> simp

theorem setItem_nodup (k : κ) (v : ν) {items : List (κ × ν)}
    (nodup : (items.map Prod.fst).Nodup) : ((setItem k v items).map Prod.fst).Nodup := by
  rw [setItem_keys]
  split
  · exact nodup
  · rename_i fresh
    rw [List.nodup_append]
    refine ⟨nodup, List.nodup_singleton k, ?_⟩
    intro a member b inSingleton
    rw [List.mem_singleton.mp inSingleton]
    rintro rfl
    exact fresh member

/-- `d[k] = v`. -/
def set (d : Dict κ ν) (k : κ) (v : ν) : Dict κ ν :=
  ⟨setItem k v d.items, setItem_nodup k v d.nodupKeys⟩

/-- `d.pop(k, None)`, without the popped value. -/
def pop (d : Dict κ ν) (k : κ) : Dict κ ν :=
  ⟨d.items.filter fun item => decide (item.1 ≠ k),
    d.nodupKeys.sublist (List.filter_sublist.map Prod.fst)⟩

/-- `dict(items)`: later items replace earlier ones. -/
def ofItems (items : List (κ × ν)) : Dict κ ν :=
  items.foldl (fun d item => d.set item.1 item.2) empty

/-! ## Lookup -/

theorem lookupItem_eq_some {k : κ} {v : ν} :
    ∀ {items : List (κ × ν)}, (items.map Prod.fst).Nodup →
      (lookupItem k items = some v ↔ (k, v) ∈ items)
  | [], _ => by simp [lookupItem]
  | (k', v') :: rest, nodup => by
      rw [List.map_cons, List.nodup_cons] at nodup
      by_cases same : k' = k
      · subst same
        simp only [lookupItem, if_pos, Option.some.injEq, List.mem_cons, Prod.mk.injEq, true_and]
        constructor
        · intro h
          exact Or.inl h.symm
        · rintro (h | member)
          · exact h.symm
          · exact absurd (List.mem_map_of_mem (f := Prod.fst) member) nodup.1
      · have other : k ≠ k' := fun h => same h.symm
        simp [lookupItem, same, other, lookupItem_eq_some nodup.2]

theorem get?_eq_some {d : Dict κ ν} {k : κ} {v : ν} : d.get? k = some v ↔ (k, v) ∈ d.items :=
  lookupItem_eq_some d.nodupKeys

theorem get?_eq_none {d : Dict κ ν} {k : κ} : d.get? k = none ↔ k ∉ d.keys := by
  constructor
  · intro missing member
    obtain ⟨item, itemMem, rfl⟩ := List.mem_map.mp member
    have found := get?_eq_some.mpr itemMem
    rw [missing] at found
    cases found
  · intro notMem
    cases found : d.get? k with
    | none => rfl
    | some v => exact absurd (List.mem_map_of_mem (f := Prod.fst) (get?_eq_some.mp found)) notMem

@[simp] theorem contains_eq_true {d : Dict κ ν} {k : κ} :
    d.contains k = true ↔ ∃ v, d.get? k = some v := by
  simp [contains, Option.isSome_iff_exists]

@[simp] theorem contains_eq_false {d : Dict κ ν} {k : κ} :
    d.contains k = false ↔ d.get? k = none := by
  simp [contains]

theorem mem_keys {d : Dict κ ν} {k : κ} : k ∈ d.keys ↔ ∃ v, d.get? k = some v := by
  rw [← not_iff_not, ← get?_eq_none, not_exists, Option.eq_none_iff_forall_ne_some]

theorem mem_values {d : Dict κ ν} {v : ν} : v ∈ d.values ↔ ∃ k, d.get? k = some v := by
  simp only [values, List.mem_map, get?_eq_some]
  constructor
  · rintro ⟨⟨k, w⟩, member, rfl⟩
    exact ⟨k, member⟩
  · rintro ⟨k, member⟩
    exact ⟨(k, v), member, rfl⟩

@[simp] theorem get?_empty (k : κ) : (empty : Dict κ ν).get? k = none := rfl

theorem lookupItem_setItem (k k' : κ) (v : ν) (items : List (κ × ν)) :
    lookupItem k' (setItem k v items) = if k = k' then some v else lookupItem k' items := by
  induction items with
  | nil => simp [setItem, lookupItem]
  | cons item rest ih =>
      obtain ⟨k₀, v₀⟩ := item
      by_cases same : k₀ = k
      · subst same
        by_cases here : k₀ = k' <;> simp [setItem, lookupItem, here]
      · by_cases here : k₀ = k'
        · subst here
          have other : k ≠ k₀ := fun h => same h.symm
          simp [setItem, lookupItem, same, other]
        · simp [setItem, lookupItem, same, here, ih]

/-- Lookup after an assignment. -/
theorem get?_set (d : Dict κ ν) (k k' : κ) (v : ν) :
    (d.set k v).get? k' = if k = k' then some v else d.get? k' :=
  lookupItem_setItem k k' v d.items

@[simp] theorem get?_set_self (d : Dict κ ν) (k : κ) (v : ν) : (d.set k v).get? k = some v := by
  simp [get?_set]

theorem get?_set_of_ne {d : Dict κ ν} {k k' : κ} (different : k ≠ k') (v : ν) :
    (d.set k v).get? k' = d.get? k' := by
  rw [get?_set, if_neg different]

/-- A fresh key is appended. -/
theorem set_items_of_fresh {d : Dict κ ν} {k : κ} (fresh : d.get? k = none) (v : ν) :
    (d.set k v).items = d.items ++ [(k, v)] := by
  have general : ∀ items : List (κ × ν), lookupItem k items = none →
      setItem k v items = items ++ [(k, v)] := by
    intro items
    induction items with
    | nil => intro _; rfl
    | cons item rest ih =>
        intro missing
        by_cases same : item.1 = k
        · simp [lookupItem, same] at missing
        · simp only [lookupItem, if_neg same] at missing
          simp [setItem, same, ih missing]
  exact general d.items fresh

/-- Lookup after a removal. -/
theorem get?_pop (d : Dict κ ν) (k k' : κ) :
    (d.pop k).get? k' = if k = k' then none else d.get? k' := by
  split
  · rename_i same
    subst same
    rw [get?_eq_none]
    simp [keys, pop]
  · rename_i different
    have sameItems : ∀ v, (d.pop k).get? k' = some v ↔ d.get? k' = some v := by
      intro v
      have other : k' ≠ k := fun h => different h.symm
      rw [get?_eq_some, get?_eq_some]
      simp [pop, other]
    exact Option.ext sameItems

@[simp] theorem get?_pop_self (d : Dict κ ν) (k : κ) : (d.pop k).get? k = none := by
  simp [get?_pop]

theorem get?_pop_of_ne {d : Dict κ ν} {k k' : κ} (different : k ≠ k') :
    (d.pop k).get? k' = d.get? k' := by
  rw [get?_pop, if_neg different]

/-! ## Dictionaries with the same lookups -/

/-- The equality of dictionaries: every key has the same value in both. -/
def Agrees (d d' : Dict κ ν) : Prop := ∀ k, d.get? k = d'.get? k

namespace Agrees

variable {d d' d'' : Dict κ ν}

theorem symm (same : d.Agrees d') : d'.Agrees d := fun k => (same k).symm

theorem trans (first : d.Agrees d') (second : d'.Agrees d'') : d.Agrees d'' :=
  fun k => (first k).trans (second k)

theorem set (same : d.Agrees d') (k : κ) (v : ν) : (d.set k v).Agrees (d'.set k v) := by
  intro k'
  rw [get?_set, get?_set, same k']

/-- Agreeing dictionaries have the same items up to order. -/
theorem perm (same : d.Agrees d') : d.items.Perm d'.items := by
  refine (List.perm_ext_iff_of_nodup (List.Nodup.of_map _ d.nodupKeys)
    (List.Nodup.of_map _ d'.nodupKeys)).mpr ?_
  rintro ⟨k, v⟩
  rw [← get?_eq_some, ← get?_eq_some, same k]

theorem size_eq (same : d.Agrees d') : d.size = d'.size := same.perm.length_eq

end Agrees

/-! ## Sums over the values -/

/-- The sum of a quantity over all values. -/
def sumBy (d : Dict κ ν) (f : ν → ℤ) : ℤ := (d.items.map fun item => f item.2).sum

omit [DecidableEq κ] in
@[simp] theorem sumBy_empty (f : ν → ℤ) : (empty : Dict κ ν).sumBy f = 0 := rfl

theorem sum_map_setItem (f : ν → ℤ) (k : κ) (v : ν) (items : List (κ × ν)) :
    ((setItem k v items).map fun item => f item.2).sum =
      (items.map fun item => f item.2).sum - ((lookupItem k items).map f).getD 0 + f v := by
  induction items with
  | nil => simp [setItem, lookupItem]
  | cons item rest ih =>
      obtain ⟨k', v'⟩ := item
      by_cases same : k' = k
      · simp only [setItem, lookupItem, if_pos same, List.map_cons, List.sum_cons,
          Option.map_some, Option.getD_some]
        omega
      · simp only [setItem, lookupItem, if_neg same, List.map_cons, List.sum_cons, ih]
        omega

/-- **An assignment changes the sum by the new value minus the replaced one.** -/
theorem sumBy_set (d : Dict κ ν) (f : ν → ℤ) (k : κ) (v : ν) :
    (d.set k v).sumBy f = d.sumBy f - ((d.get? k).map f).getD 0 + f v :=
  sum_map_setItem f k v d.items

theorem Agrees.sumBy_eq {d d' : Dict κ ν} (same : d.Agrees d') (f : ν → ℤ) :
    d.sumBy f = d'.sumBy f :=
  (same.perm.map _).sum_eq

/-- One value is at most the sum, when no value is negative. -/
theorem le_sumBy {d : Dict κ ν} {f : ν → ℤ} (nonneg : ∀ v ∈ d.values, 0 ≤ f v) {k : κ} {v : ν}
    (found : d.get? k = some v) : f v ≤ d.sumBy f := by
  have member : f v ∈ d.items.map fun item => f item.2 :=
    List.mem_map.mpr ⟨(k, v), get?_eq_some.mp found, rfl⟩
  refine List.single_le_sum ?_ _ member
  intro x xMem
  obtain ⟨item, itemMem, rfl⟩ := List.mem_map.mp xMem
  exact nonneg item.2 (List.mem_map_of_mem itemMem)

/-! ## Items sorted by key -/

section Sorted

variable [LinearOrder κ]

omit [DecidableEq κ] in
/-- `sorted(d.items())`, for keys in a linear order. -/
def sortedItems (d : Dict κ ν) : List (κ × ν) :=
  d.items.insertionSort fun first second => first.1 ≤ second.1

omit [DecidableEq κ] in
theorem sortedItems_perm (d : Dict κ ν) : d.sortedItems.Perm d.items :=
  List.perm_insertionSort _ _

omit [DecidableEq κ] in
@[simp] theorem mem_sortedItems {d : Dict κ ν} {item : κ × ν} :
    item ∈ d.sortedItems ↔ item ∈ d.items :=
  d.sortedItems_perm.mem_iff

omit [DecidableEq κ] in
theorem sortedItems_pairwise (d : Dict κ ν) :
    d.sortedItems.Pairwise fun first second => first.1 ≤ second.1 := by
  have : Std.Total (fun first second : κ × ν => first.1 ≤ second.1) :=
    ⟨fun first second => le_total first.1 second.1⟩
  have : IsTrans (κ × ν) (fun first second : κ × ν => first.1 ≤ second.1) :=
    ⟨fun _ _ _ => le_trans⟩
  exact List.pairwise_insertionSort _ _

omit [DecidableEq κ] in
theorem sortedItems_nodupKeys (d : Dict κ ν) : (d.sortedItems.map Prod.fst).Nodup :=
  (d.sortedItems_perm.map Prod.fst).nodup_iff.mpr d.nodupKeys

/-- **The sorted items depend on the lookups only.** -/
theorem Agrees.sortedItems_eq {d d' : Dict κ ν} (same : d.Agrees d') :
    d.sortedItems = d'.sortedItems := by
  refine List.Perm.eq_of_pairwise ?_ d.sortedItems_pairwise d'.sortedItems_pairwise
    (d.sortedItems_perm.trans (same.perm.trans d'.sortedItems_perm.symm))
  rintro ⟨k, v⟩ ⟨k', v'⟩ first second below above
  have keyEq : k = k' := le_antisymm below above
  subst keyEq
  have one := get?_eq_some.mpr (mem_sortedItems.mp first)
  have other := get?_eq_some.mpr (mem_sortedItems.mp second)
  rw [← same k, one] at other
  cases other
  rfl

end Sorted

/-! ## Dictionaries from items -/

theorem foldl_set_items {items : List (κ × ν)} : ∀ {d : Dict κ ν},
    ((d.items ++ items).map Prod.fst).Nodup →
      (items.foldl (fun d item => d.set item.1 item.2) d).items = d.items ++ items := by
  induction items with
  | nil => intro d _; simp
  | cons item rest ih =>
      intro d nodup
      have fresh : d.get? item.1 = none := by
        rw [get?_eq_none]
        intro member
        rw [List.map_append, List.map_cons, List.nodup_append] at nodup
        exact nodup.2.2 item.1 member item.1 List.mem_cons_self rfl
      have grown := set_items_of_fresh fresh item.2
      rw [List.foldl_cons, ih (by rw [grown]; simpa using nodup), grown]
      simp

/-- Items with distinct keys are the items of their dictionary. -/
theorem items_ofItems {items : List (κ × ν)} (nodup : (items.map Prod.fst).Nodup) :
    (ofItems items).items = items := by
  have grown := @foldl_set_items κ ν _ items empty (by simpa [empty])
  simpa [ofItems, empty] using grown

/-- A dictionary rebuilt from its sorted items is the same dictionary. -/
theorem ofItems_sortedItems [LinearOrder κ] (d : Dict κ ν) :
    (ofItems d.sortedItems).Agrees d := by
  intro k
  refine Option.ext fun v => ?_
  rw [get?_eq_some, items_ofItems d.sortedItems_nodupKeys, mem_sortedItems, get?_eq_some]

end Dict
