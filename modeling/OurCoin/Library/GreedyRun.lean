import Mathlib.Data.List.Induction

/-!
# Greedy runs

A list that grows by one element at a time. Which elements may come next depends on those
chosen before, and a greedy run takes the first of them in some order of preference. When no
two elements are preferred to each other, the choices leave no freedom: two greedy runs of one
length are equal (`GreedyRun.eq_of_length_eq`).
-/

set_option autoImplicit false

variable {α : Type*} {next : List α → α → Prop} {before : α → α → Prop}

/-- Every chosen element might come next, and comes before all others that might. -/
def GreedyRun (next : List α → α → Prop) (before : α → α → Prop) (chosen : List α) : Prop :=
  ∀ front x back, chosen = front ++ x :: back →
    next front x ∧ ∀ y, next front y → y = x ∨ before x y

namespace GreedyRun

theorem nil : GreedyRun next before [] := by
  intro front x back split
  cases front with
  | nil => cases split
  | cons first rest => cases split

/-- One more greedy choice. -/
theorem concat {chosen : List α} {x : α} (run : GreedyRun next before chosen)
    (allowed : next chosen x) (preferred : ∀ y, next chosen y → y = x ∨ before x y) :
    GreedyRun next before (chosen ++ [x]) := by
  intro front y back split
  cases back using List.reverseRecOn with
  | nil =>
      obtain ⟨rfl, last⟩ := List.append_inj' split rfl
      cases last
      exact ⟨allowed, preferred⟩
  | append_singleton back last =>
      rw [← List.cons_append, ← List.append_assoc] at split
      exact run front y back (List.append_inj' split rfl).1

/-- **Greedy runs are determined by their length.** -/
theorem eq_of_length_eq (asymmetric : ∀ x y, before x y → ¬ before y x) {first second : List α}
    (run : GreedyRun next before first) (run' : GreedyRun next before second)
    (length : first.length = second.length) : first = second := by
  -- Two runs with a common front make the same choice after it.
  have choices : ∀ front x y back back', first = front ++ x :: back →
      second = front ++ y :: back' → x = y := by
    intro front x y back back' split split'
    obtain ⟨allowed, preferred⟩ := run front x back split
    obtain ⟨allowed', preferred'⟩ := run' front y back' split'
    rcases preferred y allowed' with same | earlier
    · exact same.symm
    · rcases preferred' x allowed with same | later
      · exact same
      · exact absurd later (asymmetric x y earlier)
  have general : ∀ (xs ys front : List α), xs.length = ys.length → first = front ++ xs →
      second = front ++ ys → xs = ys := by
    intro xs
    induction xs with
    | nil =>
        intro ys front lengths _ _
        exact (List.length_eq_zero_iff.mp lengths.symm).symm
    | cons x xs ih =>
        intro ys front lengths split split'
        cases ys with
        | nil => cases lengths
        | cons y ys =>
            have same := choices front x y xs ys split split'
            subst same
            rw [ih ys (front ++ [x]) (Nat.succ.inj lengths) (by simpa using split)
              (by simpa using split')]
  exact general first second [] length rfl rfl

end GreedyRun
