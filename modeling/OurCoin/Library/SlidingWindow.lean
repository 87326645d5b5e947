import Mathlib.Algebra.GroupWithZero.Nat
import Mathlib.Algebra.Order.Group.Defs
import Mathlib.Data.List.Induction

/-!
# Sliding windows

Events with a time and a size arrive in order of time, and each is accepted or refused. The
rule looks at the accepted events of the window that ends at the new one: their number and
their total size, with the new event, have to stay within a budget.

* `judgeAll_append`: what is answered to an event depends on the accepted events before it,
  so a refused event might as well not have arrived (`judgeAll_refused`).
* `Sound.filter_le`: the accepted events of any window stay within the budget.
* `dropWhile_eq_filter`: dropping expired events from the front of a list that is ordered by
  time leaves exactly those that are not expired.
-/

set_option autoImplicit false

namespace SlidingWindow

variable {τ : Type*} [AddCommGroup τ] [LinearOrder τ]

/-- What the events of one window may add up to. -/
structure Budget where
  messages : Nat
  bytes : Nat

/-- The total size of events. -/
def total (events : List (τ × Nat)) : Nat := (events.map Prod.snd).sum

/-- The events in the window that ends at `now`, without its left end. -/
def within (width now : τ) (events : List (τ × Nat)) : List (τ × Nat) :=
  events.filter fun event => now - width < event.1 ∧ event.1 ≤ now

/-- The budget allows one more event of this size. -/
def Budget.Allows (budget : Budget) (counted : List (τ × Nat)) (size : Nat) : Prop :=
  counted.length + 1 ≤ budget.messages ∧ total counted + size ≤ budget.bytes

omit [AddCommGroup τ] [LinearOrder τ] in
/-- The rule can be evaluated. -/
instance (budget : Budget) (counted : List (τ × Nat)) (size : Nat) :
    Decidable (budget.Allows counted size) :=
  inferInstanceAs (Decidable (_ ∧ _))

/-- No event is later than the end of the window. -/
theorem within_eq_filter {width now : τ} {events : List (τ × Nat)}
    (past : ∀ event ∈ events, event.1 ≤ now) :
    within width now events = events.filter fun event => now - width < event.1 := by
  apply List.filter_congr
  intro event member
  rw [decide_eq_decide]
  exact ⟨And.left, fun inside => ⟨inside, past event member⟩⟩

/-! ## Sizes -/

omit [AddCommGroup τ] [LinearOrder τ] in
@[simp] theorem total_nil : total ([] : List (τ × Nat)) = 0 := rfl

omit [AddCommGroup τ] [LinearOrder τ] in
@[simp] theorem total_cons (event : τ × Nat) (events : List (τ × Nat)) :
    total (event :: events) = event.2 + total events := by
  rw [total, List.map_cons, List.sum_cons]
  rfl

omit [AddCommGroup τ] [LinearOrder τ] in
@[simp] theorem total_append (front back : List (τ × Nat)) :
    total (front ++ back) = total front + total back := by
  rw [total, List.map_append, List.sum_append]
  rfl

omit [AddCommGroup τ] [LinearOrder τ] in
/-- Fewer events have a smaller size. -/
theorem total_le_of_sublist {some all : List (τ × Nat)} (sublist : some.Sublist all) :
    total some ≤ total all := by
  induction sublist with
  | slnil => exact le_rfl
  | cons event _ ih =>
      rw [total_cons]
      omega
  | cons_cons event _ ih =>
      rw [total_cons, total_cons]
      omega

/-! ## The rule over a run -/

/-- The answer to an event after the accepted ones. -/
def judge (budget : Budget) (width : τ) (history : List (τ × Nat)) (event : τ × Nat) : Bool :=
  decide (budget.Allows (within width event.1 history) event.2)

/-- The accepted events after one more answer. -/
def extend (history : List (τ × Nat)) (event : τ × Nat) (answer : Bool) : List (τ × Nat) :=
  if answer then history ++ [event] else history

/-- The answers to the events of a run, one after the other. -/
def judgeAll (budget : Budget) (width : τ) : List (τ × Nat) → List (τ × Nat) → List Bool
  | _, [] => []
  | history, event :: events =>
    judge budget width history event ::
      judgeAll budget width (extend history event (judge budget width history event)) events

/-- The events that were answered with `true`. -/
def accepted (events : List (τ × Nat)) (answers : List Bool) : List (τ × Nat) :=
  ((events.zip answers).filter Prod.snd).map Prod.fst

omit [AddCommGroup τ] [LinearOrder τ] in
theorem accepted_cons (event : τ × Nat) (answer : Bool) (events : List (τ × Nat))
    (answers : List Bool) : accepted (event :: events) (answer :: answers) =
      extend [] event answer ++ accepted events answers := by
  cases answer with
  | true => rfl
  | false => rfl

omit [AddCommGroup τ] [LinearOrder τ] in
theorem extend_eq (history : List (τ × Nat)) (event : τ × Nat) (answer : Bool) :
    extend history event answer = history ++ extend [] event answer := by
  cases answer with
  | true => rfl
  | false => exact (List.append_nil history).symm

omit [AddCommGroup τ] [LinearOrder τ] in
/-- Later answers are about later events. -/
theorem accepted_append {events : List (τ × Nat)} {answers : List Bool}
    (length : answers.length = events.length) (later : List Bool) :
    accepted events (answers ++ later) = accepted events answers := by
  have whole := @List.zip_append _ _ events [] answers later length.symm
  rw [List.append_nil, List.zip_nil_left, List.append_nil] at whole
  rw [accepted, whole, accepted]

omit [AddCommGroup τ] [LinearOrder τ] in
/-- The accepted events of a run are among its events, in the same order. -/
theorem accepted_sublist : ∀ (events : List (τ × Nat)) (answers : List Bool),
    (accepted events answers).Sublist events
  | [], answers => by
      rw [accepted, List.zip_nil_left]
      exact List.Sublist.refl _
  | event :: events, [] => by
      rw [accepted, List.zip_nil_right]
      exact List.nil_sublist _
  | event :: events, answer :: answers => by
      rw [accepted_cons]
      have rest := accepted_sublist events answers
      cases answer with
      | true => exact rest.cons_cons event
      | false => exact rest.cons event

variable (budget : Budget) (width : τ)

theorem length_judgeAll : ∀ history events : List (τ × Nat),
    (judgeAll budget width history events).length = events.length
  | _, [] => rfl
  | history, event :: events => by
      rw [judgeAll, List.length_cons, length_judgeAll _ events, List.length_cons]

/-- **A run continues from its accepted events.** -/
theorem judgeAll_append : ∀ (history front back : List (τ × Nat)),
    judgeAll budget width history (front ++ back) =
      judgeAll budget width history front ++
        judgeAll budget width (history ++ accepted front (judgeAll budget width history front)) back
  | history, [], back => by
      rw [judgeAll, accepted, List.zip_nil_left, List.filter_nil, List.map_nil, List.append_nil]
      rfl
  | history, event :: front, back => by
      rw [List.cons_append, judgeAll, judgeAll_append _ front back, judgeAll, accepted_cons,
        ← List.append_assoc, ← extend_eq, List.cons_append]

variable {budget width}

/-- The answer to an event of a run. -/
theorem getElem?_judgeAll (before after : List (τ × Nat)) (event : τ × Nat) :
    (judgeAll budget width [] (before ++ event :: after))[before.length]? =
      some (judge budget width
        (accepted before (judgeAll budget width [] (before ++ event :: after))) event) := by
  rw [judgeAll_append, accepted_append (length_judgeAll budget width [] before), List.nil_append,
    judgeAll, List.getElem?_append_right (length_judgeAll budget width [] before).le,
    length_judgeAll, Nat.sub_self, List.getElem?_cons_zero]

/-- **A refused event changes no other answer.** -/
theorem judgeAll_refused {before after : List (τ × Nat)} {event : τ × Nat}
    (refused : (judgeAll budget width [] (before ++ event :: after))[before.length]? =
      some false) :
    judgeAll budget width [] (before ++ after) =
      (judgeAll budget width [] (before ++ event :: after)).eraseIdx before.length := by
  have length := length_judgeAll budget width [] before
  rw [getElem?_judgeAll, Option.some.injEq, judgeAll_append, accepted_append length] at refused
  rw [judgeAll_append, judgeAll_append, List.nil_append,
    List.eraseIdx_append_of_length_le length.le, length, Nat.sub_self, judgeAll, refused,
    List.eraseIdx_cons_zero]
  rfl

/-! ## Windows -/

/-- Every accepted event was allowed by those before it. -/
def Sound (budget : Budget) (width : τ) (history : List (τ × Nat)) : Prop :=
  ∀ front event back, history = front ++ event :: back →
    budget.Allows (within width event.1 front) event.2

theorem Sound.nil : Sound budget width [] := by
  intro front event back split
  cases front with
  | nil => cases split
  | cons first rest => cases split

/-- One more answer. -/
theorem Sound.extend {history : List (τ × Nat)} (sound : Sound budget width history)
    (event : τ × Nat) :
    Sound budget width (extend history event (judge budget width history event)) := by
  rw [SlidingWindow.extend]
  split
  · rename_i allowed
    intro front event' back split
    cases back using List.reverseRecOn with
    | nil =>
        obtain ⟨rfl, last⟩ := List.append_inj' split rfl
        cases last
        exact of_decide_eq_true allowed
    | append_singleton back last =>
        rw [← List.cons_append, ← List.append_assoc] at split
        exact sound front event' back (List.append_inj' split rfl).1
  · exact sound

/-- The accepted events of a run. -/
theorem Sound.judgeAll : ∀ {history : List (τ × Nat)}, Sound budget width history →
    ∀ events, Sound budget width
      (history ++ accepted events (judgeAll budget width history events))
  | history, sound, [] => by
      rw [accepted, List.zip_nil_left, List.filter_nil, List.map_nil, List.append_nil]
      exact sound
  | history, sound, event :: events => by
      rw [SlidingWindow.judgeAll, accepted_cons, ← List.append_assoc, ← extend_eq]
      exact Sound.judgeAll (sound.extend event) events

/-- **No window exceeds the budget**: what was accepted at times that lie less than `width`
apart from each other. -/
theorem Sound.filter_le {history : List (τ × Nat)} (sound : Sound budget width history)
    (ordered : history.Pairwise fun earlier later => earlier.1 ≤ later.1) (inside : τ → Prop)
    [DecidablePred inside] (close : ∀ s t, inside s → inside t → t - width < s) :
    (history.filter fun event => inside event.1).length ≤ budget.messages ∧
      total (history.filter fun event => inside event.1) ≤ budget.bytes := by
  induction history using List.reverseRecOn with
  | nil => exact ⟨Nat.zero_le _, Nat.zero_le _⟩
  | append_singleton front event ih =>
      obtain ⟨orderedFront, -, last⟩ := List.pairwise_append.mp ordered
      rw [List.filter_append]
      by_cases here : inside event.1
      · -- The window of the last event inside counted all others inside.
        obtain ⟨few, small⟩ := sound front event [] rfl
        have same : (front.filter fun event => inside event.1) =
            (within width event.1 front).filter fun event => inside event.1 := by
          rw [within, List.filter_filter]
          apply List.filter_congr
          intro earlier member
          rw [← Bool.decide_and, decide_eq_decide]
          exact ⟨fun isInside => ⟨isInside, close _ _ isInside here,
            last earlier member event (List.mem_singleton_self _)⟩, And.left⟩
        have counted : (front.filter fun event => inside event.1).Sublist
            (within width event.1 front) := same ▸ List.filter_sublist
        have fewer := counted.length_le
        have smaller := total_le_of_sublist counted
        have kept : ([event].filter fun event => inside event.1) = [event] :=
          List.filter_eq_self.mpr fun _ member => List.mem_singleton.mp member ▸ decide_eq_true here
        rw [kept, List.length_append, List.length_singleton, total_append, total_cons, total_nil]
        omega
      · have dropped : ([event].filter fun event => inside event.1) = [] :=
          List.filter_eq_nil_iff.mpr fun _ member =>
            List.mem_singleton.mp member ▸ fun isInside => here (of_decide_eq_true isInside)
        rw [dropped, List.append_nil]
        exact ih (fun before event' after split => sound before event' (after ++ [event])
          (by rw [split, List.append_assoc, List.cons_append])) orderedFront

/-! ## Expiry -/

omit [AddCommGroup τ] in
/-- **Dropping expired events from the front drops all of them.** -/
theorem dropWhile_eq_filter (cutoff : τ) : ∀ {events : List (τ × Nat)},
    (events.Pairwise fun earlier later => earlier.1 ≤ later.1) →
      (events.dropWhile fun event => event.1 ≤ cutoff) =
        events.filter fun event => cutoff < event.1
  | [], _ => rfl
  | event :: events, ordered => by
      obtain ⟨first, rest⟩ := List.pairwise_cons.mp ordered
      by_cases expired : event.1 ≤ cutoff
      · have gone : decide (cutoff < event.1) = false := decide_eq_false (not_lt_of_ge expired)
        rw [List.dropWhile_cons, decide_eq_true expired, if_pos rfl, dropWhile_eq_filter cutoff rest,
          List.filter_cons, gone, if_neg Bool.false_ne_true]
      · have recent : cutoff < event.1 := lt_of_not_ge expired
        have all : ∀ later ∈ event :: events, cutoff < later.1 := by
          intro later member
          rcases List.mem_cons.mp member with rfl | behind
          · exact recent
          · exact recent.trans_le (first later behind)
        rw [List.dropWhile_cons, decide_eq_false expired, if_neg Bool.false_ne_true,
          List.filter_eq_self.mpr]
        intro later member
        exact decide_eq_true (all later member)

end SlidingWindow
