import Mathlib.Logic.Relation
import Mathlib.Tactic.Cases

/-!
# Two parties that call each other

Each of two parties has called the other, so two links join them, and both greet on both. A
party keeps a link when it reads the greeting while the other link is not kept, and refuses
it otherwise. When one end of a link is closed, the other end is lost later on.

The greetings and the closings are read in any order (`Step`).

* `Sound` is the invariant, and `Sound.outcome` says what is left when everything was read: a
  link is kept by both parties exactly when neither refused it.
* `run_agreed`: when both parties keep the first link, it is left.
* `run_crossed`: when each party keeps another link, both are refused, and none is left.
-/

set_option autoImplicit false

namespace Crossing

/-- The two parties. -/
inductive Side where
  | left
  | right
  deriving DecidableEq

/-- The two links between them. -/
inductive Link where
  | first
  | second
  deriving DecidableEq

/-- The other party. -/
def Side.other : Side → Side
  | left => right
  | right => left

/-- The other link. -/
def Link.other : Link → Link
  | first => second
  | second => first

@[simp] theorem Link.other_other (link : Link) : link.other.other = link := by cases link <;> rfl

@[simp] theorem Side.other_ne (side : Side) : side.other ≠ side := by cases side <;> decide

@[simp] theorem Link.other_ne (link : Link) : link.other ≠ link := by cases link <;> decide

theorem Side.eq_or_eq_other (side side' : Side) : side' = side ∨ side' = side.other := by
  cases side <;> cases side' <;> simp [Side.other]

theorem Link.eq_or_eq_other (link link' : Link) : link' = link ∨ link' = link.other := by
  cases link <;> cases link' <;> simp [Link.other]

/-- How one party stands on one link. -/
inductive Status where
  /-- The greeting was not read. -/
  | waiting
  | kept
  | refused
  /-- It was kept, until the other party closed it. -/
  | lost
  deriving DecidableEq

/-- The link is closed for this party. -/
def Status.Closed (status : Status) : Prop := status = refused ∨ status = lost

/-- How both parties stand on both links. -/
abbrev State : Type := Side → Link → Status

/-- Nothing was read. -/
def waiting : State := fun _ _ => .waiting

/-- One party changes its mind about one link. -/
def State.set (state : State) (side : Side) (link : Link) (status : Status) : State :=
  fun side' link' => if side' = side ∧ link' = link then status else state side' link'

variable {state after : State} {side side' : Side} {link link' : Link} {status : Status}

theorem State.set_self : state.set side link status side link = status := if_pos ⟨rfl, rfl⟩

theorem State.set_of_ne (apart : ¬ (side' = side ∧ link' = link)) :
    state.set side link status side' link' = state side' link' := if_neg apart

/-- What differs from the old status of the link was not there. -/
theorem State.set_stable {known : Status} (there : state side' link' = known)
    (apart : state side link ≠ known) : state.set side link status side' link' = known := by
  rw [State.set_of_ne, there]
  rintro ⟨rfl, rfl⟩
  exact apart there

theorem State.set_cases {known : Status} (there : state.set side link status side' link' = known) :
    (side' = side ∧ link' = link ∧ status = known) ∨
      ¬ (side' = side ∧ link' = link) ∧ state side' link' = known := by
  by_cases here : side' = side ∧ link' = link
  · obtain ⟨rfl, rfl⟩ := here
    exact .inl ⟨rfl, rfl, State.set_self.symm.trans there⟩
  · exact .inr ⟨here, (State.set_of_ne here).symm.trans there⟩

/-- One greeting or one closing is read. -/
inductive Step : State → State → Prop
  | keep {state : State} (side : Side) (link : Link) : state side link = .waiting →
      state side link.other ≠ .kept → Step state (state.set side link .kept)
  | refuse {state : State} (side : Side) (link : Link) : state side link = .waiting →
      state side link.other = .kept → Step state (state.set side link .refused)
  | lose {state : State} (side : Side) (link : Link) : state side link = .kept →
      (state side.other link).Closed → Step state (state.set side link .lost)

/-- Everything was read. -/
structure Settled (state : State) : Prop where
  greeted : ∀ side link, state side link ≠ .waiting
  told : ∀ side link, (state side.other link).Closed → (state side link).Closed

/-- The invariant. -/
structure Sound (state : State) : Prop where
  one_kept : ∀ side link, state side link = .kept → state side link.other ≠ .kept
  /-- A party refuses a link for the sake of the other one. -/
  refused_other : ∀ side link, state side link = .refused →
    state side link.other = .kept ∨ state side link.other = .lost
  /-- A link is lost only when one of the parties refused it. -/
  lost_refused : ∀ side link, state side link = .lost → ∃ side', state side' link = .refused

namespace Sound

theorem start : Sound waiting where
  one_kept _ _ kept := by cases kept
  refused_other _ _ refused := by cases refused
  lost_refused _ _ lost := by cases lost

/-- A closed end has a refused end. -/
theorem closed_refused (sound : Sound state) (closed : (state side link).Closed) :
    ∃ side', state side' link = .refused := by
  rcases closed with refused | lost
  · exact ⟨side, refused⟩
  · exact sound.lost_refused side link lost

/-- **Every step keeps the invariant.** -/
theorem step (sound : Sound state) (step : Step state after) : Sound after := by
  cases step with
  | keep side link waiting free =>
      have stable : ∀ {side' link' known}, state side' link' = known → known ≠ .waiting →
          state.set side link .kept side' link' = known :=
        fun there other => State.set_stable there (waiting ▸ other.symm)
      refine ⟨fun side' link' kept other => ?_, fun side' link' refused => ?_,
        fun side' link' lost => ?_⟩
      · rcases State.set_cases kept with ⟨rfl, rfl, -⟩ | ⟨-, kept'⟩
        · rw [State.set_of_ne (by simp)] at other
          exact free other
        · rcases State.set_cases other with ⟨rfl, rfl, -⟩ | ⟨-, other'⟩
          · rw [Link.other_other] at free
            exact free kept'
          · exact sound.one_kept side' link' kept' other'
      · rcases State.set_cases refused with ⟨-, -, wrong⟩ | ⟨-, refused'⟩
        · cases wrong
        · exact (sound.refused_other side' link' refused').imp (stable · (by decide))
            (stable · (by decide))
      · rcases State.set_cases lost with ⟨-, -, wrong⟩ | ⟨-, lost'⟩
        · cases wrong
        · obtain ⟨refuser, refused⟩ := sound.lost_refused side' link' lost'
          exact ⟨refuser, stable refused (by decide)⟩
  | refuse side link waiting busy =>
      have stable : ∀ {side' link' known}, state side' link' = known → known ≠ .waiting →
          state.set side link .refused side' link' = known :=
        fun there other => State.set_stable there (waiting ▸ other.symm)
      refine ⟨fun side' link' kept other => ?_, fun side' link' refused => ?_,
        fun side' link' lost => ?_⟩
      · rcases State.set_cases kept with ⟨-, -, wrong⟩ | ⟨-, kept'⟩
        · cases wrong
        · rcases State.set_cases other with ⟨-, -, wrong⟩ | ⟨-, other'⟩
          · cases wrong
          · exact sound.one_kept side' link' kept' other'
      · rcases State.set_cases refused with ⟨rfl, rfl, -⟩ | ⟨-, refused'⟩
        · exact .inl (stable busy (by decide))
        · exact (sound.refused_other side' link' refused').imp (stable · (by decide))
            (stable · (by decide))
      · rcases State.set_cases lost with ⟨-, -, wrong⟩ | ⟨-, lost'⟩
        · cases wrong
        · obtain ⟨refuser, refused⟩ := sound.lost_refused side' link' lost'
          exact ⟨refuser, stable refused (by decide)⟩
  | lose side link kept closed =>
      have stable : ∀ {side' link' known}, state side' link' = known → known ≠ .kept →
          state.set side link .lost side' link' = known :=
        fun there other => State.set_stable there (kept ▸ other.symm)
      refine ⟨fun side' link' kept' other => ?_, fun side' link' refused => ?_,
        fun side' link' lost => ?_⟩
      · rcases State.set_cases kept' with ⟨-, -, wrong⟩ | ⟨-, kept''⟩
        · cases wrong
        · rcases State.set_cases other with ⟨-, -, wrong⟩ | ⟨-, other'⟩
          · cases wrong
          · exact sound.one_kept side' link' kept'' other'
      · rcases State.set_cases refused with ⟨-, -, wrong⟩ | ⟨-, refused'⟩
        · cases wrong
        · rcases sound.refused_other side' link' refused' with kept' | lost
          · by_cases here : side' = side ∧ link'.other = link
            · exact .inr (by rw [here.1, here.2, State.set_self])
            · exact .inl ((State.set_of_ne here).trans kept')
          · exact .inr (stable lost (by decide))
      · rcases State.set_cases lost with ⟨rfl, rfl, -⟩ | ⟨-, lost'⟩
        · obtain ⟨refuser, refused⟩ := sound.closed_refused closed
          exact ⟨refuser, stable refused (by decide)⟩
        · obtain ⟨refuser, refused⟩ := sound.lost_refused side' link' lost'
          exact ⟨refuser, stable refused (by decide)⟩

/-- **What is left** when everything was read: a link is kept by both parties exactly when
neither refused it, at most one is kept, each party refused at most one, and one was
refused. -/
structure Outcome (state : State) : Prop where
  kept_iff : ∀ side link, state side link = .kept ↔ ∀ side', state side' link ≠ .refused
  one_kept : ∀ side link, state side link = .kept → state side link.other ≠ .kept
  one_refused : ∀ side link, state side link = .refused → state side link.other ≠ .refused
  some_refused : ∃ side link, state side link = .refused

theorem outcome (sound : Sound state) (settled : Settled state) : Outcome state := by
  have kept_iff : ∀ side link, state side link = .kept ↔ ∀ side', state side' link ≠ .refused := by
    intro side link
    constructor
    · intro kept side' refused
      rcases Side.eq_or_eq_other side side' with rfl | rfl
      · rw [kept] at refused
        cases refused
      · rcases settled.told side link (.inl refused) with here | here <;>
        · rw [kept] at here
          cases here
    · intro notRefused
      cases here : state side link with
      | waiting => exact absurd here (settled.greeted side link)
      | kept => rfl
      | refused => exact absurd here (notRefused side)
      | lost =>
          obtain ⟨side', refused⟩ := sound.lost_refused side link here
          exact absurd refused (notRefused side')
  refine ⟨kept_iff, sound.one_kept, ?_, ?_⟩
  · intro side link refused other
    rcases sound.refused_other side link refused with kept | lost
    · rw [kept] at other
      cases other
    · rw [lost] at other
      cases other
  · refine Classical.byContradiction fun none => ?_
    have never : ∀ side link, state side link ≠ .refused :=
      fun side link refused => none ⟨side, link, refused⟩
    have both : ∀ link, state .left link = .kept :=
      fun link => (kept_iff _ _).mpr fun side' => never side' link
    exact sound.one_kept .left .first (both _) (both _)

theorem of_run (run : Relation.ReflTransGen Step waiting state) : Sound state := by
  induction run with
  | refl => exact .start
  | tail _ step ih => exact ih.step step

end Sound

/-! ## Two runs -/

/-- Both parties kept the first link. -/
def agreed : State := fun _ link =>
  match link with
  | .first => .kept
  | .second => .refused

/-- Each party kept another link, which the other one refused. -/
def crossed : State := fun side link =>
  match side, link with
  | .left, .first => .lost
  | .left, .second => .refused
  | .right, .first => .refused
  | .right, .second => .lost

theorem run_agreed : Relation.ReflTransGen Step waiting agreed := by
  let keptLeft := waiting.set .left .first .kept
  let keptBoth := keptLeft.set .right .first .kept
  let refusedLeft := keptBoth.set .left .second .refused
  have run : Relation.ReflTransGen Step waiting (refusedLeft.set .right .second .refused) :=
    (((Relation.ReflTransGen.single (.keep .left .first rfl (by decide))).tail
      (.keep .right .first rfl (by decide))).tail
      (.refuse .left .second rfl rfl)).tail
      (.refuse .right .second rfl rfl)
  have same : refusedLeft.set .right .second .refused = agreed := by
    funext side link
    cases side <;> cases link <;> rfl
  rwa [same] at run

theorem settled_agreed : Settled agreed where
  greeted side link := by cases side <;> cases link <;> decide
  told side link closed := by
    cases link with
    | first => rcases closed with wrong | wrong <;> cases wrong
    | second => exact .inl rfl

theorem run_crossed : Relation.ReflTransGen Step waiting crossed := by
  let keptLeft := waiting.set .left .first .kept
  let keptRight := keptLeft.set .right .second .kept
  let refusedLeft := keptRight.set .left .second .refused
  let refusedRight := refusedLeft.set .right .first .refused
  let lostLeft := refusedRight.set .left .first .lost
  have run : Relation.ReflTransGen Step waiting (lostLeft.set .right .second .lost) :=
    (((((Relation.ReflTransGen.single (.keep .left .first rfl (by decide))).tail
      (.keep .right .second rfl (by decide))).tail
      (.refuse .left .second rfl rfl)).tail
      (.refuse .right .first rfl rfl)).tail
      (.lose .left .first rfl (.inl rfl))).tail
      (.lose .right .second rfl (.inl rfl))
  have same : lostLeft.set .right .second .lost = crossed := by
    funext side link
    cases side <;> cases link <;> rfl
  rwa [same] at run

theorem settled_crossed : Settled crossed where
  greeted side link := by cases side <;> cases link <;> decide
  told side link _ := by
    cases side <;> cases link
    · exact .inr rfl
    · exact .inl rfl
    · exact .inl rfl
    · exact .inr rfl

end Crossing
