import OurCoin.Library.BigEndian
import OurCoin.Library.Raising

/-!
# Forward-only readers

A reader consumes bytes from the front of a byte string and returns a value with
the bytes that are left, or raises. `Reads p written value` says that `p` consumes
exactly `written` and returns `value`, whatever follows. A reader of a sequence of
fields reads the concatenation of what its parts read (`Reads.bind`), so the round
trip of a record is the chain of the round trips of its fields.

The other direction is `Consumes p P`: whatever bytes `p` accepts, the ones it consumed
stand in the relation `P` to the value that it returns. It composes in the same way
(`Consumes.bind`), and so does what a reader may raise (`RaisesOnly.bind`).
-/

set_option autoImplicit false

/-- A reader of values of type `α` that may raise an `ε`. -/
abbrev Reader (ε α : Type) : Type := StateT Bytes (Except ε) α

namespace Reader

variable {ε α β : Type}

/-- Take the given number of bytes, or raise when fewer are left. -/
def take (truncated : ε) (length : Nat) : Reader ε Bytes := fun data =>
  if length ≤ data.length then .ok (data.take length, data.drop length) else .error truncated

/-- Raise unless a condition on what was read holds. -/
def check (bad : Prop) [Decidable bad] (e : ε) : Reader ε Unit :=
  fun data => if bad then .error e else .ok ((), data)

/-- Raise unless every byte was consumed. -/
def finish (trailing : ε) : Reader ε Unit :=
  fun data => if data = [] then .ok ((), data) else .error trailing

/-- The reader consumes exactly `written` and returns `value`. -/
def Reads (p : Reader ε α) (written : Bytes) (value : α) : Prop :=
  ∀ rest, p (written ++ rest) = .ok (value, rest)

theorem reads_pure (value : α) : Reads (pure value : Reader ε α) [] value := fun _ => rfl

/-- **Reading in sequence reads the concatenation.** -/
theorem Reads.bind {p : Reader ε α} {f : α → Reader ε β} {first second : Bytes} {a : α} {b : β}
    (readFirst : Reads p first a) (readSecond : Reads (f a) second b) :
    Reads (p >>= f) (first ++ second) b := by
  intro rest
  have unfolded : (p >>= f) (first ++ second ++ rest) =
      (p (first ++ (second ++ rest)) >>= fun out => f out.1 out.2) := by
    rw [List.append_assoc]
    rfl
  rw [unfolded, readFirst (second ++ rest)]
  exact readSecond rest

/-- A step that consumes nothing can stand before a reader. -/
theorem Reads.bind_nil {p : Reader ε α} {f : α → Reader ε β} {written : Bytes} {a : α} {b : β}
    (readFirst : Reads p [] a) (readSecond : Reads (f a) written b) :
    Reads (p >>= f) written b :=
  readFirst.bind readSecond

theorem reads_take (truncated : ε) {data : Bytes} {length : Nat} (exact : data.length = length) :
    Reads (take truncated length) data data := by
  intro rest
  subst exact
  simp [take]

theorem reads_check {bad : Prop} [Decidable bad] (e : ε) (fine : ¬ bad) :
    Reads (check bad e) [] () := by
  intro rest
  simp [check, fine]

/-- Run a reader on a whole byte string. -/
def readAll (p : Reader ε α) (data : Bytes) : Except ε α :=
  match p data with
  | .ok (value, _) => .ok value
  | .error e => .error e

/-- A reader that ends by checking that nothing is left reads exactly what was
written. -/
theorem readAll_finish {p : Reader ε α} {f : α → Reader ε β} {written : Bytes} {a : α} {b : β}
    (trailing : ε) (reads : Reads p written a) (after : f a [] = .ok (b, [])) :
    readAll (do let value ← p; finish trailing; f value) written = .ok b := by
  have run := reads []
  rw [List.append_nil] at run
  have unfolded : (do let value ← p; finish trailing; f value : Reader ε β) written =
      (p written >>= fun out => finish trailing out.2 >>= fun out' => f out.1 out'.2) := rfl
  rw [readAll, unfolded, run]
  simp only [Raising.ok_bind, finish, if_true, after]

/-! ## Accepted bytes -/

/-- Whatever the reader accepts, the bytes that it consumed stand in a relation to the value
that it returns. -/
def Consumes (p : Reader ε α) (P : Bytes → α → Prop) : Prop :=
  ∀ data value rest, p data = .ok (value, rest) →
    ∃ consumed, data = consumed ++ rest ∧ P consumed value

namespace Consumes

variable {p : Reader ε α} {f : α → Reader ε β} {P : Bytes → α → Prop} {Q : Bytes → β → Prop}

/-- **Reading in sequence consumes the concatenation.** -/
theorem bind (first : Consumes p P)
    (next : ∀ consumed a, P consumed a → Consumes (f a) fun later b => Q (consumed ++ later) b) :
    Consumes (p >>= f) Q := by
  intro data value rest accepted
  have unfolded : (p >>= f) data = (p data >>= fun out => f out.1 out.2) := rfl
  rw [unfolded, Raising.bind_eq_ok] at accepted
  obtain ⟨⟨a, middle⟩, acceptedFirst, acceptedNext⟩ := accepted
  obtain ⟨consumed, rfl, holds⟩ := first data a middle acceptedFirst
  obtain ⟨later, rfl, holds'⟩ := next consumed a holds middle value rest acceptedNext
  exact ⟨consumed ++ later, (List.append_assoc consumed later rest).symm, holds'⟩

theorem pure {a : α} (holds : P [] a) : Consumes (Pure.pure a : Reader ε α) P := by
  intro data value rest accepted
  cases accepted
  exact ⟨[], rfl, holds⟩

/-- A step that consumes nothing and returns what an exception may stop. -/
theorem bind_lift {x : Except ε α} {f : α → Reader ε β}
    (next : ∀ a, x = .ok a → Consumes (f a) Q) : Consumes ((liftM x : Reader ε α) >>= f) Q := by
  apply bind (P := fun consumed a => consumed = [] ∧ x = .ok a)
  · intro data value rest accepted
    cases x with
    | error e => cases accepted
    | ok a =>
        cases accepted
        exact ⟨[], rfl, rfl, rfl⟩
  · rintro _ a ⟨rfl, returned⟩
    exact next a returned

theorem bind_check {bad : Prop} [Decidable bad] {e : ε} {f : Unit → Reader ε β}
    (next : ¬ bad → Consumes (f ()) Q) : Consumes (check bad e >>= f) Q := by
  apply bind (P := fun consumed _ => consumed = [] ∧ ¬ bad)
  · intro data value rest accepted
    rw [check] at accepted
    split at accepted
    · cases accepted
    · rename_i fine
      cases accepted
      exact ⟨[], rfl, rfl, fine⟩
  · rintro _ _ ⟨rfl, fine⟩
    exact next fine

theorem take (truncated : ε) (length : Nat) :
    Consumes (Reader.take truncated length) fun consumed value =>
      consumed = value ∧ value.length = length := by
  intro data value rest accepted
  rw [Reader.take] at accepted
  split at accepted
  · rename_i enough
    cases accepted
    refine ⟨data.take length, (List.take_append_drop length data).symm, rfl, ?_⟩
    rw [List.length_take]
    omega
  · cases accepted

theorem mono {P' : Bytes → α → Prop} (consumes : Consumes p P)
    (weaker : ∀ consumed value, P consumed value → P' consumed value) : Consumes p P' := by
  intro data value rest accepted
  obtain ⟨consumed, split, holds⟩ := consumes data value rest accepted
  exact ⟨consumed, split, weaker consumed value holds⟩

end Consumes

/-- A byte string that is accepted as a whole was consumed as a whole. -/
theorem readAll_finish_eq_ok {p : Reader ε α} {P : Bytes → α → Prop} {trailing : ε} {data : Bytes}
    {a : α} (consumes : Consumes p P)
    (accepted : readAll (do let value ← p; finish trailing; return value) data = .ok a) :
    P data a := by
  have unfolded : (do let value ← p; finish trailing; return value : Reader ε α) data =
      (p data >>= fun out => finish trailing out.2 >>= fun out' => .ok (out.1, out'.2)) := rfl
  rw [readAll, unfolded] at accepted
  cases outcome : p data with
  | error e =>
      rw [outcome] at accepted
      cases accepted
  | ok out =>
      obtain ⟨value, rest⟩ := out
      obtain ⟨consumed, split, holds⟩ := consumes data value rest outcome
      rw [outcome, Raising.ok_bind] at accepted
      dsimp only at accepted
      rw [finish] at accepted
      by_cases finished : rest = []
      · rw [if_pos finished] at accepted
        cases accepted
        rw [split, finished, List.append_nil]
        exact holds
      · rw [if_neg finished] at accepted
        cases accepted

/-! ## What a reader may raise -/

/-- Whatever the reader raises is allowed. -/
def RaisesOnly (allowed : ε → Prop) (p : Reader ε α) : Prop :=
  ∀ data, Raising.RaisesOnly allowed (p data)

namespace RaisesOnly

variable {allowed : ε → Prop} {p : Reader ε α} {f : α → Reader ε β}

theorem bind (first : RaisesOnly allowed p) (next : ∀ a, RaisesOnly allowed (f a)) :
    RaisesOnly allowed (p >>= f) := by
  intro data
  have unfolded : (p >>= f) data = (p data >>= fun out => f out.1 out.2) := rfl
  rw [unfolded]
  exact .bind (first data) fun out _ => next out.1 out.2

theorem pure (a : α) : RaisesOnly allowed (Pure.pure a : Reader ε α) := fun _ => .pure _

theorem throw {e : ε} (fine : allowed e) : RaisesOnly allowed (throw e : Reader ε α) := by
  intro data e' raised
  cases raised
  exact fine

theorem take {truncated : ε} (fine : allowed truncated) (length : Nat) :
    RaisesOnly allowed (Reader.take truncated length) := by
  intro data e raised
  rw [Reader.take] at raised
  split at raised
  · cases raised
  · cases raised
    exact fine

theorem check {bad : Prop} [Decidable bad] {e : ε} (fine : allowed e) :
    RaisesOnly allowed (Reader.check bad e) := by
  intro data e' raised
  rw [Reader.check] at raised
  split at raised
  · cases raised
    exact fine
  · cases raised

theorem finish {trailing : ε} (fine : allowed trailing) :
    RaisesOnly allowed (Reader.finish trailing) := by
  intro data e raised
  rw [Reader.finish] at raised
  split at raised
  · cases raised
  · cases raised
    exact fine

theorem lift {x : Except ε α} (only : Raising.RaisesOnly allowed x) :
    RaisesOnly allowed (liftM x : Reader ε α) := by
  intro data
  cases x with
  | ok a =>
      intro e raised
      cases raised
  | error e =>
      intro e' raised
      cases raised
      exact only e rfl

theorem mapM {γ : Type} {g : γ → Reader ε β} (each : ∀ c, RaisesOnly allowed (g c)) :
    ∀ cs : List γ, RaisesOnly allowed (cs.mapM g)
  | [] => pure []
  | c :: cs => by
      rw [List.mapM_cons]
      apply bind (each c)
      intro b
      apply bind (mapM each cs)
      intro bs
      exact pure _

theorem readAll (only : RaisesOnly allowed p) (data : Bytes) :
    Raising.RaisesOnly allowed (Reader.readAll p data) := by
  intro e raised
  rw [Reader.readAll] at raised
  split at raised
  · cases raised
  · rename_i e' outcome
    cases raised
    exact only data e outcome

end RaisesOnly

end Reader
