import OurCoin.Ledger.Execution
import OurCoin.Library.Realization
import OurCoin.Model.StateObjects

/-!
# State objects realize the pure transitions

`apply_transactions` works on an object of its own. So the pure `applyTransactions`, which
returns the state that replaces the original, says all that the method does: when it returns,
the object stands for that state and every other object for what it stood for before; when it
raises, in whatever round and after whatever writes, every object that existed stands for what
it stood for before (`StateObject.applyTransactions_realizes`).

The invariant of the rounds is `Memory.Working`: the containers that existed before the call are
untouched, and the working object stands for the accumulator of the pure loop.
-/

set_option autoImplicit false

namespace OurCoin

open Raising Stateful

namespace Memory

/-- An object that exists, with its containers. -/
structure Allocated (memory : Memory) (ref : Nat) : Prop where
  object : ref < memory.next
  accounts : (memory.objects ref).accounts < memory.next
  confirmedTxids : (memory.objects ref).confirmedTxids < memory.next

/-- What existed before is untouched. -/
structure Framed (before memory : Memory) : Prop where
  objects : ∀ ref < before.next, memory.objects ref = before.objects ref
  dicts : ∀ ref < before.next, memory.dicts ref = before.dicts ref
  sets : ∀ ref < before.next, memory.sets ref = before.sets ref

theorem Framed.view_eq {before memory : Memory} (framed : Framed before memory) {self : Nat}
    (allocated : before.Allocated self) : memory.view self = before.view self := by
  rw [view, view, framed.objects self allocated.object, framed.dicts _ allocated.accounts,
    framed.sets _ allocated.confirmedTxids]

/-- The first free reference became a working object that stands for a state. -/
structure Working (before memory : Memory) (state : AccountState) : Prop where
  framed : Framed before memory
  object : memory.objects before.next = ⟨state.network, before.next, before.next⟩
  dict : memory.dicts before.next = state.accounts
  set : memory.sets before.next = state.confirmedTxids

namespace Working

variable {before memory : Memory} {state : AccountState}

theorem view_eq (working : Working before memory state) : memory.view before.next = state := by
  rw [view, working.object, working.dict, working.set]

theorem alloc (before : Memory) (state : AccountState) :
    Working before (before.alloc state.accounts state.confirmedTxids state.network) state where
  framed := by
    refine ⟨?_, ?_, ?_⟩
    · exact fun ref old => Function.update_of_ne old.ne _ _
    · exact fun ref old => Function.update_of_ne old.ne _ _
    · exact fun ref old => Function.update_of_ne old.ne _ _
  object := Function.update_self _ _ _
  dict := Function.update_self _ _ _
  set := Function.update_self _ _ _

/-- Writing an account of the working object. -/
theorem setItem (working : Working before memory state) (address : Text) (account : Account) :
    Working before (memory.setItem before.next address account)
      (state.setAccount address account) := by
  have ref : (memory.objects before.next).accounts = before.next := by rw [working.object]
  refine ⟨⟨working.framed.objects, ?_, working.framed.sets⟩, working.object, ?_, working.set⟩
  · intro other old
    rw [Memory.setItem, ref, ← working.framed.dicts other old]
    exact Function.update_of_ne old.ne _ _
  · rw [Memory.setItem, ref, working.dict]
    exact Function.update_self _ _ _

/-- Adding a confirmed ID to the working object. -/
theorem addTxid (working : Working before memory state) (txid : Bytes) :
    Working before (memory.addTxid before.next txid)
      { state with confirmedTxids := insert txid state.confirmedTxids } := by
  have ref : (memory.objects before.next).confirmedTxids = before.next := by rw [working.object]
  refine ⟨⟨working.framed.objects, working.framed.dicts, ?_⟩, working.object, working.dict, ?_⟩
  · intro other old
    rw [Memory.addTxid, ref, ← working.framed.sets other old]
    exact Function.update_of_ne old.ne _ _
  · rw [Memory.addTxid, ref, working.set]
    exact Function.update_self _ _ _

/-- The object that adopts the containers of the working object stands for its accounts and
confirmed IDs. -/
theorem adopt (working : Working before memory state) {self : Nat}
    (allocated : before.Allocated self) :
    (memory.adopt self before.next).view self = { before.view self with
      accounts := state.accounts
      confirmedTxids := state.confirmedTxids } := by
  have own : memory.objects self = before.objects self :=
    working.framed.objects self allocated.object
  simp only [view, Memory.adopt, Function.update_self, working.object, working.dict, working.set,
    own]

/-- Every other object stands for what it stood for before the call. -/
theorem adopt_other (working : Working before memory state) {self other : Nat}
    (allocated : before.Allocated other) (different : other ≠ self) :
    (memory.adopt self before.next).view other = before.view other := by
  rw [← working.framed.view_eq allocated]
  simp only [view, Memory.adopt, Function.update_of_ne different]

end Working

end Memory

namespace StateObject

variable [Platform] {before : Memory} {state : AccountState} {memory : Memory}

omit [Platform] in
/-- The constructor allocates before it checks, and what it allocates is new. -/
theorem construct_realizes (before : Memory) (state : AccountState) :
    Realizes (fun self made after => self = before.next ∧ Memory.Working before after made)
      (Memory.Framed before)
      (construct state.accounts state.confirmedTxids state.network) state.copy before := by
  have working := Memory.Working.alloc before state
  have copied : state.copy = (state.copy >>= Pure.pure) := by
    cases state.copy <;> rfl
  rw [copied]
  refine .read (.update (.lift working.framed fun made copyOk => ?_))
  obtain ⟨-, rfl⟩ := AccountState.copy_eq_ok.mp copyOk
  exact .pure ⟨rfl, working⟩

theorem validate_realizes (working : Memory.Working before memory state) (tx : Transaction)
    (height : Int) :
    Realizes (fun _ _ after => Memory.Working before after state) (Memory.Framed before)
      (validate before.next tx height) (state.validate tx height) memory := by
  refine .read ?_
  rw [working.view_eq]
  exact .of_lift working.framed fun _ _ => working

omit [Platform] in
theorem moveBalances_realizes (working : Memory.Working before memory state) (tx : Transaction) :
    Realizes (fun _ moved after => Memory.Working before after moved) (Memory.Framed before)
      (moveBalances before.next tx) (state.moveBalances tx) memory := by
  refine .read ?_
  rw [working.view_eq, AccountState.moveBalances]
  dsimp only
  split
  · refine .lift working.framed fun account _ => ?_
    exact .update (.pure (working.setItem _ account))
  · refine .lift working.framed fun debited _ => .update ?_
    -- The sender's account is written when the recipient's balance is checked.
    have written := working.setItem tx.senderAddress debited
    refine .lift written.framed fun _ _ => .lift written.framed fun credited _ => ?_
    exact .update (.pure (written.setItem _ credited))

theorem applyValidated_realizes (working : Memory.Working before memory state) (tx : Transaction) :
    Realizes (fun fee result after => fee = result.1 ∧ Memory.Working before after result.2)
      (Memory.Framed before) (applyValidated before.next tx) (state.applyValidated tx) memory := by
  refine (moveBalances_realizes working tx).bind fun _ moved after working => ?_
  refine .lift working.framed fun txid _ => .update (.pure ⟨rfl, working.addTxid txid⟩)

/-- **One round.** -/
theorem applyNext_realizes (height : Int) (fees : Int) (acc : Int × AccountState) (tx : Transaction)
    (memory : Memory) (related : fees = acc.1 ∧ Memory.Working before memory acc.2) :
    Realizes (fun fees acc after => fees = acc.1 ∧ Memory.Working before after acc.2)
      (Memory.Framed before) (applyNext before.next height fees tx)
      (AccountState.applyNext height acc tx) memory := by
  obtain ⟨rfl, working⟩ := related
  refine (validate_realizes working tx height).bind fun _ _ after working => ?_
  refine (applyValidated_realizes working tx).bind ?_
  rintro fee ⟨_, next⟩ after ⟨rfl, working⟩
  exact .lift working.framed fun _ _ => .pure ⟨rfl, working⟩

/-- **The method realizes the pure batch.** When it returns, the object stands for the state
that the pure batch returns, and every other object for what it stood for before; when it
raises, no object that existed has changed. -/
theorem applyTransactions_realizes {self : Nat} (allocated : memory.Allocated self)
    (transactions : List Transaction) (height : Int) :
    Realizes (fun fees result after => fees = result.1 ∧ after.view self = result.2 ∧
        ∀ other, memory.Allocated other → other ≠ self → after.view other = memory.view other)
      (Memory.Framed memory) (applyTransactions self transactions height)
      ((memory.view self).applyTransactions transactions height) memory := by
  have untouched : Memory.Framed memory memory := ⟨fun _ _ => rfl, fun _ _ => rfl, fun _ _ => rfl⟩
  refine .lift untouched fun _ _ => .read ?_
  refine (construct_realizes memory (memory.view self)).bind ?_
  rintro _ working after ⟨rfl, isWorking⟩
  refine (Realizes.foldlM (applyNext_realizes height) transactions ⟨rfl, isWorking⟩).bind ?_
  rintro _ ⟨fees, final⟩ after ⟨rfl, isWorking⟩
  refine .update (.pure ⟨rfl, isWorking.adopt allocated, ?_⟩)
  exact fun other otherAllocated different => isWorking.adopt_other otherAllocated different

end StateObject

end OurCoin
