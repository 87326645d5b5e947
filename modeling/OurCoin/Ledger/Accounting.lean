import OurCoin.Ledger.Validation

/-!
# Nonces and transaction IDs across a batch

The account nonce, the set of confirmed IDs and the executed transactions are three
records of one thing. A batch keeps them together:

* the transactions of one sender carry consecutive nonces that start at the nonce of
  its account, and the account nonce grows by their number (`Batch.nonces`,
  `Batch.nonce_eq`);
* their IDs are new, distinct, and added to the confirmed ones (`Batch.txids`);
* none of them has expired (`Batch.alive`).
-/

set_option autoImplicit false

namespace OurCoin

open Raising

/-! ## Consecutive numbers -/

/-- The numbers `start, start + 1, …`. -/
def consecutive (start : Int) (count : Nat) : List Int :=
  (List.range count).map fun index : Nat => start + index

@[simp] theorem consecutive_zero (start : Int) : consecutive start 0 = [] := rfl

@[simp] theorem length_consecutive (start : Int) (count : Nat) :
    (consecutive start count).length = count := by
  rw [consecutive, List.length_map, List.length_range]

theorem consecutive_succ (start : Int) (count : Nat) :
    consecutive start (count + 1) = start :: consecutive (start + 1) count := by
  rw [consecutive, List.range_succ_eq_map, List.map_cons, List.map_map, consecutive]
  congr 1
  · simp
  · refine List.map_congr_left fun index _ => ?_
    simp only [Function.comp_apply, Nat.succ_eq_add_one]
    push_cast
    ring

theorem consecutive_add (start : Int) (first second : Nat) :
    consecutive start (first + second) =
      consecutive start first ++ consecutive (start + first) second := by
  induction first generalizing start with
  | zero => simp
  | succ first ih =>
      rw [Nat.succ_add, consecutive_succ, ih, consecutive_succ]
      push_cast
      rw [List.cons_append, add_assoc start 1, add_comm 1 (first : Int)]

theorem mem_consecutive {start value : Int} {count : Nat} :
    value ∈ consecutive start count ↔ start ≤ value ∧ value < start + count := by
  simp only [consecutive, List.mem_map, List.mem_range]
  constructor
  · rintro ⟨index, inside, rfl⟩
    omega
  · rintro ⟨low, high⟩
    exact ⟨(value - start).toNat, by omega, by omega⟩

theorem nodup_consecutive (start : Int) (count : Nat) : (consecutive start count).Nodup := by
  refine List.Nodup.map ?_ List.nodup_range
  intro first second same
  simp only at same
  omega

/-- Elements that are told apart within each class are told apart together with their
class. -/
theorem nodup_map_pair {α β γ : Type} [DecidableEq β] {classOf : α → β} {value : α → γ} :
    ∀ {xs : List α}, (∀ c, ((xs.filter fun x => classOf x = c).map value).Nodup) →
      (xs.map fun x => (classOf x, value x)).Nodup
  | [], _ => List.nodup_nil
  | x :: xs, within => by
      rw [List.map_cons, List.nodup_cons]
      have here := within (classOf x)
      rw [List.filter_cons_of_pos (by simp), List.map_cons, List.nodup_cons] at here
      constructor
      · intro member
        obtain ⟨y, yMem, same⟩ := List.mem_map.mp member
        rw [Prod.mk.injEq] at same
        exact here.1 (List.mem_map.mpr ⟨y, by simp [yMem, same.1], same.2⟩)
      · refine nodup_map_pair fun c => ?_
        have whole := within c
        by_cases same : classOf x = c
        · rw [List.filter_cons_of_pos (by simpa using same), List.map_cons, List.nodup_cons] at whole
          exact whole.2
        · rwa [List.filter_cons_of_neg (by simpa using same)] at whole

/-! ## Batches -/

/-- The transactions sent by an address, in order. -/
def sentBy (address : Text) (transactions : List Transaction) : List Transaction :=
  transactions.filter fun tx => tx.senderAddress = address

theorem sentBy_append (address : Text) (first second : List Transaction) :
    sentBy address (first ++ second) = sentBy address first ++ sentBy address second :=
  List.filter_append _ _

namespace AccountState.Batch

variable [Platform] {height : Int} {before after : AccountState} {transactions : List Transaction}

theorem nonce_eq (batch : Batch height before transactions after) (address : Text) :
    (after.accountOf address).nonce =
      (before.accountOf address).nonce + (sentBy address transactions).length := by
  induction batch with
  | nil => simp [sentBy]
  | @cons before next after tx rest applied _ ih =>
      rw [ih, applied.nonce]
      by_cases sent : tx.senderAddress = address
      · rw [if_pos sent, sentBy, sentBy, List.filter_cons_of_pos (by simpa using sent),
          List.length_cons]
        push_cast
        ring
      · rw [if_neg sent, sentBy, sentBy, List.filter_cons_of_neg (by simpa using sent)]
        ring

/-- **The transactions of one sender carry consecutive nonces.** -/
theorem nonces (batch : Batch height before transactions after) (address : Text) :
    (sentBy address transactions).map Transaction.nonce =
      consecutive (before.accountOf address).nonce (sentBy address transactions).length := by
  induction batch with
  | nil => simp [sentBy]
  | @cons before next after tx rest applied _ ih =>
      rw [applied.nonce] at ih
      by_cases sent : tx.senderAddress = address
      · have here : sentBy address (tx :: rest) = tx :: sentBy address rest :=
          List.filter_cons_of_pos (by simpa using sent)
        rw [if_pos sent] at ih
        rw [here, List.map_cons, List.length_cons, consecutive_succ, ih, applied.admitted.nonce_eq,
          sent]
      · have here : sentBy address (tx :: rest) = sentBy address rest :=
          List.filter_cons_of_neg (by simpa using sent)
        rw [if_neg sent, add_zero] at ih
        rw [here, ih]

/-- **The IDs of a batch are new and distinct, and become the confirmed ones.** -/
theorem txids (batch : Batch height before transactions after) :
    ∃ ids, transactions.mapM Transaction.txid = .ok ids ∧ ids.Nodup ∧
      (∀ id ∈ ids, id ∉ before.confirmedTxids) ∧
      after.confirmedTxids = before.confirmedTxids ∪ ids.toFinset := by
  induction batch with
  | nil => exact ⟨[], rfl, List.nodup_nil, by simp, by simp⟩
  | @cons before next after tx rest applied _ ih =>
      obtain ⟨ids, idsOk, nodup, fresh, union⟩ := ih
      obtain ⟨id, idOk, idFresh, inserted⟩ := applied.confirmed
      rw [inserted] at fresh union
      refine ⟨id :: ids, ?_, ?_, ?_, ?_⟩
      · rw [mapM_eq_ok] at idsOk ⊢
        exact .cons idOk idsOk
      · rw [List.nodup_cons]
        exact ⟨fun member => fresh id member (Finset.mem_insert_self _ _), nodup⟩
      · intro other member
        rcases List.mem_cons.mp member with rfl | later
        · exact idFresh
        · exact fun confirmed => fresh other later (Finset.mem_insert_of_mem confirmed)
      · rw [union, List.toFinset_cons]
        ext other
        simp only [Finset.mem_union, Finset.mem_insert]
        tauto

/-- Every executed transaction was valid and alive. -/
theorem alive (batch : Batch height before transactions after) :
    ∀ tx ∈ transactions, tx.IntrinsicallyValid before.network ∧ height ≤ tx.validUntilHeight := by
  induction batch with
  | nil => simp
  | @cons before next after tx rest applied _ ih =>
      intro other member
      rcases List.mem_cons.mp member with rfl | later
      · exact ⟨applied.admitted.valid, applied.admitted.alive⟩
      · have valid := ih other later
        rw [applied.network_eq] at valid
        exact valid

end AccountState.Batch

/-! ## Snapshots -/

/-- The balances of a snapshot sum up to the total of its state. -/
theorem AccountState.snapshot_total (state : AccountState) :
    (state.snapshot.accounts.map fun item => item.2.balanceAtoms).sum = state.totalBalance :=
  (state.accounts.sortedItems_perm.map fun item => item.2.balanceAtoms).sum_eq

end OurCoin
