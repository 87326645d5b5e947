import OurCoin.Node.Greedy

/-!
# What admission promises

`add` never executes a transaction. It counts: the nonce it expects is the account's plus the
length of the sender's queue, and the account has to cover the sum of the queue.

* On a pool that is `Sound`, a queue without the last nonce of all can be executed, front to
  back, as a batch of its own (`Mempool.Sound.exists_batch`).
* A transaction with nonce `2^64 - 1` passes `add`, which compares the expected nonce with
  `>`, and never executes, because the account nonce could not be incremented after it
  (`AccountState.Batch.nonce_ne`).

So the queues of a pool that `add` filled are executable exactly when the last nonce is not
pending (`Mempool.Built.executable_iff`).
-/

set_option autoImplicit false

namespace OurCoin

open Raising

/-- What a sender pays itself is not reserved for it, so its balance falls by at most what
was reserved. -/
theorem AccountState.neg_reserved_le_net {sender : Text} {queue : List Transaction}
    (amounts : ∀ tx ∈ queue, 0 ≤ tx.amountAtoms) (own : ∀ tx ∈ queue, tx.senderAddress = sender) :
    - Mempool.reservedAtoms queue ≤ (queue.map (netAtoms sender)).sum := by
  induction queue with
  | nil => simp [Mempool.reservedAtoms]
  | cons tx rest ih =>
      have others := ih (fun other member => amounts other (List.mem_cons_of_mem _ member))
        (fun other member => own other (List.mem_cons_of_mem _ member))
      have amount := amounts tx List.mem_cons_self
      have net : - (tx.amountAtoms + tx.feeAtoms) ≤ netAtoms sender tx := by
        rw [netAtoms, if_pos (own tx List.mem_cons_self)]
        split <;> omega
      simp only [Mempool.reservedAtoms, List.map_cons, List.sum_cons] at others ⊢
      omega

/-- A transaction of a batch never carries the last nonce. -/
theorem AccountState.Batch.nonce_ne [Platform] {height : Int} {before after : AccountState}
    {transactions : List Transaction} (batch : Batch height before transactions after) :
    ∀ tx ∈ transactions, tx.nonce ≠ u64Max := by
  induction batch with
  | nil => simp
  | @cons before next after tx rest applied _ ih =>
      intro other member
      rcases List.mem_cons.mp member with rfl | later
      · rw [applied.admitted.nonce_eq]
        exact applied.admitted.nonce_left
      · exact ih other later

namespace Mempool

variable [Platform]

/-! ## Pools that were filled by `add` -/

/-- A pool that a sequence of `add` calls made of the empty one, against one state and one
height, with the transactions they offered. A call that raises leaves the pool as it was. -/
inductive Built (state : AccountState) (height : Int) : List Transaction → Mempool → Prop
  | empty : Built state height [] Mempool.empty
  | added {offered : List Transaction} {pool pool' : Mempool} {tx : Transaction} {txid : Bytes} :
      Built state height offered pool → pool.add tx state height = .ok (txid, pool') →
        Built state height (offered ++ [tx]) pool'
  | refused {offered : List Transaction} {pool : Mempool} {tx : Transaction} {e : Raised} :
      Built state height offered pool → pool.add tx state height = .error e →
        Built state height (offered ++ [tx]) pool

/-- The pending transactions of every sender, by nonce, all execute on a copy of the state. -/
def Executable (pool : Mempool) (state : AccountState) (height : Int) : Prop :=
  ∀ sender, pool.senderTransactions sender ≠ [] → ∃ working fees after,
    state.copy = .ok working ∧
      working.applyTransactions (pool.senderTransactions sender) height = .ok (fees, after)

namespace Sound

variable {pool : Mempool} {state : AccountState} {height : Int}

theorem queue_nodup (sound : pool.Sound state height) (sender : Text) :
    (pool.senderTransactions sender).Nodup := by
  apply List.Nodup.of_map Transaction.nonce
  rw [sound.nonces]
  exact nodup_consecutive _ _

/-- The transaction after the executed front of its queue is admitted. -/
theorem admits (sound : pool.Sound state height) (range : 0 ≤ height ∧ height ≤ u64Max)
    {sender : Text} {front back : List Transaction} {tx : Transaction}
    (split : pool.senderTransactions sender = front ++ tx :: back) (left : tx.nonce ≠ u64Max)
    {working : AccountState} (batch : AccountState.Batch height state front working) :
    working.Admits tx height := by
  have inQueue : ∀ other ∈ front ++ tx :: back, other ∈ pool.senderTransactions sender :=
    fun other member => split ▸ member
  have txPending := inQueue tx (by simp)
  obtain ⟨⟨txid, stored⟩, own⟩ := mem_senderTransactions.mp txPending
  have ownFront : ∀ other ∈ front, other.senderAddress = sender := fun other member =>
    (mem_senderTransactions.mp (inQueue other (List.mem_append_left _ member))).2
  have valid : ∀ other ∈ pool.senderTransactions sender,
      other.IntrinsicallyValid state.network := by
    intro other member
    obtain ⟨⟨id, found⟩, -⟩ := mem_senderTransactions.mp member
    exact sound.valid found
  have sentFront : sentBy sender front = front :=
    List.filter_eq_self.mpr fun other member => by simpa using ownFront other member
  have nonce : (working.accountOf tx.senderAddress).nonce = tx.nonce := by
    have nonces := sound.nonces sender
    rw [split, List.map_append, List.map_cons, List.length_append, List.length_cons,
      consecutive_add, consecutive_succ] at nonces
    have here := (List.cons.inj (List.append_inj nonces (by simp)).2).1
    rw [own, batch.nonce_eq, sentFront, here]
  have covered : tx.amountAtoms + tx.feeAtoms ≤
      (working.accountOf tx.senderAddress).balanceAtoms := by
    have reserved := sound.covered sender
    have frontNet : - reservedAtoms front ≤ (front.map (AccountState.netAtoms sender)).sum :=
      AccountState.neg_reserved_le_net (fun other member =>
        (valid other (inQueue other (List.mem_append_left _ member))).amount_pos.le) ownFront
    have rest : 0 ≤ reservedAtoms back := by
      apply List.sum_nonneg
      intro cost member
      obtain ⟨other, listed, rfl⟩ := List.mem_map.mp member
      have intrinsic := valid other (inQueue other (by simp [listed]))
      have amount := intrinsic.amount_pos
      have fee := intrinsic.fee_nonneg
      omega
    rw [own, batch.balance sender]
    simp only [split, reservedAtoms, List.map_append, List.map_cons, List.sum_append,
      List.sum_cons] at reserved frontNet rest
    omega
  obtain ⟨ids, idsOk, -, -, union⟩ := batch.txids
  exact {
    height_range := range
    valid := by
      rw [batch.network_eq]
      exact valid tx txPending
    alive := sound.alive stored
    fresh := by
      intro id idOk confirmed
      rw [union, Finset.mem_union, List.mem_toFinset] at confirmed
      rcases confirmed with old | listed
      · have key := sound.txid_ok stored
        rw [idOk, Except.ok.injEq] at key
        subst key
        exact sound.unconfirmed stored old
      · -- The same transaction would stand in the queue twice.
        obtain ⟨other, member, otherOk⟩ := (mem_of_mapM_eq_ok idsOk).mp listed
        have same := eq_of_txid (fun _ _ => sound.txid_ok)
          (Queues.mem_values (inQueue other (List.mem_append_left _ member)))
          (Queues.mem_values txPending) otherOk idOk
        subst same
        have nodup := sound.queue_nodup sender
        rw [split] at nodup
        exact (List.nodup_append.mp nodup).2.2 other member other List.mem_cons_self rfl
    nonce_eq := nonce.symm
    nonce_left := nonce ▸ left
    covered := covered }

/-- **A queue without the last nonce executes front to back.** -/
theorem exists_batch (sound : pool.Sound state height) (range : 0 ≤ height ∧ height ≤ u64Max)
    (fits : state.totalBalance ≤ u64Max) {sender : Text}
    (left : ∀ tx ∈ pool.senderTransactions sender, tx.nonce ≠ u64Max) :
    ∃ after, AccountState.Batch height state (pool.senderTransactions sender) after := by
  -- By induction on the part of the queue that was executed.
  have general : ∀ front back, pool.senderTransactions sender = front ++ back →
      ∃ after, AccountState.Batch height state front after := by
    intro front
    induction front using List.reverseRecOn with
    | nil => exact fun _ _ => ⟨state, .nil state⟩
    | append_singleton front tx ih =>
        intro back split
        rw [List.append_assoc, List.singleton_append] at split
        obtain ⟨working, batch⟩ := ih (tx :: back) split
        have admitted := sound.admits range split (left tx (by rw [split]; simp)) batch
        have total := batch.total
        have fees := batch.totalFees_nonneg
        obtain ⟨after, applied⟩ := admitted.exists_applied (by omega)
        exact ⟨after, batch.concat applied⟩
  exact general _ [] (List.append_nil _).symm

end Sound

namespace Built

variable {pool : Mempool} {state : AccountState} {height : Int} {offered : List Transaction}

theorem sound (built : Built state height offered pool) : pool.Sound state height := by
  induction built with
  | empty => exact .of_empty state height
  | added _ added ih => exact ih.add added
  | refused _ _ ih => exact ih

/-- A pool with a pending transaction was filled at a height in range. -/
theorem height_range (built : Built state height offered pool) {sender : Text}
    (pending : pool.senderTransactions sender ≠ []) : 0 ≤ height ∧ height ≤ u64Max := by
  induction built with
  | empty => exact absurd rfl pending
  | added _ added _ => exact (add_eq_ok.mp added).1.height_range
  | refused _ _ ih => exact ih pending

/-- What is pending was offered. -/
theorem mem_offered (built : Built state height offered pool) {txid : Bytes} {tx : Transaction}
    (stored : pool.transactions.get? txid = some tx) : tx ∈ offered := by
  induction built with
  | empty => cases stored
  | @added offered pool pool' new id _ added ih =>
      obtain ⟨-, rfl⟩ := add_eq_ok.mp added
      rw [Mempool.insert, Dict.get?_set] at stored
      split at stored
      · cases stored
        exact List.mem_append_right _ List.mem_cons_self
      · exact List.mem_append_left _ (ih stored)
  | refused _ _ ih => exact List.mem_append_left _ (ih stored)

/-- A queue of the pool executes when it does not reach the last nonce, and only then. -/
theorem queue_executes_iff (built : Built state height offered pool) (wellFormed : state.WellFormed)
    (fits : state.totalBalance ≤ u64Max) {sender : Text}
    (pending : pool.senderTransactions sender ≠ []) :
    (∃ working fees after, state.copy = .ok working ∧
      working.applyTransactions (pool.senderTransactions sender) height = .ok (fees, after)) ↔
      ∀ tx ∈ pool.senderTransactions sender, tx.nonce ≠ u64Max := by
  constructor
  · rintro ⟨working, fees, after, -, ran⟩
    exact (AccountState.applyTransactions_ok ran).2.2.1.nonce_ne
  · intro left
    have range := built.height_range pending
    obtain ⟨after, batch⟩ := built.sound.exists_batch range fits left
    exact ⟨state, _, after, AccountState.copy_eq_ok.mpr ⟨wellFormed, rfl⟩,
      batch.applyTransactions_eq wellFormed range fits⟩

end Built

/-! ## The last nonce -/

/-- A sender whose account is not within 64 of the last nonce has not reached it. -/
theorem Sound.nonce_ne_max {pool : Mempool} {state : AccountState} {height : Int}
    (sound : pool.Sound state height) {tx : Transaction} (pending : tx ∈ pool.transactions.values)
    (far : (state.accountOf tx.senderAddress).nonce + maxPendingPerSender ≤ u64Max) :
    tx.nonce ≠ u64Max := by
  have member : tx.nonce ∈ (pool.senderTransactions tx.senderAddress).map Transaction.nonce :=
    List.mem_map_of_mem (Queues.mem_queue pending)
  rw [sound.nonces] at member
  have range := mem_consecutive.mp member
  have short := sound.pending_le tx.senderAddress
  omega

/-- **What `add` admitted executes, up to the last nonce.** The queues of a pool all execute
exactly when no pending transaction carries nonce `2^64 - 1`, in particular when it was offered
by senders only whose queue cannot reach it. -/
theorem Built.executable_iff {pool : Mempool} {state : AccountState} {height : Int}
    {offered : List Transaction} (built : Built state height offered pool)
    (wellFormed : state.WellFormed) (fits : state.totalBalance ≤ maxSupplyAtoms) :
    (pool.Executable state height ↔ ∀ tx ∈ pool.transactions.values, tx.nonce ≠ u64Max) ∧
      ((∀ tx ∈ offered, tx.nonce = u64Max →
          (state.accountOf tx.senderAddress).nonce + maxPendingPerSender ≤ u64Max) →
        pool.Executable state height) := by
  have fits64 : state.totalBalance ≤ u64Max := fits.trans (by decide)
  have executes : (∀ tx ∈ pool.transactions.values, tx.nonce ≠ u64Max) →
      pool.Executable state height := by
    intro left sender pending
    exact (built.queue_executes_iff wellFormed fits64 pending).mpr fun tx member =>
      left tx (Queues.mem_values member)
  refine ⟨⟨?_, executes⟩, ?_⟩
  · intro executable tx pending
    have member := Queues.mem_queue pending
    have queue := List.ne_nil_of_mem member
    exact (built.queue_executes_iff wellFormed fits64 queue).mp
      (executable tx.senderAddress queue) tx member
  · intro left
    apply executes
    intro tx pending last
    obtain ⟨txid, stored⟩ := Dict.mem_values.mp pending
    exact built.sound.nonce_ne_max pending (left tx (built.mem_offered stored) last) last

open Payer

omit [Platform] in
theorem executable_iff_payments : ∃ txid pool, paymentsPool = .ok (txid, pool) ∧
    pool.transactions.values = [firstTransfer, secondTransfer, payment] ∧
    (@Executable trustingPlatform pool payersState 1 ↔
      ∀ tx ∈ pool.transactions.values, tx.nonce ≠ u64Max) ∧
    ((∀ tx ∈ [firstTransfer, secondTransfer, payment], tx.nonce = u64Max →
        (payersState.accountOf tx.senderAddress).nonce + maxPendingPerSender ≤ u64Max) →
      @Executable trustingPlatform pool payersState 1) := by
  obtain ⟨txid, pool, filled, pending, -⟩ := exists_paymentsPool
  obtain ⟨first, firstOk, rest⟩ := bind_eq_ok.mp filled
  obtain ⟨second, secondOk, thirdOk⟩ := bind_eq_ok.mp rest
  have built := @Built.added trustingPlatform _ _ _ _ _ _ _
    (@Built.added trustingPlatform _ _ _ _ _ _ _ (@Built.added trustingPlatform _ _ _ _ _ _ _
      (@Built.empty trustingPlatform payersState 1) firstOk) secondOk) thirdOk
  exact ⟨txid, pool, filled, pending, @Built.executable_iff trustingPlatform _ _ _ _ built
    payersState_wellFormed (by decide)⟩

/-- A payment with another nonce. -/
def paymentAt (nonce : Int) : Transaction := { payment with nonce := nonce }

/-- The payer owns a hundred atoms, and its account nonce is the one before the last. -/
def latePayerState : AccountState :=
  ⟨testnet, Dict.empty.set payment.senderAddress
    ⟨100, 2 ^ 64 - 2, Account.hundredAtoms.balance_range, by decide⟩, ∅⟩

omit [Platform] in
theorem latePayerState_wellFormed : latePayerState.WellFormed := by
  refine ⟨?_, fun _ member => absurd member (Finset.notMem_empty _)⟩
  intro address account found
  rw [latePayerState, Dict.get?_set] at found
  split at found
  · rename_i same
    subst same
    exact (by decide +kernel : isValidAddress payment.senderAddress testnet = true)
  · cases found

/-- The pool after the two last payments were offered. -/
def latePool : Except Raised (Bytes × Mempool) :=
  @add trustingPlatform empty (paymentAt (2 ^ 64 - 2)) latePayerState 1 >>= fun added =>
    @add trustingPlatform added.2 (paymentAt (2 ^ 64 - 1)) latePayerState 1

omit [Platform] in
theorem latePool_admits : latePool.toOption.map (fun added =>
    (added.2.senderTransactions payment.senderAddress).map Transaction.nonce) =
      some [2 ^ 64 - 2, 2 ^ 64 - 1] := by
  decide +kernel

omit [Platform] in
/-- The account before the last nonce: both payments are admitted, and the second never
executes. -/
theorem last_nonce_admitted : ¬ ∀ (platform : Platform) (state : AccountState) (height : Int)
    (offered : List Transaction) (pool : Mempool), state.WellFormed →
      state.totalBalance ≤ maxSupplyAtoms → @Built platform state height offered pool →
        @Executable platform pool state height := by
  intro always
  have admitted := latePool_admits
  cases outcome : latePool with
  | error e =>
      rw [outcome] at admitted
      cases admitted
  | ok result =>
      rw [outcome] at admitted
      have queue : (result.2.senderTransactions payment.senderAddress).map Transaction.nonce =
          [2 ^ 64 - 2, 2 ^ 64 - 1] := Option.some.inj admitted
      obtain ⟨first, firstOk, secondOk⟩ := bind_eq_ok.mp outcome
      have built := @Built.added trustingPlatform _ _ _ _ _ _ _
        (@Built.added trustingPlatform _ _ _ _ _ _ _ (@Built.empty trustingPlatform _ _) firstOk)
        secondOk
      have pending : result.2.senderTransactions payment.senderAddress ≠ [] := by
        intro none
        rw [none] at queue
        cases queue
      obtain ⟨working, fees, after, -, ran⟩ := always trustingPlatform latePayerState 1 _ _
        latePayerState_wellFormed (by decide) built payment.senderAddress pending
      have batch := (@AccountState.applyTransactions_ok trustingPlatform _ _ _ _ _ ran).2.2.1
      have last : (2 ^ 64 - 1 : Int) ∈
          (result.2.senderTransactions payment.senderAddress).map Transaction.nonce := by
        rw [queue]
        simp
      obtain ⟨tx, member, nonce⟩ := List.mem_map.mp last
      exact @AccountState.Batch.nonce_ne trustingPlatform _ _ _ _ batch tx member nonce

end Mempool

end OurCoin
