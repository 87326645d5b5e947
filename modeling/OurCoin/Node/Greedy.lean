import OurCoin.Node.Selection
import OurCoin.Tree.Genesis

/-!
# Selection is greedy

On a pool whose queues could each be executed alone, no head that `select` tries ever fails,
because the transactions of others can only raise a balance and the total of all balances
leaves room for every credit (`Mempool.Progress.step`). So the selection is a greedy run: it
takes `min(max_count, size)` transactions, in every round the first head by fee and ID
(`Mempool.FeeGreedy`), and depends on the contents of the pool only (`Mempool.select_greedy`).
-/

set_option autoImplicit false

namespace OurCoin

open Raising

variable [Platform]

namespace Mempool

/-- Each pending queue continues its account and could be executed alone. -/
structure Queues (pool : Mempool) (state : AccountState) (height : Int) : Prop where
  txid_ok : ∀ txid tx, pool.transactions.get? txid = some tx → tx.txid = .ok txid
  contiguous : ∀ sender, (pool.senderTransactions sender).map Transaction.nonce =
    consecutive (state.accountOf sender).nonce (pool.senderTransactions sender).length
  executes : ∀ sender, pool.senderTransactions sender ≠ [] → ∃ fees after,
    state.applyTransactions (pool.senderTransactions sender) height = .ok (fees, after)

/-- The next transaction of its sender after those selected so far. -/
def IsNext (pool : Mempool) (state : AccountState) (selected : List Transaction)
    (tx : Transaction) : Prop :=
  tx ∈ pool.transactions.values ∧
    tx.nonce = (state.accountOf tx.senderAddress).nonce + (sentBy tx.senderAddress selected).length

/-- What a selection of at most `maxCount` transactions should be. -/
structure FeeGreedy (pool : Mempool) (state : AccountState) (maxCount : Nat)
    (selected : List Transaction) : Prop where
  count : selected.length = min maxCount pool.size
  nodup : selected.Nodup
  pending : ∀ tx ∈ selected, tx ∈ pool.transactions.values
  /-- Each sender's transactions carry the nonces that follow its account. -/
  inOrder : ∀ sender, (sentBy sender selected).map Transaction.nonce =
    consecutive (state.accountOf sender).nonce (sentBy sender selected).length
  /-- At every position stands the first of all next transactions. -/
  greedy : GreedyRun (pool.IsNext state) Transaction.Precedes selected

variable {pool pool' : Mempool} {state : AccountState} {height : Int}

/-! ## Queues -/

namespace Queues

omit [Platform] in
theorem mem_values {sender : Text} {tx : Transaction}
    (member : tx ∈ pool.senderTransactions sender) : tx ∈ pool.transactions.values :=
  Dict.mem_values.mpr (mem_senderTransactions.mp member).1

omit [Platform] in
theorem mem_queue {tx : Transaction} (pending : tx ∈ pool.transactions.values) :
    tx ∈ pool.senderTransactions tx.senderAddress :=
  mem_senderTransactions.mpr ⟨Dict.mem_values.mp pending, rfl⟩

theorem nonces_nodup (queues : pool.Queues state height) (sender : Text) :
    ((pool.senderTransactions sender).map Transaction.nonce).Nodup := by
  rw [queues.contiguous]
  exact nodup_consecutive _ _

theorem separate (queues : pool.Queues state height) : pool.Separate := by
  apply nodup_map_pair
  intro sender
  have sorted := List.perm_insertionSort
    (fun first second : Transaction => first.nonce ≤ second.nonce)
    (pool.transactions.values.filter fun tx => tx.senderAddress = sender)
  exact (sorted.map Transaction.nonce).nodup_iff.mp (queues.nonces_nodup sender)

/-- The position of a pending transaction in its queue is told by its nonce. -/
theorem exists_split (queues : pool.Queues state height) {tx : Transaction}
    (pending : tx ∈ pool.transactions.values) :
    ∃ front back, pool.senderTransactions tx.senderAddress = front ++ tx :: back ∧
      tx.nonce = (state.accountOf tx.senderAddress).nonce + front.length := by
  obtain ⟨front, back, split⟩ := List.append_of_mem (mem_queue pending)
  refine ⟨front, back, split, ?_⟩
  have nonces := queues.contiguous tx.senderAddress
  rw [split, List.map_append, List.map_cons, List.length_append, List.length_cons, consecutive_add,
    consecutive_succ] at nonces
  exact (List.cons.inj (List.append_inj nonces (by simp)).2).1

/-- The batch of a queue that is executed alone. -/
theorem exists_batch (queues : pool.Queues state height) {tx : Transaction}
    (pending : tx ∈ pool.transactions.values) :
    ∃ after, AccountState.Batch height state (pool.senderTransactions tx.senderAddress) after := by
  obtain ⟨fees, after, ran⟩ := queues.executes tx.senderAddress
    (List.ne_nil_of_mem (mem_queue pending))
  exact ⟨after, (AccountState.applyTransactions_ok ran).2.2.1⟩

theorem valid (queues : pool.Queues state height) :
    ∀ tx ∈ pool.transactions.values, tx.IntrinsicallyValid state.network := by
  intro tx pending
  obtain ⟨after, batch⟩ := queues.exists_batch pending
  exact (batch.alive tx (mem_queue pending)).1

end Queues

/-! ## Progress -/

/-- What was selected so far executes as a batch, and is an initial part of every queue. -/
structure Progress (pool : Mempool) (state : AccountState) (height : Int)
    (selected : List Transaction) (working : AccountState) : Prop where
  batch : AccountState.Batch height state selected working
  taken : ∀ sender, ∃ back, pool.senderTransactions sender = sentBy sender selected ++ back

namespace Progress

variable {selected : List Transaction} {working : AccountState}

theorem nil : Progress pool state height [] state :=
  ⟨.nil state, fun sender => ⟨pool.senderTransactions sender, rfl⟩⟩

theorem pending (progress : Progress pool state height selected working) :
    ∀ tx ∈ selected, tx ∈ pool.transactions.values := by
  intro tx member
  obtain ⟨back, split⟩ := progress.taken tx.senderAddress
  apply Queues.mem_values
  rw [split]
  exact List.mem_append_left _ (List.mem_filter.mpr ⟨member, by simp⟩)

theorem nodup (progress : Progress pool state height selected working) : selected.Nodup := by
  have slots : (selected.map fun tx => (tx.senderAddress, tx.nonce)).Nodup := by
    apply nodup_map_pair
    intro sender
    have nonces := progress.batch.nonces sender
    rw [sentBy] at nonces
    rw [nonces]
    exact nodup_consecutive _ _
  exact List.Nodup.of_map _ slots

/-- The eligible heads are the next transactions. -/
theorem mem_heads (progress : Progress pool state height selected working)
    (separate : pool.Separate) {tx : Transaction} :
    tx ∈ headsOf working [] pool.groupBySender.items ↔ pool.IsNext state selected tx := by
  rw [mem_headsOf separate, progress.batch.nonce_eq, IsNext]
  simp

/-- A next transaction stands in its queue right after what was selected. -/
theorem exists_rest (progress : Progress pool state height selected working)
    (queues : pool.Queues state height) {tx : Transaction} (next : pool.IsNext state selected tx) :
    ∃ back, pool.senderTransactions tx.senderAddress =
      sentBy tx.senderAddress selected ++ tx :: back := by
  obtain ⟨front, back, split, nonce⟩ := queues.exists_split next.1
  obtain ⟨rest, taken⟩ := progress.taken tx.senderAddress
  have lengths : front.length = (sentBy tx.senderAddress selected).length := by
    have same := next.2
    omega
  rw [split] at taken
  obtain ⟨same, -⟩ := List.append_inj taken lengths
  exact ⟨back, by rw [split, same]⟩

/-- The next transaction was not selected, and has another ID than what was. -/
theorem fresh (progress : Progress pool state height selected working)
    (queues : pool.Queues state height) {tx : Transaction} (next : pool.IsNext state selected tx)
    {id : Bytes} (idOk : tx.txid = .ok id) (unconfirmed : id ∉ state.confirmedTxids) :
    id ∉ working.confirmedTxids := by
  obtain ⟨ids, idsOk, -, -, union⟩ := progress.batch.txids
  rw [union, Finset.mem_union, not_or]
  refine ⟨unconfirmed, ?_⟩
  intro listed
  obtain ⟨other, member, otherOk⟩ := (mem_of_mapM_eq_ok idsOk).mp (List.mem_toFinset.mp listed)
  have same := eq_of_txid queues.txid_ok (progress.pending other member) next.1 otherOk idOk
  subst same
  -- It would stand in its queue twice.
  obtain ⟨back, split⟩ := progress.exists_rest queues next
  have nonces := queues.nonces_nodup other.senderAddress
  rw [split] at nonces
  have queueNodup := List.Nodup.of_map _ nonces
  have before : other ∈ sentBy other.senderAddress selected :=
    List.mem_filter.mpr ⟨member, by simp⟩
  exact (List.nodup_append.mp queueNodup).2.2 other before other List.mem_cons_self rfl

/-- **The next transaction of a sender can be executed**, whatever others did in between. -/
theorem admits (progress : Progress pool state height selected working)
    (queues : pool.Queues state height) {tx : Transaction} (next : pool.IsNext state selected tx) :
    working.Admits tx height := by
  obtain ⟨back, split⟩ := progress.exists_rest queues next
  obtain ⟨last, queueBatch⟩ := queues.exists_batch next.1
  rw [split] at queueBatch
  obtain ⟨alone, first, rest⟩ := queueBatch.split
  obtain ⟨admitted⟩ : Nonempty (PLift (alone.Admits tx height)) := by
    cases rest with
    | cons applied _ => exact ⟨⟨applied.admitted⟩⟩
  replace admitted := admitted.down
  have network : working.network = alone.network :=
    progress.batch.network_eq.trans first.network_eq.symm
  have nonce : tx.nonce = (working.accountOf tx.senderAddress).nonce := by
    rw [progress.batch.nonce_eq]
    exact next.2
  have others := progress.batch.own_net_le tx.senderAddress
  have balance := progress.batch.balance tx.senderAddress
  have aloneBalance := first.balance tx.senderAddress
  have covered := admitted.covered
  rw [sentBy] at aloneBalance
  obtain ⟨ids, -, -, -, union⟩ := first.txids
  exact {
    height_range := admitted.height_range
    valid := network ▸ admitted.valid
    alive := admitted.alive
    fresh := by
      intro id idOk
      apply progress.fresh queues next idOk
      have unconfirmed := admitted.fresh id idOk
      rw [union, Finset.mem_union, not_or] at unconfirmed
      exact unconfirmed.1
    nonce_eq := nonce
    nonce_left := by
      rw [← nonce, admitted.nonce_eq]
      exact admitted.nonce_left
    covered := by omega }

/-- **One round**: the next transaction is applied, and the progress is kept. -/
theorem step (progress : Progress pool state height selected working)
    (queues : pool.Queues state height) (fits : state.totalBalance ≤ u64Max) {tx : Transaction}
    (next : pool.IsNext state selected tx) :
    ∃ after, working.Applied tx height after ∧
      Progress pool state height (selected ++ [tx]) after := by
  have total := progress.batch.total
  have fees := progress.batch.totalFees_nonneg
  obtain ⟨after, applied⟩ := (progress.admits queues next).exists_applied (by omega)
  refine ⟨after, applied, progress.batch.concat applied, ?_⟩
  intro sender
  rw [sentBy_append]
  by_cases own : tx.senderAddress = sender
  · subst own
    obtain ⟨back, split⟩ := progress.exists_rest queues next
    refine ⟨back, ?_⟩
    rw [split, sentBy, sentBy, List.filter_cons_of_pos (by simp), List.filter_nil, List.append_assoc,
      List.singleton_append]
  · obtain ⟨back, split⟩ := progress.taken sender
    refine ⟨back, ?_⟩
    rw [split, sentBy, sentBy, List.filter_cons_of_neg (by simpa using own), List.filter_nil,
      List.append_nil]

/-- Without a next transaction the whole pool was selected. -/
theorem complete (progress : Progress pool state height selected working)
    (queues : pool.Queues state height) (done : ∀ tx, ¬ pool.IsNext state selected tx) :
    ∀ tx ∈ pool.transactions.values, tx ∈ selected := by
  intro tx pending
  obtain ⟨back, split⟩ := progress.taken tx.senderAddress
  cases back with
  | nil =>
      have member := Queues.mem_queue pending
      rw [split, List.append_nil] at member
      exact List.mem_of_mem_filter member
  | cons head rest =>
      have listed : head ∈ pool.senderTransactions tx.senderAddress := by
        rw [split]
        exact List.mem_append_right _ List.mem_cons_self
      have sender := (mem_senderTransactions.mp listed).2
      refine absurd ⟨Queues.mem_values listed, ?_⟩ (done head)
      have nonces := queues.contiguous tx.senderAddress
      rw [split, List.map_append, List.map_cons, List.length_append, List.length_cons,
        consecutive_add, consecutive_succ] at nonces
      rw [sender]
      exact (List.cons.inj (List.append_inj nonces (by simp)).2).1

omit [Platform] in
theorem size_eq (pool : Mempool) : pool.size = pool.transactions.values.length := by
  rw [size, Dict.size, Dict.values, List.length_map]

theorem length_le (progress : Progress pool state height selected working) :
    selected.length ≤ pool.size := by
  rw [size_eq]
  exact (List.subperm_of_subset progress.nodup progress.pending).length_le

theorem size_le (progress : Progress pool state height selected working)
    (queues : pool.Queues state height) (done : ∀ tx, ¬ pool.IsNext state selected tx) :
    pool.size ≤ selected.length := by
  rw [size_eq]
  have nodup : pool.transactions.values.Nodup := List.Nodup.of_map _ queues.separate
  exact (List.subperm_of_subset nodup (progress.complete queues done)).length_le

end Progress

/-! ## The loop -/

/-- **The loop makes a greedy run**, up to the wanted count or the end of all queues. -/
theorem selectLoop_greedy (queues : pool.Queues state height) (wellFormed : state.WellFormed)
    (fits : state.totalBalance ≤ u64Max) : ∀ (wanted : Nat) {working : AccountState}
    {selected : List Transaction}, Progress pool state height selected working →
      GreedyRun (pool.IsNext state) Transaction.Precedes selected →
        ∃ result paid,
          selectLoop height pool.groupBySender wanted working [] selected = .ok result ∧
          Progress pool state height result paid ∧
          GreedyRun (pool.IsNext state) Transaction.Precedes result ∧
          result.length ≤ selected.length + wanted ∧
          (result.length = selected.length + wanted ∨ ∀ tx, ¬ pool.IsNext state result tx)
  | 0, working, selected, progress, run =>
      ⟨selected, working, rfl, progress, run, by omega, .inl rfl⟩
  | wanted + 1, working, selected, progress, run => by
      have separate := queues.separate
      have valid : ∀ tx ∈ pool.transactions.values, tx.IntrinsicallyValid working.network := by
        rw [progress.batch.network_eq]
        exact queues.valid
      rcases @selectLoop_round _ height _ separate _ valid wanted [] selected with
        ⟨none, stops⟩ | ⟨first, rest, perm, ordered, round⟩
      · refine ⟨selected, working, stops, progress, run, by omega, .inr ?_⟩
        intro tx next
        have member := (progress.mem_heads separate).mpr next
        rw [none] at member
        cases member
      · have next : pool.IsNext state selected first :=
          (progress.mem_heads separate).mp (perm.mem_iff.mp List.mem_cons_self)
        obtain ⟨after, applied, progress'⟩ := progress.step queues fits next
        have total := progress.batch.total
        have fees := progress.batch.totalFees_nonneg
        have applies := applied.applyTransaction_eq (progress.batch.wellFormed wellFormed) (by omega)
        have firstId := queues.valid first next.1
        have run' : GreedyRun (pool.IsNext state) Transaction.Precedes (selected ++ [first]) := by
          apply run.concat next
          intro other otherNext
          have member := perm.mem_iff.mpr ((progress.mem_heads separate).mpr otherNext)
          rcases List.mem_cons.mp member with same | later
          · exact .inl same
          · obtain ⟨id, idOk⟩ := firstId.exists_txid
            obtain ⟨id', idOk'⟩ := (queues.valid other otherNext.1).exists_txid
            by_cases same : id = id'
            · subst same
              exact .inl (eq_of_txid queues.txid_ok otherNext.1 next.1 idOk' idOk)
            · exact .inr (precedes_of_feeKey_le idOk idOk' same (ordered other later))
        obtain ⟨result, paid, loop, whole, greedy, length, ends⟩ :=
          selectLoop_greedy queues wellFormed fits wanted progress' run'
        rw [List.length_append, List.length_singleton] at length ends
        rw [round, applyFirst, applies, ok_bind]
        refine ⟨result, paid, loop, whole, greedy, by omega, ?_⟩
        rcases ends with full | done
        · exact .inl (by omega)
        · exact .inr done

theorem exists_greedy (queues : pool.Queues state height) (wellFormed : state.WellFormed)
    (fits : state.totalBalance ≤ u64Max) (maxCount : Nat) :
    ∃ selected, pool.select state height maxCount = .ok selected ∧
      pool.FeeGreedy state maxCount selected := by
  obtain ⟨selected, paid, loop, progress, greedy, length, ends⟩ :=
    selectLoop_greedy queues wellFormed fits maxCount .nil .nil
  rw [List.length_nil, Nat.zero_add] at length ends
  refine ⟨selected, ?_, ?_, progress.nodup, progress.pending, progress.batch.nonces, greedy⟩
  · have counted : raiseIf ((maxCount : Int) < 0)
        (mempoolError "max_count must be a non-negative integer") = .ok () :=
      raiseIf_eq_ok.mpr (by omega)
    rw [select, counted, ok_bind]
    split
    · rename_i zero
      have none : maxCount = 0 := by omega
      subst none
      rw [List.length_eq_zero_iff.mp (by omega : selected.length = 0)]
      rfl
    · rw [AccountState.copy_eq_ok.mpr ⟨wellFormed, rfl⟩, ok_bind, Int.toNat_natCast]
      exact loop
  · have bounded := progress.length_le
    rcases ends with full | done
    · omega
    · have everything := progress.size_le queues done
      omega

/-! ## The order in which the pool was filled -/

omit [Platform] in
/-- A queue without repeated nonces depends on the contents of the pool only. -/
theorem senderTransactions_eq (same : pool.transactions.Agrees pool'.transactions) {sender : Text}
    (nodup : ((pool.senderTransactions sender).map Transaction.nonce).Nodup) :
    pool'.senderTransactions sender = pool.senderTransactions sender := by
  have values : pool'.transactions.values.Perm pool.transactions.values :=
    same.symm.perm.map Prod.snd
  have perm : (pool'.senderTransactions sender).Perm (pool.senderTransactions sender) :=
    (List.perm_insertionSort _ _).trans
      ((values.filter _).trans (List.perm_insertionSort _ _).symm)
  have total : Std.Total fun first second : Transaction => first.nonce ≤ second.nonce :=
    ⟨fun first second => le_total first.nonce second.nonce⟩
  have transitive : IsTrans Transaction fun first second => first.nonce ≤ second.nonce :=
    ⟨fun _ _ _ below above => le_trans below above⟩
  apply List.Perm.eq_of_pairwise _ (List.pairwise_insertionSort _ _)
    (List.pairwise_insertionSort _ _) perm
  intro first second firstMember secondMember below above
  exact List.inj_on_of_nodup_map nodup (perm.mem_iff.mp firstMember) secondMember
    (le_antisymm below above)

omit [Platform] in
theorem mem_values_of_agrees (same : pool.transactions.Agrees pool'.transactions)
    {tx : Transaction} : tx ∈ pool'.transactions.values ↔ tx ∈ pool.transactions.values := by
  rw [Dict.mem_values, Dict.mem_values]
  exact exists_congr fun txid => by rw [same txid]

theorem Queues.of_agrees (queues : pool.Queues state height)
    (same : pool.transactions.Agrees pool'.transactions) : pool'.Queues state height := by
  have queue : ∀ sender, pool'.senderTransactions sender = pool.senderTransactions sender :=
    fun sender => senderTransactions_eq same (queues.nonces_nodup sender)
  refine ⟨?_, ?_, ?_⟩
  · intro txid tx stored
    exact queues.txid_ok txid tx ((same txid).trans stored)
  · intro sender
    rw [queue]
    exact queues.contiguous sender
  · intro sender
    rw [queue]
    exact queues.executes sender

/-- The queues of a pool are told by its pending transactions. -/
theorem Queues.of_pending
    (named : ∀ item ∈ pool.transactions.items, item.2.txid = .ok item.1)
    (contiguous : ∀ tx ∈ pool.transactions.values,
      (pool.senderTransactions tx.senderAddress).map Transaction.nonce =
        consecutive (state.accountOf tx.senderAddress).nonce
          (pool.senderTransactions tx.senderAddress).length)
    (executes : ∀ tx ∈ pool.transactions.values,
      (state.applyTransactions (pool.senderTransactions tx.senderAddress) height).isOk = true) :
    pool.Queues state height where
  txid_ok txid tx stored := named (txid, tx) (Dict.get?_eq_some.mp stored)
  contiguous sender := by
    cases queue : pool.senderTransactions sender with
    | nil => rfl
    | cons tx rest =>
        have member : tx ∈ pool.senderTransactions sender := queue ▸ List.mem_cons_self
        obtain ⟨-, rfl⟩ := mem_senderTransactions.mp member
        rw [← queue]
        exact contiguous tx (mem_values member)
  executes sender pending := by
    obtain ⟨tx, member⟩ := List.exists_mem_of_ne_nil _ pending
    obtain ⟨-, rfl⟩ := mem_senderTransactions.mp member
    have ran := executes tx (mem_values member)
    cases outcome : state.applyTransactions (pool.senderTransactions tx.senderAddress) height with
    | ok result => exact ⟨result.1, result.2, rfl⟩
    | error e =>
        rw [outcome] at ran
        cases ran

/-! ## Two senders -/

open Payer

/-- The pool after the two transfers of one sender and the payment of the other. -/
def paymentsPool : Except Raised (Bytes × Mempool) :=
  @add trustingPlatform empty firstTransfer payersState 1 >>= fun first =>
    @add trustingPlatform first.2 secondTransfer payersState 1 >>= fun second =>
      @add trustingPlatform second.2 payment payersState 1

/-- The pool has three transactions, and the queues that its contents ask for. -/
def paymentsQueue (pool : Mempool) : Bool :=
  decide (pool.transactions.values = [firstTransfer, secondTransfer, payment] ∧
    (∀ item ∈ pool.transactions.items,
      @Transaction.txid trustingPlatform item.2 = .ok item.1) ∧
    (∀ tx ∈ pool.transactions.values,
      (pool.senderTransactions tx.senderAddress).map Transaction.nonce =
        consecutive (payersState.accountOf tx.senderAddress).nonce
          (pool.senderTransactions tx.senderAddress).length) ∧
    ∀ tx ∈ pool.transactions.values, (@AccountState.applyTransactions trustingPlatform
      payersState (pool.senderTransactions tx.senderAddress) 1).isOk = true)

omit [Platform] in
theorem paymentsPool_queues : paymentsPool.toOption.any (fun added => paymentsQueue added.2) =
    true := by
  decide +kernel

omit [Platform] in
theorem exists_paymentsPool : ∃ txid pool, paymentsPool = .ok (txid, pool) ∧
    pool.transactions.values = [firstTransfer, secondTransfer, payment] ∧
    @Queues trustingPlatform pool payersState 1 := by
  have filled := paymentsPool_queues
  cases outcome : paymentsPool with
  | error e =>
      rw [outcome] at filled
      cases filled
  | ok added =>
      rw [outcome] at filled
      obtain ⟨pending, named, contiguous, executes⟩ := of_decide_eq_true filled
      exact ⟨added.1, added.2, rfl, pending,
        @Queues.of_pending trustingPlatform _ _ _ named contiguous executes⟩

/-- **Selection is greedy, complete and independent of the order of the pool.** -/
theorem select_greedy (queues : pool.Queues state height) (wellFormed : state.WellFormed)
    (fits : state.totalBalance ≤ 2 ^ 64 - 1) (maxCount : Nat) :
    ∃ selected, pool.select state height maxCount = .ok selected ∧
      pool.FeeGreedy state maxCount selected ∧
      ∀ pool' : Mempool, pool.transactions.Agrees pool'.transactions →
        pool'.select state height maxCount = .ok selected := by
  obtain ⟨selected, selectOk, chosen⟩ := exists_greedy queues wellFormed fits maxCount
  refine ⟨selected, selectOk, chosen, ?_⟩
  intro pool' same
  obtain ⟨selected', selectOk', chosen'⟩ :=
    exists_greedy (queues.of_agrees same) wellFormed fits maxCount
  have next : pool'.IsNext state = pool.IsNext state := by
    funext front tx
    rw [IsNext, IsNext, mem_values_of_agrees same]
  have greedy' := chosen'.greedy
  rw [next] at greedy'
  have length : selected'.length = selected.length := by
    rw [chosen.count, chosen'.count, size, size, same.size_eq]
  rw [selectOk', greedy'.eq_of_length_eq (fun _ _ before => before.asymm) chosen.greedy length]

omit [Platform] in
theorem select_greedy_payments : ∃ txid pool, paymentsPool = .ok (txid, pool) ∧
    pool.transactions.values = [firstTransfer, secondTransfer, payment] ∧
    ∃ selected, @select trustingPlatform pool payersState 1 2 = .ok selected ∧
      @FeeGreedy trustingPlatform pool payersState 2 selected ∧
      ∀ pool' : Mempool, pool.transactions.Agrees pool'.transactions →
        @select trustingPlatform pool' payersState 1 2 = .ok selected := by
  obtain ⟨txid, pool, filled, pending, queues⟩ := exists_paymentsPool
  exact ⟨txid, pool, filled, pending, @select_greedy trustingPlatform pool payersState 1 queues
    payersState_wellFormed (by decide) 2⟩

end Mempool

end OurCoin
