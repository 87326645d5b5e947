import OurCoin.Ledger.Accounting
import OurCoin.Model.Mempool

/-!
# The invariant of the pending pool

A pool is `Sound` for a state and an execution height when its two indexes are inverse to
each other and what is pending could be executed at that height: the nonces of a sender
continue its account without a gap, the account covers all of them, none has expired and
none is confirmed.

* `Mempool.Accepts` lists the conditions under which `add` accepts a transaction
  (`add_eq_ok`). Every other outcome is a `MempoolError`, for a transaction that was ever
  valid (`add_error_cls`).
* `Sound.add`: an accepted transaction keeps the invariant, and it carries exactly the
  nonce that `next_nonce` computes for its sender (`Sound.nextNonce_eq`), although the two
  computations walk different data.
* `Sound.revalidate` and `Sound.of_empty`: revalidation against any state and height
  establishes the invariant there, whatever the pool was.
-/

set_option autoImplicit false

namespace OurCoin

open Raising

/-! ## Sorted lists -/

section Sorting

variable {α : Type} {r : α → α → Prop} [DecidableRel r]

theorem orderedInsert_concat {x a : α} {xs : List α} (below : r a x) :
    (xs ++ [x]).orderedInsert r a = xs.orderedInsert r a ++ [x] := by
  induction xs with
  | nil => simp [List.orderedInsert, below]
  | cons first rest ih =>
      simp only [List.cons_append, List.orderedInsert]
      split
      · rfl
      · rw [ih, List.cons_append]

/-- An element that belongs at the end of a sorted list is put there. -/
theorem insertionSort_concat {x : α} {xs : List α} (below : ∀ a ∈ xs, r a x) :
    (xs ++ [x]).insertionSort r = xs.insertionSort r ++ [x] := by
  induction xs with
  | nil => rfl
  | cons first rest ih =>
      rw [List.cons_append, List.insertionSort_cons, List.insertionSort_cons,
        ih fun a member => below a (List.mem_cons_of_mem _ member),
        orderedInsert_concat (below first List.mem_cons_self)]

end Sorting

/-- A sort by computed keys succeeds when every key does, and keeps the elements. -/
theorem sortedBy_eq_ok {α κ : Type} [LinearOrder κ] {key : α → Except Raised κ} {values : List α}
    (keys : ∀ value ∈ values, ∃ k, key value = .ok k) :
    ∃ sorted, sortedBy key values = .ok sorted ∧ sorted.Perm values := by
  have keyed : ∃ pairs : List (κ × α), values.mapM (fun value => do return (← key value, value)) =
      Except.ok pairs ∧ pairs.map Prod.snd = values := by
    induction values with
    | nil => exact ⟨[], rfl, rfl⟩
    | cons value rest ih =>
        obtain ⟨k, keyOk⟩ := keys value List.mem_cons_self
        obtain ⟨pairs, pairsOk, same⟩ := ih fun other member =>
          keys other (List.mem_cons_of_mem _ member)
        refine ⟨(k, value) :: pairs, ?_, by rw [List.map_cons, same]⟩
        rw [mapM_eq_ok] at pairsOk ⊢
        refine .cons ?_ pairsOk
        rw [keyOk]
        rfl
  obtain ⟨pairs, pairsOk, same⟩ := keyed
  refine ⟨_, by rw [sortedBy, pairsOk]; rfl, ?_⟩
  rw [← same]
  exact (List.perm_insertionSort _ _).map Prod.snd

variable [Platform]

namespace Mempool

/-! ## Adding a transaction -/

/-- The conditions under which a transaction enters the pool. -/
structure Accepts (pool : Mempool) (tx : Transaction) (state : AccountState) (height : Int)
    (txid : Bytes) : Prop where
  size_lt : pool.size < maxMempoolTransactions
  height_range : 0 ≤ height ∧ height ≤ u64Max
  valid : tx.IntrinsicallyValid state.network
  alive : height ≤ tx.validUntilHeight
  txid_ok : tx.txid = .ok txid
  notPending : pool.transactions.get? txid = none
  unconfirmed : txid ∉ state.confirmedTxids
  slot_free : pool.bySenderNonce.get? (tx.senderAddress, tx.nonce) = none
  pending_lt : (pool.senderTransactions tx.senderAddress).length < maxPendingPerSender
  nonce_left : (state.accountOf tx.senderAddress).nonce ≠ u64Max
  nonce_eq : tx.nonce = (state.accountOf tx.senderAddress).nonce +
    (pool.senderTransactions tx.senderAddress).length
  covered : reservedAtoms (pool.senderTransactions tx.senderAddress) + tx.amountAtoms +
    tx.feeAtoms ≤ (state.accountOf tx.senderAddress).balanceAtoms

/-- The pool with a transaction added. -/
def insert (pool : Mempool) (tx : Transaction) (txid : Bytes) : Mempool where
  transactions := pool.transactions.set txid tx
  bySenderNonce := pool.bySenderNonce.set (tx.senderAddress, tx.nonce) txid

omit [Platform] in
theorem getAccount_eq_ok {state : AccountState} {address : Text} {account : Account} :
    state.getAccount address = .ok account ↔
      (∃ hash, decodeAddress address state.network = .ok hash) ∧
        state.accountOf address = account := by
  simp [AccountState.getAccount]

/-- **A transaction is added exactly when the pool accepts it.** -/
theorem add_eq_ok {pool pool' : Mempool} {tx : Transaction} {state : AccountState} {height : Int}
    {txid : Bytes} :
    pool.add tx state height = .ok (txid, pool') ↔
      pool.Accepts tx state height txid ∧ pool' = pool.insert tx txid := by
  simp only [add, bind_eq_ok, raiseIf_eq_ok, rethrow_eq_ok, exists_const, pure_eq_ok, not_le,
    ge_iff_le, not_lt, gt_iff_lt, not_not, getAccount_eq_ok, Prod.mk.injEq, Bool.not_eq_true]
  constructor
  · rintro ⟨size, _, valid, id, idOk, pending, unconfirmed, slot, count, account, ⟨-, rfl⟩, left,
      small, nonce, covered, rfl, rfl⟩
    obtain ⟨range, intrinsic, alive⟩ := validateTransaction_eq_ok.mp valid
    exact ⟨⟨size, range, intrinsic, alive, idOk, Dict.contains_eq_false.mp pending,
      by simpa [AccountState.containsTransaction] using unconfirmed,
      Dict.contains_eq_false.mp slot, count, left, nonce, covered⟩, rfl⟩
  · rintro ⟨accepts, rfl⟩
    refine ⟨accepts.size_lt, (), validateTransaction_eq_ok.mpr ⟨accepts.height_range, accepts.valid,
      accepts.alive⟩, txid, accepts.txid_ok, Dict.contains_eq_false.mpr accepts.notPending,
      by simpa [AccountState.containsTransaction] using accepts.unconfirmed,
      Dict.contains_eq_false.mpr accepts.slot_free, accepts.pending_lt, _,
      ⟨accepts.valid.sender_valid, rfl⟩, accepts.nonce_left, ?_, accepts.nonce_eq, accepts.covered,
      rfl, rfl⟩
    rw [← accepts.nonce_eq]
    exact accepts.valid.nonce_range.2

/-- For a transaction that was valid once, every refusal of `add` is a `MempoolError`. -/
theorem add_error_cls {pool : Mempool} {tx : Transaction} {state : AccountState} {height : Int}
    {e : Raised} (valid : tx.IntrinsicallyValid state.network)
    (refused : pool.add tx state height = .error e) : e.cls = .mempoolError := by
  obtain ⟨txid, txidOk⟩ := valid.exists_txid
  have account := getAccount_eq_ok.mpr ⟨valid.sender_valid, rfl⟩
  have only : RaisesOnly (fun e => e.cls = .mempoolError) (pool.add tx state height) := by
    unfold add
    refine .bind (.raiseIf rfl) fun _ _ => ?_
    refine .bind (.rethrow ?_) fun _ _ => ?_
    · intro e raised
      rw [reraiseSame, if_pos (by simp [valid.validateTransaction_raises height e raised])]
    refine .bind (.of_ok txidOk) fun _ _ => ?_
    repeat refine .bind (.raiseIf rfl) fun _ _ => ?_
    refine .bind (.of_ok account) fun _ _ => ?_
    repeat refine .bind (.raiseIf rfl) fun _ _ => ?_
    exact .pure _
  exact only e refused

/-- Pending transactions with one ID are the same. -/
theorem eq_of_txid {pool : Mempool}
    (keyed : ∀ txid tx, pool.transactions.get? txid = some tx → tx.txid = .ok txid)
    {first second : Transaction} {id : Bytes} (pending : first ∈ pool.transactions.values)
    (pending' : second ∈ pool.transactions.values) (idOk : first.txid = .ok id)
    (idOk' : second.txid = .ok id) : first = second := by
  obtain ⟨key, stored⟩ := Dict.mem_values.mp pending
  obtain ⟨key', stored'⟩ := Dict.mem_values.mp pending'
  have own := keyed key first stored
  have own' := keyed key' second stored'
  rw [idOk] at own
  rw [idOk'] at own'
  cases own
  cases own'
  rw [stored] at stored'
  exact Option.some.inj stored'

/-! ## The invariant -/

/-- What holds of a pool relative to a state and the height of the next block. -/
structure Sound (pool : Mempool) (state : AccountState) (height : Int) : Prop where
  txid_ok : ∀ {txid : Bytes} {tx : Transaction}, pool.transactions.get? txid = some tx →
    tx.txid = .ok txid
  index : ∀ {sender : Text} {nonce : Int} {txid : Bytes},
    pool.bySenderNonce.get? (sender, nonce) = some txid ↔
      ∃ tx, pool.transactions.get? txid = some tx ∧ tx.senderAddress = sender ∧ tx.nonce = nonce
  nonces : ∀ sender, (pool.senderTransactions sender).map Transaction.nonce =
    consecutive (state.accountOf sender).nonce (pool.senderTransactions sender).length
  pending_le : ∀ sender, (pool.senderTransactions sender).length ≤ maxPendingPerSender
  covered : ∀ sender, reservedAtoms (pool.senderTransactions sender) ≤
    (state.accountOf sender).balanceAtoms
  valid : ∀ {txid : Bytes} {tx : Transaction}, pool.transactions.get? txid = some tx →
    tx.IntrinsicallyValid state.network
  alive : ∀ {txid : Bytes} {tx : Transaction}, pool.transactions.get? txid = some tx →
    height ≤ tx.validUntilHeight
  unconfirmed : ∀ {txid : Bytes} {tx : Transaction}, pool.transactions.get? txid = some tx →
    txid ∉ state.confirmedTxids
  size_le : pool.size ≤ maxMempoolTransactions

/-- The empty pool is sound for every state and height. -/
theorem Sound.of_empty (state : AccountState) (height : Int) : empty.Sound state height where
  txid_ok found := by cases found
  index := by simp [empty]
  nonces _ := rfl
  pending_le _ := Nat.zero_le _
  covered sender := (state.accountOf sender).balance_range.1
  valid found := by cases found
  alive found := by cases found
  unconfirmed found := by cases found
  size_le := Nat.zero_le _

omit [Platform] in
theorem mem_senderTransactions {pool : Mempool} {sender : Text} {tx : Transaction} :
    tx ∈ pool.senderTransactions sender ↔
      (∃ txid, pool.transactions.get? txid = some tx) ∧ tx.senderAddress = sender := by
  rw [senderTransactions, List.mem_insertionSort, List.mem_filter, Dict.mem_values,
    decide_eq_true_eq]

omit [Platform] in
theorem size_insert {pool : Mempool} {tx : Transaction} {txid : Bytes}
    (fresh : pool.transactions.get? txid = none) : (pool.insert tx txid).size = pool.size + 1 := by
  rw [size, Dict.size, insert, Dict.set_items_of_fresh fresh, List.length_append,
    List.length_singleton]
  rfl

omit [Platform] in
/-- A transaction with the greatest nonce of its sender comes last. -/
theorem senderTransactions_insert {pool : Mempool} {tx : Transaction} {txid : Bytes}
    (fresh : pool.transactions.get? txid = none)
    (last : ∀ other ∈ pool.senderTransactions tx.senderAddress, other.nonce ≤ tx.nonce)
    (sender : Text) :
    (pool.insert tx txid).senderTransactions sender =
      if tx.senderAddress = sender then pool.senderTransactions sender ++ [tx]
      else pool.senderTransactions sender := by
  have values : (pool.insert tx txid).transactions.values = pool.transactions.values ++ [tx] := by
    rw [insert, Dict.values, Dict.set_items_of_fresh fresh, List.map_append]
    rfl
  rw [senderTransactions, values, List.filter_append]
  split
  · rename_i own
    subst own
    rw [List.filter_cons_of_pos (by simp), List.filter_nil, insertionSort_concat]
    · rfl
    · intro other member
      refine last other ?_
      rw [senderTransactions, List.mem_insertionSort]
      exact member
  · rename_i foreign
    rw [List.filter_cons_of_neg (by simpa using foreign), List.filter_nil, List.append_nil]
    rfl

namespace Sound

variable {pool : Mempool} {state : AccountState} {height : Int}

/-- The nonces of the pending transactions of a sender are below the next one. -/
theorem nonce_lt (sound : pool.Sound state height) {sender : Text} {tx : Transaction}
    (member : tx ∈ pool.senderTransactions sender) :
    (state.accountOf sender).nonce ≤ tx.nonce ∧
      tx.nonce < (state.accountOf sender).nonce + (pool.senderTransactions sender).length := by
  have listed : tx.nonce ∈ (pool.senderTransactions sender).map Transaction.nonce :=
    List.mem_map_of_mem member
  rw [sound.nonces] at listed
  exact mem_consecutive.mp listed

/-- **An accepted transaction keeps the invariant.** -/
theorem insert (sound : pool.Sound state height) {tx : Transaction} {txid : Bytes}
    (accepts : pool.Accepts tx state height txid) : (pool.insert tx txid).Sound state height := by
  have sorted := senderTransactions_insert accepts.notPending (fun other member => by
    have below := (sound.nonce_lt member).2
    rw [accepts.nonce_eq]
    exact below.le)
  have found : ∀ {id : Bytes} {other : Transaction},
      (pool.insert tx txid).transactions.get? id = some other →
        (id = txid ∧ other = tx) ∨ pool.transactions.get? id = some other := by
    intro id other stored
    simp only [Mempool.insert, Dict.get?_set] at stored
    split at stored
    · rename_i same
      exact .inl ⟨same.symm, (Option.some.inj stored).symm⟩
    · exact .inr stored
  refine ⟨?_, ?_, ?_, ?_, ?_, ?_, ?_, ?_, ?_⟩
  · intro id other stored
    rcases found stored with ⟨rfl, rfl⟩ | old
    · exact accepts.txid_ok
    · exact sound.txid_ok old
  · intro sender nonce id
    simp only [Mempool.insert, Dict.get?_set, Prod.mk.injEq]
    by_cases own : tx.senderAddress = sender ∧ tx.nonce = nonce
    · rw [if_pos own]
      constructor
      · intro same
        cases same
        exact ⟨tx, by rw [if_pos rfl], own.1, own.2⟩
      · rintro ⟨other, stored, sent, numbered⟩
        split at stored
        · rename_i same
          rw [same]
        · -- The slot was free before, so no other transaction uses this nonce.
          have used := sound.index.mpr ⟨other, stored, sent, numbered⟩
          have slotFree := accepts.slot_free
          rw [own.1, own.2, used] at slotFree
          cases slotFree
    · rw [if_neg own, sound.index]
      constructor
      · rintro ⟨other, stored, sent, numbered⟩
        refine ⟨other, ?_, sent, numbered⟩
        rw [if_neg, stored]
        rintro rfl
        rw [accepts.notPending] at stored
        cases stored
      · rintro ⟨other, stored, sent, numbered⟩
        split at stored
        · cases stored
          exact absurd ⟨sent, numbered⟩ own
        · exact ⟨other, stored, sent, numbered⟩
  · intro sender
    rw [sorted]
    split
    · rename_i own
      subst own
      rw [List.map_append, sound.nonces, List.length_append, List.length_singleton, consecutive_add,
        List.map_singleton, accepts.nonce_eq]
      simp [consecutive]
    · exact sound.nonces sender
  · intro sender
    rw [sorted]
    split
    · rename_i own
      subst own
      rw [List.length_append, List.length_singleton]
      exact accepts.pending_lt
    · exact sound.pending_le sender
  · intro sender
    rw [sorted]
    split
    · rename_i own
      subst own
      have enough := accepts.covered
      rw [reservedAtoms, List.map_append, List.sum_append, List.map_singleton, List.sum_singleton]
      rw [reservedAtoms] at enough
      omega
    · exact sound.covered sender
  · intro id other stored
    rcases found stored with ⟨rfl, rfl⟩ | old
    · exact accepts.valid
    · exact sound.valid old
  · intro id other stored
    rcases found stored with ⟨rfl, rfl⟩ | old
    · exact accepts.alive
    · exact sound.alive old
  · intro id other stored
    rcases found stored with ⟨rfl, rfl⟩ | old
    · exact accepts.unconfirmed
    · exact sound.unconfirmed old
  · rw [size_insert accepts.notPending]
    exact accepts.size_lt

theorem add (sound : pool.Sound state height) {tx : Transaction} {txid : Bytes} {pool' : Mempool}
    (added : pool.add tx state height = .ok (txid, pool')) : pool'.Sound state height := by
  obtain ⟨accepts, rfl⟩ := add_eq_ok.mp added
  exact sound.insert accepts

omit [Platform] in
/-- The loop of `next_nonce` counts up along consecutive nonces. -/
theorem nextNonceLoop_eq {pending : List Transaction} {start : Int}
    (inOrder : pending.map Transaction.nonce = consecutive start pending.length)
    (fits : start + pending.length ≤ u64Max) :
    nextNonceLoop start pending = .ok (start + pending.length) := by
  induction pending generalizing start with
  | nil => simp [nextNonceLoop]
  | cons tx rest ih =>
      rw [List.map_cons, List.length_cons, consecutive_succ, List.cons.injEq] at inOrder
      rw [List.length_cons] at fits
      push_cast at fits
      rw [nextNonceLoop, if_neg (fun differs => differs inOrder.1), if_neg (by omega),
        ih inOrder.2 (by omega), List.length_cons]
      push_cast
      congr 1
      omega

/-- **An accepted transaction carries the nonce that `next_nonce` returns.** -/
theorem nextNonce_eq (sound : pool.Sound state height) {tx : Transaction} {txid : Bytes}
    (accepts : pool.Accepts tx state height txid) :
    pool.nextNonce tx.senderAddress state = .ok tx.nonce := by
  have account := getAccount_eq_ok.mpr ⟨accepts.valid.sender_valid, rfl⟩
  have range := accepts.valid.nonce_range.2
  rw [accepts.nonce_eq] at range
  have left : raiseIf ((state.accountOf tx.senderAddress).nonce = u64Max)
      (mempoolError "account nonce is exhausted") = .ok () :=
    raiseIf_eq_ok.mpr accepts.nonce_left
  rw [nextNonce, account, ok_bind, left, ok_bind, nextNonceLoop_eq (sound.nonces _) range,
    ← accepts.nonce_eq]

end Sound

end Mempool

end OurCoin
