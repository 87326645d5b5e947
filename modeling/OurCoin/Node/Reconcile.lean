import OurCoin.Model.Node
import OurCoin.Node.Pool
import OurCoin.Tree.BranchInvariants

/-!
# Bringing the pool in line with a new tip

The three passes of `submit_block` over the pool: removing what was confirmed,
revalidating the rest, and adding the disconnected transactions again.

* The revalidation starts from the empty pool, so whatever the pool was, it and the pass
  after it leave a pool that is sound for the new state (`revalidateLoop_sound`,
  `readdDisconnected_sound`).
* No pass raises, as long as every transaction that it meets has an ID and was valid once
  (`Mempool.Genuine`). That holds of whatever was pending and of whatever is on a branch,
  so `reconcilePool_ok` shows that reconciling after an update always succeeds.
-/

set_option autoImplicit false

namespace OurCoin

open Raising

variable [Platform]

namespace Mempool

variable {pool : Mempool} {state : AccountState} {height : Int}

/-- Everything pending was valid once, and is stored under its ID. -/
def Genuine (pool : Mempool) (network : NetworkConfig) : Prop :=
  ∀ {txid : Bytes} {tx : Transaction}, pool.transactions.get? txid = some tx →
    tx.txid = .ok txid ∧ tx.IntrinsicallyValid network

theorem Sound.genuine (sound : pool.Sound state height) : pool.Genuine state.network :=
  fun found => ⟨sound.txid_ok found, sound.valid found⟩

omit [Platform] in
theorem get?_remove {txid other : Bytes} {tx : Transaction}
    (found : (pool.remove txid).transactions.get? other = some tx) :
    other ≠ txid ∧ pool.transactions.get? other = some tx := by
  rw [remove] at found
  split at found
  · rename_i missing
    refine ⟨?_, found⟩
    rintro rfl
    rw [missing] at found
    cases found
  · simp only [Dict.get?_pop] at found
    split at found
    · cases found
    · rename_i different
      exact ⟨fun same => different same.symm, found⟩

/-! ## Removing what was confirmed -/

theorem removeConfirmed_ok {network : NetworkConfig} : ∀ {transactions : List Transaction}
    {pool : Mempool}, pool.Genuine network →
      (∀ tx ∈ transactions, ∃ txid, tx.txid = .ok txid) →
      ∃ pool', pool.removeConfirmed transactions = (.ok (), pool') ∧ pool'.Genuine network ∧
        (∀ {txid : Bytes} {tx : Transaction}, pool'.transactions.get? txid = some tx ↔
          pool.transactions.get? txid = some tx ∧
            ∀ confirmed ∈ transactions, confirmed.txid ≠ .ok txid)
  | [], pool, genuine, _ => ⟨pool, rfl, genuine, by simp⟩
  | tx :: rest, pool, genuine, named => by
      obtain ⟨txid, txidOk⟩ := named tx List.mem_cons_self
      have genuine' : (pool.remove txid).Genuine network := fun found =>
        genuine (get?_remove found).2
      obtain ⟨pool', removed, genuinePool, kept⟩ := removeConfirmed_ok genuine' fun other member =>
        named other (List.mem_cons_of_mem _ member)
      refine ⟨pool', ?_, genuinePool, ?_⟩
      · rw [removeConfirmed, txidOk]
        exact removed
      · intro id other
        rw [kept]
        constructor
        · rintro ⟨found, notLater⟩
          obtain ⟨different, old⟩ := get?_remove found
          refine ⟨old, ?_⟩
          intro confirmed member
          rcases List.mem_cons.mp member with rfl | later
          · rw [txidOk]
            intro same
            exact different (Except.ok.inj same).symm
          · exact notLater confirmed later
        · rintro ⟨found, notConfirmed⟩
          refine ⟨?_, fun confirmed member =>
            notConfirmed confirmed (List.mem_cons_of_mem _ member)⟩
          have different : txid ≠ id := by
            rintro rfl
            exact notConfirmed tx List.mem_cons_self txidOk
          rw [remove]
          split
          · exact found
          · rw [Dict.get?_pop_of_ne different, found]

/-! ## Adding again -/

theorem tryAdd_cases (tx : Transaction) (state : AccountState) (height : Int)
    (valid : tx.IntrinsicallyValid state.network) :
    (∃ txid, pool.Accepts tx state height txid ∧
      pool.tryAdd tx state height = (.ok true, pool.insert tx txid)) ∨
    ((∃ e, pool.add tx state height = .error e ∧ e.cls = .mempoolError) ∧
      pool.tryAdd tx state height = (.ok false, pool)) := by
  rw [tryAdd]
  cases outcome : pool.add tx state height with
  | ok result =>
      obtain ⟨txid, pool'⟩ := result
      obtain ⟨accepts, rfl⟩ := add_eq_ok.mp outcome
      exact .inl ⟨txid, accepts, rfl⟩
  | error e =>
      have cls := add_error_cls valid outcome
      exact .inr ⟨⟨e, rfl, cls⟩, by simp only [if_pos cls]⟩

/-- **Revalidation succeeds and leaves a sound pool.** -/
theorem revalidateLoop_sound : ∀ {transactions : List Transaction} {pool : Mempool}
    {removed : List Transaction}, pool.Sound state height →
      (∀ tx ∈ transactions, tx.IntrinsicallyValid state.network) →
      ∃ removed' pool', revalidateLoop state height pool removed transactions =
        (.ok removed', pool') ∧ pool'.Sound state height
  | [], pool, removed, sound, _ => ⟨removed, pool, rfl, sound⟩
  | tx :: rest, pool, removed, sound, valid => by
      have later : ∀ other ∈ rest, other.IntrinsicallyValid state.network :=
        fun other member => valid other (List.mem_cons_of_mem _ member)
      rw [revalidateLoop]
      rcases pool.tryAdd_cases tx state height (valid tx List.mem_cons_self) with
        ⟨txid, accepts, outcome⟩ | ⟨-, outcome⟩
      · rw [outcome]
        exact revalidateLoop_sound (sound.insert accepts) later
      · rw [outcome]
        exact revalidateLoop_sound sound later

/-- The transactions of a genuine pool can be ordered. -/
theorem orderedTransactions_ok {network : NetworkConfig} (genuine : pool.Genuine network) :
    ∃ ordered, pool.orderedTransactions = .ok ordered ∧ ordered.Perm pool.transactions.values := by
  refine sortedBy_eq_ok fun tx member => ?_
  obtain ⟨txid, found⟩ := Dict.mem_values.mp member
  exact ⟨toLex (tx.senderAddress, toLex (tx.nonce, bytesKey txid)), by
    rw [(genuine found).1]
    rfl⟩

end Mempool

namespace LocalNode

variable {state : AccountState} {height : Int}

/-- **The pass over the disconnected transactions succeeds and keeps the pool sound.** -/
theorem readdDisconnected_sound : ∀ {transactions : List Transaction} {pool : Mempool},
    pool.Sound state height → (∀ tx ∈ transactions, tx.IntrinsicallyValid state.network) →
      ∃ pool', readdDisconnected state height pool transactions = (.ok (), pool') ∧
        pool'.Sound state height
  | [], pool, sound, _ => ⟨pool, rfl, sound⟩
  | tx :: rest, pool, sound, valid => by
      have later : ∀ other ∈ rest, other.IntrinsicallyValid state.network :=
        fun other member => valid other (List.mem_cons_of_mem _ member)
      obtain ⟨txid, txidOk⟩ := (valid tx List.mem_cons_self).exists_txid
      rw [readdDisconnected, txidOk]
      simp only
      split
      · exact readdDisconnected_sound sound later
      · split
        · exact readdDisconnected_sound sound later
        · rcases pool.tryAdd_cases tx state height (valid tx List.mem_cons_self) with
            ⟨id, accepts, outcome⟩ | ⟨-, outcome⟩
          · rw [outcome]
            exact readdDisconnected_sound (sound.insert accepts) later
          · rw [outcome]
            exact readdDisconnected_sound sound later

/-! ## After an update -/

omit [Platform] in
/-- The transactions of stored entries. -/
theorem transactionsOf_eq {chain : Chain} {items : List (Bytes × ChainEntry)}
    (stored : ∀ item ∈ items, chain.entries.get? item.1 = some item.2) :
    transactionsOf chain (items.map Prod.fst) = .ok (branchTransactions (pathBlocks items)) := by
  have blocks : (items.map Prod.fst).mapM chain.getBlock = .ok (pathBlocks items) := by
    rw [mapM_eq_ok, pathBlocks, List.forall₂_map_left_iff, List.forall₂_map_right_iff,
      List.forall₂_same]
    intro item member
    rw [Chain.getBlock, Chain.entryOf_eq_ok.mpr (stored item member)]
    rfl
  rw [transactionsOf, blocks, ok_bind]
  rfl

/-- The transactions above the fork of two branches were valid, on both. -/
theorem forks_valid {chain : Chain} (refines : chain.Refines) {oldHash newHash meeting : Bytes}
    {common left right : List (Bytes × ChainEntry)}
    (forks : chain.Forks oldHash newHash meeting common left right) :
    (∀ tx ∈ branchTransactions (pathBlocks left), tx.IntrinsicallyValid testnet) ∧
    (∀ tx ∈ branchTransactions (pathBlocks right), tx.IntrinsicallyValid testnet) ∧
    (∀ item ∈ left, chain.entries.get? item.1 = some item.2) ∧
    (∀ item ∈ right, chain.entries.get? item.1 = some item.2) := by
  have above : ∀ {hash : Bytes} {back : List (Bytes × ChainEntry)},
      chain.Lineage hash (common ++ back) →
      (∀ tx ∈ branchTransactions (pathBlocks back), tx.IntrinsicallyValid testnet) ∧
      (∀ item ∈ back, chain.entries.get? item.1 = some item.2) := by
    intro hash back lineage
    obtain ⟨front, entry, split, stored⟩ := lineage.exists_last
    obtain ⟨path, branch, ends⟩ := refines.exists_branch stored
    cases ends.lineage.unique lineage
    constructor
    · intro tx member
      obtain ⟨block, blockMem, txMem⟩ := List.mem_flatMap.mp member
      refine (ends.replays.alive block ?_ tx txMem).1
      rw [pathBlocks_append]
      exact List.mem_append_right _ blockMem
    · intro item member
      exact lineage.find_of_mem (List.mem_append_right _ member)
  obtain ⟨leftValid, leftStored⟩ := above forks.old_lineage
  obtain ⟨rightValid, rightStored⟩ := above forks.new_lineage
  exact ⟨leftValid, rightValid, leftStored, rightStored⟩

/-- **Reconciling the pool after a switch of the tip always succeeds**: the confirmed
transactions are removed, the others are added to an empty pool in their order, and then
the disconnected ones. The pool that results is sound for the new state. -/
theorem reconcilePool_ok {chain : Chain} (refines : chain.Refines) {pool : Mempool}
    (genuine : pool.Genuine testnet) {oldHash meeting addedHash : Bytes}
    {common left right : List (Bytes × ChainEntry)}
    (forks : chain.Forks oldHash chain.activeTipHash meeting common left right)
    {state : AccountState} (stateOk : chain.state = .ok state)
    (network_eq : state.network = testnet) :
    ∃ unconfirmed ordered removed revalidated pool',
      pool.removeConfirmed (branchTransactions (pathBlocks right)) = (.ok (), unconfirmed) ∧
      unconfirmed.orderedTransactions = .ok ordered ∧
      ordered.Perm unconfirmed.transactions.values ∧
      Mempool.revalidateLoop state (chain.height + 1) Mempool.empty [] ordered =
        (.ok removed, revalidated) ∧
      readdDisconnected state (chain.height + 1) revalidated
        (branchTransactions (pathBlocks left)) = (.ok (), pool') ∧
      reconcilePool chain pool (.active addedHash meeting (left.map Prod.fst).reverse
        (right.map Prod.fst)) = (.ok (), pool') ∧
      revalidated.Sound state (chain.height + 1) ∧ pool'.Sound state (chain.height + 1) := by
  obtain ⟨leftValid, rightValid, leftStored, rightStored⟩ := forks_valid refines forks
  obtain ⟨unconfirmed, removedOk, genuine', -⟩ := Mempool.removeConfirmed_ok genuine
    fun tx member => (rightValid tx member).exists_txid
  obtain ⟨ordered, orderedOk, perm⟩ := Mempool.orderedTransactions_ok genuine'
  have orderedValid : ∀ tx ∈ ordered, tx.IntrinsicallyValid state.network := by
    intro tx member
    obtain ⟨txid, found⟩ := Dict.mem_values.mp (perm.mem_iff.mp member)
    exact network_eq ▸ (genuine' found).2
  obtain ⟨removed, revalidated, revalidatedOk, sound⟩ :=
    @Mempool.revalidateLoop_sound _ state (chain.height + 1) ordered Mempool.empty []
      (Mempool.Sound.of_empty state (chain.height + 1)) orderedValid
  obtain ⟨pool', readded, sound'⟩ := readdDisconnected_sound sound
    fun tx member => network_eq ▸ leftValid tx member
  refine ⟨unconfirmed, ordered, removed, revalidated, pool', removedOk, orderedOk, perm,
    revalidatedOk, readded, ?_, sound, sound'⟩
  have connected := transactionsOf_eq rightStored
  have disconnected := transactionsOf_eq leftStored
  simp only [reconcilePool, ChainUpdate.active, List.reverse_reverse, connected, disconnected,
    ok_bind, pure, Except.pure, removedOk, stateOk, Mempool.revalidate, orderedOk, revalidatedOk,
    readded]

end LocalNode

end OurCoin
