import OurCoin.Node.Admission
import OurCoin.Node.Runs
import OurCoin.Storage.Tampering

/-!
# What a reorganization drops

When `submit_block` switches the tip, the pool is filled again from the empty one: first with
what was pending, by sender and nonce, then with the disconnected transactions, in the order
of their blocks. A transaction is offered once, at its place in this order.

* What the resulting pool would accept although it was offered before was made possible by a
  transaction of the same sender with the nonce before that was offered after it
  (`Mempool.Built.accepts_later`).
* Neither list has such a pair within itself. So a switch drops an admissible transaction only
  when it was pending and the one before it comes back from a disconnected block
  (`LocalNode.Reachable.readmission`). That does happen (`LocalNode.not_keeps_admissible`).
-/

set_option autoImplicit false

namespace OurCoin

open Raising

/-! ## The order of the two passes -/

theorem consecutive_pairwise (start : Int) (count : Nat) :
    (consecutive start count).Pairwise (· < ·) := by
  rw [consecutive, List.pairwise_map]
  exact List.pairwise_lt_range.imp fun less => by omega

/-- The nonces of each sender rise along the list. -/
def NoncesRise (transactions : List Transaction) : Prop :=
  transactions.Pairwise fun earlier later =>
    earlier.senderAddress = later.senderAddress → earlier.nonce ≤ later.nonce

namespace NoncesRise

variable {transactions front back : List Transaction} {tx other : Transaction}

theorem not_lower (rise : NoncesRise transactions) (split : transactions = front ++ tx :: back)
    (member : other ∈ back) (sent : other.senderAddress = tx.senderAddress) :
    ¬ other.nonce < tx.nonce := by
  rw [NoncesRise, split, List.pairwise_append, List.pairwise_cons] at rise
  exact not_lt.mpr (rise.2.1.1 other member sent.symm)

theorem of_append (rise : NoncesRise (front ++ back)) : NoncesRise back :=
  (List.pairwise_append.mp rise).2.1

end NoncesRise

variable [Platform]

/-- The nonces of a branch rise. -/
theorem Replays.noncesRise {network : NetworkConfig} {blocks : List Block} {branch : BranchState}
    (run : Replays network blocks branch) : NoncesRise (branchTransactions blocks) := by
  rw [NoncesRise, List.pairwise_iff_forall_sublist]
  intro earlier later inOrder sent
  have own := inOrder.filter fun tx => tx.senderAddress = later.senderAddress
  rw [List.filter_cons_of_pos (by simpa using sent), List.filter_cons_of_pos (by simp),
    List.filter_nil] at own
  have numbered := own.map Transaction.nonce
  have inSequence := (run.nonces later.senderAddress).2
  rw [sentBy] at inSequence
  rw [inSequence] at numbered
  have rises := List.pairwise_iff_forall_sublist.mp (consecutive_pairwise _ _) numbered
  exact rises.le

namespace Mempool

variable {pool pool' : Mempool} {state : AccountState} {height : Int} {offered : List Transaction}

/-- The pending transactions are offered again by rising nonces. -/
theorem noncesRise_of_orderedTransactions {ordered : List Transaction}
    (run : pool.orderedTransactions = .ok ordered)
    (named : ∀ tx ∈ ordered, ∃ txid, tx.txid = .ok txid) : NoncesRise ordered := by
  apply (sortedBy_pairwise run).imp_of_mem
  intro earlier later earlierMember laterMember below sent
  obtain ⟨txid, txidOk⟩ := named earlier earlierMember
  obtain ⟨txid', txidOk'⟩ := named later laterMember
  have order := below _ _ (by rw [txidOk]; rfl) (by rw [txidOk']; rfl)
  rw [Prod.Lex.toLex_le_toLex] at order
  rcases order with less | ⟨-, order⟩
  · exact absurd sent less.ne
  · rw [Prod.Lex.toLex_le_toLex] at order
    rcases order with less | ⟨same, -⟩
    · exact less.le
    · exact same.le

/-! ## Offering transactions one after the other -/

/-- A transaction that is accepted after another one, but not before, is the next of its sender. -/
theorem Accepts.of_insert (sound : pool.Sound state height) {tx last : Transaction}
    {txid id : Bytes} (inserted : pool.Accepts last state height id)
    (accepts : (pool.insert last id).Accepts tx state height txid) :
    pool.Accepts tx state height txid ∨
      (last.senderAddress = tx.senderAddress ∧ last.nonce + 1 = tx.nonce) := by
  have queue := senderTransactions_insert inserted.notPending
    (fun other member => by
      have below := (sound.nonce_lt member).2
      rw [inserted.nonce_eq]
      exact below.le) tx.senderAddress
  have nonce := accepts.nonce_eq
  by_cases own : last.senderAddress = tx.senderAddress
  · right
    rw [queue, if_pos own, List.length_append, List.length_singleton] at nonce
    have before := inserted.nonce_eq
    rw [own] at before
    exact ⟨own, by push_cast at nonce; omega⟩
  · left
    have few := accepts.pending_lt
    have covered := accepts.covered
    rw [queue, if_neg own] at nonce few covered
    have size := accepts.size_lt
    rw [size_insert inserted.notPending] at size
    have notPending := accepts.notPending
    have slot := accepts.slot_free
    simp only [Mempool.insert, Dict.get?_set] at notPending slot
    split at notPending
    · cases notPending
    split at slot
    · cases slot
    exact { accepts with
      size_lt := by omega
      notPending
      slot_free := slot
      pending_lt := few
      nonce_eq := nonce
      covered }

/-- **What is accepted although it was offered before** is the next one after a transaction of its
sender that was offered later. -/
theorem Built.accepts_later (built : Built state height offered pool) :
    ∀ {front back : List Transaction} {tx : Transaction} {txid : Bytes},
      offered = front ++ tx :: back → pool.Accepts tx state height txid →
      ∃ other ∈ back, other.senderAddress = tx.senderAddress ∧ other.nonce + 1 = tx.nonce ∧
        other ∈ pool.transactions.values := by
  -- By induction on the offers. Only the last one can have made the difference.
  induction built with
  | empty =>
      intro front back tx txid split
      simp at split
  | @added offered pool pool' last id built added ih =>
      obtain ⟨inserted, rfl⟩ := add_eq_ok.mp added
      intro front back tx txid split accepts
      have pending : last ∈ (pool.insert last id).transactions.values :=
        Dict.mem_values.mpr ⟨id, Dict.get?_set_self _ _ _⟩
      rcases List.eq_nil_or_concat' back with rfl | ⟨back, other, rfl⟩
      · cases (List.append_inj' split rfl).2
        have same := accepts.txid_ok
        rw [inserted.txid_ok] at same
        cases same
        have free := accepts.notPending
        rw [Mempool.insert, Dict.get?_set_self] at free
        cases free
      · rw [← List.cons_append, ← List.append_assoc] at split
        obtain ⟨front_eq, same⟩ := List.append_inj' split rfl
        cases same
        rcases Accepts.of_insert built.sound inserted accepts with before | ⟨sent, follows⟩
        · obtain ⟨other, member, sent, follows, found⟩ := ih front_eq before
          refine ⟨other, List.mem_append_left _ member, sent, follows, ?_⟩
          obtain ⟨key, stored⟩ := Dict.mem_values.mp found
          refine Dict.mem_values.mpr ⟨key, ?_⟩
          rw [Mempool.insert, Dict.get?_set_of_ne, stored]
          rintro rfl
          rw [inserted.notPending] at stored
          cases stored
        · exact ⟨last, List.mem_append_right _ List.mem_cons_self, sent, follows, pending⟩
  | @refused offered pool last e built refused ih =>
      intro front back tx txid split accepts
      rcases List.eq_nil_or_concat' back with rfl | ⟨back, other, rfl⟩
      · cases (List.append_inj' split rfl).2
        rw [add_eq_ok.mpr ⟨accepts, rfl⟩] at refused
        cases refused
      · rw [← List.cons_append, ← List.append_assoc] at split
        obtain ⟨other, member, rest⟩ := ih (List.append_inj' split rfl).1 accepts
        exact ⟨other, List.mem_append_left _ member, rest⟩

theorem Built.tryAdd (built : Built state height offered pool) {tx : Transaction} {result : Bool}
    (tried : pool.tryAdd tx state height = (.ok result, pool')) :
    Built state height (offered ++ [tx]) pool' := by
  rw [Mempool.tryAdd] at tried
  cases outcome : pool.add tx state height with
  | ok added =>
      obtain ⟨txid, grown⟩ := added
      rw [outcome] at tried
      cases tried
      exact .added built outcome
  | error e =>
      rw [outcome] at tried
      dsimp only at tried
      split at tried
      · cases tried
        exact .refused built outcome
      · cases tried

/-- The second pass offers the transactions of its list. -/
theorem Built.revalidateLoop : ∀ {transactions : List Transaction} {pool : Mempool}
    {offered removed removed' : List Transaction}, Built state height offered pool →
      Mempool.revalidateLoop state height pool removed transactions = (.ok removed', pool') →
      Built state height (offered ++ transactions) pool'
  | [], pool, offered, removed, removed', built, run => by
      cases run
      rwa [List.append_nil]
  | tx :: rest, pool, offered, removed, removed', built, run => by
      rw [Mempool.revalidateLoop] at run
      rw [List.append_cons]
      split at run
      · cases run
      · rename_i grown tried
        exact (built.tryAdd tried).revalidateLoop run
      · rename_i grown tried
        exact (built.tryAdd tried).revalidateLoop run

end Mempool

namespace LocalNode

open Mempool

variable {state : AccountState} {height : Int} {pool' : Mempool}

/-- So does the third pass. What it skips would be refused. -/
theorem built_readdDisconnected : ∀ {transactions : List Transaction} {pool : Mempool}
    {offered : List Transaction}, Built state height offered pool →
      readdDisconnected state height pool transactions = (.ok (), pool') →
      Built state height (offered ++ transactions) pool'
  | [], pool, offered, built, run => by
      cases run
      rwa [List.append_nil]
  | tx :: rest, pool, offered, built, run => by
      rw [readdDisconnected] at run
      rw [List.append_cons]
      split at run
      · cases run
      rename_i txid txidOk
      have skipped : (∀ id, ¬ pool.Accepts tx state height id) →
          Built state height (offered ++ [tx]) pool := by
        intro never
        cases outcome : pool.add tx state height with
        | ok added => exact absurd (add_eq_ok.mp outcome).1 (never _)
        | error e => exact .refused built outcome
      split at run
      · rename_i confirmed
        refine built_readdDisconnected (skipped fun id accepts => ?_) run
        rw [accepts.txid_ok] at txidOk
        cases txidOk
        exact accepts.unconfirmed (by simpa [AccountState.containsTransaction] using confirmed)
      split at run
      · rename_i pending
        refine built_readdDisconnected (skipped fun id accepts => ?_) run
        rw [accepts.txid_ok] at txidOk
        cases txidOk
        rw [Mempool.contains, Dict.contains_eq_false.mpr accepts.notPending] at pending
        cases pending
      split at run
      · cases run
      · rename_i grown tried
        exact built_readdDisconnected (built.tryAdd tried) run

/-! ## After a switch of the tip -/

/-- The transaction of the same sender with the nonce before is pending, from a disconnected
block. -/
def Preceded (after : LocalNode) (disconnected : List Transaction) (tx : Transaction) : Prop :=
  ∃ earlier ∈ disconnected, earlier.senderAddress = tx.senderAddress ∧
    earlier.nonce + 1 = tx.nonce ∧ earlier ∈ after.mempool.transactions.values

/-- **What a switch of the tip drops, the pool refuses**, up to the pending transactions
whose predecessors come back. -/
structure Readmission (node after : LocalNode) (update : ChainUpdate)
    (disconnected : List Transaction) (state : AccountState) : Prop where
  state_ok : after.chain.state = .ok state
  disconnected_ok : transactionsOf after.chain update.disconnected = .ok disconnected
  refused : ∀ tx, tx ∈ node.mempool.transactions.values ∨ tx ∈ disconnected →
    tx ∉ after.mempool.transactions.values →
    ¬ (tx ∈ node.mempool.transactions.values ∧ after.Preceded disconnected tx) →
    ∃ e, after.mempool.add tx state (after.chain.height + 1) = .error e ∧ e.cls = .mempoolError

/-- What the pool would accept after both passes was not in the second list, and when it was
in the first one, its predecessor came after it. -/
theorem accepted_after {ordered disconnected : List Transaction}
    (built : Built state height (ordered ++ disconnected) pool') (rise : NoncesRise ordered)
    (rise' : NoncesRise disconnected) {tx : Transaction} {txid : Bytes}
    (accepts : pool'.Accepts tx state height txid) :
    tx ∉ disconnected ∧ (tx ∈ ordered → ∃ earlier ∈ disconnected,
      earlier.senderAddress = tx.senderAddress ∧ earlier.nonce + 1 = tx.nonce ∧
        earlier ∈ pool'.transactions.values) := by
  constructor
  · intro member
    obtain ⟨front, back, split⟩ := List.append_of_mem member
    obtain ⟨other, later, sent, follows, -⟩ := @Built.accepts_later _ _ _ _ _ built
      (ordered ++ front) back tx txid (by rw [split, List.append_assoc]) accepts
    exact rise'.not_lower split later sent (by omega)
  · intro member
    obtain ⟨front, back, split⟩ := List.append_of_mem member
    obtain ⟨other, later, sent, follows, pending⟩ := @Built.accepts_later _ _ _ _ _ built
      front (back ++ disconnected) tx txid (by rw [split, List.append_assoc]; rfl) accepts
    rcases List.mem_append.mp later with inOrder | disconnected
    · exact absurd (by omega) (rise.not_lower split inOrder sent)
    · exact ⟨other, disconnected, sent, follows, pending⟩

/-- The nonces on the branch of a lineage rise. -/
theorem noncesRise_of_lineage {chain : Chain} (refines : chain.Refines) {hash : Bytes}
    {path : List (Bytes × ChainEntry)} (lineage : chain.Lineage hash path) :
    NoncesRise (branchTransactions (pathBlocks path)) := by
  obtain ⟨front, entry, -, stored⟩ := lineage.exists_last
  obtain ⟨path', branch, ends⟩ := refines.exists_branch stored
  cases ends.lineage.unique lineage
  exact ends.replays.noncesRise

/-- **A reorganization drops no admissible transaction**, unless it was pending and the one before
it is pending again. -/
theorem Reachable.readmission {node : LocalNode} (reachable : node.Reachable) {block : Block}
    {faults : List Transactions.Fault} {update : ChainUpdate} {after : LocalNode}
    (submitted : node.submitBlock block faults = (.ok update, after))
    (active : update.becameActive = true) :
    ∃ disconnected state, node.Readmission after update disconnected state := by
  have inv := reachable.invariant
  rcases inv.submitBlock_cases block faults with ⟨e, raised⟩ |
    ⟨added, storage, -, -, -, returned⟩ |
    ⟨added, meeting, common, left, right, mempool, storage, state, accepted, -, forks, -, stateOk,
      reconciled, -, returned⟩
  · rw [raised] at submitted
    cases submitted
  · rw [returned] at submitted
    cases submitted
    cases active
  rw [returned] at submitted
  cases submitted
  have grown : (node.chain.storeActive added).Refines :=
    inv.chain_reachable.refines.store accepted rfl rfl
  obtain ⟨path, branch, state', ends, stateOk', same, network⟩ := grown.exists_state
  rw [stateOk] at stateOk'
  cases stateOk'
  cases ends.lineage.unique forks.new_lineage
  have genuine : node.mempool.Genuine testnet := inv.genuine
  obtain ⟨unconfirmed, ordered, removed, revalidated, pool', removedOk, orderedOk, perm,
    revalidatedOk, readdedOk, reconciled', -, -⟩ :=
    @reconcilePool_ok _ _ grown _ genuine _ _ added.record.blockHash _ _ _ forks _ stateOk network
  rw [reconciled] at reconciled'
  cases reconciled'
  obtain ⟨leftValid, rightValid, leftStored, -⟩ := forks_valid grown forks
  obtain ⟨unconfirmed', removedOk', genuine', kept⟩ := removeConfirmed_ok genuine
    fun tx member => (rightValid tx member).exists_txid
  rw [removedOk] at removedOk'
  cases removedOk'
  have orderedMem : ∀ {tx : Transaction}, tx ∈ ordered ↔
      ∃ txid, unconfirmed.transactions.get? txid = some tx :=
    fun {tx} => perm.mem_iff.trans Dict.mem_values
  -- Both passes offer their transactions by rising nonces.
  have built := built_readdDisconnected (Built.empty.revalidateLoop revalidatedOk) readdedOk
  rw [List.nil_append] at built
  have rise : NoncesRise ordered := noncesRise_of_orderedTransactions orderedOk fun tx member => by
    obtain ⟨txid, found⟩ := orderedMem.mp member
    exact ⟨txid, (genuine' found).1⟩
  have rise' : NoncesRise (branchTransactions (pathBlocks left)) := by
    have whole := noncesRise_of_lineage grown forks.old_lineage
    rw [pathBlocks_append, branchTransactions_append] at whole
    exact whole.of_append
  refine ⟨branchTransactions (pathBlocks left.reverse), state, stateOk, ?_, ?_⟩
  · rw [ChainUpdate.active, ← List.map_reverse]
    exact transactionsOf_eq fun item member => leftStored item (List.mem_reverse.mp member)
  have disconnectedMem : ∀ {tx : Transaction}, tx ∈ branchTransactions (pathBlocks left.reverse) ↔
      tx ∈ branchTransactions (pathBlocks left) := by
    intro tx
    simp only [branchTransactions, pathBlocks, List.mem_flatMap, List.mem_map, List.mem_reverse]
  intro tx offered _ notPreceded
  have valid : tx.IntrinsicallyValid state.network := by
    rw [network]
    rcases offered with pending | disconnected
    · obtain ⟨txid, found⟩ := Dict.mem_values.mp pending
      exact (genuine found).2
    · exact leftValid tx (disconnectedMem.mp disconnected)
  cases outcome : mempool.add tx state ((node.chain.storeActive added).height + 1) with
  | error e => exact ⟨e, rfl, add_error_cls valid outcome⟩
  | ok result =>
      exfalso
      obtain ⟨txid, pool⟩ := result
      obtain ⟨accepts, -⟩ := add_eq_ok.mp outcome
      obtain ⟨notDisconnected, preceded⟩ := accepted_after built rise rise' accepts
      rcases offered with pending | disconnected
      · obtain ⟨id, found⟩ := Dict.mem_values.mp pending
        have named := (genuine found).1
        have kept' : unconfirmed.transactions.get? id = some tx := by
          refine kept.mpr ⟨found, fun confirmed member sameId => ?_⟩
          rw [accepts.txid_ok] at named
          cases named
          apply accepts.unconfirmed
          rw [same.confirmedTxids_eq]
          refine ends.replays.mem_confirmed.mpr ⟨confirmed, ?_, sameId⟩
          rw [pathBlocks_append, branchTransactions_append]
          exact List.mem_append_right _ member
        obtain ⟨earlier, member, rest⟩ := preceded (orderedMem.mpr ⟨id, kept'⟩)
        exact notPreceded ⟨pending, earlier, disconnectedMem.mpr member, rest⟩
      · exact notDisconnected (disconnectedMem.mp disconnected)

/-! ## A transaction that is dropped -/

open Payer

omit [Platform] in
/-- The switch to the side branch drops the second transfer, which the pool then accepts. -/
theorem waitingNode_drops :
    (match @submitBlock trustingPlatform waitingNode overtakingBlock [] with
      | (.error _, _) => none
      | (.ok update, after) => do
        let state ← after.chain.state.toOption
        let _ ← (@Mempool.add trustingPlatform after.mempool secondTransfer state
          (after.chain.height + 1)).toOption
        return (update.becameActive,
          decide (secondTransfer ∈ waitingNode.mempool.transactions.values),
          decide (secondTransfer ∈ after.mempool.transactions.values))) =
      some (true, true, false) := by
  decide +kernel

omit [Platform] in
theorem exists_overtaken : ∃ update after state result,
    @submitBlock trustingPlatform waitingNode overtakingBlock [] = (.ok update, after) ∧
    update.becameActive = true ∧ after.chain.state = .ok state ∧
    @Mempool.add trustingPlatform after.mempool secondTransfer state (after.chain.height + 1) =
      .ok result ∧
    secondTransfer ∈ waitingNode.mempool.transactions.values ∧
    secondTransfer ∉ after.mempool.transactions.values := by
  have drops := waitingNode_drops
  split at drops
  · cases drops
  rename_i update after submitted
  cases stateOk : after.chain.state with
  | error e =>
      rw [stateOk] at drops
      cases drops
  | ok state =>
      rw [stateOk] at drops
      cases added : @Mempool.add trustingPlatform after.mempool secondTransfer state
          (after.chain.height + 1) with
      | error e =>
          simp only [Except.toOption, Option.bind_eq_bind, Option.bind_some, added] at drops
          cases drops
      | ok result =>
          simp only [Except.toOption, Option.bind_eq_bind, Option.bind_some, added, Option.pure_def,
            Option.some.injEq, Prod.mk.injEq, decide_eq_true_eq, decide_eq_false_iff_not] at drops
          exact ⟨update, after, state, result, submitted, drops.1, stateOk, added, drops.2⟩

omit [Platform] in
/-- The switch that drops the second transfer. -/
theorem readmission_overtaken : ∃ update after disconnected state,
    @submitBlock trustingPlatform waitingNode overtakingBlock [] = (.ok update, after) ∧
    @Readmission trustingPlatform waitingNode after update disconnected state := by
  obtain ⟨update, after, _, _, submitted, active, -⟩ := exists_overtaken
  obtain ⟨disconnected, state, kept⟩ :=
    @Reachable.readmission trustingPlatform _ waitingNode_reachable _ _ _ _ submitted active
  exact ⟨update, after, disconnected, state, submitted, kept⟩

omit [Platform] in
/-- **A reorganization can drop an admissible transaction**: the second transfer of a sender is
tried while the first one, from a disconnected block, is not back yet. -/
theorem not_keeps_admissible : ¬ ∀ (node : LocalNode) (block : Block)
    (faults : List Transactions.Fault) (update : ChainUpdate) (after : LocalNode),
    @Reachable trustingPlatform node →
    @submitBlock trustingPlatform node block faults = (.ok update, after) →
    update.becameActive = true →
    ∃ disconnected state, after.chain.state = .ok state ∧
      transactionsOf after.chain update.disconnected = .ok disconnected ∧
      ∀ tx, tx ∈ node.mempool.transactions.values ∨ tx ∈ disconnected →
        tx ∉ after.mempool.transactions.values →
        ∃ e, @Mempool.add trustingPlatform after.mempool tx state (after.chain.height + 1) =
          .error e := by
  intro keeps
  obtain ⟨update, after, state, result, submitted, active, stateOk, added, pending, dropped⟩ :=
    exists_overtaken
  obtain ⟨disconnected, state', stateOk', -, refused⟩ :=
    keeps _ _ _ _ _ waitingNode_reachable submitted active
  rw [stateOk] at stateOk'
  cases stateOk'
  obtain ⟨e, raised⟩ := refused _ (.inl pending) dropped
  rw [added] at raised
  cases raised

end LocalNode

end OurCoin
