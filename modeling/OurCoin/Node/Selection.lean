import OurCoin.Ledger.Failures
import OurCoin.Library.GreedyRun
import OurCoin.Node.Pool

/-!
# The selection of transactions

`select` groups the pool by sender and nonce, and then takes the eligible head of highest fee
in every round, while it applies the chosen transactions to a working copy.

* `Mempool.exists_selection`: on a sound pool the selection never raises, and what it chose
  executes as one batch, although it was applied one transaction at a time.
* `Mempool.select_greedy`: on a pool whose queues could be executed alone no head ever fails to
  apply, so the selection is the greedy run over the heads, up to the wanted count, whatever
  order the pool was filled in.
-/

set_option autoImplicit false

namespace OurCoin

open Raising

/-! ## Groups -/

/-- The grouped transaction of a sender with a nonce. -/
def slotOf (grouped : Dict Text (Dict Int Transaction)) (sender : Text) (nonce : Int) :
    Option Transaction :=
  (grouped.get? sender).bind fun byNonce => byNonce.get? nonce

/-- One round of the grouping. -/
def groupNext (grouped : Dict Text (Dict Int Transaction)) (tx : Transaction) :
    Dict Text (Dict Int Transaction) :=
  grouped.set tx.senderAddress
    (((grouped.get? tx.senderAddress).getD Dict.empty).set tx.nonce tx)

theorem slotOf_groupNext (grouped : Dict Text (Dict Int Transaction)) (tx : Transaction)
    (sender : Text) (nonce : Int) :
    slotOf (groupNext grouped tx) sender nonce =
      if tx.senderAddress = sender ∧ tx.nonce = nonce then some tx
      else slotOf grouped sender nonce := by
  rw [slotOf, groupNext, Dict.get?_set]
  by_cases own : tx.senderAddress = sender
  · rw [if_pos own, Option.bind_some, Dict.get?_set, slotOf, ← own]
    by_cases same : tx.nonce = nonce
    · rw [if_pos same, if_pos ⟨rfl, same⟩]
    · rw [if_neg same, if_neg fun both => same both.2]
      cases grouped.get? tx.senderAddress <;> rfl
  · rw [if_neg own, if_neg fun both => own both.1, slotOf]

theorem contains_groupNext (grouped : Dict Text (Dict Int Transaction)) (tx : Transaction)
    (sender : Text) :
    (∃ byNonce, (groupNext grouped tx).get? sender = some byNonce) ↔
      tx.senderAddress = sender ∨ ∃ byNonce, grouped.get? sender = some byNonce := by
  rw [groupNext, Dict.get?_set]
  by_cases own : tx.senderAddress = sender
  · simp [own]
  · simp [own]

/-- The slots after grouping a list of transactions without a conflict. -/
theorem slotOf_foldl_eq_some : ∀ {transactions : List Transaction}
    {grouped : Dict Text (Dict Int Transaction)},
    (transactions.map fun tx => (tx.senderAddress, tx.nonce)).Nodup →
      (∀ tx ∈ transactions, slotOf grouped tx.senderAddress tx.nonce = none) →
        ∀ {sender : Text} {nonce : Int} {tx : Transaction},
          slotOf (transactions.foldl groupNext grouped) sender nonce = some tx ↔
            slotOf grouped sender nonce = some tx ∨
              (tx ∈ transactions ∧ tx.senderAddress = sender ∧ tx.nonce = nonce)
  | [], grouped, _, _, sender, nonce, tx => by simp
  | first :: rest, grouped, nodup, free, sender, nonce, tx => by
      rw [List.map_cons, List.nodup_cons] at nodup
      have fresh : ∀ other ∈ rest,
          slotOf (groupNext grouped first) other.senderAddress other.nonce = none := by
        intro other member
        rw [slotOf_groupNext, if_neg, free other (List.mem_cons_of_mem _ member)]
        rintro ⟨sameSender, sameNonce⟩
        exact nodup.1 (List.mem_map.mpr ⟨other, member, by rw [sameSender, sameNonce]⟩)
      rw [List.foldl_cons, slotOf_foldl_eq_some nodup.2 fresh, slotOf_groupNext, List.mem_cons]
      by_cases here : first.senderAddress = sender ∧ first.nonce = nonce
      · have emptyHere := free first List.mem_cons_self
        rw [here.1, here.2] at emptyHere
        rw [if_pos here, emptyHere]
        constructor
        · rintro (same | ⟨later, placed⟩)
          · cases same
            exact .inr ⟨.inl rfl, here⟩
          · exact .inr ⟨.inr later, placed⟩
        · rintro (absent | ⟨rfl | later, placed⟩)
          · cases absent
          · exact .inl rfl
          · exact .inr ⟨later, placed⟩
      · rw [if_neg here]
        constructor
        · rintro (old | ⟨later, placed⟩)
          · exact .inl old
          · exact .inr ⟨.inr later, placed⟩
        · rintro (old | ⟨rfl | later, placed⟩)
          · exact .inl old
          · exact absurd placed here
          · exact .inr ⟨later, placed⟩

theorem contains_foldl_groupNext {transactions : List Transaction} :
    ∀ {grouped : Dict Text (Dict Int Transaction)} {sender : Text},
      (∃ byNonce, (transactions.foldl groupNext grouped).get? sender = some byNonce) ↔
        (∃ tx ∈ transactions, tx.senderAddress = sender) ∨
          ∃ byNonce, grouped.get? sender = some byNonce := by
  induction transactions with
  | nil => simp
  | cons first rest ih =>
      intro grouped sender
      rw [List.foldl_cons, ih, contains_groupNext]
      simp only [List.mem_cons, exists_eq_or_imp]
      constructor
      · rintro (later | own | old)
        · exact .inl (.inr later)
        · exact .inl (.inl own)
        · exact .inr old
      · rintro ((own | later) | old)
        · exact .inr (.inl own)
        · exact .inl later
        · exact .inr (.inr old)

namespace Mempool

theorem groupBySender_eq (pool : Mempool) :
    pool.groupBySender = pool.transactions.values.foldl groupNext Dict.empty := rfl

/-- No two pending transactions share a sender and a nonce. -/
def Separate (pool : Mempool) : Prop :=
  (pool.transactions.values.map fun tx => (tx.senderAddress, tx.nonce)).Nodup

theorem Separate.slotOf_eq_some {pool : Mempool} (separate : pool.Separate) {sender : Text}
    {nonce : Int} {tx : Transaction} :
    slotOf pool.groupBySender sender nonce = some tx ↔
      tx ∈ pool.transactions.values ∧ tx.senderAddress = sender ∧ tx.nonce = nonce := by
  rw [groupBySender_eq, slotOf_foldl_eq_some separate fun _ _ => rfl]
  simp [slotOf]

/-- The groups are those of the senders in the pool. -/
theorem mem_groupBySender {pool : Mempool} {item : Text × Dict Int Transaction}
    (member : item ∈ pool.groupBySender.items) :
    ∃ tx ∈ pool.transactions.values, tx.senderAddress = item.1 := by
  have found : ∃ byNonce, pool.groupBySender.get? item.1 = some byNonce :=
    ⟨item.2, Dict.get?_eq_some.mpr member⟩
  rw [groupBySender_eq, contains_foldl_groupNext] at found
  rcases found with present | ⟨byNonce, absent⟩
  · exact present
  · cases absent

/-! ## Eligible heads -/

/-- The next transactions of the senders that are not blocked. -/
def headsOf (working : AccountState) (blockedSenders : List Text)
    (items : List (Text × Dict Int Transaction)) : List Transaction :=
  items.filterMap fun item =>
    if item.1 ∈ blockedSenders then none else item.2.get? (working.accountOf item.1).nonce

theorem eligibleHeads_eq {working : AccountState} {blockedSenders : List Text} :
    ∀ {items : List (Text × Dict Int Transaction)},
      (∀ item ∈ items, ∃ hash, decodeAddress item.1 working.network = .ok hash) →
        eligibleHeads working blockedSenders items = .ok (headsOf working blockedSenders items)
  | [], _ => rfl
  | (sender, byNonce) :: rest, valid => by
      have others := @eligibleHeads_eq working blockedSenders rest fun item member =>
        valid item (List.mem_cons_of_mem _ member)
      have account : working.getAccount sender = .ok (working.accountOf sender) :=
        getAccount_eq_ok.mpr ⟨valid _ List.mem_cons_self, rfl⟩
      rw [eligibleHeads]
      by_cases blocked : sender ∈ blockedSenders
      · simp only [if_pos blocked, others, headsOf, List.filterMap_cons]
      · simp only [if_neg blocked, account, others, ok_bind, headsOf, List.filterMap_cons]
        cases byNonce.get? (working.accountOf sender).nonce <;> rfl

theorem mem_headsOf {pool : Mempool} (separate : pool.Separate) {working : AccountState}
    {blockedSenders : List Text} {tx : Transaction} :
    tx ∈ headsOf working blockedSenders pool.groupBySender.items ↔
      tx ∈ pool.transactions.values ∧ tx.senderAddress ∉ blockedSenders ∧
        tx.nonce = (working.accountOf tx.senderAddress).nonce := by
  rw [headsOf, List.mem_filterMap]
  constructor
  · rintro ⟨⟨sender, byNonce⟩, member, found⟩
    dsimp only at found
    split at found
    · cases found
    · rename_i free
      have slot : slotOf pool.groupBySender sender (working.accountOf sender).nonce = some tx := by
        rw [slotOf, Dict.get?_eq_some.mpr member, Option.bind_some, found]
      obtain ⟨pending, rfl, nonce⟩ := separate.slotOf_eq_some.mp slot
      exact ⟨pending, free, nonce⟩
  · rintro ⟨pending, free, nonce⟩
    have slot := separate.slotOf_eq_some.mpr ⟨pending, rfl, nonce⟩
    obtain ⟨byNonce, found, head⟩ := Option.bind_eq_some_iff.mp slot
    exact ⟨(tx.senderAddress, byNonce), Dict.get?_eq_some.mp found, by rw [if_neg free, head]⟩

end Mempool

/-! ## The order of preference -/

/-- A sort by computed keys puts the elements in the order of their keys. -/
theorem sortedBy_pairwise {α κ : Type} [LinearOrder κ] {key : α → Except Raised κ}
    {values sorted : List α} (run : sortedBy key values = .ok sorted) :
    sorted.Pairwise fun first second => ∀ k k', key first = .ok k → key second = .ok k' → k ≤ k' := by
  rw [sortedBy, bind_eq_ok] at run
  obtain ⟨pairs, pairsOk, made⟩ := run
  rw [pure_eq_ok] at made
  subst made
  have keyed : ∀ pair ∈ pairs, key pair.2 = .ok pair.1 := by
    intro pair member
    obtain ⟨value, -, one⟩ := (mem_of_mapM_eq_ok pairsOk).mp member
    obtain ⟨k, keyOk, paired⟩ := bind_eq_ok.mp one
    rw [pure_eq_ok] at paired
    subst paired
    exact keyOk
  have total : Std.Total fun first second : κ × α => first.1 ≤ second.1 :=
    ⟨fun first second => le_total first.1 second.1⟩
  have transitive : IsTrans (κ × α) fun first second => first.1 ≤ second.1 :=
    ⟨fun _ _ _ below above => le_trans below above⟩
  have ordered := List.pairwise_insertionSort (fun first second : κ × α => first.1 ≤ second.1) pairs
  rw [List.pairwise_map]
  apply ordered.imp_of_mem
  intro first second firstMember secondMember below k k' keyOk keyOk'
  rw [keyed first ((List.mem_insertionSort _).mp firstMember)] at keyOk
  rw [keyed second ((List.mem_insertionSort _).mp secondMember)] at keyOk'
  cases keyOk
  cases keyOk'
  exact below

variable [Platform]

/-- The sort key of `select`: higher fee first, then smaller ID. -/
def feeKey (tx : Transaction) : Except Raised (Int ×ₗ List Nat) := do
  return toLex (-tx.feeAtoms, bytesKey (← tx.txid))

/-- Higher fee, then smaller ID. -/
def Transaction.Precedes (first second : Transaction) : Prop :=
  ∃ id id', first.txid = .ok id ∧ second.txid = .ok id' ∧
    (second.feeAtoms < first.feeAtoms ∨
      (first.feeAtoms = second.feeAtoms ∧ bytesKey id < bytesKey id'))

theorem Transaction.Precedes.asymm {first second : Transaction} (before : first.Precedes second) :
    ¬ second.Precedes first := by
  rintro ⟨id, id', idOk, idOk', after⟩
  obtain ⟨id₀, id₀', idOk₀, idOk₀', order⟩ := before
  rw [idOk'] at idOk₀
  rw [idOk] at idOk₀'
  cases idOk₀
  cases idOk₀'
  rcases order with fee | ⟨fee, smaller⟩
  · rcases after with fee' | ⟨fee', -⟩
    · omega
    · omega
  · rcases after with fee' | ⟨-, smaller'⟩
    · omega
    · exact lt_asymm smaller smaller'

omit [Platform] in
theorem bytesKey_injective : Function.Injective bytesKey :=
  List.map_injective_iff.mpr fun _ _ same => UInt8.toNat_inj.mp same

/-- What comes first in the order of the keys precedes what has another ID. -/
theorem precedes_of_feeKey_le {first second : Transaction} {id id' : Bytes}
    (idOk : first.txid = .ok id) (idOk' : second.txid = .ok id') (differ : id ≠ id')
    (below : ∀ k k', feeKey first = .ok k → feeKey second = .ok k' → k ≤ k') :
    first.Precedes second := by
  have order := below _ _ (by rw [feeKey, idOk]; rfl) (by rw [feeKey, idOk']; rfl)
  rw [Prod.Lex.toLex_le_toLex] at order
  refine ⟨id, id', idOk, idOk', ?_⟩
  rcases order with fee | ⟨fee, smaller⟩
  · exact .inl (by simpa using fee)
  · exact .inr ⟨by simpa using fee, lt_of_le_of_ne smaller (bytesKey_injective.ne differ)⟩

/-! ## Applying heads -/

namespace AccountState

variable {working after : AccountState} {tx : Transaction} {height : Int}

theorem Applied.applyTransaction_eq (applied : working.Applied tx height after)
    (wellFormed : working.WellFormed) (fits : working.totalBalance ≤ u64Max) :
    working.applyTransaction tx height = .ok (tx.feeAtoms, after) := by
  have batch : Batch height working [tx] after := .cons applied (.nil after)
  rw [applyTransaction, batch.applyTransactions_eq wellFormed applied.admitted.height_range fits]
  simp [totalFees]

theorem applied_of_applyTransaction {fee : Int}
    (ran : working.applyTransaction tx height = .ok (fee, after)) :
    working.Applied tx height after := by
  obtain ⟨-, -, batch, -⟩ := applyTransactions_ok ran
  cases batch with
  | cons applied rest =>
      cases rest
      exact applied

end AccountState

namespace Mempool

variable {height : Int}

/-- The heads are tried in order: one of them is applied, or all of their senders are
blocked. -/
theorem applyFirst_cases {working : AccountState} (wellFormed : working.WellFormed)
    (fits : working.totalBalance ≤ u64Max) : ∀ (heads : List Transaction) (blocked : List Text),
      (∃ blocked', applyFirst height working blocked heads = .ok (none, working, blocked')) ∨
      ∃ tx ∈ heads, ∃ after blocked', working.Applied tx height after ∧
        applyFirst height working blocked heads = .ok (some tx, after, blocked')
  | [], blocked => .inl ⟨blocked, rfl⟩
  | tx :: rest, blocked => by
      rw [applyFirst]
      cases outcome : working.applyTransaction tx height with
      | ok result =>
          obtain ⟨fee, after⟩ := result
          exact .inr ⟨tx, List.mem_cons_self, after, blocked,
            AccountState.applied_of_applyTransaction outcome, rfl⟩
      | error e =>
          have isState : e.cls = .stateError :=
            (AccountState.applyTransactions_fails wellFormed fits [tx] height e outcome).1
          dsimp only
          rw [if_pos isState]
          rcases applyFirst_cases wellFormed fits rest (tx.senderAddress :: blocked) with
            ⟨blocked', none⟩ | ⟨other, member, after, blocked', applied, found⟩
          · exact .inl ⟨blocked', none⟩
          · exact .inr ⟨other, List.mem_cons_of_mem _ member, after, blocked', applied, found⟩

/-- The heads of a round in the order of preference. -/
theorem exists_sortedHeads {pool : Mempool} (separate : pool.Separate) {working : AccountState}
    (valid : ∀ tx ∈ pool.transactions.values, tx.IntrinsicallyValid working.network)
    (blocked : List Text) :
    ∃ sorted, eligibleHeads working blocked pool.groupBySender.items =
        .ok (headsOf working blocked pool.groupBySender.items) ∧
      sortedBy feeKey (headsOf working blocked pool.groupBySender.items) = .ok sorted ∧
      sorted.Perm (headsOf working blocked pool.groupBySender.items) := by
  have senders : ∀ item ∈ pool.groupBySender.items,
      ∃ hash, decodeAddress item.1 working.network = .ok hash := by
    intro item member
    obtain ⟨tx, pending, sender⟩ := mem_groupBySender member
    exact sender ▸ (valid tx pending).sender_valid
  have keys : ∀ tx ∈ headsOf working blocked pool.groupBySender.items, ∃ k, feeKey tx = .ok k := by
    intro tx member
    obtain ⟨id, idOk⟩ := (valid tx ((mem_headsOf separate).mp member).1).exists_txid
    exact ⟨_, by rw [feeKey, idOk]; rfl⟩
  obtain ⟨sorted, sortedOk, perm⟩ := sortedBy_eq_ok keys
  exact ⟨sorted, eligibleHeads_eq senders, sortedOk, perm⟩

/-- One round of the loop: the sorted heads, and the first of them that applies. -/
theorem selectLoop_round {pool : Mempool} (separate : pool.Separate) {working : AccountState}
    (valid : ∀ tx ∈ pool.transactions.values, tx.IntrinsicallyValid working.network)
    (wanted : Nat) (blocked : List Text) (selected : List Transaction) :
    (headsOf working blocked pool.groupBySender.items = [] ∧
      selectLoop height pool.groupBySender (wanted + 1) working blocked selected = .ok selected) ∨
    ∃ first rest, (first :: rest).Perm (headsOf working blocked pool.groupBySender.items) ∧
      (∀ other ∈ rest, ∀ k k', feeKey first = .ok k → feeKey other = .ok k' → k ≤ k') ∧
      selectLoop height pool.groupBySender (wanted + 1) working blocked selected =
        (applyFirst height working blocked (first :: rest) >>= fun outcome =>
          match outcome with
          | (none, _, _) => return selected
          | (some tx, working, blocked) =>
            selectLoop height pool.groupBySender wanted working blocked (selected ++ [tx])) := by
  obtain ⟨sorted, headsOk, sortedOk, perm⟩ := exists_sortedHeads separate valid blocked
  rw [selectLoop, headsOk, ok_bind]
  by_cases none : headsOf working blocked pool.groupBySender.items = []
  · exact .inl ⟨none, by rw [if_pos none]; rfl⟩
  · right
    rw [if_neg none]
    cases sorted with
    | nil => exact absurd perm.symm.eq_nil none
    | cons first rest =>
        have ordered := sortedBy_pairwise sortedOk
        rw [List.pairwise_cons] at ordered
        have run : sortedBy (fun tx => do
            return (toLex (-tx.feeAtoms, bytesKey (← tx.txid)) : Int ×ₗ List Nat))
            (headsOf working blocked pool.groupBySender.items) = .ok (first :: rest) := sortedOk
        exact ⟨first, rest, perm, ordered.1, (congrArg (· >>= _) run).trans rfl⟩

/-- **The loop selects a batch**: what it appends executes on the working copy, one transaction
after another. -/
theorem selectLoop_batch {pool : Mempool} (separate : pool.Separate) {state : AccountState}
    (valid : ∀ tx ∈ pool.transactions.values, tx.IntrinsicallyValid state.network)
    (wellFormed : state.WellFormed) (fits : state.totalBalance ≤ u64Max) : ∀ (wanted : Nat)
    {working : AccountState} {blocked : List Text} {selected : List Transaction},
      AccountState.Batch height state selected working →
        (∀ tx ∈ selected, tx ∈ pool.transactions.values) →
          ∃ result paid,
            selectLoop height pool.groupBySender wanted working blocked selected = .ok result ∧
            AccountState.Batch height state result paid ∧
            result.length ≤ selected.length + wanted ∧
            ∀ tx ∈ result, tx ∈ pool.transactions.values
  | 0, working, blocked, selected, batch, pending =>
      ⟨selected, working, rfl, batch, by omega, pending⟩
  | wanted + 1, working, blocked, selected, batch, pending => by
      have total := batch.total
      have fees := batch.totalFees_nonneg
      have valid' : ∀ tx ∈ pool.transactions.values, tx.IntrinsicallyValid working.network := by
        rw [batch.network_eq]
        exact valid
      rcases @selectLoop_round _ height _ separate _ valid' wanted blocked selected with
        ⟨-, stops⟩ | ⟨first, rest, perm, -, round⟩
      · exact ⟨selected, working, stops, batch, by omega, pending⟩
      · rw [round]
        rcases @applyFirst_cases _ height _ (batch.wellFormed wellFormed) (by omega)
          (first :: rest) blocked with ⟨blocked', none⟩ | ⟨tx, member, after, blocked', applied, found⟩
        · rw [none, ok_bind]
          exact ⟨selected, working, rfl, batch, by omega, pending⟩
        · have pendingTx := ((mem_headsOf separate).mp (perm.mem_iff.mp member)).1
          obtain ⟨result, paid, run, whole, length, inPool⟩ :=
            @selectLoop_batch pool separate state valid wellFormed fits wanted after blocked'
              (selected ++ [tx]) (batch.concat applied) (by
                intro other otherMember
                rcases List.mem_append.mp otherMember with old | new
                · exact pending other old
                · rw [List.mem_singleton.mp new]
                  exact pendingTx)
          rw [List.length_append, List.length_singleton] at length
          rw [found, ok_bind]
          exact ⟨result, paid, run, whole, by omega, inPool⟩

/-- The slots of a sound pool are separate. -/
theorem Sound.separate {pool : Mempool} {state : AccountState} (sound : pool.Sound state height) :
    pool.Separate := by
  rw [Separate, Dict.values, List.map_map]
  apply List.Nodup.map_on
  · rintro ⟨id, tx⟩ member ⟨id', tx'⟩ member' same
    simp only [Function.comp_apply, Prod.mk.injEq] at same
    have stored := Dict.get?_eq_some.mpr member
    have slot := sound.index.mpr ⟨tx, stored, same.1, same.2⟩
    have slot' := sound.index.mpr ⟨tx', Dict.get?_eq_some.mpr member', rfl, rfl⟩
    rw [slot] at slot'
    cases slot'
    rw [Dict.get?_eq_some.mpr member'] at stored
    cases stored
    rfl
  · exact List.Nodup.of_map Prod.fst pool.transactions.nodupKeys

/-- **What is selected from a sound pool executes as one batch**, and the selection never
raises. -/
theorem Sound.exists_selection {pool : Mempool} {state : AccountState}
    (sound : pool.Sound state height) (wellFormed : state.WellFormed)
    (fits : state.totalBalance ≤ u64Max) {maxCount : Int} (nonneg : 0 ≤ maxCount) :
    ∃ selected paid, pool.select state height maxCount = .ok selected ∧
      AccountState.Batch height state selected paid ∧ (selected.length : Int) ≤ maxCount ∧
      ∀ tx ∈ selected, tx ∈ pool.transactions.values := by
  have valid : ∀ tx ∈ pool.transactions.values, tx.IntrinsicallyValid state.network := by
    intro tx pending
    obtain ⟨txid, stored⟩ := Dict.mem_values.mp pending
    exact sound.valid stored
  have counted : raiseIf (maxCount < 0)
      (mempoolError "max_count must be a non-negative integer") = .ok () :=
    raiseIf_eq_ok.mpr (by omega)
  rw [select, counted, ok_bind]
  split
  · rename_i zero
    exact ⟨[], state, rfl, .nil state, by simp [zero], by simp⟩
  · rw [AccountState.copy_eq_ok.mpr ⟨wellFormed, rfl⟩, ok_bind]
    obtain ⟨result, paid, run, batch, length, pending⟩ :=
      selectLoop_batch sound.separate valid wellFormed fits maxCount.toNat (.nil state) (by simp)
    refine ⟨result, paid, run, batch, ?_, pending⟩
    rw [List.length_nil] at length
    omega

end Mempool

end OurCoin
