import OurCoin.Model.Storage
import OurCoin.Tree.BranchInvariants

/-!
# The record of a reorganization

What the update that `add_block` returns says about the active chain before and after
the call (`Chain.RecordsSwitch`), for every accepted block.

* `Chain.activeHashes_eq`: the hashes of the active chain are those on the lineage of
  its tip.
* `Chain.Forks.switches`: two lineages that were split after their last common entry are
  described exactly by the two lists of the update.
* `Chain.Reachable.records_switch`: the record is exact on every reachable chain, and the
  tip that the database expects before the update is the tip before the call.
-/

set_option autoImplicit false

namespace OurCoin

open Raising Ancestry

/-- The hashes of the active chain before and after a switch of the tip, as the update
of the switch describes them. -/
structure ChainUpdate.Switches (update : ChainUpdate) (old new kept : List Bytes) : Prop where
  old_eq : old = kept ++ update.disconnected.reverse
  new_eq : new = kept ++ update.connected
  /-- What is kept is the longest common initial part. -/
  longest : ∀ shared, shared <+: old → shared <+: new → shared <+: kept
  ends_in_ancestor : ∃ common, update.commonAncestorHash = some common ∧
    kept.getLast? = some common
  ends_in_added : update.connected.getLast? = some update.addedBlockHash
  disjoint : update.disconnected.Disjoint update.connected

/-- Two lists that split after a common part have no longer common initial part. -/
theorem shared_of_differ {α : Type} {common left right shared : List α}
    (differ : ∀ x ∈ left.head?, ∀ y ∈ right.head?, x ≠ y) (inLeft : shared <+: common ++ left)
    (inRight : shared <+: common ++ right) : shared <+: common := by
  rcases List.prefix_or_prefix_of_prefix inLeft (List.prefix_append common left) with
    short | ⟨rest, rfl⟩
  · exact short
  · rw [List.prefix_append_right_inj] at inLeft inRight
    cases rest with
    | nil => simp
    | cons x rest =>
        obtain ⟨_, rfl⟩ := inLeft
        obtain ⟨_, rfl⟩ := inRight
        exact absurd rfl (differ x rfl x rfl)

variable [Platform]

namespace Chain

variable {chain : Chain}

/-- The hashes of `active_chain()`. -/
def activeHashes (chain : Chain) : Except Raised (List Bytes) := do
  (← chain.activeChain).mapM Block.blockHash

/-- The active chain has the hashes on the lineage of the tip. -/
theorem activeHashes_eq (refines : chain.Refines) {path : List (Bytes × ChainEntry)}
    (lineage : chain.Lineage chain.activeTipHash path) :
    chain.activeHashes = .ok (path.map Prod.fst) := by
  obtain ⟨path', branch, ends⟩ := refines.exists_branch chain.tipEntry_stored
  cases ends.lineage.unique lineage
  rw [activeHashes, Reachable.activeChain_eq ends, ok_bind, mapM_eq_ok, pathBlocks,
    List.forall₂_map_left_iff, List.forall₂_map_right_iff, List.forall₂_same]
  rintro ⟨hash, entry⟩ member
  obtain ⟨_, _, ends'⟩ := refines.exists_branch (ends.lineage.find_of_mem member)
  exact ends'.hash_ok

omit [Platform] in
/-- A hash determines its entry, so lists of stored items can be compared by hash. -/
theorem Forks.differ_hashes {oldHash newHash meeting : Bytes}
    {common left right : List (Bytes × ChainEntry)}
    (forks : chain.Forks oldHash newHash meeting common left right) :
    ∀ x ∈ (left.map Prod.fst).head?, ∀ y ∈ (right.map Prod.fst).head?, x ≠ y := by
  intro x xHead y yHead same
  cases left with
  | nil => simp at xHead
  | cons first left =>
      cases right with
      | nil => simp at yHead
      | cons second right =>
          simp only [List.map_cons, List.head?_cons, Option.mem_def, Option.some.injEq] at xHead yHead
          have firstStored := @Lineage.find_of_mem _ _ _ _ _ _ forks.old_lineage first.1 first.2 (by simp)
          have secondStored := @Lineage.find_of_mem _ _ _ _ _ _ forks.new_lineage second.1 second.2 (by simp)
          rw [xHead, same, ← yHead, secondStored] at firstStored
          refine forks.differ first rfl second rfl (Prod.ext ?_ (Option.some.inj firstStored).symm)
          rw [xHead, yHead, same]

omit [Platform] in
/-- The branches above the last common entry share no hash: a hash determines the entries
below it. -/
theorem Forks.disjoint {oldHash newHash meeting : Bytes}
    {common left right : List (Bytes × ChainEntry)}
    (forks : chain.Forks oldHash newHash meeting common left right) :
    (left.map Prod.fst).Disjoint (right.map Prod.fst) := by
  intro hash inLeft inRight
  obtain ⟨⟨_, leftEntry⟩, leftMem, rfl⟩ := List.mem_map.mp inLeft
  obtain ⟨⟨_, rightEntry⟩, rightMem, rfl⟩ := List.mem_map.mp inRight
  obtain ⟨leftFront, leftBack, rfl⟩ := List.append_of_mem leftMem
  obtain ⟨rightFront, rightBack, rfl⟩ := List.append_of_mem rightMem
  have toLeft := forks.old_lineage.of_prefix (List.append_assoc _ _ _).symm
  have toRight := forks.new_lineage.of_prefix (List.append_assoc _ _ _).symm
  have same := toLeft.unique toRight
  rw [List.append_assoc, List.append_assoc, List.append_cancel_left_eq] at same
  have differ := forks.differ
  cases leftFront with
  | nil =>
      cases rightFront with
      | nil =>
          cases same
          exact differ _ rfl _ rfl rfl
      | cons second rightFront =>
          cases rightFront <;> simp at same
  | cons first leftFront =>
      cases rightFront with
      | nil => cases leftFront <;> simp at same
      | cons second rightFront =>
          cases (List.cons.inj same).1
          exact differ first rfl first rfl rfl

omit [Platform] in
/-- **The two lists of a switch describe the lineages of the tips.** -/
theorem Forks.switches {oldHash newHash meeting : Bytes}
    {common left right : List (Bytes × ChainEntry)}
    (forks : chain.Forks oldHash newHash meeting common left right) (climbs : right ≠ []) :
    (ChainUpdate.active newHash meeting (left.map Prod.fst).reverse (right.map Prod.fst)).Switches
      ((common ++ left).map Prod.fst) ((common ++ right).map Prod.fst) (common.map Prod.fst) where
  old_eq := by simp [ChainUpdate.active]
  new_eq := by simp [ChainUpdate.active]
  longest shared inOld inNew := by
    rw [List.map_append] at inOld inNew
    exact shared_of_differ forks.differ_hashes inOld inNew
  ends_in_ancestor := by
    obtain ⟨front, here, rfl⟩ := forks.meets
    exact ⟨meeting, rfl, by simp⟩
  ends_in_added := by
    obtain ⟨front, entry, split, -⟩ := forks.new_lineage.exists_last
    obtain ⟨right, last, rfl⟩ := (List.eq_nil_or_concat' right).resolve_left climbs
    rw [← List.append_assoc] at split
    cases (List.append_inj' split rfl).2
    simp [ChainUpdate.active]
  disjoint := by
    intro hash inLeft inRight
    exact forks.disjoint (List.mem_reverse.mp inLeft) inRight

/-- What an update says about the call of `add_block` that returned it. -/
structure RecordsSwitch (chain grown : Chain) (block : Block) (update : ChainUpdate)
    (old new : List Bytes) : Prop where
  old_ok : chain.activeHashes = .ok old
  new_ok : grown.activeHashes = .ok new
  added : block.blockHash = .ok update.addedBlockHash
  reorganized_iff : update.reorganized = true ↔ update.disconnected ≠ []
  switched : chain.activeTipHash ≠ grown.activeTipHash → ∃ kept, update.Switches old new kept
  stayed : chain.activeTipHash = grown.activeTipHash →
    update.disconnected = [] ∧ update.connected = [] ∧ old = new
  previous_tip : SQLiteChainStorage.expectedPreviousTip update = .ok chain.activeTipHash

omit [Platform] in
/-- The last hash of the lineage of a fork that is being left is the tip that was left. -/
theorem Forks.expectedPreviousTip_eq {oldHash newHash meeting : Bytes}
    {common left right : List (Bytes × ChainEntry)}
    (forks : chain.Forks oldHash newHash meeting common left right) :
    SQLiteChainStorage.expectedPreviousTip
      (ChainUpdate.active newHash meeting (left.map Prod.fst).reverse (right.map Prod.fst)) =
        .ok oldHash := by
  obtain ⟨front, here, rfl⟩ := forks.meets
  obtain ⟨before, entry, split, -⟩ := forks.old_lineage.exists_last
  rcases List.eq_nil_or_concat' left with rfl | ⟨left, last, rfl⟩
  · rw [List.append_nil] at split
    cases (List.append_inj' split rfl).2
    rfl
  · rw [← List.append_assoc] at split
    cases (List.append_inj' split rfl).2
    simp [SQLiteChainStorage.expectedPreviousTip, ChainUpdate.active]

/-- **The record of a reorganization is exact.** -/
theorem Reachable.records_switch (reachable : chain.Reachable) {block : Block}
    {update : ChainUpdate} {grown : Chain} (added : chain.addBlock block = (.ok update, grown)) :
    ∃ old new, chain.RecordsSwitch grown block update old new := by
  have refines := reachable.refines
  have refines' : grown.Refines := by
    have after := refines.addBlock block
    rwa [added] at after
  obtain ⟨path, branch, ends⟩ := refines.exists_branch chain.tipEntry_stored
  have old_ok := activeHashes_eq refines ends.lineage
  have fresh : ∀ {entry : ChainEntry}, chain.newEntry block = .ok entry →
      block.blockHash = .ok entry.record.blockHash ∧
        ∀ hash stored, chain.entries.get? hash = some stored → entry.record.blockHash ≠ hash := by
    intro entry accepted
    obtain ⟨hash, parent, path', branch', next, hashOk, fresh, -, -, rfl⟩ :=
      refines.newEntry_eq_ok.mp accepted
    refine ⟨hashOk, ?_⟩
    rintro _ stored found rfl
    rw [show (next.entry hash (some block.header.previousBlockHash)).record.blockHash = hash from rfl,
      fresh] at found
    cases found
  have grows : ∀ {entry : ChainEntry}, chain.newEntry block = .ok entry → ∀ hash stored,
      chain.entries.get? hash = some stored →
        (chain.entries.set entry.record.blockHash entry).get? hash = some stored := by
    intro entry accepted hash stored found
    rw [Dict.get?_set, if_neg ((fresh accepted).2 _ _ found), found]
  rcases refines.addBlock_cases block with ⟨e, -, run⟩ | ⟨entry, accepted, -, run⟩ |
    ⟨entry, meeting, common, left, right, accepted, -, forks, run⟩
  · rw [added] at run
    cases run
  · rw [added] at run
    cases run
    have lineage : (chain.store entry).Lineage (chain.store entry).activeTipHash path :=
      ends.lineage.mono (grows accepted)
    exact ⟨_, _, old_ok, activeHashes_eq refines' lineage, (fresh accepted).1,
      by simp [ChainUpdate.side], fun moved => absurd rfl moved, fun _ => ⟨rfl, rfl, rfl⟩, rfl⟩
  · rw [added] at run
    cases run
    have moved : chain.activeTipHash ≠ entry.record.blockHash :=
      ((fresh accepted).2 _ _ ends.stored).symm
    have lineage : (chain.storeActive entry).Lineage chain.activeTipHash path :=
      ends.lineage.mono (grows accepted)
    cases forks.old_lineage.unique lineage
    have climbs : right ≠ [] := by
      -- Otherwise the new entry would lie on the old lineage, and be stored already.
      rintro rfl
      obtain ⟨front, here, split, -⟩ := forks.new_lineage.exists_last
      rw [List.append_nil] at split
      exact (fresh accepted).2 _ here (ends.lineage.find_of_mem (by simp [split])) rfl
    exact ⟨_, _, old_ok, activeHashes_eq refines' forks.new_lineage, (fresh accepted).1,
      by simp [ChainUpdate.active], fun _ => ⟨_, forks.switches climbs⟩,
      fun same => absurd same moved, forks.expectedPreviousTip_eq⟩

omit [Platform] in
theorem records_switch_first : ∃ old new, @RecordsSwitch asciiPlatform genesisChain
    (@addBlock asciiPlatform genesisChain firstBlock).2 firstBlock
    (.active firstHash genesisHash [] [firstHash]) old new :=
  @Reachable.records_switch asciiPlatform genesisChain
    (@Reachable.init asciiPlatform genesisChain (@init_testnet asciiPlatform)) firstBlock
    (.active firstHash genesisHash [] [firstHash]) (@addBlock asciiPlatform genesisChain firstBlock).2
    (by rw [← firstBlock_accepted])

end Chain

end OurCoin
