import OurCoin.Peer.Effects
import OurCoin.Tree.Extension
import OurCoin.Tree.Reorganization
import OurCoin.Tree.Shared
import OurCoin.Wire.Payloads
import OurCoin.Wire.Relay

/-!
# Locators and their answers

A node describes its active chain by a few of its hashes, from the tip down to the genesis
block. The other node looks for the first of them on its own active chain and sends what
follows it.

* `blockLocator_ok`: the hashes of a locator stand at descending positions of the active
  chain, from its tip to the genesis block (`Chain.Reachable.locatesActive`). So every node
  finds one of them (`blocksAfter_ok`).
* `Chain.Refines.exists_handles`: a chain that has the parent of the first block of a run
  handles the whole run.
* `Session.handleBlocks_handles`: and so does a node with this chain, which neither asks nor
  rejects anything.
* `getBlocks_connects` puts this together.
-/

set_option autoImplicit false

namespace OurCoin

open Raising Stateful

variable [Platform]

/-! ## The locator -/

/-- Hashes that stand at descending positions of a branch. -/
structure Descends (ids : List Bytes) (positions : List Nat) (hashes : List Bytes) : Prop where
  stands : List.Forall₂ (fun position hash => ids[position]? = some hash) positions hashes
  descending : positions.Pairwise (· > ·)

omit [Platform] in
theorem Descends.position_of_mem {ids hashes : List Bytes} {positions : List Nat}
    (descends : Descends ids positions hashes) {hash : Bytes} (member : hash ∈ hashes) :
    ∃ position ∈ positions, ids[position]? = some hash := by
  obtain ⟨stands, -⟩ := descends
  induction stands with
  | nil => cases member
  | cons here _ ih =>
      rcases List.mem_cons.mp member with rfl | later
      · exact ⟨_, List.mem_cons_self, here⟩
      · obtain ⟨position, positionMem, found⟩ := ih later
        exact ⟨position, List.mem_cons_of_mem _ positionMem, found⟩

omit [Platform] in
theorem Descends.mem_of_mem {ids hashes : List Bytes} {positions : List Nat}
    (descends : Descends ids positions hashes) {hash : Bytes} (member : hash ∈ hashes) :
    hash ∈ ids := by
  obtain ⟨position, -, found⟩ := descends.position_of_mem member
  exact List.mem_of_getElem? found

omit [Platform] in
/-- What follows a hash stands below it. -/
theorem Descends.lt_of_split {ids before after : List Bytes} {positions : List Nat} {hash : Bytes}
    (descends : Descends ids positions (before ++ hash :: after)) :
    ∃ position : Nat, ids[position]? = some hash ∧ ∀ lower ∈ after, ∃ below : Nat,
      below < position ∧ ids[below]? = some lower := by
  obtain ⟨stands, descending⟩ := descends
  induction before generalizing positions with
  | nil =>
      cases stands with
      | @cons position _ lower _ here others =>
          obtain ⟨above, rest⟩ := List.pairwise_cons.mp descending
          refine ⟨position, here, ?_⟩
          intro hash' member
          obtain ⟨below, belowMem, found⟩ := Descends.position_of_mem ⟨others, rest⟩ member
          exact ⟨below, above below belowMem, found⟩
  | cons first before ih =>
      cases stands with
      | cons _ others => exact ih others (List.pairwise_cons.mp descending).2

/-- One turn of the loop: it goes on while the position is above the root and there are fewer
than 63 hashes. -/
theorem locatorLoop_eq (active : List Block) (index step : Nat) (hashes : List Bytes) :
    locatorLoop active (63 - hashes.length) index step hashes =
      if index > 0 ∧ hashes.length < 63 then
        active[index]?.elim (.error keyError) fun block => do
          let longer := hashes ++ [← block.blockHash]
          let wider := if longer.length ≥ 10 then step * 2 else step
          locatorLoop active (63 - longer.length) (index - wider) wider longer
      else .ok hashes := by
  by_cases short : hashes.length < 63
  · obtain ⟨allowed, spare⟩ : ∃ allowed, 63 - hashes.length = allowed + 1 :=
      ⟨62 - hashes.length, by omega⟩
    have left : ∀ hash : Bytes, 63 - (hashes ++ [hash]).length = allowed := by
      intro hash
      rw [List.length_append, List.length_singleton]
      omega
    simp only [spare, locatorLoop, left, short, and_true]
    cases active[index]? with
    | none => rfl
    | some block => rfl
  · have full : 63 - hashes.length = 0 := by omega
    rw [full, locatorLoop, if_neg (fun both => short both.2)]

/-- The loop of `_block_locator` adds hashes at descending positions above the root, the
first of them at the position where it starts. -/
theorem locatorLoop_ok {active : List Block} {ids : List Bytes}
    (idsOk : active.mapM Block.blockHash = .ok ids) (allowed : Nat) :
    ∀ {index step : Nat} (hashes : List Bytes), 0 < step → index < active.length →
      ∃ positions picked, locatorLoop active allowed index step hashes = .ok (hashes ++ picked) ∧
        Descends ids positions picked ∧ (∀ position ∈ positions, 0 < position ∧ position ≤ index) ∧
        picked.length ≤ allowed ∧ (0 < allowed → 0 < index → positions.head? = some index) := by
  have each := List.forall₂_iff_get.mp (mapM_eq_ok.mp idsOk)
  induction allowed with
  | zero =>
      intro index step hashes _ _
      exact ⟨[], [], by rw [locatorLoop, List.append_nil], ⟨.nil, .nil⟩, by simp, le_rfl,
        fun none => absurd none (Nat.lt_irrefl 0)⟩
  | succ allowed ih =>
      intro index step hashes positive inside
      rw [locatorLoop]
      split
      · rename_i above
        have insideIds : index < ids.length := each.1 ▸ inside
        have hashOk : active[index].blockHash = .ok ids[index] := each.2 index inside insideIds
        rw [List.getElem?_eq_getElem inside]
        simp only [hashOk, ok_bind]
        generalize wider : (if (hashes ++ [ids[index]]).length ≥ 10 then step * 2 else step) = next
        have nextPositive : 0 < next := by
          rw [← wider]
          split
          · omega
          · exact positive
        obtain ⟨positions, picked, looped, ⟨stands, descending⟩, range, few, -⟩ :=
          @ih (index - next) next (hashes ++ [ids[index]]) nextPositive (by omega)
        refine ⟨index :: positions, ids[index] :: picked, ?_, ⟨?_, ?_⟩, ?_, ?_, fun _ _ => rfl⟩
        · rw [looped, List.append_assoc, List.singleton_append]
        · exact .cons (List.getElem?_eq_getElem insideIds) stands
        · refine List.pairwise_cons.mpr ⟨?_, descending⟩
          intro position member
          have := range position member
          omega
        · intro position member
          rcases List.mem_cons.mp member with rfl | later
          · exact ⟨above, le_rfl⟩
          · have := range position later
            omega
        · rw [List.length_cons]
          omega
      · rename_i atRoot
        exact ⟨[], [], by rw [List.append_nil], ⟨.nil, .nil⟩, by simp, Nat.zero_le _,
          fun _ above => absurd above atRoot⟩

/-- A locator of a branch: few hashes at descending positions, from its last one to its
root. -/
structure Locates (ids : List Bytes) (positions : List Nat) (hashes : List Bytes) : Prop extends
    Descends ids positions hashes where
  few : hashes.length ≤ maxBlockLocatorHashes
  tip : positions.head? = some (ids.length - 1)
  root : positions.getLast? = some 0

namespace Locates

variable {ids hashes : List Bytes} {positions : List Nat}

omit [Platform]

theorem zero_mem (locates : Locates ids positions hashes) : 0 ∈ positions :=
  List.mem_of_getLast? locates.root

theorem length_eq (locates : Locates ids positions hashes) :
    positions.length = hashes.length :=
  locates.stands.length_eq

theorem nonempty (locates : Locates ids positions hashes) : 1 ≤ hashes.length := by
  rw [← locates.length_eq]
  exact List.length_pos_of_mem locates.zero_mem

/-- The first hash is that of the tip. -/
theorem head?_eq (locates : Locates ids positions hashes) : hashes.head? = ids.getLast? := by
  obtain ⟨⟨stands, -⟩, -, tip, -⟩ := locates
  cases stands with
  | nil => cases tip
  | cons here _ =>
      rw [List.head?_cons, Option.some.injEq] at tip
      rw [tip] at here
      rw [List.head?_cons, List.getLast?_eq_getElem?, here]

/-- The last hash is that of the root. -/
theorem getLast?_eq (locates : Locates ids positions hashes) : hashes.getLast? = ids.head? := by
  have inside : positions.length - 1 < positions.length :=
    Nat.sub_one_lt_of_lt (List.length_pos_of_mem locates.zero_mem)
  have inside' : positions.length - 1 < hashes.length := locates.length_eq ▸ inside
  have here := (List.forall₂_iff_get.mp locates.stands).2 _ inside inside'
  have last := locates.root
  rw [List.getLast?_eq_getElem?, List.getElem?_eq_getElem inside, Option.some.injEq] at last
  rw [List.get_eq_getElem, List.get_eq_getElem, last] at here
  rw [List.getLast?_eq_getElem?, ← locates.length_eq, List.getElem?_eq_getElem inside', ← here,
    List.head?_eq_getElem?]

/-- No hash stands in a locator twice. -/
theorem nodup (locates : Locates ids positions hashes) (distinct : ids.Nodup) :
    hashes.Nodup := by
  obtain ⟨stands, descending⟩ := locates.toDescends
  clear locates
  induction stands with
  | nil => exact List.nodup_nil
  | @cons position hash positions hashes here others ih =>
      obtain ⟨above, rest⟩ := List.pairwise_cons.mp descending
      refine List.nodup_cons.mpr ⟨?_, ih rest⟩
      intro again
      obtain ⟨lower, member, found⟩ := Descends.position_of_mem ⟨others, rest⟩ again
      have below := above lower member
      obtain ⟨inside, -⟩ := List.getElem?_eq_some_iff.mp here
      have same := (List.getElem?_inj inside distinct).mp (here.trans found.symm)
      omega

end Locates

/-- **The locator of an active chain**, of any length, whose blocks have different hashes. -/
theorem blockLocator_ok {chain : Chain} {active : List Block} {ids : List Bytes}
    (activeOk : chain.activeChain = .ok active) (idsOk : active.mapM Block.blockHash = .ok ids)
    (nonempty : active ≠ []) (distinct : ids.Nodup) :
    ∃ hashes positions, blockLocator chain = .ok ⟨hashes⟩ ∧ Locates ids positions hashes := by
  have lengths : active.length = ids.length := (mapM_eq_ok.mp idsOk).length_eq
  obtain ⟨genesis, blocks, rfl⟩ := List.exists_cons_of_ne_nil nonempty
  obtain ⟨first, rest, rfl⟩ := List.exists_cons_of_length_pos
    (lengths ▸ Nat.succ_pos blocks.length : 0 < ids.length)
  have rootOk : genesis.blockHash = .ok first := (List.forall₂_cons.mp (mapM_eq_ok.mp idsOk)).1
  obtain ⟨positions, picked, looped, ⟨stands, descending⟩, range, few, starts⟩ :=
    @locatorLoop_ok _ _ _ idsOk 63 ((genesis :: blocks).length - 1) 1 [] Nat.one_pos
      (Nat.sub_one_lt_of_lt (Nat.succ_pos _))
  refine ⟨picked ++ [first], positions ++ [0], ?_, ⟨?_, ?_⟩, ?_, ?_, List.getLast?_concat⟩
  · rw [blockLocator, activeOk, ok_bind, looped, ok_bind]
    simp only [List.nil_append, rootOk, ok_bind]
    rw [if_pos]
    · rfl
    · -- The hash of the root stands at position 0 only, and the loop stops above it.
      intro last
      obtain ⟨position, member, found⟩ :=
        Descends.position_of_mem ⟨stands, descending⟩ (List.mem_of_getLast? last)
      have above := (range position member).1
      cases position with
      | zero => omega
      | succ position =>
          rw [List.getElem?_cons_succ] at found
          exact (List.nodup_cons.mp distinct).1 (List.mem_of_getElem? found)
  · exact List.rel_append stands (.cons rfl .nil)
  · refine List.pairwise_append.mpr ⟨descending, List.pairwise_singleton _ _, ?_⟩
    intro position member below belowMem
    rw [List.mem_singleton.mp belowMem]
    exact (range position member).1
  · rw [List.length_append, List.length_singleton, maxBlockLocatorHashes]
    omega
  · rw [← lengths]
    rcases Nat.eq_zero_or_pos ((genesis :: blocks).length - 1) with alone | longer
    · -- A chain that is only its root: the loop adds nothing.
      rw [alone] at range ⊢
      cases positions with
      | nil => rfl
      | cons position _ =>
          have := range position List.mem_cons_self
          omega
    · rw [List.head?_append, starts (by decide) longer]
      rfl

omit [Platform] in
/-- A locator of hashes that is not too long has an encoding. -/
theorem BlockLocator.exists_toBytes {hashes : List Bytes} (nonempty : hashes ≠ [])
    (few : hashes.length ≤ maxBlockLocatorHashes)
    (lengths : ∀ hash ∈ hashes, hash.length = hashLength) :
    ∃ payload, BlockLocator.toBytes ⟨hashes⟩ = .ok payload := by
  obtain ⟨domain, domainOk⟩ : ∃ written, encodeBytes locatorDomain = .ok written :=
    exists_encodeBytes (by decide)
  have hashesOk : (hashes.mapM fun value => exactBytes value hashLength "locator hash") =
      .ok (hashes.map id) :=
    mapM_eq_map fun value member => exactBytes_eq_ok.mpr ⟨lengths value member, rfl⟩
  obtain ⟨body, bodyOk⟩ : ∃ written, encodeSequence (hashes.map id) = .ok written := by
    rw [List.map_id]
    apply exists_encodeSequence _ (fun hash member => (lengths hash member).le) (by decide)
    rw [maxBlockLocatorHashes] at few
    rw [u32Max]
    omega
  simp only [toBytes, bind_eq_ok, raiseIf_eq_ok, exists_const, not_not, pure_eq_ok]
  exact ⟨_, ⟨List.length_pos_iff.mpr nonempty, few⟩, domain, domainOk, _, hashesOk, body, bodyOk,
    rfl⟩

namespace Chain

variable {chain sender receiver : Chain}

/-- The hashes on a branch have 32 bytes. -/
theorem Refines.length_of_mem (refines : chain.Refines) {path : List (Bytes × ChainEntry)}
    {tip hash : Bytes} (lineage : chain.Lineage tip path) (member : hash ∈ path.map Prod.fst) :
    hash.length = hashLength := by
  obtain ⟨⟨_, entry⟩, inPath, rfl⟩ := List.mem_map.mp member
  obtain ⟨path', branch, ends⟩ := refines.exists_branch (lineage.find_of_mem inPath)
  exact BlockHeader.length_blockHash ends.hash_ok

/-- **A locator descends from the tip to the genesis block**, and fits its message. -/
theorem Refines.blockLocator_ok (refines : chain.Refines) {path : List (Bytes × ChainEntry)}
    {branch : BranchState} (ends : chain.BranchTo chain.activeTipHash chain.tipEntry path branch) :
    ∃ hashes positions, blockLocator chain = .ok ⟨hashes⟩ ∧
      Locates (path.map Prod.fst) positions hashes ∧ genesisHash ∈ hashes := by
  obtain ⟨root, rest, rfl, -⟩ := refines.exists_head ends
  have activeOk := Reachable.activeChain_eq ends
  have idsOk := activeHashes_eq refines ends.lineage
  rw [activeHashes, activeOk, ok_bind] at idsOk
  obtain ⟨hashes, positions, located, locates⟩ :=
    OurCoin.blockLocator_ok activeOk idsOk (List.cons_ne_nil _ _) ends.lineage.nodup
  refine ⟨hashes, positions, located, locates, List.mem_of_getLast? ?_⟩
  rw [locates.getLast?_eq]
  rfl

/-- The entry at a position of a branch has this height. -/
theorem Refines.height_of_position (refines : chain.Refines) {path : List (Bytes × ChainEntry)}
    {tip : Bytes} (lineage : chain.Lineage tip path) {position : Nat} {hash : Bytes}
    (here : (path.map Prod.fst)[position]? = some hash) : ∃ entry,
      path = path.take position ++ (hash, entry) :: path.drop (position + 1) ∧
      chain.entries.get? hash = some entry ∧ entry.record.height = position := by
  rw [List.getElem?_map, Option.map_eq_some_iff] at here
  obtain ⟨⟨_, entry⟩, found, rfl⟩ := here
  obtain ⟨inside, isItem⟩ := List.getElem?_eq_some_iff.mp found
  have split : path =
      path.take position ++ (path[position].1, entry) :: path.drop (position + 1) := by
    have item : (path[position].1, entry) = path[position] := by rw [isItem]
    rw [item, List.cons_getElem_drop_succ, List.take_append_drop]
  rw [isItem] at split
  refine ⟨entry, split, lineage.find_of_mem (List.mem_of_getElem? found), ?_⟩
  have height := refines.countsHeights lineage split
  rw [height, List.length_take_of_le inside.le]

/-- What the locator of a chain says about its active blocks, with the heights of its
hashes. -/
structure LocatesActive (chain : Chain) (active : List Block) (heights : List Nat)
    (locator : BlockLocator) : Prop where
  active_eq : chain.activeChain = .ok active
  located : blockLocator chain = .ok locator
  size : 1 ≤ locator.hashes.length ∧ locator.hashes.length ≤ 64
  stands : List.Forall₂ (fun (height : Nat) (hash : Bytes) => ∃ block,
    active[height]? = some block ∧ block.header.height = height ∧ block.blockHash = .ok hash)
    heights locator.hashes
  descending : heights.Pairwise (· > ·)
  tip : locator.hashes.head? = some chain.activeTipHash
  genesis : locator.hashes.getLast? = some genesisHash
  once : locator.hashes.count genesisHash = 1
  encodes : ∃ payload, locator.toBytes = .ok payload

/-- **The locator of every active chain** is short, descends from the tip to the genesis
block and fits its message, and it has a hash in common with the locator of every other
node. -/
theorem Reachable.locatesActive {chain : Chain} (reachable : chain.Reachable) :
    ∃ active heights locator, LocatesActive chain active heights locator ∧
      ∀ other : Chain, other.Reachable → ∃ theirs, blockLocator other = .ok theirs ∧
        ∃ hash ∈ locator.hashes, hash ∈ theirs.hashes := by
  have refines := reachable.refines
  obtain ⟨path, branch, ends⟩ := refines.exists_branch chain.tipEntry_stored
  obtain ⟨hashes, heights, located, locates, rooted⟩ := refines.blockLocator_ok ends
  refine ⟨pathBlocks path, heights, ⟨hashes⟩, ?_, ?_⟩
  · have last : hashes.getLast? = some genesisHash := by
      obtain ⟨root, rest, isPath, -⟩ := refines.exists_head ends
      rw [locates.getLast?_eq, isPath]
      rfl
    refine ⟨Reachable.activeChain_eq ends, located, ⟨locates.nonempty, locates.few⟩, ?_,
      locates.descending, ?_, last, ?_, ?_⟩
    · refine locates.stands.imp ?_
      intro height hash here
      obtain ⟨entry, isPath, stored, heightEq⟩ := refines.height_of_position ends.lineage here
      have isBlock : (pathBlocks path)[height]? = some entry.block := by
        have inside : height < path.length := by
          obtain ⟨inside, -⟩ := List.getElem?_eq_some_iff.mp here
          rwa [List.length_map] at inside
        rw [isPath, pathBlocks, List.map_append, List.map_cons, List.getElem?_append_right]
        · rw [List.length_map, List.length_take_of_le inside.le, Nat.sub_self]
          rfl
        · rw [List.length_map, List.length_take_of_le inside.le]
      exact ⟨entry.block, isBlock, (refines.header_height stored).1.trans heightEq,
        refines.blockHash_ok stored⟩
    · obtain ⟨front, isPath⟩ := ends.exists_last
      rw [locates.head?_eq, isPath, List.map_append, List.map_singleton, List.getLast?_concat]
    · exact List.count_eq_one_of_mem (locates.nodup ends.lineage.nodup) rooted
    · exact BlockLocator.exists_toBytes (List.ne_nil_of_mem rooted) locates.few
        fun hash member => refines.length_of_mem ends.lineage (locates.mem_of_mem member)
  · intro other reachable'
    have refines' := reachable'.refines
    obtain ⟨path', branch', ends'⟩ := refines'.exists_branch other.tipEntry_stored
    obtain ⟨hashes', -, located', -, rooted'⟩ := refines'.blockLocator_ok ends'
    exact ⟨⟨hashes'⟩, located', genesisHash, rooted, rooted'⟩

omit [Platform] in
/-- The locator of a chain of three blocks and a side branch. -/
theorem locatesActive_branched : Payer.branchedChain.activeTipHash = Payer.transfersHash ∧
    ∃ active heights locator,
      @LocatesActive trustingPlatform Payer.branchedChain active heights locator ∧
      ∀ other : Chain, @Reachable trustingPlatform other →
        ∃ theirs, @blockLocator trustingPlatform other = .ok theirs ∧
          ∃ hash ∈ locator.hashes, hash ∈ theirs.hashes :=
  ⟨Payer.branchedChain_tip.1,
    @Reachable.locatesActive trustingPlatform _ Payer.branchedChain_reachable⟩

/-! ## The answer -/

omit [Platform] in
/-- A hash of the active chain has one position. -/
theorem get?_positions {ids : List Bytes} (nodup : ids.Nodup) {hash : Bytes} {position : Nat} :
    (Dict.ofItems ids.zipIdx).get? hash = some position ↔ ids[position]? = some hash := by
  have keys : (ids.zipIdx.map Prod.fst).Nodup := by
    rwa [List.zipIdx_map_fst]
  rw [Dict.get?_eq_some, Dict.items_ofItems keys, List.mem_zipIdx_iff_getElem?]

/-- **An answer follows the first hash of the locator that is active**, and there is one as
soon as the locator holds the genesis hash. -/
theorem Refines.blocksAfter_ok (refines : chain.Refines) {path : List (Bytes × ChainEntry)}
    {branch : BranchState} (ends : chain.BranchTo chain.activeTipHash chain.tipEntry path branch)
    {hashes : List Bytes} (rooted : genesisHash ∈ hashes) :
    ∃ before hash after common, hashes = before ++ hash :: after ∧
      (path.map Prod.fst)[common]? = some hash ∧
      (∀ earlier ∈ before, earlier ∉ path.map Prod.fst) ∧
      blocksAfter chain ⟨hashes⟩ =
        .ok (some (((pathBlocks path).drop (common + 1)).take maxBlocksPerResponse)) := by
  have nodup := ends.lineage.nodup
  have activeOk := Reachable.activeChain_eq ends
  have idsOk := activeHashes_eq refines ends.lineage
  rw [activeHashes, activeOk, ok_bind] at idsOk
  obtain ⟨root, rest, isPath, -⟩ := refines.exists_head ends
  obtain ⟨common, found⟩ : ∃ common, hashes.findSome?
      (Dict.ofItems (path.map Prod.fst).zipIdx).get? = some common := by
    apply Option.isSome_iff_exists.mp
    rw [List.findSome?_isSome_iff]
    refine ⟨genesisHash, rooted, ?_⟩
    have first : (path.map Prod.fst)[0]? = some genesisHash := by
      rw [isPath]
      rfl
    rw [(get?_positions nodup).mpr first]
    rfl
  obtain ⟨before, hash, after, split, here, missed⟩ := List.findSome?_eq_some_iff.mp found
  refine ⟨before, hash, after, common, split, (get?_positions nodup).mp here, ?_, ?_⟩
  · intro earlier member active
    obtain ⟨position, found'⟩ := List.mem_iff_getElem?.mp active
    have absent := missed earlier member
    rw [(get?_positions nodup).mpr found'] at absent
    cases absent
  · rw [blocksAfter, activeOk, ok_bind, idsOk, ok_bind]
    dsimp only
    rw [found]
    rfl

/-- The hash that an answer follows is the highest one that both nodes know as active. -/
theorem Refines.le_common (refines : sender.Refines) (refines' : receiver.Refines)
    (apart : ¬ sender.Collide receiver) {tip tip' : Bytes} {path path' : List (Bytes × ChainEntry)}
    (lineage : sender.Lineage tip path) (lineage' : receiver.Lineage tip' path')
    {before after : List Bytes} {positions : List Nat} {hash : Bytes} {common : Nat}
    (descends : Descends (path'.map Prod.fst) positions (before ++ hash :: after))
    (here : (path.map Prod.fst)[common]? = some hash)
    (missed : ∀ earlier ∈ before, earlier ∉ path.map Prod.fst) :
    ∀ position other, (path.map Prod.fst)[position]? = some other →
      other ∈ before ++ hash :: after → position ≤ common := by
  -- A hash that both chains store stands at one height.
  have samePosition : ∀ {hash : Bytes} {position position' : Nat},
      (path.map Prod.fst)[position]? = some hash → (path'.map Prod.fst)[position']? = some hash →
        position = position' := by
    intro hash position position' found found'
    obtain ⟨entry, -, stored, height⟩ := refines.height_of_position lineage found
    obtain ⟨entry', -, stored', height'⟩ := refines'.height_of_position lineage' found'
    have same := refines.entry_eq_of_shared refines' apart stored stored'
    subst same
    omega
  obtain ⟨position', standsAt, below⟩ := descends.lt_of_split
  intro position other found member
  rcases List.mem_append.mp member with earlier | rest
  · exact absurd (List.mem_of_getElem? found) (missed other earlier)
  · rcases List.mem_cons.mp rest with rfl | lower
    · rw [samePosition found standsAt, samePosition here standsAt]
    · obtain ⟨position'', less, found''⟩ := below other lower
      rw [samePosition found found'', samePosition here standsAt]
      exact less.le

/-! ## Handling the answer -/

/-- A chain handles blocks in order: each of them is known, or accepted. -/
inductive Handles : Chain → List Block → Chain → Prop
  | nil (chain : Chain) : Handles chain [] chain
  | known {chain after : Chain} {block : Block} {rest : List Block} {hash : Bytes} :
      block.blockHash = .ok hash → chain.contains hash = true → Handles chain rest after →
        Handles chain (block :: rest) after
  | accepted {chain next after : Chain} {block : Block} {rest : List Block} {hash : Bytes}
      {update : ChainUpdate} : block.blockHash = .ok hash → chain.contains hash = false →
        chain.addBlock block = (.ok update, next) → Handles next rest after →
        Handles chain (block :: rest) after

/-- What is hashed for the entries after an addition was hashed for the entries before it, or
for the added block. -/
theorem HashInput.of_addBlock (refines : chain.Refines) {block : Block} {input : Bytes}
    (hashed : (chain.addBlock block).2.HashInput input) :
    chain.HashInput input ∨ block.HashInput input := by
  obtain ⟨hash, entry, stored, hashed⟩ := hashed
  cases outcome : (chain.addBlock block).1 with
  | error e =>
      rw [refines.addBlock_error outcome] at stored
      exact .inl ⟨hash, entry, stored, hashed⟩
  | ok update =>
      obtain ⟨added, -, items, isBlock, -, -⟩ := refines.addBlock_ok outcome
      rw [Dict.get?_eq_some, items] at stored
      rcases List.mem_append.mp stored with old | new
      · exact .inl ⟨hash, entry, Dict.get?_eq_some.mpr old, hashed⟩
      · rw [List.mem_singleton, Prod.mk.injEq] at new
        rw [new.2, isBlock] at hashed
        exact .inr hashed

/-- **A chain that has the parent handles a run of another chain.** -/
theorem Refines.exists_handles (refines : sender.Refines) {tip : Bytes}
    {path : List (Bytes × ChainEntry)} (lineage : sender.Lineage tip path)
    {run : List (Bytes × ChainEntry)} :
    ∀ {front back : List (Bytes × ChainEntry)} {hash : Bytes} {entry : ChainEntry}
      {receiver : Chain}, path = front ++ (hash, entry) :: run ++ back → receiver.Refines →
      ¬ sender.Collide receiver → receiver.contains hash = true →
      ∃ after, receiver.Handles (pathBlocks run) after := by
  induction run with
  | nil => exact fun _ _ _ _ => ⟨_, .nil _⟩
  | cons item run ih =>
      intro front back hash entry receiver split refines' apart known
      obtain ⟨next, nextEntry⟩ := item
      have split' : path = (front ++ [(hash, entry)]) ++ (next, nextEntry) :: run ++ back := by
        rw [split]
        simp
      obtain ⟨branch, ends⟩ := refines.of_prefix lineage
        (split'.trans (by rw [List.append_assoc, List.cons_append]))
      -- The block before the run is the parent of its first one.
      have parent : nextEntry.block.header.previousBlockHash = hash := by
        rcases ends.exists_parent refines with ⟨isRoot, -⟩ |
          ⟨front', parent, earlier, split'', -, parentEnds⟩
        · have alone := congrArg List.length isRoot
          simp at alone
        · obtain ⟨before, parent', isFront, -⟩ := parentEnds.lineage.exists_last
          have same := List.append_inj' split'' rfl
          rw [isFront] at same
          have last := (List.append_inj' same.1 rfl).2
          simp only [List.cons.injEq, Prod.mk.injEq, and_true] at last
          exact last.1.symm
      cases stored : receiver.contains next with
      | true =>
          obtain ⟨after, handles⟩ := ih split' refines' apart stored
          exact ⟨after, .known ends.hash_ok stored handles⟩
      | false =>
          have newOk := refines.newEntry_of_shared refines' apart ends.stored stored
            (parent ▸ known)
          have grows := (refines'.addBlock_grows nextEntry.block).1
          have stillApart : ¬ sender.Collide (receiver.addBlock nextEntry.block).2 := by
            rintro ⟨x, y, xHashed, yHashed, differ, same⟩
            have before : ∀ {z : Bytes},
                sender.HashInput z ∨ (receiver.addBlock nextEntry.block).2.HashInput z →
                sender.HashInput z ∨ receiver.HashInput z := by
              intro z hashed
              rcases hashed with theirs | ours
              · exact .inl theirs
              · rcases HashInput.of_addBlock refines' ours with old | new
                · exact .inr old
                · exact .inl ⟨next, nextEntry, ends.stored, new⟩
            exact apart ⟨x, y, before xHashed, before yHashed, differ, same⟩
          cases outcome : receiver.addBlock nextEntry.block with
          | mk result grown =>
              cases result with
              | error e =>
                  rcases refines'.addBlock_cases nextEntry.block with ⟨e', refused, -⟩ |
                    ⟨added, -, -, run⟩ | ⟨added, _, _, _, _, -, -, -, run⟩
                  · rw [newOk] at refused
                    cases refused
                  · rw [outcome] at run
                    cases run
                  · rw [outcome] at run
                    cases run
              | ok update =>
                  have refinesNext := refines'.addBlock nextEntry.block
                  obtain ⟨added, newOk', kept, -⟩ :=
                    refines'.addBlock_work (congrArg Prod.fst outcome)
                  rw [newOk] at newOk'
                  cases newOk'
                  have named : nextEntry.record.blockHash = next := by
                    rw [ends.entry_eq]
                    rfl
                  rw [outcome] at refinesNext stillApart kept
                  obtain ⟨after, handles⟩ := ih split' refinesNext stillApart
                    (contains_eq_true.mpr ⟨nextEntry, named ▸ kept⟩)
                  exact ⟨after, .accepted ends.hash_ok stored outcome handles⟩

end Chain

/-! ## On a connection -/

/-- A node without a database submits what its chain accepts. -/
theorem LocalNode.Invariant.submitBlock_inMemory {node : LocalNode} (inv : node.Invariant)
    (inMemory : node.storage = none) {block : Block} {update : ChainUpdate} {next : Chain}
    (added : node.chain.addBlock block = (.ok update, next)) (faults : List Transactions.Fault) :
    ∃ mempool, node.submitBlock block faults = (.ok update, ⟨next, mempool, none⟩) := by
  rcases inv.submitBlock_cases block faults with ⟨e, outcome⟩ |
    ⟨entry, storage, -, run, persists, outcome⟩ |
    ⟨entry, meeting, common, left, right, mempool, storage, state, -, run, -, persists, -, -, -,
      outcome⟩
  · -- A submission that raises leaves the chain as it was, but this one was extended.
    exfalso
    have extended : (node.submitBlock block faults).2.chain = next := by
      rw [LocalNode.submitBlock, inMemory]
      dsimp only
      rw [added]
      dsimp only
      unfold LocalNode.finishSubmit
      split
      · rfl
      · split
        · rfl
        · rfl
    rw [outcome] at extended
    obtain ⟨entry, -, items, -⟩ :=
      inv.chain_reachable.refines.addBlock_ok (congrArg Prod.fst added)
    rw [added, ← extended] at items
    have longer := congrArg List.length items
    simp at longer
  · rw [added] at run
    cases run
    rw [inMemory] at persists
    rw [outcome, show storage = none from persists]
    exact ⟨node.mempool, rfl⟩
  · rw [added] at run
    cases run
    rw [inMemory] at persists
    rw [outcome, show storage = none from persists]
    exact ⟨mempool, rfl⟩

namespace Session

/-- `_handle_block` for the blocks of an answer, as they arrive. -/
def handleBlocks (now : Time) : List Block → Action Unit
  | [] => pure ()
  | block :: rest => do
    handleBlock block now []
    handleBlocks now rest

/-- The peer was not penalized, and nothing was sent to it. -/
structure Unanswered (before after : Session) : Prop where
  score : after.connection.score = before.connection.score
  written : after.connection.written = before.connection.written

/-- An accepted block is broadcast to the other peers. -/
theorem handleBlock_accepted {session : Session} (inv : session.node.localNode.Invariant)
    (inMemory : session.node.localNode.storage = none) {block : Block} {hash : Bytes}
    {update : ChainUpdate} {next : Chain} (hashOk : block.blockHash = .ok hash)
    (missing : session.node.localNode.chain.contains hash = false)
    (added : session.node.localNode.chain.addBlock block = (.ok update, next)) (now : Time) :
    ∃ after, handleBlock block now [] session = (.ok (), after) ∧
      after.node.localNode.Invariant ∧ after.node.localNode.storage = none ∧
      after.node.localNode.chain = next ∧ session.Unanswered after := by
  obtain ⟨mempool, submitted⟩ := inv.submitBlock_inMemory inMemory added []
  have inv' := inv.submitBlock block []
  rw [submitted] at inv'
  -- The block is stored, so it fits its message.
  obtain ⟨payload, encodes⟩ : ∃ payload, encodeBlock block = .ok payload := by
    have refines := inv.chain_reachable.refines
    obtain ⟨entry, -, items, isBlock, -⟩ := refines.addBlock_ok (congrArg Prod.fst added)
    have refines' := refines.addBlock block
    have stored : (session.node.localNode.chain.addBlock block).2.entries.get?
        entry.record.blockHash = some entry := by
      rw [Dict.get?_eq_some, items]
      simp
    obtain ⟨payload, encodes, -⟩ := (refines'.inRange stored).relayable.envelope
    exact ⟨payload, isBlock ▸ encodes⟩
  rw [handleBlock, bind_apply, lift_apply, hashOk]
  dsimp only
  rw [bind_of_ok (read_apply _ _), missing, if_neg (by simp), trying, submitBlock, submitted]
  dsimp only
  rw [bind_of_ok (onConnection_apply _ _), bind_apply, lift_apply, encodes]
  dsimp only
  rw [noteAcceptedBlock_eq]
  exact ⟨_, rfl, inv', rfl, rfl, rfl, rfl⟩

/-- **A node handles what its chain handles**: it asks for nothing, and rejects nothing. -/
theorem handleBlocks_handles {before after : Chain} {blocks : List Block}
    (handles : before.Handles blocks after) (now : Time) :
    ∀ {session : Session}, session.node.localNode.Invariant →
      session.node.localNode.storage = none → session.node.localNode.chain = before →
      ∃ session', handleBlocks now blocks session = (.ok (), session') ∧
        session'.node.localNode.chain = after ∧ session.Unanswered session' := by
  induction handles with
  | nil =>
      intro session _ _ here
      exact ⟨session, rfl, here, rfl, rfl⟩
  | @known chain after block rest hash hashOk known _ ih =>
      intro session inv inMemory here
      obtain ⟨session', handled, there, unanswered⟩ := ih inv inMemory here
      refine ⟨session', ?_, there, unanswered⟩
      have skipped : handleBlock block now [] session = (.ok (), session) := by
        rw [handleBlock, bind_apply, lift_apply, hashOk]
        dsimp only
        rw [bind_of_ok (read_apply _ _), here, known, if_pos rfl, pure_apply]
      rw [handleBlocks, bind_of_ok skipped]
      exact handled
  | @accepted chain next after block rest hash update hashOk missing added _ ih =>
      intro session inv inMemory here
      subst here
      obtain ⟨middle, first, inv', inMemory', next_eq, score, written⟩ :=
        handleBlock_accepted inv inMemory hashOk missing added now
      obtain ⟨session', handled, there, unanswered⟩ := ih inv' inMemory' next_eq
      refine ⟨session', ?_, there, unanswered.score.trans score, unanswered.written.trans written⟩
      rw [handleBlocks, bind_of_ok first]
      exact handled

end Session

/-! ## Requests and answers -/

/-- The answer of one chain to the locator of another: the locator that arrives, the active
chain of the sender with its hashes, the position that the answer follows, and the blocks. -/
structure GetBlocksConnect (sender receiver : Chain) (locator : BlockLocator) (active : List Block)
    (ids : List Bytes) (common : Nat) (blocks : List Block) : Prop where
  located : blockLocator receiver = .ok locator
  arrives : ∃ payload, locator.toBytes = .ok payload ∧ BlockLocator.fromBytes payload = .ok locator
  active_eq : sender.activeChain = .ok active
  ids_eq : sender.activeHashes = .ok ids
  /-- The branch without a common ancestor is not taken. -/
  answers : ∀ (session : Session) (now : Time), session.node.localNode.chain = sender →
    Session.sendBlocks locator now session = (.ok (some blocks), session)
  matches_locator : ∃ hash ∈ locator.hashes, ids[common]? = some hash
  /-- The blocks are a run of the active chain. -/
  blocks_eq : blocks = (active.drop (common + 1)).take 128
  few : blocks.length ≤ 128
  reaches_tip : active.length ≤ common + 1 + 128 → active = active.take (common + 1) ++ blocks
  /-- The run starts above the highest hash of the locator. -/
  highest : ¬ sender.Collide receiver → ∀ position hash, ids[position]? = some hash →
    hash ∈ locator.hashes → position ≤ common
  handled : ¬ sender.Collide receiver → ∃ after, receiver.Handles blocks after ∧
    ∀ (session : Session) (now : Time), session.node.localNode.Invariant →
      session.node.localNode.storage = none → session.node.localNode.chain = receiver →
      ∃ session', Session.handleBlocks now blocks session = (.ok (), session') ∧
        session'.node.localNode.chain = after ∧ session.Unanswered session'

/-- **Answers to GET_BLOCKS connect**: they follow a block that the receiver has, and it
accepts every block of them that it does not know, unless SHA-256 collides on what was
hashed for the blocks of the two chains. -/
theorem getBlocks_connects {sender receiver : Chain} (reachable : sender.Reachable)
    (reachable' : receiver.Reachable) : ∃ locator active ids common blocks,
      GetBlocksConnect sender receiver locator active ids common blocks := by
  have refines := reachable.refines
  have refines' := reachable'.refines
  obtain ⟨path, branch, ends⟩ := refines.exists_branch sender.tipEntry_stored
  obtain ⟨path', branch', ends'⟩ := refines'.exists_branch receiver.tipEntry_stored
  obtain ⟨hashes, positions, located, ⟨descends, few, -⟩, rooted⟩ := refines'.blockLocator_ok ends'
  obtain ⟨before, hash, after, common, split, here, missed, answer⟩ :=
    refines.blocksAfter_ok ends rooted
  have member : hash ∈ hashes := by
    rw [split]
    simp
  refine ⟨⟨hashes⟩, pathBlocks path, path.map Prod.fst, common, _, located, ?_,
    Chain.Reachable.activeChain_eq ends, Chain.activeHashes_eq refines ends.lineage, ?_,
    ⟨hash, member, here⟩, rfl, List.length_take_le _ _, ?_, ?_, ?_⟩
  · obtain ⟨payload, encodes⟩ := BlockLocator.exists_toBytes (List.ne_nil_of_mem member) few
      fun hash member => refines'.length_of_mem ends'.lineage (descends.mem_of_mem member)
    exact ⟨payload, encodes, BlockLocator.fromBytes_toBytes encodes⟩
  · intro session now isSender
    rw [Session.sendBlocks, bind_of_ok (read_apply _ _), isSender, bind_apply, lift_apply, answer]
    rfl
  · intro short
    have whole : ((pathBlocks path).drop (common + 1)).take 128 =
        (pathBlocks path).drop (common + 1) := by
      apply List.take_of_length_le
      rw [List.length_drop]
      omega
    rw [whole, List.take_append_drop]
  · intro apart
    subst split
    exact refines.le_common refines' apart ends.lineage ends'.lineage descends here missed
  · intro apart
    obtain ⟨entry, isPath, -⟩ := refines.height_of_position ends.lineage here
    obtain ⟨position, positionMem, known⟩ := descends.position_of_mem member
    obtain ⟨entry', -, stored', -⟩ := refines'.height_of_position ends'.lineage known
    have run : path = path.take common ++
        (hash, entry) :: ((path.drop (common + 1)).take 128) ++
          (path.drop (common + 1)).drop 128 := by
      rw [List.append_assoc, List.cons_append, List.take_append_drop]
      exact isPath
    obtain ⟨after, handles⟩ := refines.exists_handles ends.lineage run refines' apart
      (Chain.contains_eq_true.mpr ⟨entry', stored'⟩)
    rw [pathBlocks, List.map_take, List.map_drop] at handles
    exact ⟨after, handles, fun session now inv inMemory isReceiver =>
      Session.handleBlocks_handles handles now inv inMemory isReceiver⟩

omit [Platform] in
/-- The chain with the first block answers the genesis chain. -/
theorem getBlocks_connects_first : ∃ locator active ids common blocks,
    @GetBlocksConnect asciiPlatform LocalNode.firstNode.chain genesisChain locator active ids common
      blocks := by
  have started := @Chain.init_testnet asciiPlatform
  have inv := @LocalNode.Reachable.invariant asciiPlatform _ LocalNode.firstNode_reachable
  have grown := @LocalNode.Invariant.chain_reachable asciiPlatform _ inv
  exact @getBlocks_connects asciiPlatform _ _ grown (@Chain.Reachable.init asciiPlatform _ started)

end OurCoin
