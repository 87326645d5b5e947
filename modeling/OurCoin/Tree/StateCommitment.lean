import OurCoin.Ledger.Failures
import OurCoin.Tree.Commitment

/-!
# What a state root commits to

The state root is the root of a tree over the accounts, sorted by address. Odd levels are
completed by a copy of their last node, so the root of an arbitrary list does not tell how often
its last part is repeated. The leaves of a state are distinct, because an address occurs once and
its leaf determines it (`AccountState.leafBytes_injective`), and no string that is hashed for a
leaf is one hashed for an inner node or for the empty tree. So the root determines the sorted
list of accounts, and the accounts determine the root (`AccountState.stateRoot_eq_iff`).
-/

set_option autoImplicit false

namespace OurCoin

open Raising MerkleTree

/-- Different elements have different images, so a list without repetitions keeps none. -/
theorem nodup_of_mapM_eq_ok {α β : Type} {f : α → Except Raised β} : ∀ {xs : List α} {ys : List β},
    xs.mapM f = .ok ys → xs.Nodup →
      (∀ x ∈ xs, ∀ x' ∈ xs, ∀ y, f x = .ok y → f x' = .ok y → x = x') → ys.Nodup
  | [], ys, mapped, _, _ => by
      cases mapped
      exact List.nodup_nil
  | x :: xs, ys, mapped, nodup, injective => by
      rw [List.mapM_cons] at mapped
      simp only [bind_eq_ok, pure_eq_ok] at mapped
      obtain ⟨y, yOk, rest, restOk, rfl⟩ := mapped
      rw [List.nodup_cons] at nodup ⊢
      constructor
      · intro repeated
        obtain ⟨x', member, sameOk⟩ := (mem_of_mapM_eq_ok restOk).mp repeated
        have same := injective x List.mem_cons_self x' (List.mem_cons_of_mem _ member) y yOk sameOk
        exact nodup.1 (same ▸ member)
      · exact nodup_of_mapM_eq_ok restOk nodup.2 fun x' member x'' member' =>
          injective x' (List.mem_cons_of_mem _ member) x'' (List.mem_cons_of_mem _ member')

/-- A 64-bit number is determined by its bytes. -/
theorem encodeU64_injective {first second : Int} {written : Bytes}
    (firstOk : encodeU64 first = .ok written) (secondOk : encodeU64 second = .ok written) :
    first = second := by
  have fits : ∀ {value : Int}, 0 ≤ value → value ≤ u64Max → value.toNat < 256 ^ 8 := by
    intro value nonneg small
    rw [u64Max] at small
    omega
  obtain ⟨range, rfl⟩ := encodeUnsigned_eq_ok.mp firstOk
  obtain ⟨range', same⟩ := encodeUnsigned_eq_ok.mp secondOk
  have values := BigEndian.toBytes_injective (fits range'.1 range'.2) (fits range.1 range.2) same
  omega

variable [Platform]

namespace AccountState

/-! ## Leaves -/

/-- The bytes that are hashed for the leaf of an account. -/
def leafBytes (address : Text) (account : Account) : Except Raised Bytes := do
  return (← encodeBytes stateLeafDomain) ++ (← encodeText address) ++
    (← encodeU64 account.balanceAtoms) ++ (← encodeU64 account.nonce)

theorem stateLeaf_eq_ok {address : Text} {account : Account} {digest : Bytes} :
    stateLeaf address account = .ok digest ↔
      ∃ input, leafBytes address account = .ok input ∧ sha256Digest input = digest := by
  simp only [stateLeaf, leafBytes, bind_eq_ok, pure_eq_ok]
  constructor
  · rintro ⟨domain, domainOk, field, fieldOk, balance, balanceOk, nonce, nonceOk, rfl⟩
    exact ⟨_, ⟨domain, domainOk, field, fieldOk, balance, balanceOk, nonce, nonceOk, rfl⟩, rfl⟩
  · rintro ⟨_, ⟨domain, domainOk, field, fieldOk, balance, balanceOk, nonce, nonceOk, rfl⟩, rfl⟩
    exact ⟨domain, domainOk, field, fieldOk, balance, balanceOk, nonce, nonceOk, rfl⟩

theorem take_leafBytes {address : Text} {account : Account} {input : Bytes}
    (written : leafBytes address account = .ok input) : input.take 4 = [0, 0, 0, 24] := by
  simp only [leafBytes, bind_eq_ok, pure_eq_ok] at written
  obtain ⟨domain, domainOk, _, -, _, -, _, -, rfl⟩ := written
  simp only [List.append_assoc]
  rw [take_of_encodeBytes domainOk]
  decide

/-- The field of an ASCII text: the length prefix and a byte for each character. -/
theorem encodeText_ascii {value : Text} (ascii : isAscii value) {field : Bytes}
    (encoded : encodeText value = .ok field) :
    field = BigEndian.toBytes 4 value.length ++ value.map UInt8.ofNat := by
  simp only [encodeText, Platform.normalizeNfc_ascii ascii, encodeUtf8_ascii ascii, ok_bind,
    encodeBytes, bind_eq_ok, raiseIf_eq_ok, exists_const, pure_eq_ok, encodeU32,
    encodeUnsigned_eq_ok, List.length_map] at encoded
  obtain ⟨-, _, ⟨-, rfl⟩, rfl⟩ := encoded
  rw [Int.toNat_natCast]

omit [Platform] in
theorem ofNat_injective_ascii {first second : Text} (ascii : isAscii first)
    (ascii' : isAscii second) (same : first.map UInt8.ofNat = second.map UInt8.ofNat) :
    first = second := by
  apply eq_of_map_eq _ same
  have small : ∀ c, c ∈ first ∨ c ∈ second → c < 256 := by
    rintro c (inFirst | inSecond)
    · exact (ascii c inFirst).trans (by decide)
    · exact (ascii' c inSecond).trans (by decide)
  intro c d cIn dIn equal
  rw [← toNat_ofNat (small c cIn), ← toNat_ofNat (small d dIn), equal]

/-- **The leaf of an account determines it**, among the addresses of one network. -/
theorem leafBytes_injective {network : NetworkConfig} {address address' : Text}
    {account account' : Account} {input : Bytes}
    (valid : isValidAddress address network = true) (valid' : isValidAddress address' network = true)
    (written : leafBytes address account = .ok input)
    (written' : leafBytes address' account' = .ok input) :
    (address, account) = (address', account') := by
  obtain ⟨hash, decoded⟩ := isValidAddress_eq_true.mp valid
  obtain ⟨hash', decoded'⟩ := isValidAddress_eq_true.mp valid'
  obtain ⟨ascii, length⟩ := decodeAddress_shape decoded
  obtain ⟨ascii', length'⟩ := decodeAddress_shape decoded'
  simp only [leafBytes, bind_eq_ok, pure_eq_ok] at written written'
  obtain ⟨domain, domainOk, field, fieldOk, balance, balanceOk, nonce, nonceOk, rfl⟩ := written
  obtain ⟨_, domainOk', field', fieldOk', balance', balanceOk', nonce', nonceOk', same⟩ := written'
  rw [domainOk, Except.ok.injEq] at domainOk'
  subst domainOk'
  have fieldEq := encodeText_ascii ascii fieldOk
  have fieldEq' := encodeText_ascii ascii' fieldOk'
  have widths : ∀ {value : Int} {bytes : Bytes}, encodeU64 value = .ok bytes → bytes.length = 8 := by
    intro value bytes encoded
    obtain ⟨-, rfl⟩ := encodeUnsigned_eq_ok.mp encoded
    exact BigEndian.length_toBytes _ _
  -- The fields have the same lengths on both sides, so they are equal one by one.
  have fieldLength : field'.length = field.length := by
    rw [fieldEq, fieldEq']
    simp only [List.length_append, BigEndian.length_toBytes, List.length_map, length, length']
  simp only [List.append_assoc, List.append_cancel_left_eq] at same
  obtain ⟨fields, same⟩ := List.append_inj same fieldLength
  obtain ⟨balances, nonces⟩ := List.append_inj same ((widths balanceOk').trans (widths balanceOk).symm)
  subst balances nonces
  rw [fieldEq, fieldEq', length, length', List.append_cancel_left_eq] at fields
  have addresses := ofNat_injective_ascii ascii' ascii fields
  have accounts : account = account' := Account.ext_values
    (encodeU64_injective balanceOk balanceOk') (encodeU64_injective nonceOk nonceOk')
  rw [addresses, accounts]

/-! ## The root -/

/-- The hashed leaves of the accounts, sorted by address. -/
def leaves (state : AccountState) : Except Raised (List Bytes) :=
  state.accounts.sortedItems.mapM fun item => stateLeaf item.1 item.2

/-- The byte strings that are hashed for the state root. -/
inductive RootInput (state : AccountState) : Bytes → Prop
  | empty : state.accounts.items = [] → RootInput state emptyMerkleDomain
  | account {item : Text × Account} {input : Bytes} : item ∈ state.accounts.items →
      leafBytes item.1 item.2 = .ok input → RootInput state input
  | node {leaves : List Bytes} {pair : Bytes × Bytes} : state.leaves = .ok leaves →
      Combined merkleNode leaves pair → RootInput state (merkleNodeDomain ++ pair.1 ++ pair.2)

variable {state first second : AccountState}

theorem hashedLeaves {digests : List Bytes} (leavesOk : state.leaves = .ok digests) :
    HashedLeaves state.RootInput digests := by
  have each : ∀ digest ∈ digests, ∃ input, state.RootInput input ∧ sha256Digest input = digest ∧
      input.head? = some 0 := by
    intro digest member
    obtain ⟨item, itemMem, digestOk⟩ := (mem_of_mapM_eq_ok leavesOk).mp member
    obtain ⟨input, written, rfl⟩ := stateLeaf_eq_ok.mp digestOk
    exact ⟨input, .account (Dict.mem_sortedItems.mp itemMem) written, rfl,
      head?_of_take (take_leafBytes written)⟩
  refine ⟨?_, each, fun pair combined => .node leavesOk combined⟩
  intro digest member
  obtain ⟨input, -, rfl, -⟩ := each digest member
  exact Sha256.length_digest _

/-- Leaves determine accounts, in states of one network. -/
theorem item_eq_of_leaf (wellFormed : first.WellFormed) (wellFormed' : second.WellFormed)
    (network : first.network = second.network)
    (free : CollisionFree fun x => first.RootInput x ∨ second.RootInput x)
    {item item' : Text × Account} (member : item ∈ first.accounts.items)
    (member' : item' ∈ second.accounts.items) {digest : Bytes}
    (leafOk : stateLeaf item.1 item.2 = .ok digest) (leafOk' : stateLeaf item'.1 item'.2 = .ok digest) :
    item = item' := by
  obtain ⟨input, written, rfl⟩ := stateLeaf_eq_ok.mp leafOk
  obtain ⟨input', written', collides⟩ := stateLeaf_eq_ok.mp leafOk'
  have same := free input' input (.inr (.account member' written')) (.inl (.account member written))
    collides
  subst same
  have valid := wellFormed.addresses item.1 item.2 (Dict.get?_eq_some.mpr member)
  have valid' := wellFormed'.addresses item'.1 item'.2 (Dict.get?_eq_some.mpr member')
  rw [← network] at valid'
  exact leafBytes_injective valid valid' written written'

theorem nodup_leaves (wellFormed : state.WellFormed) (free : CollisionFree state.RootInput)
    {digests : List Bytes} (leavesOk : state.leaves = .ok digests) : digests.Nodup := by
  apply nodup_of_mapM_eq_ok leavesOk (List.Nodup.of_map _ state.accounts.sortedItems_nodupKeys)
  intro item member item' member' digest leafOk leafOk'
  exact item_eq_of_leaf wellFormed wellFormed rfl (free.mono fun x => or_self_iff.mp)
    (Dict.mem_sortedItems.mp member) (Dict.mem_sortedItems.mp member') leafOk leafOk'

/-- The root of a state with accounts is not the root of the empty tree. -/
theorem root_ne_empty {digests : List Bytes} (leavesOk : state.leaves = .ok digests)
    (nonempty : digests ≠ []) {inputs : Bytes → Prop} (within : ∀ x, state.RootInput x → inputs x)
    (empty : inputs emptyMerkleDomain) (free : CollisionFree inputs) {root : Bytes}
    (rootOk : merkleRoot digests = .ok root) : root ≠ sha256Digest emptyMerkleDomain := by
  have hashed := hashedLeaves leavesOk
  obtain ⟨height, top, reduced, reached, above⟩ :=
    @exists_height _ merkleNode _ _ nonempty (Nat.le_refl digests.length)
  rw [(merkleRoot_eq_ok nonempty rootOk).2, List.singleton_inj] at reduced
  subst reduced
  intro same
  cases height with
  | zero =>
      -- The only leaf, whose string is longer than the one byte of the empty tree.
      have member : root ∈ digests := by
        rw [Function.iterate_zero, id_eq] at reached
        rw [reached]
        exact List.mem_singleton_self root
      obtain ⟨item, itemMem, leafOk⟩ := (mem_of_mapM_eq_ok leavesOk).mp member
      obtain ⟨input, written, rfl⟩ := stateLeaf_eq_ok.mp leafOk
      have isInput := within _ (.account (Dict.mem_sortedItems.mp itemMem) written)
      have starts := take_leafBytes written
      rw [free _ _ isInput empty same] at starts
      cases starts
  | succ height =>
      rw [Function.iterate_succ_apply'] at reached
      have member : root ∈ level merkleNode ((level merkleNode)^[height] digests) := by
        rw [reached]
        exact List.mem_singleton_self root
      obtain ⟨pair, pairMem, rfl⟩ := List.mem_map.mp member
      have isInput := within _ (.node leavesOk ⟨height, above height (by omega), pairMem⟩)
      have strings := free _ _ isInput empty same
      cases strings

/-- **The state root commits to the accounts.** Two states of one network have the same root
exactly when they have the same accounts, in whatever order these were first written. On the
testnet every state has a root. -/
theorem stateRoot_eq_iff (wellFormed : first.WellFormed) (wellFormed' : second.WellFormed)
    (network : first.network = second.network)
    (free : CollisionFree fun x => first.RootInput x ∨ second.RootInput x) :
    (∀ root root', first.stateRoot = .ok root → second.stateRoot = .ok root' →
      (root = root' ↔ first.accounts.Agrees second.accounts)) ∧
    (first.network = testnet →
      (∃ root, first.stateRoot = .ok root) ∧ ∃ root', second.stateRoot = .ok root') := by
  refine ⟨?_, fun onTestnet => ⟨wellFormed.exists_stateRoot onTestnet,
    wellFormed'.exists_stateRoot (network ▸ onTestnet)⟩⟩
  intro root root' rootOk rootOk'
  obtain ⟨digests, leavesOk, rootOk⟩ := bind_eq_ok.mp rootOk
  obtain ⟨digests', leavesOk', rootOk'⟩ := bind_eq_ok.mp rootOk'
  have emptyItems : ∀ {state : AccountState}, state.leaves = .ok [] →
      state.accounts.items = [] := by
    intro state leavesOk
    have lengths := (mapM_eq_ok.mp leavesOk).length_eq
    have sorted := state.accounts.sortedItems_perm.length_eq
    exact List.length_eq_zero_iff.mp (sorted.symm.trans lengths)
  constructor
  · rintro rfl
    have sameLeaves : digests = digests' := by
      by_cases none : digests = [] <;> by_cases none' : digests' = []
      · rw [none, none']
      · subst none
        cases rootOk
        exact absurd rfl (root_ne_empty leavesOk' none' (fun x => .inr)
          (.inl (.empty (emptyItems leavesOk))) free rootOk')
      · subst none'
        cases rootOk'
        exact absurd rfl (root_ne_empty leavesOk none (fun x => .inl)
          (.inr (.empty (emptyItems leavesOk'))) free rootOk)
      · exact ((hashedLeaves leavesOk).mono fun x hashed => Or.inl hashed).eq_of_root
          ((hashedLeaves leavesOk').mono fun x hashed => Or.inr hashed) free none none'
          (nodup_leaves wellFormed (free.mono fun x => .inl) leavesOk)
          (nodup_leaves wellFormed' (free.mono fun x => .inr) leavesOk') rootOk rootOk'
    subst sameLeaves
    have sameItems : first.accounts.sortedItems = second.accounts.sortedItems := by
      apply eq_of_mapM_eq _ leavesOk leavesOk'
      intro item member item' member' digest leafOk leafOk'
      exact item_eq_of_leaf wellFormed wellFormed' network free (Dict.mem_sortedItems.mp member)
        (Dict.mem_sortedItems.mp member') leafOk leafOk'
    intro address
    refine Option.ext fun account => ?_
    rw [Dict.get?_eq_some, Dict.get?_eq_some, ← Dict.mem_sortedItems, sameItems,
      Dict.mem_sortedItems]
  · intro same
    have sameLeaves : digests = digests' := by
      rw [same.sortedItems_eq] at leavesOk
      exact Except.ok.inj (leavesOk.symm.trans leavesOk')
    subst sameLeaves
    exact Except.ok.inj (rootOk.symm.trans rootOk')

/-- The genesis miner owns ten atoms. -/
def minerState : AccountState :=
  ⟨testnet, Dict.empty.set testnetGenesisMinerAddress Account.tenAtoms, ∅⟩

omit [Platform] in
theorem minerState_wellFormed : minerState.WellFormed := by
  refine ⟨?_, fun _ member => absurd member (Finset.notMem_empty _)⟩
  intro address account found
  rw [minerState, Dict.get?_set] at found
  split at found
  · rename_i same
    subst same
    exact (by decide +kernel : isValidAddress testnetGenesisMinerAddress testnet = true)
  · cases found

/-- The leaf of the one account. -/
def minerLeaf : Bytes := BigEndian.toBytes 32 0x133a951ba4502f020566c178496d0dbd919777ec805a799ef086669415015726

omit [Platform] in
theorem minerState_leaf {item : Text × Account} (member : item ∈ minerState.accounts.items) :
    @stateLeaf asciiPlatform item.1 item.2 = .ok minerLeaf := by
  rw [List.mem_singleton.mp member]
  decide +kernel

/-- Without accounts. -/
def noAccounts : AccountState := ⟨testnet, Dict.empty, ∅⟩

omit [Platform] in
theorem noAccounts_wellFormed : noAccounts.WellFormed where
  addresses _ _ found := by cases found
  txids _ member := absurd member (Finset.notMem_empty _)

omit [Platform] in
/-- Two strings are hashed for the roots of the two states: the empty tree and the one leaf. -/
theorem minerState_collisionFree : CollisionFree fun x =>
    @RootInput asciiPlatform minerState x ∨ @RootInput asciiPlatform noAccounts x := by
  have leavesOk : @leaves asciiPlatform minerState = .ok [minerLeaf] := by decide +kernel
  have distinct : minerLeaf ≠ sha256Digest emptyMerkleDomain := by decide +kernel
  have digests : ∀ {x : Bytes},
      (@RootInput asciiPlatform minerState x ∨ @RootInput asciiPlatform noAccounts x) →
      x = emptyMerkleDomain ∨ (sha256Digest x = minerLeaf ∧
        @leafBytes asciiPlatform testnetGenesisMinerAddress Account.tenAtoms = .ok x) := by
    rintro _ ((none | @⟨item, input, member, written⟩ | @⟨digests, pair, found, combined⟩) |
      (_ | @⟨item, input, member, written⟩ | @⟨digests, pair, found, combined⟩))
    · cases none
    · obtain ⟨input', written', digest⟩ :=
        (@stateLeaf_eq_ok asciiPlatform _ _ _).mp (minerState_leaf member)
      rw [written, Except.ok.injEq] at written'
      rw [List.mem_singleton.mp member] at written
      exact .inr ⟨written' ▸ digest, written⟩
    · rw [leavesOk, Except.ok.injEq] at found
      subst found
      exact absurd combined (not_combined_singleton _ _)
    · exact .inl rfl
    · cases member
    · have none : digests = [] := by
        cases found
        rfl
      rw [none] at combined
      exact absurd combined (not_combined_nil _)
  intro x y xIn yIn same
  rcases digests xIn with rfl | ⟨xDigest, xOk⟩ <;> rcases digests yIn with rfl | ⟨yDigest, yOk⟩
  · rfl
  · exact absurd (yDigest.symm.trans same.symm) distinct
  · exact absurd (xDigest.symm.trans same) distinct
  · exact Except.ok.inj (xOk.symm.trans yOk)

omit [Platform] in
theorem stateRoot_eq_iff_miner :
    (∀ root root', @stateRoot asciiPlatform minerState = .ok root →
      @stateRoot asciiPlatform noAccounts = .ok root' →
        (root = root' ↔ minerState.accounts.Agrees noAccounts.accounts)) ∧
    (minerState.network = testnet → (∃ root, @stateRoot asciiPlatform minerState = .ok root) ∧
      ∃ root', @stateRoot asciiPlatform noAccounts = .ok root') :=
  @stateRoot_eq_iff asciiPlatform minerState noAccounts minerState_wellFormed
    noAccounts_wellFormed rfl minerState_collisionFree

end AccountState

end OurCoin
