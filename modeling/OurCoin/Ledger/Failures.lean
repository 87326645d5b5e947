import OurCoin.Ledger.Headroom
import OurCoin.Wire.Primitives

/-!
# How an execution fails

Four checks and the constructor of an account guard against overflow (`Raised.IsOverflow`).
On a state whose balances sum up to at most the maximum supply none of them fails: a batch
fails as a `StateError` (`AccountState.applyTransactions_fails`) and the validation of a block
as a `BlockError` (`validateAndExecuteBlock_fails`), with another cause. Each function is
walked through from its first line to its last one, after the functions that it calls.
-/

set_option autoImplicit false

namespace OurCoin

open Raising

/-! ## Overflow errors -/

/-- The messages of the checks against overflow. -/
def overflowMessages : List String := [
  "recipient balance exceeds uint64",
  "total transaction fees exceed uint64",
  "reward would overflow the account balance",
  "block reward plus fees exceed uint64"]

/-- An `AccountError`, or the failure of a check against overflow. -/
def Raised.IsOverflow (e : Raised) : Prop := e.cls = .accountError ∨ e.message ∈ overflowMessages

instance (e : Raised) : Decidable e.IsOverflow :=
  inferInstanceAs (Decidable (e.cls = .accountError ∨ e.message ∈ overflowMessages))

/-- A failure of one class that is not an overflow. -/
def FailsAs (cls : ErrorClass) (e : Raised) : Prop := e.cls = cls ∧ ¬ e.IsOverflow

instance (cls : ErrorClass) (e : Raised) : Decidable (FailsAs cls e) :=
  inferInstanceAs (Decidable (e.cls = cls ∧ ¬ e.IsOverflow))

/-- A `ValueError` that is not an overflow. -/
def FailsAsValue (e : Raised) : Prop := e.cls.isValueError = true ∧ ¬ e.IsOverflow

theorem FailsAs.value {cls : ErrorClass} {e : Raised} (fails : FailsAs cls e)
    (isValue : cls.isValueError = true) : FailsAsValue e :=
  ⟨fails.1 ▸ isValue, fails.2⟩

/-- A failure that gets a new message. -/
theorem FailsAs.reraised {α : Type} {caught : ErrorClass → Bool} {cls : ErrorClass}
    {message : String} {x : Except Raised α} (renamed : FailsAs cls ⟨cls, message⟩)
    (only : RaisesOnly (fun e => caught e.cls = true) x) :
    RaisesOnly (FailsAs cls) (rethrow (reraiseAs caught cls message) x) := by
  apply RaisesOnly.rethrow
  intro e raised
  rw [reraiseAs, if_pos (only e raised)]
  exact renamed

/-- A failure that is no overflow is none under another class either. -/
theorem not_isOverflow_kept {α : Type} {caught : ErrorClass → Bool} {cls : ErrorClass}
    {x : Except Raised α} (different : cls ≠ .accountError)
    (only : RaisesOnly (fun e => ¬ e.IsOverflow) x) :
    RaisesOnly (fun e => ¬ e.IsOverflow) (rethrow (reraiseSame caught cls) x) := by
  apply RaisesOnly.rethrow
  intro e raised
  rw [reraiseSame]
  split
  · rintro (account | message)
    · exact different account
    · exact only e raised (.inr message)
  · exact only e raised

/-- A failure that keeps its message. -/
theorem FailsAs.kept {α : Type} {cls cls' : ErrorClass} {x : Except Raised α}
    (different : cls' ≠ .accountError)
    (only : RaisesOnly (fun e => FailsAs cls e ∨ FailsAs cls' e) x) :
    RaisesOnly (FailsAs cls') (rethrow (reraiseSame (· == cls) cls') x) := by
  intro e raised
  have other : ¬ e.IsOverflow := not_isOverflow_kept different
    (only.mono fun _ either => either.elim And.right And.right) e raised
  refine ⟨?_, other⟩
  have renamed : RaisesOnly (fun e => e.cls = cls') (rethrow (reraiseSame (· == cls) cls') x) := by
    refine .rethrow (only.mono fun e either => ?_)
    rcases either with ⟨isClass, -⟩ | ⟨isClass, -⟩
    · rw [reraiseSame, if_pos (by simpa using isClass)]
    · rw [reraiseSame]
      split
      · rfl
      · exact isClass
  exact renamed e raised

/-! ## Addresses -/

theorem b32decode_raises (encoded : Text) :
    RaisesOnly (fun e => e.cls = .binasciiError) (b32decode encoded) := by
  intro e raised
  rw [b32decode] at raised
  split at raised
  · cases raised
    rfl
  · split at raised
    · cases raised
      rfl
    · split at raised
      · cases raised
        rfl
      · split at raised
        · cases raised
        · cases raised

theorem decodeAddress_raises (address : Text) (network : NetworkConfig) :
    RaisesOnly (fun e => e.cls = .addressError) (decodeAddress address network) := by
  rw [decodeAddress]
  refine .bind (.raiseIf rfl) fun _ _ => ?_
  refine .bind (.raiseIf rfl) fun _ _ => ?_
  refine .bind (.raiseIf rfl) fun _ _ => ?_
  refine .bind (.rethrow ?_) fun decoded _ => ?_
  · refine (b32decode_raises _).mono fun e isBinascii => ?_
    simp [reraiseAs, isBinascii]
  refine .bind (.raiseIf rfl) fun _ _ => ?_
  refine .bind (.raiseIf rfl) fun _ _ => ?_
  exact .bind (.raiseIf rfl) fun _ _ => .pure _

theorem addressFromPublicKey_raises (key : Bytes) (network : NetworkConfig) :
    RaisesOnly (fun e => e.cls = .cryptoError) (addressFromPublicKey key network) := by
  rw [addressFromPublicKey, publicKeyHash, requireBytes]
  exact .bind (.bind (.raiseIf rfl) fun _ _ => .pure _) fun _ _ => .pure _

/-! ## Encoders -/

theorem encodeU16_raises (value : Int) :
    RaisesOnly (FailsAs .encodingError) (encodeU16 value) := by
  rw [encodeU16, encodeUnsigned]
  exact .bind (.raiseIf (by decide)) fun _ _ => .pure _

theorem encodeU32_raises (value : Int) :
    RaisesOnly (FailsAs .encodingError) (encodeU32 value) := by
  rw [encodeU32, encodeUnsigned]
  exact .bind (.raiseIf (by decide)) fun _ _ => .pure _

theorem encodeU64_raises (value : Int) :
    RaisesOnly (FailsAs .encodingError) (encodeU64 value) := by
  rw [encodeU64, encodeUnsigned]
  exact .bind (.raiseIf (by decide)) fun _ _ => .pure _

theorem encodeBytes_raises (value : Bytes) :
    RaisesOnly (FailsAs .encodingError) (encodeBytes value) := by
  rw [encodeBytes]
  refine .bind (.raiseIf (by decide)) fun _ _ => ?_
  exact .bind (encodeU32_raises _) fun _ _ => .pure _

theorem exactHash_raises {name : String}
    (fine : FailsAs .blockEncodingError (blockEncodingError s!"{name} must be exactly 32 bytes"))
    (value : Bytes) : RaisesOnly (FailsAs .blockEncodingError) (exactHash value name) := by
  rw [exactHash]
  exact .bind (.raiseIf fine) fun _ _ => .pure _

theorem encodeTarget_raises (target : Int) :
    RaisesOnly (FailsAs .blockEncodingError) (encodeTarget target) := by
  rw [encodeTarget]
  exact .bind (.raiseIf (by decide)) fun _ _ => .pure _

theorem encodeUtf8_raises (value : Text) :
    RaisesOnly (FailsAs .unicodeError) (encodeUtf8 value) := by
  intro e raised
  rw [encodeUtf8] at raised
  split at raised
  · cases raised
  · cases raised
    decide

theorem merkleRoot_raises (leaves : List Bytes) :
    RaisesOnly (FailsAs .merkleError) (merkleRoot leaves) := by
  rw [merkleRoot]
  split
  · exact .of_ok rfl
  · exact .bind (.raiseIf (by decide)) fun _ _ => .pure _

/-- What the encoders of the fields raise, as a `ValueError`. -/
theorem RaisesOnly.value {α : Type} {cls : ErrorClass} {x : Except Raised α}
    (only : RaisesOnly (FailsAs cls) x) (isValue : cls.isValueError = true) :
    RaisesOnly FailsAsValue x :=
  only.mono fun _ fails => fails.value isValue

section

variable [Platform]

theorem encodeText_raises (value : Text) : RaisesOnly FailsAsValue (encodeText value) := by
  rw [encodeText]
  exact .bind (RaisesOnly.value (encodeUtf8_raises _) rfl) fun _ _ =>
    RaisesOnly.value (encodeBytes_raises _) rfl

/-- ASCII text always has UTF-8 bytes, so only their number can be refused. -/
theorem encodeText_ascii_raises {value : Text} (ascii : isAscii value) :
    RaisesOnly (FailsAs .encodingError) (encodeText value) := by
  rw [encodeText, Platform.normalizeNfc_ascii ascii, encodeUtf8_ascii ascii, ok_bind]
  exact encodeBytes_raises _

theorem Transaction.signingBytes_raises (tx : Transaction) :
    RaisesOnly FailsAsValue tx.signingBytes := by
  rw [signingBytes]
  refine .bind (RaisesOnly.value (encodeBytes_raises _) rfl) fun _ _ => ?_
  refine .bind (RaisesOnly.value (encodeU16_raises _) rfl) fun _ _ => ?_
  refine .bind (encodeText_raises _) fun _ _ => ?_
  refine .bind (RaisesOnly.value (encodeBytes_raises _) rfl) fun _ _ => ?_
  refine .bind (encodeText_raises _) fun _ _ => ?_
  refine .bind (encodeText_raises _) fun _ _ => ?_
  refine .bind (RaisesOnly.value (encodeU64_raises _) rfl) fun _ _ => ?_
  refine .bind (RaisesOnly.value (encodeU64_raises _) rfl) fun _ _ => ?_
  refine .bind (RaisesOnly.value (encodeU64_raises _) rfl) fun _ _ => ?_
  exact .bind (RaisesOnly.value (encodeU64_raises _) rfl) fun _ _ => .pure _

/-- The texts of a transaction that passed the first checks are ASCII. -/
theorem Transaction.signingBytes_ascii_raises {tx : Transaction} (chainId : isAscii tx.chainId)
    (sender : isAscii tx.senderAddress) (recipient : isAscii tx.recipientAddress) :
    RaisesOnly (FailsAs .encodingError) tx.signingBytes := by
  rw [signingBytes]
  refine .bind (encodeBytes_raises _) fun _ _ => ?_
  refine .bind (encodeU16_raises _) fun _ _ => ?_
  refine .bind (encodeText_ascii_raises chainId) fun _ _ => ?_
  refine .bind (encodeBytes_raises _) fun _ _ => ?_
  refine .bind (encodeText_ascii_raises sender) fun _ _ => ?_
  refine .bind (encodeText_ascii_raises recipient) fun _ _ => ?_
  refine .bind (encodeU64_raises _) fun _ _ => ?_
  refine .bind (encodeU64_raises _) fun _ _ => ?_
  refine .bind (encodeU64_raises _) fun _ _ => ?_
  exact .bind (encodeU64_raises _) fun _ _ => .pure _

theorem Transaction.txid_raises (tx : Transaction) : RaisesOnly FailsAsValue tx.txid := by
  rw [txid, toBytes]
  refine .bind (.bind tx.signingBytes_raises fun _ _ => ?_) fun _ _ => .pure _
  exact .bind (RaisesOnly.value (encodeBytes_raises _) rfl) fun _ _ => .pure _

theorem RewardTransaction.txid_raises (reward : RewardTransaction) :
    RaisesOnly FailsAsValue reward.txid := by
  rw [txid, toBytes]
  refine .bind ?_ fun _ _ => .pure _
  refine .bind (RaisesOnly.value (encodeBytes_raises _) rfl) fun _ _ => ?_
  refine .bind (RaisesOnly.value (encodeU16_raises _) rfl) fun _ _ => ?_
  refine .bind (encodeText_raises _) fun _ _ => ?_
  refine .bind (RaisesOnly.value (encodeU64_raises _) rfl) fun _ _ => ?_
  refine .bind (encodeText_raises _) fun _ _ => ?_
  exact .bind (RaisesOnly.value (encodeU64_raises _) rfl) fun _ _ => .pure _

theorem transactionsRoot_raises (reward : RewardTransaction) (transactions : List Transaction) :
    RaisesOnly FailsAsValue (transactionsRoot reward transactions) := by
  rw [transactionsRoot]
  refine .bind reward.txid_raises fun _ _ => ?_
  refine .bind (.mapM fun tx _ => tx.txid_raises) fun _ _ => ?_
  exact RaisesOnly.value (merkleRoot_raises _) rfl

theorem BlockHeader.blockHash_raises (header : BlockHeader) :
    RaisesOnly FailsAsValue header.blockHash := by
  rw [blockHash, toBytes]
  refine .bind ?_ fun _ _ => .pure _
  refine .bind (RaisesOnly.value (encodeBytes_raises _) rfl) fun _ _ => ?_
  refine .bind (RaisesOnly.value (encodeU16_raises _) rfl) fun _ _ => ?_
  refine .bind (encodeText_raises _) fun _ _ => ?_
  refine .bind (RaisesOnly.value (encodeU64_raises _) rfl) fun _ _ => ?_
  refine .bind (RaisesOnly.value (exactHash_raises (by decide) _) rfl) fun _ _ => ?_
  refine .bind (RaisesOnly.value (encodeBytes_raises _) rfl) fun _ _ => ?_
  refine .bind (RaisesOnly.value (exactHash_raises (by decide) _) rfl) fun _ _ => ?_
  refine .bind (RaisesOnly.value (encodeBytes_raises _) rfl) fun _ _ => ?_
  refine .bind (RaisesOnly.value (exactHash_raises (by decide) _) rfl) fun _ _ => ?_
  refine .bind (RaisesOnly.value (encodeBytes_raises _) rfl) fun _ _ => ?_
  refine .bind (RaisesOnly.value (encodeU64_raises _) rfl) fun _ _ => ?_
  refine .bind (RaisesOnly.value (encodeTarget_raises _) rfl) fun _ _ => ?_
  refine .bind (RaisesOnly.value (encodeBytes_raises _) rfl) fun _ _ => ?_
  refine .bind (RaisesOnly.value (encodeU64_raises _) rfl) fun _ _ => ?_
  exact .bind (encodeText_raises _) fun _ _ => .pure _

theorem AccountState.stateRoot_raises (state : AccountState) :
    RaisesOnly FailsAsValue state.stateRoot := by
  rw [stateRoot]
  refine .bind (.mapM fun item _ => ?_) fun _ _ => RaisesOnly.value (merkleRoot_raises _) rfl
  rw [stateLeaf]
  refine .bind (RaisesOnly.value (encodeBytes_raises _) rfl) fun _ _ => ?_
  refine .bind (encodeText_raises _) fun _ _ => ?_
  refine .bind (RaisesOnly.value (encodeU64_raises _) rfl) fun _ _ => ?_
  exact .bind (RaisesOnly.value (encodeU64_raises _) rfl) fun _ _ => .pure _

/-! ## Transactions -/

/-- **A transaction fails its own checks as a `TransactionError`.** -/
theorem validateTransaction_fails (tx : Transaction) (height : Int) (network : NetworkConfig) :
    RaisesOnly (FailsAs .transactionError) (validateTransaction tx height network) := by
  unfold validateTransaction validateU64
  refine .bind (.raiseIf (by decide)) fun _ _ => ?_
  refine .bind (.raiseIf (by decide)) fun _ _ => ?_
  refine .bind (.raiseIf (by decide)) fun _ chainOk => ?_
  refine .bind (.raiseIf (by decide)) fun _ _ => ?_
  refine .bind (.raiseIf (by decide)) fun _ _ => ?_
  refine .bind (.raiseIf (by decide)) fun _ _ => ?_
  refine .bind (.raiseIf (by decide)) fun _ _ => ?_
  refine .bind (.raiseIf (by decide)) fun _ _ => ?_
  refine .bind (.raiseIf (by decide)) fun _ _ => ?_
  refine .bind (.raiseIf (by decide)) fun _ _ => ?_
  refine .bind (.raiseIf (by decide)) fun _ _ => ?_
  refine .bind (.raiseIf (by decide)) fun _ _ => ?_
  refine .bind (FailsAs.reraised (by decide) ?_) fun expected addressesOk => ?_
  · refine .bind ((decodeAddress_raises _ _).mono fun e is => by simp [is]) fun _ _ => ?_
    refine .bind ((decodeAddress_raises _ _).mono fun e is => by simp [is]) fun _ _ => ?_
    exact (addressFromPublicKey_raises _ _).mono fun e is => by simp [is]
  refine .bind (.raiseIf (by decide)) fun _ _ => ?_
  refine .bind (FailsAs.reraised (by decide) ?_) fun signed _ => .raiseIf (by decide)
  -- All three texts are ASCII by now, so no text is without UTF-8 bytes.
  simp only [rethrow_eq_ok, bind_eq_ok] at addressesOk
  obtain ⟨_, senderOk, _, recipientOk, -⟩ := addressesOk
  rw [raiseIf_eq_ok, not_not] at chainOk
  have signing : RaisesOnly (FailsAs .encodingError) tx.signingBytes :=
    Transaction.signingBytes_ascii_raises (chainOk ▸ network.chainId_valid.2)
      (decodeAddress_shape senderOk).1 (decodeAddress_shape recipientOk).1
  have whole : RaisesOnly (FailsAs .encodingError) tx.toBytes :=
    .bind signing fun _ _ => .bind (encodeBytes_raises _) fun _ _ => .pure _
  refine .bind (signing.mono fun e fails => by simp [fails.1]) fun _ _ => ?_
  exact .bind (whole.mono fun e fails => by simp [fails.1]) fun _ _ => .pure _

namespace AccountState

variable {state : AccountState}

theorem validate_fails (state : AccountState) (tx : Transaction) (height : Int) :
    RaisesOnly (FailsAs .stateError) (state.validate tx height) := by
  rw [validate]
  refine .bind (FailsAs.kept (by decide) ?_) fun _ valid => ?_
  · exact (validateTransaction_fails tx height state.network).mono fun _ fails => .inl fails
  obtain ⟨-, intrinsic, -⟩ := validateTransaction_eq_ok.mp (rethrow_eq_ok.mp valid)
  obtain ⟨txid, txidOk⟩ := intrinsic.exists_txid
  refine .bind (.of_ok txidOk) fun _ _ => ?_
  refine .bind (.raiseIf (by decide)) fun _ _ => ?_
  refine .bind (.raiseIf (by decide)) fun _ _ => ?_
  exact .bind (.raiseIf (by decide)) fun _ _ => .raiseIf (by decide)

/-- A round whose transaction passes the checks succeeds. -/
theorem applyNext_fails {height : Int} {acc : Int × AccountState} {tx : Transaction}
    (nonneg : 0 ≤ acc.1) (fits : acc.1 + acc.2.totalBalance ≤ u64Max) :
    RaisesOnly (FailsAs .stateError) (applyNext height acc tx) := by
  rw [applyNext]
  refine .bind (acc.2.validate_fails tx height) fun _ valid => ?_
  have admitted := validate_eq_ok.mp valid
  have fee := admitted.fee_le
  obtain ⟨after, applied⟩ := admitted.exists_applied (by omega)
  have round : applyNext height acc tx = .ok (acc.1 + tx.feeAtoms, after) :=
    applyNext_eq_ok.mpr ⟨applied, rfl, by dsimp only; omega⟩
  rw [applyNext, valid, ok_bind] at round
  exact .of_ok round

theorem foldlM_applyNext_fails {height : Int} : ∀ (transactions : List Transaction)
    {acc : Int × AccountState}, 0 ≤ acc.1 → acc.1 + acc.2.totalBalance ≤ u64Max →
      RaisesOnly (FailsAs .stateError) (transactions.foldlM (applyNext height) acc)
  | [], _, _, _ => .pure _
  | tx :: rest, acc, nonneg, fits => by
      rw [List.foldlM_cons]
      refine .bind (applyNext_fails nonneg fits) fun next ran => ?_
      obtain ⟨applied, fee, -⟩ := applyNext_eq_ok.mp ran
      have total := applied.total
      have feeNonneg := applied.admitted.valid.fee_nonneg
      exact foldlM_applyNext_fails rest (by omega) (by omega)

/-- **A batch fails as a `StateError`, and never by an overflow.** -/
theorem applyTransactions_fails (wellFormed : state.WellFormed) (fits : state.totalBalance ≤ u64Max)
    (transactions : List Transaction) (height : Int) :
    RaisesOnly (FailsAs .stateError) (state.applyTransactions transactions height) := by
  rw [applyTransactions]
  refine .bind (.raiseIf (by decide)) fun _ _ => ?_
  refine .bind (.of_ok (copy_eq_ok.mpr ⟨wellFormed, rfl⟩)) fun working copied => ?_
  obtain ⟨-, rfl⟩ := copy_eq_ok.mp copied
  have start : (0 : Int) + working.totalBalance ≤ u64Max := by omega
  exact .bind (foldlM_applyNext_fails transactions le_rfl start) fun _ _ => .pure _

omit [Platform] in
theorem creditReward_fails {address : Text} {amount : Int}
    (fits : state.totalBalance + amount ≤ u64Max) :
    RaisesOnly (FailsAs .stateError) (state.creditReward address amount) := by
  rw [creditReward]
  refine .bind (FailsAs.reraised (by decide) ?_) fun hash decoded => ?_
  · exact (decodeAddress_raises _ _).mono fun e is => by simp [is]
  refine .bind (.raiseIf (by decide)) fun _ range => ?_
  have nonneg := (not_not.mp (raiseIf_eq_ok.mp range)).1
  obtain ⟨after, credited⟩ := exists_creditReward ⟨hash, rethrow_eq_ok.mp decoded⟩ nonneg fits
  rw [creditReward, decoded, ok_bind, range, ok_bind] at credited
  exact .of_ok credited

end AccountState

/-! ## Blocks -/

omit [Platform] in
theorem validateSupply_fails (supply : Int) :
    RaisesOnly (FailsAs .blockError) (validateSupply supply) := by
  rw [validateSupply]
  exact .raiseIf (by decide)

omit [Platform] in
theorem blockSubsidy_fails (height supply : Int) :
    RaisesOnly (FailsAs .blockError) (blockSubsidy height supply) := by
  rw [blockSubsidy]
  refine .bind (.raiseIf (by decide)) fun _ _ => ?_
  refine .bind (validateSupply_fails supply) fun _ _ => ?_
  split
  · exact .pure _
  · exact .pure _

/-- Subsidy and fees can always be credited on the state that paid the fees. -/
theorem reward_fits {state paid : AccountState} {transactions : List Transaction}
    {supply height subsidy fees : Int} (total : state.totalBalance = supply)
    (ran : state.applyTransactions transactions height = .ok (fees, paid))
    (subsidyOk : blockSubsidy height supply = .ok subsidy) :
    subsidy + fees ≤ u64Max ∧ paid.totalBalance + (subsidy + fees) ≤ u64Max := by
  obtain ⟨-, -, batch, rfl⟩ := AccountState.applyTransactions_ok ran
  have scheduled := blockSubsidy_ok subsidyOk
  have collected := batch.total
  have left := paid.totalBalance_nonneg
  have maxFits : maxSupplyAtoms ≤ u64Max := by decide
  omega

theorem buildReward_fails {state : AccountState} {supply height : Int} {miner : Text}
    {transactions : List Transaction} (wellFormed : state.WellFormed)
    (total : state.totalBalance = supply) (range : supply ≤ maxSupplyAtoms) :
    RaisesOnly (fun e => FailsAs .stateError e ∨ FailsAs .blockError e)
      (buildReward state supply height miner transactions) := by
  have maxFits : maxSupplyAtoms ≤ u64Max := by decide
  rw [buildReward]
  refine .bind (.of_ok (AccountState.copy_eq_ok.mpr ⟨wellFormed, rfl⟩)) fun working copied => ?_
  obtain ⟨-, rfl⟩ := AccountState.copy_eq_ok.mp copied
  refine .bind ((AccountState.applyTransactions_fails wellFormed (by omega) _ _).mono
    fun _ fails => .inl fails) ?_
  rintro ⟨fees, paid⟩ ran
  refine .bind ((blockSubsidy_fails _ _).mono fun _ fails => .inr fails) fun subsidy subsidyOk => ?_
  obtain ⟨rewardFits, creditFits⟩ := reward_fits total ran subsidyOk
  refine .bind (.of_ok (a := ()) (raiseIf_eq_ok.mpr (by omega))) fun _ _ => ?_
  refine .bind ?_ fun _ _ => .pure _
  exact (AccountState.creditReward_fails creditFits).mono fun _ fails => .inl fails

/-- **Building a block never fails by an overflow.** -/
theorem buildBlockCandidate_fails {parent : Block} {state : AccountState} {supply : Int}
    {miner : Text} {transactions : List Transaction} {timestamp : Int} {target : Option Int}
    (wellFormed : state.WellFormed) (total : state.totalBalance = supply) :
    RaisesOnly (fun e => ¬ e.IsOverflow)
      (buildBlockCandidate parent state supply miner transactions timestamp target) := by
  rw [buildBlockCandidate]
  refine .bind ((validateSupply_fails supply).mono fun _ fails => fails.2) fun _ supplyOk => ?_
  have range := (validateSupply_eq_ok.mp supplyOk).2
  refine .bind (.raiseIf (by decide)) fun _ _ => ?_
  refine .bind (.raiseIf (by decide)) fun _ _ => ?_
  refine .bind (.raiseIf (by decide)) fun _ _ => ?_
  refine .bind (.raiseIf (by decide)) fun _ _ => ?_
  refine .bind (.raiseIf (by decide)) fun _ _ => ?_
  refine .bind (RaisesOnly.mono (show RaisesOnly (FailsAs .blockError) _ from
    FailsAs.reraised (by decide) ((decodeAddress_raises _ _).mono fun e is => by simp [is]))
      fun _ fails => fails.2) fun _ _ => ?_
  refine .bind (RaisesOnly.mono (FailsAs.kept (by decide)
    (buildReward_fails wellFormed total range)) fun _ fails => fails.2) ?_
  rintro ⟨reward, working⟩ _
  refine .bind (parent.header.blockHash_raises.mono fun _ fails => fails.2) fun _ _ => ?_
  refine .bind ((transactionsRoot_raises _ _).mono fun _ fails => fails.2) fun _ _ => ?_
  exact .bind (working.stateRoot_raises.mono fun _ fails => fails.2) fun _ _ => .pure _

theorem validateHeader_fails {block parent : Block} {hash : Bytes}
    (parentHash : parent.blockHash = .ok hash) (state : AccountState) (network : NetworkConfig)
    (target : Option Int) :
    RaisesOnly (FailsAs .blockError) (validateHeader block parent state network target) := by
  rw [validateHeader]
  refine .bind (.raiseIf (by decide)) fun _ _ => ?_
  refine .bind (.raiseIf (by decide)) fun _ _ => ?_
  refine .bind (.raiseIf (by decide)) fun _ _ => ?_
  refine .bind (.of_ok parentHash) fun _ _ => ?_
  refine .bind (.raiseIf (by decide)) fun _ _ => ?_
  refine .bind (.raiseIf (by decide)) fun _ _ => ?_
  refine .bind (.raiseIf (by decide)) fun _ _ => ?_
  refine .bind (.raiseIf (by decide)) fun _ _ => ?_
  refine .bind (.raiseIf (by decide)) fun _ _ => ?_
  refine .bind (.raiseIf (by decide)) fun _ _ => ?_
  refine .bind (FailsAs.reraised (by decide) ?_) fun _ _ => ?_
  · exact (decodeAddress_raises _ _).mono fun e is => by simp [is]
  refine .bind (FailsAs.reraised (by decide) ?_) fun _ _ => ?_
  · exact (transactionsRoot_raises _ _).mono fun _ fails => fails.1
  refine .bind (.raiseIf (by decide)) fun _ _ => ?_
  refine .bind (FailsAs.reraised (by decide) ?_) fun _ _ => .raiseIf (by decide)
  exact block.header.blockHash_raises.mono fun _ fails => fails.1

omit [Platform] in
theorem validateReward_fails (block : Block) (network : NetworkConfig) :
    RaisesOnly (FailsAs .blockError) (validateReward block network) := by
  rw [validateReward]
  refine .bind (.raiseIf (by decide)) fun _ _ => ?_
  refine .bind (.raiseIf (by decide)) fun _ _ => ?_
  exact .bind (.raiseIf (by decide)) fun _ _ => .raiseIf (by decide)

theorem executeBody_fails {block : Block} {state : AccountState} {supply : Int}
    (wellFormed : state.WellFormed) (total : state.totalBalance = supply)
    (range : supply ≤ maxSupplyAtoms) :
    RaisesOnly (fun e => FailsAs .stateError e ∨ FailsAs .blockError e)
      (executeBody block state supply) := by
  have maxFits : maxSupplyAtoms ≤ u64Max := by decide
  rw [executeBody]
  refine .bind (.of_ok (AccountState.copy_eq_ok.mpr ⟨wellFormed, rfl⟩)) fun working copied => ?_
  obtain ⟨-, rfl⟩ := AccountState.copy_eq_ok.mp copied
  refine .bind ((AccountState.applyTransactions_fails wellFormed (by omega) _ _).mono
    fun _ fails => .inl fails) ?_
  rintro ⟨fees, paid⟩ ran
  refine .bind ((blockSubsidy_fails _ _).mono fun _ fails => .inr fails) fun subsidy subsidyOk => ?_
  obtain ⟨rewardFits, creditFits⟩ := reward_fits total ran subsidyOk
  refine .bind (.of_ok (a := ()) (raiseIf_eq_ok.mpr (by omega))) fun _ _ => ?_
  refine .bind (.raiseIf (.inr (by decide))) fun _ amountOk => ?_
  refine .bind ?_ fun _ _ => .pure _
  rw [raiseIf_eq_ok, not_not] at amountOk
  rw [amountOk]
  exact (AccountState.creditReward_fails creditFits).mono fun _ fails => .inl fails

/-! ## State roots -/

omit [Platform] in
/-- The Merkle root of digests exists. -/
theorem exists_merkleRoot {leaves : List Bytes} (lengths : ∀ leaf ∈ leaves, leaf.length = 32) :
    ∃ root, merkleRoot leaves = .ok root := by
  rw [merkleRoot]
  split
  · exact ⟨_, rfl⟩
  · simp only [bind_eq_ok, raiseIf_eq_ok, exists_const, pure_eq_ok]
    refine ⟨_, ?_, rfl⟩
    rintro ⟨leaf, member, wrong⟩
    exact wrong (lengths leaf member)

omit [Platform] in
theorem isValidAddress_eq_true {address : Text} {network : NetworkConfig} :
    isValidAddress address network = true ↔ ∃ hash, decodeAddress address network = .ok hash := by
  rw [isValidAddress]
  cases decodeAddress address network with
  | ok hash => simp [Except.toOption]
  | error e => simp [Except.toOption]

/-- Short ASCII text has an encoding. -/
theorem exists_encodeText_ascii {value : Text} (ascii : isAscii value)
    (short : (value.length : Int) ≤ u32Max) : ∃ written, encodeText value = .ok written := by
  rw [encodeText, Platform.normalizeNfc_ascii ascii, encodeUtf8_ascii ascii, ok_bind]
  apply exists_encodeBytes
  rwa [List.length_map]

theorem exists_encodeText_address {address : Text} {hash : Bytes}
    (decoded : decodeAddress address testnet = .ok hash) :
    ∃ written, encodeText address = .ok written := by
  obtain ⟨ascii, length⟩ := decodeAddress_shape decoded
  apply exists_encodeText_ascii ascii
  rw [length]
  decide

/-- **A well-formed state of the testnet has a root.** -/
theorem AccountState.WellFormed.exists_stateRoot {state : AccountState}
    (wellFormed : state.WellFormed) (network : state.network = testnet) : ∃ root, state.stateRoot = .ok root := by
  have leaf : ∀ item ∈ state.accounts.sortedItems, ∃ digest,
      stateLeaf item.1 item.2 = .ok digest := by
    rintro ⟨address, account⟩ member
    have found := Dict.get?_eq_some.mpr (Dict.mem_sortedItems.mp member)
    obtain ⟨hash, decoded⟩ := isValidAddress_eq_true.mp (wellFormed.addresses address account found)
    obtain ⟨domain, domainOk⟩ : ∃ written, encodeBytes stateLeafDomain = .ok written :=
      exists_encodeBytes (by decide)
    obtain ⟨field, fieldOk⟩ := exists_encodeText_address (network ▸ decoded)
    simp only [stateLeaf, domainOk, fieldOk, ok_bind, bind_eq_ok, pure_eq_ok, encodeU64,
      encodeUnsigned_eq_ok]
    exact ⟨_, _, ⟨account.balance_range, rfl⟩, _, ⟨account.nonce_range, rfl⟩, rfl⟩
  obtain ⟨leaves, leavesOk⟩ := exists_mapM_eq_ok leaf
  obtain ⟨root, rootOk⟩ : ∃ root, merkleRoot leaves = .ok root := by
    apply exists_merkleRoot
    intro digest member
    obtain ⟨item, -, digestOk⟩ := (mem_of_mapM_eq_ok leavesOk).mp member
    simp only [stateLeaf, bind_eq_ok, pure_eq_ok] at digestOk
    obtain ⟨_, -, _, -, _, -, _, -, rfl⟩ := digestOk
    exact Sha256.length_digest _
  exact ⟨root, by rw [stateRoot, leavesOk, ok_bind, rootOk]⟩

/-- **A block with a parent fails as a `BlockError`, and never by an overflow.** -/
theorem validateAndExecuteBlock_fails {block parent : Block} {hash : Bytes}
    (parentHash : parent.blockHash = .ok hash) {state : AccountState} {supply : Int}
    (wellFormed : state.WellFormed) (onTestnet : state.network = testnet)
    (total : state.totalBalance = supply) (network : NetworkConfig) (target : Option Int) :
    RaisesOnly (FailsAs .blockError)
      (validateAndExecuteBlock block (some parent) state supply network target) := by
  rw [validateAndExecuteBlock]
  refine .bind (validateSupply_fails supply) fun _ supplyOk => ?_
  have range := (validateSupply_eq_ok.mp supplyOk).2
  refine .bind (validateHeader_fails parentHash _ _ _) fun _ _ => ?_
  refine .bind (validateReward_fails _ _) fun _ _ => ?_
  refine .bind (FailsAs.kept (by decide) (executeBody_fails wellFormed total range)) ?_
  rintro ⟨fees, subsidy, working⟩ executed
  obtain ⟨paid, run, credit⟩ := (executeBody_eq_ok.mp (rethrow_eq_ok.mp executed)).run
  have batch := (AccountState.applyTransactions_ok run).2.2.1
  have rewarded := AccountState.rewarded_of_creditReward credit
  have kept : working.WellFormed := rewarded.wellFormed (batch.wellFormed wellFormed)
  obtain ⟨root, rootOk⟩ := kept.exists_stateRoot
    (rewarded.network_eq.trans (batch.network_eq.trans onTestnet))
  refine .bind (.of_ok rootOk) fun _ _ => ?_
  exact .bind (.raiseIf (by decide)) fun _ _ => .pure _

end

end OurCoin
