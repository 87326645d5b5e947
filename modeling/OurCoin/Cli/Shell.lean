import OurCoin.Ledger.Failures
import OurCoin.Model.Shell
import OurCoin.Node.Mining

/-!
# Sessions of the shell

The wallets of a session are in memory, so that an exception which no handler catches loses them.
A line that raises changes neither the node nor the wallets (`Shell.Reachable.failure`), and only
`mine NAME` can raise what the handlers let pass: when no nonce is found, or when a block that was
found is not stored (`Shell.session_ends`). Each function that a command calls is walked through
for what it raises.
-/

set_option autoImplicit false

namespace OurCoin

open Raising Transactions

/-! ## What the handlers catch -/

/-- An exception that the shell answers. -/
def Answered (e : Raised) : Prop := Shell.catches e.cls = true

theorem answered_of_value {e : Raised} (isValue : e.cls.isValueError = true) : Answered e := by
  rw [Answered, Shell.catches, isValue, Bool.true_or]

theorem FailsAsValue.answered {e : Raised} (fails : FailsAsValue e) : Answered e :=
  answered_of_value fails.1

theorem FailsAs.answered {cls : ErrorClass} {e : Raised} (isValue : cls.isValueError = true)
    (fails : FailsAs cls e) : Answered e :=
  (fails.value isValue).answered

/-- A failure that is answered is answered under another class. -/
theorem Answered.reraisedSame {α : Type} {x : Except Raised α} {caught : ErrorClass → Bool}
    {cls : ErrorClass} (isValue : cls.isValueError = true) (only : RaisesOnly Answered x) :
    RaisesOnly Answered (rethrow (reraiseSame caught cls) x) := by
  apply RaisesOnly.rethrow
  intro e raised
  rw [reraiseSame]
  split
  · exact answered_of_value isValue
  · exact only e raised

/-- A failure that is answered is answered with another message. -/
theorem Answered.reraisedAs {α : Type} {x : Except Raised α} {caught : ErrorClass → Bool}
    {cls : ErrorClass} {message : String} (isValue : cls.isValueError = true)
    (only : RaisesOnly Answered x) :
    RaisesOnly Answered (rethrow (reraiseAs caught cls message) x) := by
  apply RaisesOnly.rethrow
  intro e raised
  rw [reraiseAs]
  split
  · exact answered_of_value isValue
  · exact only e raised

/-- An address is refused with an exception that is answered. -/
theorem decodeAddress_answered (address : Text) (network : NetworkConfig) :
    RaisesOnly Answered (decodeAddress address network) :=
  (decodeAddress_raises address network).mono fun e isAddress =>
    answered_of_value (by rw [isAddress]; rfl)

/-! ## Text -/

/-- What `shlex` refuses is answered. -/
theorem shlexWords_raises (state : ShlexState) (word line : Text) :
    RaisesOnly Answered (shlexWords state word line) := by
  induction line generalizing state word with
  | nil =>
      cases state with
      | between => exact .pure _
      | word => exact .pure _
      | quotes quote => exact .throw rfl
      | escape quote => exact .throw rfl
  | cons c rest ih =>
      cases state with
      | between =>
          rw [shlexWords]
          split_ifs <;> exact ih _ _
      | word =>
          rw [shlexWords]
          split_ifs
          · exact .bind (ih _ _) fun _ _ => .pure _
          all_goals exact ih _ _
      | quotes quote =>
          rw [shlexWords]
          split_ifs <;> exact ih _ _
      | escape quote =>
          cases quote with
          | none => exact ih _ _
          | some quote =>
              rw [shlexWords]
              split_ifs <;> exact ih _ _

theorem intFromText_raises (digits : Text) : RaisesOnly Answered (intFromText digits) := by
  rw [intFromText]
  exact .bind (.raiseIf rfl) fun _ _ => .pure _

theorem parseOurAmount_raises (value : Text) (allowZero : Bool) :
    RaisesOnly Answered (parseOurAmount value allowZero) := by
  rw [parseOurAmount]
  refine .bind (.raiseIf rfl) fun _ _ => ?_
  refine .bind (.raiseIf rfl) fun _ _ => ?_
  refine .bind (.raiseIf rfl) fun _ _ => ?_
  refine .bind (.raiseIf rfl) fun _ _ => ?_
  refine .bind (intFromText_raises _) fun _ _ => ?_
  refine .bind (intFromText_raises _) fun _ _ => ?_
  refine .bind (.raiseIf rfl) fun _ _ => ?_
  exact .bind (.raiseIf rfl) fun _ _ => .pure _

theorem formatAtoms_raises (atoms : Int) : RaisesOnly Answered (formatAtoms atoms) := by
  rw [formatAtoms]
  exact .bind (.raiseIf rfl) fun _ _ => .pure _

/-! ## Wallets and accounts -/

theorem Shell.walletOf_raises (shell : Shell) (name : Text) :
    RaisesOnly Answered (shell.walletOf name) := by
  rw [Shell.walletOf]
  split
  · exact .pure _
  · exact .throw rfl

theorem AccountState.getAccount_raises (state : AccountState) (address : Text) :
    RaisesOnly Answered (state.getAccount address) := by
  rw [AccountState.getAccount]
  exact .bind (Answered.reraisedAs rfl (decodeAddress_answered _ _)) fun _ _ => .pure _

theorem publicKeyFromPrivate_raises [Platform] (privateKey : Bytes) :
    RaisesOnly (fun e => e.cls = .cryptoError) (publicKeyFromPrivate privateKey) := by
  rw [publicKeyFromPrivate, requireBytes]
  exact .bind (.raiseIf rfl) fun _ _ => .pure _

theorem answered_of_crypto {e : Raised} (isCrypto : e.cls = .cryptoError) : Answered e :=
  answered_of_value (by rw [isCrypto]; rfl)

theorem NamedWallet.new_answered [Platform] (name : Text) (privateKey : Bytes)
    (network : NetworkConfig) : RaisesOnly Answered (NamedWallet.new name privateKey network) := by
  rw [NamedWallet.new, validateName]
  refine .bind (.bind (.raiseIf rfl) fun _ _ => .pure _) fun _ _ => .bind ?_ fun _ _ => .pure _
  rw [Wallet.new]
  refine .bind (.raiseIf rfl) fun _ _ => ?_
  refine .bind ((publicKeyFromPrivate_raises _).mono fun _ => answered_of_crypto) fun _ _ => ?_
  exact .bind ((addressFromPublicKey_raises _ _).mono fun _ => answered_of_crypto) fun _ _ =>
    .pure _

/-! ## Sending -/

section

variable [Platform]

theorem createSignedTransaction_raises (privateKey : Bytes) (recipient : Text)
    (amount fee nonce validUntil : Int) (network : NetworkConfig) :
    RaisesOnly Answered (createSignedTransaction privateKey recipient amount fee nonce validUntil
      network) := by
  rw [createSignedTransaction]
  refine .bind (Answered.reraisedAs rfl ?_) fun tx _ => ?_
  · refine .bind ((publicKeyFromPrivate_raises _).mono fun _ => answered_of_crypto)
      fun _ _ => ?_
    refine .bind ((addressFromPublicKey_raises _ _).mono fun _ => answered_of_crypto)
      fun _ _ => ?_
    refine .bind ((Transaction.signingBytes_raises _).mono fun _ => FailsAsValue.answered)
      fun _ _ => ?_
    refine .bind ?_ fun _ _ => .pure _
    rw [sign, requireBytes]
    exact .bind (.raiseIf rfl) fun _ _ => .pure _
  · exact .bind ((validateTransaction_fails _ _ _).mono fun _ => FailsAs.answered rfl)
      fun _ _ => .pure _

omit [Platform] in
theorem Mempool.nextNonceLoop_raises (pending : List Transaction) (expected : Int) :
    RaisesOnly Answered (Mempool.nextNonceLoop expected pending) := by
  induction pending generalizing expected with
  | nil => exact .of_ok rfl
  | cons tx rest ih =>
      rw [Mempool.nextNonceLoop]
      split_ifs
      · exact .of_ok rfl
      · exact .throw rfl
      · exact ih _

theorem Mempool.add_raises (pool : Mempool) (tx : Transaction) (state : AccountState)
    (height : Int) : RaisesOnly Answered (pool.add tx state height) := by
  rw [Mempool.add]
  refine .bind (.raiseIf rfl) fun _ _ => ?_
  refine .bind (Answered.reraisedSame rfl ?_) fun _ _ => ?_
  · exact (validateTransaction_fails tx height state.network).mono fun _ => FailsAs.answered rfl
  refine .bind (tx.txid_raises.mono fun _ => FailsAsValue.answered) fun _ _ => ?_
  repeat refine .bind (.raiseIf rfl) fun _ _ => ?_
  refine .bind (state.getAccount_raises _) fun _ _ => ?_
  repeat refine .bind (.raiseIf rfl) fun _ _ => ?_
  exact .pure _

namespace LocalNode

variable {node : LocalNode}

theorem Invariant.createTransaction_raises (inv : node.Invariant) (wallet : Wallet)
    (recipient : Text) (amount fee validForBlocks : Int) :
    RaisesOnly Answered (node.createTransaction wallet recipient amount fee validForBlocks) := by
  obtain ⟨state, stateOk, -⟩ := inv.pool_sound
  rw [LocalNode.createTransaction, stateOk]
  refine .bind (.raiseIf rfl) fun _ _ => ?_
  refine .bind (.raiseIf rfl) fun _ _ => ?_
  refine .bind (.raiseIf rfl) fun _ _ => ?_
  refine .bind (.of_ok rfl) fun _ _ => ?_
  refine .bind ?_ fun nonce _ =>
    Answered.reraisedSame rfl (createSignedTransaction_raises _ _ _ _ _ _ _)
  rw [Mempool.nextNonce]
  refine .bind (AccountState.getAccount_raises _ _) fun _ _ => ?_
  exact .bind (.raiseIf rfl) fun _ _ => Mempool.nextNonceLoop_raises _ _

/-- **A transaction that is not sent changes nothing, and the shell answers why.** A transaction
that is sent has an ID. -/
theorem Invariant.send_cases (inv : node.Invariant) (wallet : Wallet) (recipient : Text)
    (amount fee validForBlocks : Int) :
    (∃ e, node.send wallet recipient amount fee validForBlocks = (.error e, node) ∧ Answered e) ∨
    ∃ tx txid after, node.send wallet recipient amount fee validForBlocks = (.ok tx, after) ∧
      tx.txid = .ok txid := by
  obtain ⟨state, stateOk, -⟩ := inv.pool_sound
  cases created : node.createTransaction wallet recipient amount fee validForBlocks with
  | error e =>
      refine .inl ⟨e, ?_, inv.createTransaction_raises wallet _ _ _ _ e created⟩
      rw [LocalNode.send, created]
  | ok tx =>
      cases added : rethrow (reraiseSame (· == .mempoolError) .nodeError)
          (node.mempool.add tx state (node.chain.height + 1)) with
      | error e =>
          have answered : RaisesOnly Answered (rethrow (reraiseSame (· == .mempoolError) .nodeError)
              (node.mempool.add tx state (node.chain.height + 1))) :=
            Answered.reraisedSame rfl (Mempool.add_raises _ _ _ _)
          refine .inl ⟨e, ?_, answered e added⟩
          rw [LocalNode.send, created]
          dsimp only
          rw [LocalNode.submitTransaction, stateOk, ok_bind, added]
      | ok outcome =>
          obtain ⟨txid, pool⟩ := outcome
          obtain ⟨accepts, -⟩ := Mempool.add_eq_ok.mp (rethrow_eq_ok.mp added)
          refine .inr ⟨tx, txid, { node with mempool := pool }, ?_, accepts.txid_ok⟩
          rw [LocalNode.send, created]
          dsimp only
          rw [LocalNode.submitTransaction, stateOk, ok_bind, added]

end LocalNode

/-! ## Mining -/

/-- What `mine_block` raises after its last attempt. -/
def noNonceFound : Raised := miningError "no valid nonce found within max_attempts"

theorem mineLoop_raises (block : Block) (attempts : Nat) (nonce : Int) :
    RaisesOnly (fun e => Answered e ∨ e = noNonceFound) (mineLoop block attempts nonce) := by
  induction attempts generalizing nonce with
  | zero => exact .throw (.inr rfl)
  | succ attempts ih =>
      rw [mineLoop]
      split
      · exact .throw (.inr rfl)
      · refine .bind ((BlockHeader.blockHash_raises _).mono fun _ fails => .inl fails.answered)
          fun _ _ => ?_
        split
        · exact .pure _
        · exact ih _

/-- Everything that building a block raises is a `ValueError`. -/
theorem buildBlockCandidate_raises {parent : Block} {state : AccountState} {supply : Int}
    {miner : Text} {transactions : List Transaction} {timestamp : Int} {target : Option Int}
    (wellFormed : state.WellFormed) (total : state.totalBalance = supply) :
    RaisesOnly Answered
      (buildBlockCandidate parent state supply miner transactions timestamp target) := by
  rw [buildBlockCandidate]
  refine .bind ((validateSupply_fails supply).mono fun _ => FailsAs.answered rfl)
    fun _ supplyOk => ?_
  have range := (validateSupply_eq_ok.mp supplyOk).2
  repeat refine .bind (.raiseIf rfl) fun _ _ => ?_
  refine .bind (Answered.reraisedAs rfl (decodeAddress_answered _ _)) fun _ _ => ?_
  refine .bind (Answered.reraisedSame rfl ?_) ?_
  · exact (buildReward_fails wellFormed total range).mono fun _ fails =>
      fails.elim (FailsAs.answered rfl) (FailsAs.answered rfl)
  rintro ⟨reward, working⟩ _
  refine .bind (parent.header.blockHash_raises.mono fun _ => FailsAsValue.answered) fun _ _ => ?_
  refine .bind ((transactionsRoot_raises _ _).mono fun _ => FailsAsValue.answered) fun _ _ => ?_
  exact .bind (working.stateRoot_raises.mono fun _ => FailsAsValue.answered) fun _ _ => .pure _

theorem Chain.Refines.buildCandidate_raises {chain : Chain} (refines : chain.Refines)
    (miner : Text) (transactions : List Transaction) (timestamp : Int) :
    RaisesOnly Answered (chain.buildCandidate miner transactions timestamp none) := by
  have stored := chain.tipEntry_stored
  obtain ⟨state, restored, wellFormed, -, total, -⟩ := refines.exists_parent_state stored
  rw [Chain.buildCandidate]
  dsimp only [Option.getD_none]
  rw [Chain.entryOf_eq_ok.mpr stored, ok_bind, restored, ok_bind]
  refine Answered.reraisedSame rfl (.bind ?_ fun _ _ => buildBlockCandidate_raises wellFormed total)
  exact (refines.expectedTarget_fails stored).mono fun _ => FailsAs.answered rfl

namespace LocalNode

variable {node : LocalNode}

/-- Without a block, `mine` raises what the shell answers, or has found no nonce. -/
theorem Invariant.mineCandidate_raises (inv : node.Invariant) (miner : Text)
    (timestamp : Option Int) {maxTransactions maxAttempts : Int}
    (range : 0 ≤ maxTransactions ∧ maxTransactions ≤ maxBlockTransactions)
    (positive : 0 < maxAttempts) :
    RaisesOnly (fun e => Answered e ∨ e = noNonceFound)
      (node.mineCandidate miner timestamp maxTransactions maxAttempts) := by
  have refines := inv.chain_reachable.refines
  obtain ⟨state, stateOk, sound⟩ := inv.pool_sound
  obtain ⟨state', restored, wellFormed, -, total, supplyRange⟩ :=
    refines.exists_parent_state node.chain.tipEntry_stored
  have same : state' = state := Except.ok.inj (restored.symm.trans stateOk)
  subst same
  have maxFits : maxSupplyAtoms ≤ u64Max := by decide
  obtain ⟨selected, paid, selectOk, -⟩ := sound.exists_selection wellFormed (by omega) range.1
  have counted : raiseIf (maxAttempts ≤ 0) (miningError "max_attempts must be a positive integer") =
      .ok () := raiseIf_eq_ok.mpr (by omega)
  rw [mineCandidate]
  refine .bind (.raiseIf (.inl rfl)) fun _ _ => ?_
  rw [stateOk, ok_bind, selectOk, ok_bind]
  refine .bind ((refines.buildCandidate_raises _ _ _).mono fun _ => .inl) fun candidate _ => ?_
  rw [mineBlock, counted, ok_bind]
  exact mineLoop_raises _ _ _

/-- Why `mine` raises what no handler of the shell catches: no nonce was found, or the block that
was found collides with a stored one, or the database refused it. -/
def MiningEnds (node : LocalNode) (miner : Text) (faults : List Fault) (e : Raised) : Prop :=
  (node.mineCandidate miner none maxBlockTransactions 1000000 = .error e ∧ e = noNonceFound) ∨
  ∃ block, node.mineCandidate miner none maxBlockTransactions 1000000 = .ok block ∧
    (node.submitBlock block faults).1 = .error e ∧
    (node.chain.HeaderCollides block ∨ ∃ storage update grown, node.storage = some storage ∧
      node.chain.addBlock block = (.ok update, grown) ∧
      (storage.persistChainUpdate grown update faults).1 = .error e)

/-- **Mining raises and changes nothing, or finds a block with a hash.** -/
theorem Invariant.mine_cases (inv : node.Invariant) (miner : Text) (faults : List Fault) :
    (∃ e, node.mine miner none maxBlockTransactions 1000000 faults = (.error e, node) ∧
      (Answered e ∨ node.MiningEnds miner faults e)) ∨
    ∃ result hash after, node.mine miner none maxBlockTransactions 1000000 faults =
      (.ok result, after) ∧ result.block.blockHash = .ok hash := by
  cases mined : node.mineCandidate miner none maxBlockTransactions 1000000 with
  | error e =>
      left
      refine ⟨e, by rw [LocalNode.mine, mined], ?_⟩
      rcases inv.mineCandidate_raises miner none (by decide) (by decide) e mined with
        answered | isNoNonce
      · exact .inl answered
      · exact .inr (.inl ⟨mined, isNoNonce⟩)
  | ok block =>
      have search := mined
      simp only [mineCandidate, bind_eq_ok] at search
      obtain ⟨_, -, _, -, selected, -, candidate, made, found⟩ := search
      have nonce := (inv.chain_reachable.refines.candidate_on_tip made).2.2.2.2.2.1
      obtain ⟨hash, hashOk, -⟩ := (mineBlock_eq_ok nonce found).meets
      cases outcome : node.submitBlock block faults with
      | mk result after =>
          cases result with
          | ok update =>
              refine .inr ⟨⟨block, update⟩, hash, after, ?_, hashOk⟩
              rw [LocalNode.mine, mined]
              dsimp only
              rw [outcome]
          | error e =>
              have raised : (node.submitBlock block faults).1 = .error e := by rw [outcome]
              have same := inv.submitBlock_error raised
              rw [outcome] at same
              dsimp only at same
              subst same
              refine .inl ⟨e, ?_, .inr (.inr ⟨block, mined, raised, ?_⟩)⟩
              · rw [LocalNode.mine, mined]
                dsimp only
                rw [outcome]
              · rcases inv.takenOver made found with collides | taken
                · exact .inl collides
                · obtain ⟨update, grown, added, -, submits, -⟩ := taken.exists_update
                  rcases submits faults with ⟨_, accepted, -⟩ |
                    ⟨storage, e', stored, refused, raised'⟩
                  · rw [outcome] at accepted
                    cases accepted
                  · rw [outcome] at raised'
                    cases raised'
                    exact .inr ⟨storage, update, grown, stored, added, refused⟩

end LocalNode

/-! ## One line -/

namespace Shell

variable {shell : Shell} {input : ShellInput}

/-- What ends a session. -/
def Ends (shell : Shell) (input : ShellInput) (e : Raised) : Prop :=
  ∃ words name wallet, shlexSplit input.line = .ok words ∧ ShellCommand.parse words = .mine name ∧
    shell.wallets.get? name = some wallet ∧
    shell.node.MiningEnds wallet.wallet.address input.faults e

/-- The node is reachable, and each wallet is one of the testnet under its own name. -/
structure Sound (shell : Shell) : Prop where
  node_reachable : shell.node.Reachable
  wallets_made : ∀ name wallet, shell.wallets.get? name = some wallet →
    ∃ privateKey, NamedWallet.new name privateKey testnet = .ok wallet

/-- What a line can do. -/
inductive Performs (shell : Shell) (input : ShellInput) : Except Raised ShellAnswer → Shell → Prop
  | fails {e : Raised} : Answered e ∨ shell.Ends input e → Performs shell input (.error e) shell
  | answers {answer : ShellAnswer} : Performs shell input (.ok answer) shell
  | creates {answer : ShellAnswer} {name : Text} {privateKey : Bytes} {wallet : NamedWallet} :
      shell.wallets.get? name = none → NamedWallet.new name privateKey testnet = .ok wallet →
      Performs shell input (.ok answer) { shell with wallets := shell.wallets.set name wallet }
  | works {answer : ShellAnswer} {node : LocalNode} : node.Reachable →
      Performs shell input (.ok answer) { shell with node }

/-- A command that only reads. -/
theorem Performs.of_raises {x : Except Raised ShellAnswer} (only : RaisesOnly Answered x) :
    Performs shell input x shell := by
  cases x with
  | ok answer => exact .answers
  | error e => exact .fails (.inl (only e rfl))

theorem Sound.balance_raises (sound : shell.Sound) (value : Text) :
    RaisesOnly Answered (shell.balance value) := by
  obtain ⟨state, stateOk, -⟩ := sound.node_reachable.invariant.pool_sound
  rw [balance, stateOk, ok_bind]
  exact .bind (state.getAccount_raises _) fun _ _ => formatAtoms_raises _

omit [Platform] in
theorem chainLine_raises (shell : Shell) : RaisesOnly Answered shell.chainLine := by
  rw [chainLine]
  exact .bind (formatAtoms_raises _) fun _ _ => .pure _

omit [Platform] in
theorem sendArguments_raises (shell : Shell) (senderName recipientName amountText : Text)
    (feeText : Option Text) :
    RaisesOnly Answered (shell.sendArguments senderName recipientName amountText feeText) := by
  rw [sendArguments]
  refine .bind (shell.walletOf_raises _) fun _ _ => ?_
  refine .bind (parseOurAmount_raises _ _) fun _ _ => ?_
  refine .bind ?_ fun _ _ => .pure _
  cases feeText with
  | none => exact .pure _
  | some feeText => exact parseOurAmount_raises _ _

theorem wallet_performs (name : Text) :
    Performs shell input (shell.execute input (.wallet name)).1
      (shell.execute input (.wallet name)).2 := by
  rw [execute]
  cases made : shell.createWallet name input.privateKeyBytes with
  | error e =>
      have only : RaisesOnly Answered (shell.createWallet name input.privateKeyBytes) :=
        .bind (.raiseIf rfl) fun _ _ => NamedWallet.new_answered _ _ _
      exact .fails (.inl (only e made))
  | ok wallet =>
      simp only [createWallet, bind_eq_ok, raiseIf_eq_ok, exists_const] at made
      obtain ⟨free, made⟩ := made
      exact .creates (Dict.contains_eq_false.mp (Bool.eq_false_iff.mpr free)) made

theorem Sound.send_performs (sound : shell.Sound) (senderName recipientName amountText : Text)
    (feeText : Option Text) :
    Performs shell input
      (shell.execute input (.send senderName recipientName amountText feeText)).1
      (shell.execute input (.send senderName recipientName amountText feeText)).2 := by
  rw [execute]
  cases read : shell.sendArguments senderName recipientName amountText feeText with
  | error e => exact .fails (.inl (shell.sendArguments_raises _ _ _ _ e read))
  | ok arguments =>
      obtain ⟨wallet, recipient, amount, fee⟩ := arguments
      dsimp only
      have reachable := sound.node_reachable.send wallet.wallet recipient amount fee
        defaultTransactionLifetimeBlocks
      rcases sound.node_reachable.invariant.send_cases wallet.wallet recipient amount fee
        defaultTransactionLifetimeBlocks with
        ⟨e, refused, answered⟩ | ⟨tx, txid, after, sent, txidOk⟩
      · rw [refused]
        exact .fails (.inl answered)
      · rw [sent] at reachable ⊢
        dsimp only
        rw [txidOk]
        exact .works reachable

theorem Sound.mine_performs (sound : shell.Sound) {words : List Text} {name : Text}
    (split : shlexSplit input.line = .ok words) (parsed : ShellCommand.parse words = .mine name) :
    Performs shell input (shell.execute input (.mine name)).1
      (shell.execute input (.mine name)).2 := by
  rw [execute]
  cases found : shell.walletOf name with
  | error e => exact .fails (.inl (shell.walletOf_raises name e found))
  | ok wallet =>
      dsimp only
      have known : shell.wallets.get? name = some wallet := by
        rw [walletOf] at found
        split at found
        · rename_i wallet' stored
          cases found
          exact stored
        · cases found
      have reachable := sound.node_reachable.mine wallet.wallet.address none maxBlockTransactions
        1000000 input.faults
      rcases sound.node_reachable.invariant.mine_cases wallet.wallet.address input.faults with
        ⟨e, refused, why⟩ | ⟨result, hash, after, mined, hashOk⟩
      · rw [refused]
        exact .fails (why.imp id fun ends => ⟨words, name, wallet, split, parsed, known, ends⟩)
      · rw [mined] at reachable ⊢
        dsimp only
        rw [hashOk]
        exact .works reachable

/-- **What a line does.** -/
theorem Sound.perform (sound : shell.Sound) (input : ShellInput) :
    Performs shell input (shell.perform input).1 (shell.perform input).2 := by
  rw [Shell.perform]
  cases split : shlexSplit input.line with
  | error e => exact .fails (.inl (shlexWords_raises _ _ _ e split))
  | ok words =>
      dsimp only
      cases parsed : ShellCommand.parse words with
      | blank => exact .answers
      | quit => exact .answers
      | help => exact .answers
      | wallet name => exact wallet_performs name
      | address name => exact .of_raises (.bind (shell.walletOf_raises name) fun _ _ => .pure _)
      | balance value => exact .of_raises (.bind (sound.balance_raises value) fun _ _ => .pure _)
      | mine name => exact sound.mine_performs split parsed
      | send senderName recipientName amountText feeText =>
          exact sound.send_performs senderName recipientName amountText feeText
      | chain => exact .of_raises (.bind shell.chainLine_raises fun _ _ => .pure _)
      | unknown => exact .fails (.inl rfl)

theorem Performs.sound {result : Except Raised ShellAnswer} {after : Shell} (sound : shell.Sound)
    (performs : Performs shell input result after) : after.Sound := by
  cases performs with
  | fails => exact sound
  | answers => exact sound
  | works reachable => exact ⟨reachable, sound.wallets_made⟩
  | @creates _ name privateKey wallet free made =>
      refine ⟨sound.node_reachable, fun name' wallet' stored => ?_⟩
      dsimp only at stored
      by_cases same : name' = name
      · subst same
        rw [Dict.get?_set_self, Option.some.injEq] at stored
        exact ⟨privateKey, stored ▸ made⟩
      · rw [Dict.get?_set_of_ne (Ne.symm same)] at stored
        exact sound.wallets_made name' wallet' stored

/-- A line is answered, or its exception ends the session. -/
theorem Sound.turn_cases (sound : shell.Sound) (input : ShellInput) :
    (∃ answer after, shell.turn input = (.ok answer, after) ∧ after.Sound) ∨
    ∃ e, shell.turn input = (.error e, shell) ∧ shell.perform input = (.error e, shell) ∧
      shell.Ends input e := by
  have performs := sound.perform input
  rw [turn]
  cases outcome : shell.perform input with
  | mk result after =>
      rw [outcome] at performs
      cases result with
      | ok answer => exact .inl ⟨answer, after, rfl, performs.sound sound⟩
      | error e =>
          cases performs with
          | fails why =>
              dsimp only
              by_cases caught : catches e.cls = true
              · rw [if_pos caught]
                exact .inl ⟨_, _, rfl, sound⟩
              · rw [if_neg caught]
                exact .inr ⟨e, rfl, rfl, why.resolve_left caught⟩

/-! ## Sessions -/

/-- The states that sessions on reachable nodes go through. -/
inductive Reachable : Shell → Prop
  | start {node : LocalNode} : node.Reachable → Reachable ⟨node, .empty⟩
  | turn {shell : Shell} (input : ShellInput) : Reachable shell → Reachable (shell.turn input).2

theorem Sound.start {node : LocalNode} (reachable : node.Reachable) :
    Sound ⟨node, .empty⟩ := by
  refine ⟨reachable, fun name wallet stored => ?_⟩
  cases stored

theorem Reachable.sound (reachable : shell.Reachable) : shell.Sound := by
  induction reachable with
  | start reachable => exact .start reachable
  | turn input _ ih =>
      rcases ih.turn_cases input with ⟨answer, after, outcome, sound⟩ | ⟨e, outcome, -, -⟩
      · rw [outcome]
        exact sound
      · rw [outcome]
        exact ih

/-- **A line that raises changes nothing**: the node, its pool and database and the wallets are as
before, and the exception is answered unless mining ends the session. -/
theorem Reachable.failure (reachable : shell.Reachable) {e : Raised}
    (raised : (shell.perform input).1 = .error e) :
    (shell.perform input).2 = shell ∧ (catches e.cls = true ∨ shell.Ends input e) := by
  have performs := reachable.sound.perform input
  cases outcome : shell.perform input with
  | mk result after =>
      rw [outcome] at performs raised
      cases raised
      cases performs with
      | fails why => exact ⟨rfl, why⟩

/-- The shell after lines that were all answered. -/
inductive Answers : Shell → List ShellInput → Shell → Prop
  | nil {shell : Shell} : Answers shell [] shell
  | cons {shell next after : Shell} {input : ShellInput} {rest : List ShellInput}
      {lines : List Text} : shell.turn input = (.ok (.prints lines), next) →
      Answers next rest after → Answers shell (input :: rest) after

/-- A line that says `quit`. -/
def Quits (input : ShellInput) : Prop :=
  ∃ words, shlexSplit input.line = .ok words ∧ ShellCommand.parse words = .quit

/-- How a loop over lines ends: at the end of the input, with a line that says `quit`, or with a
line that raises and leaves the shell as the lines before it made it. -/
inductive Finishes (shell : Shell) (inputs : List ShellInput) :
    Except Raised (List Text) → Shell → Prop
  | exhausted {texts : List Text} {after : Shell} : Answers shell inputs after →
      Finishes shell inputs (.ok texts) after
  | quits {front back : List ShellInput} {input : ShellInput} {texts : List Text} {after : Shell} :
      inputs = front ++ input :: back → Answers shell front after → Quits input →
      Finishes shell inputs (.ok texts) after
  | raises {front back : List ShellInput} {input : ShellInput} {e : Raised} {after : Shell} :
      inputs = front ++ input :: back → Answers shell front after →
      after.perform input = (.error e, after) → after.Ends input e →
      Finishes shell inputs (.error e) after

/-- How a session on a node ends. -/
structure Endings (node : LocalNode) (inputs : List ShellInput) : Prop where
  /-- Whatever the end, the node is sound and every wallet is whole and under its own name. -/
  sound : (session node inputs).2.Sound
  /-- An exception comes from one of the lines, which left everything as it was. -/
  ends : Finishes ⟨node, .empty⟩ inputs (session node inputs).1 (session node inputs).2

/-- Only `quit` ends a session without an exception, and it changes nothing. -/
theorem perform_ends {after : Shell} (ended : shell.perform input = (.ok .ends, after)) :
    after = shell ∧ Quits input := by
  have printing : ∀ {α : Type} {x : Except Raised α} {lines : α → List Text},
      (do return ShellAnswer.prints (lines (← x))) ≠ (.ok .ends : Except Raised ShellAnswer) := by
    intro α x lines same
    obtain ⟨a, -, isEnd⟩ := bind_eq_ok.mp same
    cases isEnd
  rw [perform] at ended
  cases split : shlexSplit input.line with
  | error e =>
      rw [split] at ended
      cases ended
  | ok words =>
      rw [split] at ended
      dsimp only at ended
      cases parsed : ShellCommand.parse words with
      | quit =>
          rw [parsed, execute] at ended
          cases ended
          exact ⟨rfl, words, split, parsed⟩
      | blank | help | unknown =>
          rw [parsed, execute] at ended
          cases ended
      | address name | balance value | chain =>
          rw [parsed, execute] at ended
          exact absurd (congrArg Prod.fst ended) printing
      | wallet name =>
          rw [parsed, execute] at ended
          split at ended
          · cases ended
          · cases ended
      | mine name =>
          rw [parsed, execute] at ended
          split at ended
          · cases ended
          · split at ended
            · cases ended
            · exact absurd (congrArg Prod.fst ended) printing
      | send senderName recipientName amountText feeText =>
          rw [parsed, execute] at ended
          split at ended
          · cases ended
          · split at ended
            · cases ended
            · exact absurd (congrArg Prod.fst ended) printing

theorem turn_ends {after : Shell} (ended : shell.turn input = (.ok .ends, after)) :
    after = shell ∧ Quits input := by
  rw [turn] at ended
  split at ended
  · split at ended
    · cases ended
    · cases ended
  · exact perform_ends ended

/-- A line that is answered, and then the others. -/
theorem Finishes.cons {next after : Shell} {rest : List ShellInput} {lines : List Text}
    {result : Except Raised (List Text)} (answered : shell.turn input = (.ok (.prints lines), next))
    (finishes : Finishes next rest result after) :
    Finishes shell (input :: rest) (result.map (lines ++ ·)) after := by
  cases finishes with
  | exhausted answers => exact .exhausted (.cons answered answers)
  | @quits front back input' texts _ split answers quits =>
      exact .quits (congrArg (input :: ·) split : _ = (input :: front) ++ input' :: back)
        (.cons answered answers) quits
  | @raises front back input' e _ split answers raised ends =>
      exact .raises (congrArg (input :: ·) split : _ = (input :: front) ++ input' :: back)
        (.cons answered answers) raised ends

/-- The loop, by induction on the lines: each is answered, or it is the last one. -/
theorem Sound.loop (sound : shell.Sound) (inputs : List ShellInput) :
    (shell.loop inputs).2.Sound ∧
      Finishes shell inputs (shell.loop inputs).1 (shell.loop inputs).2 := by
  induction inputs generalizing shell with
  | nil => exact ⟨sound, .exhausted .nil⟩
  | cons input rest ih =>
      rw [Shell.loop]
      rcases sound.turn_cases input with
        ⟨answer, after, outcome, sound'⟩ | ⟨e, outcome, raised, ends⟩
      · rw [outcome]
        cases answer with
        | ends =>
            obtain ⟨rfl, quits⟩ := turn_ends outcome
            exact ⟨sound', .quits (List.nil_append (input :: rest)).symm .nil quits⟩
        | prints lines =>
            obtain ⟨final, finishes⟩ := ih sound'
            have whole := finishes.cons outcome
            dsimp only
            cases more : after.loop rest with
            | mk result last =>
                rw [more] at final whole
                cases result with
                | ok texts => exact ⟨final, whole⟩
                | error e => exact ⟨final, whole⟩
      · rw [outcome]
        exact ⟨sound, .raises (List.nil_append (input :: rest)).symm .nil raised ends⟩

/-- **How a session ends**: with `quit` or the end of the input, or with an exception of
`mine NAME`, where no nonce is found, the block collides, or the database refuses it. That line
changes nothing. -/
theorem session_ends {node : LocalNode} (reachable : node.Reachable) (inputs : List ShellInput) :
    Endings node inputs := by
  obtain ⟨final, finishes⟩ := (Sound.start reachable).loop inputs
  cases outcome : Shell.loop ⟨node, .empty⟩ inputs with
  | mk result last =>
      rw [outcome] at final finishes
      cases result with
      | ok lines =>
          have printed : session node inputs = (.ok (shellBanner :: shellHelp :: lines), last) := by
            rw [session, outcome]
          refine ⟨printed ▸ final, printed ▸ ?_⟩
          cases finishes with
          | exhausted answers => exact .exhausted answers
          | quits split answers quits => exact .quits split answers quits
      | error e =>
          have raised : session node inputs = (.error e, last) := by
            rw [session, outcome]
          exact ⟨raised ▸ final, raised ▸ finishes⟩

/-- A platform for sessions: a public key is the private key, and every signature of the right
length verifies. -/
@[reducible] def sessionPlatform : Platform where
  normalizeNfc value := value
  normalizeNfc_ascii _ := rfl
  ed25519PublicKey privateKey := privateKey
  ed25519Sign _ _ := List.replicate 64 0
  ed25519Verify _ _ _ := true

/-- Two wallets, a reward and a transfer. -/
def firstLines : List ShellInput := [
  ⟨text "wallet alice", List.replicate 32 1, []⟩,
  ⟨text "wallet bob", List.replicate 32 2, []⟩,
  ⟨text "mine alice", [], []⟩,
  ⟨text "send alice bob 1", [], []⟩]

/-- A transfer of more than the reward. -/
def overspending : ShellInput := ⟨text "send alice bob 100", [], []⟩

/-- The search finds a block, and the database refuses it. -/
def refusedMining : ShellInput := ⟨text "mine bob", [], [.fails]⟩

omit [Platform] in
/-- The reward is confirmed and the transfer is pending when the database refuses a block. -/
theorem session_ends_refused : ∃ node storage e shell, @LocalNode.Reachable sessionPlatform node ∧
    node.storage = some storage ∧
    @session sessionPlatform node (firstLines ++ [refusedMining]) = (.error e, shell) ∧
    shell.wallets.keys = [text "alice", text "bob"] ∧ shell.node.chain.height = 1 ∧
    shell.node.mempool.size = 1 ∧
    @Endings sessionPlatform node (firstLines ++ [refusedMining]) := by
  have evaluated : (do
      let storage ← @SQLiteChainStorage.openFresh sessionPlatform testnet
      let node ← @LocalNode.new sessionPlatform testnet (some storage)
      let (result, shell) := @session sessionPlatform node (firstLines ++ [refusedMining])
      return (result.isOk, shell.wallets.keys, shell.node.chain.height,
        shell.node.mempool.size)).toOption = some (false, [text "alice", text "bob"], 1, 1) := by
    decide +kernel
  obtain ⟨data, opened, represents⟩ := @exists_openFresh sessionPlatform
  have run := @Chain.Run.init sessionPlatform _ (@Chain.init_testnet sessionPlatform)
  have created := (@LocalNode.reopen_eq sessionPlatform [] _ _ run represents).2
  have reachable := @LocalNode.Reachable.persistent sessionPlatform _ _ rfl created
  rw [opened, ok_bind, created, ok_bind] at evaluated
  cases ended : @session sessionPlatform ⟨genesisChain, Mempool.empty, some (.onTables data)⟩
      (firstLines ++ [refusedMining]) with
  | mk result shell =>
      rw [ended] at evaluated
      obtain ⟨refused, facts⟩ := Prod.mk.inj (Option.some.inj evaluated)
      obtain ⟨wallets, heights⟩ := Prod.mk.inj facts
      obtain ⟨height, pending⟩ := Prod.mk.inj heights
      cases result with
      | ok lines => cases refused
      | error e =>
          exact ⟨_, _, e, shell, reachable, rfl, ended, wallets, height, pending,
            @session_ends sessionPlatform _ reachable _⟩

/-- The shell of a node in memory after these lines. -/
def spendingShell : Shell :=
  firstLines.foldl (fun shell input => (@turn sessionPlatform shell input).2)
    ⟨⟨genesisChain, Mempool.empty, none⟩, .empty⟩

theorem Reachable.turns (reachable : shell.Reachable) (inputs : List ShellInput) :
    Reachable (inputs.foldl (fun shell input => (shell.turn input).2) shell) := by
  induction inputs generalizing shell with
  | nil => exact reachable
  | cons input rest ih => exact ih (.turn input reachable)

omit [Platform] in
theorem spendingShell_reachable : @Reachable sessionPlatform spendingShell := by
  refine @Reachable.turns sessionPlatform _ (@Reachable.start sessionPlatform _ ?_) firstLines
  apply @LocalNode.Reachable.inMemory sessionPlatform
  simp only [LocalNode.new, @Chain.init_testnet sessionPlatform]
  rfl

omit [Platform] in
/-- The pool refuses the transfer, and both wallets, the reward and the other transfer stay. -/
theorem failure_overspending : spendingShell.wallets.keys = [text "alice", text "bob"] ∧
    spendingShell.node.chain.height = 1 ∧ spendingShell.node.mempool.size = 1 ∧
    ∃ e, (@perform sessionPlatform spendingShell overspending).1 = .error e ∧
      (@perform sessionPlatform spendingShell overspending).2 = spendingShell ∧
      (catches e.cls = true ∨ @Ends sessionPlatform spendingShell overspending e) := by
  have evaluated : (spendingShell.wallets.keys, spendingShell.node.chain.height,
      spendingShell.node.mempool.size, (@perform sessionPlatform spendingShell overspending).1.isOk) =
        ([text "alice", text "bob"], 1, 1, false) := by
    decide +kernel
  obtain ⟨wallets, height, pending, refused⟩ := by simpa only [Prod.mk.injEq] using evaluated
  refine ⟨wallets, height, pending, ?_⟩
  cases outcome : (@perform sessionPlatform spendingShell overspending).1 with
  | ok answer =>
      rw [outcome] at refused
      cases refused
  | error e =>
      obtain ⟨same, why⟩ :=
        @Reachable.failure sessionPlatform _ _ spendingShell_reachable e outcome
      exact ⟨e, rfl, same, why⟩

end Shell

end

end OurCoin
