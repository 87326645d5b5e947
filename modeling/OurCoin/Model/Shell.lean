import OurCoin.Model.Amount
import OurCoin.Model.WalletFile

/-!
# The shell

`_run_shell_session` of `cli.py`: a line is split as `shlex.split` does, a command changes the
node or the wallets of the session, and some exceptions become an answer. What a line also
depends on, the key that a new wallet draws and the faults of the database, comes with it.
-/

set_option autoImplicit false

namespace OurCoin

open Raising Transactions

/-! ## `shlex.split` -/

/-- Where `shlex` stands between two characters. -/
inductive ShlexState where
  | between
  | word
  | quotes (quote : Nat)
  /-- After a backslash, in a word or within quotes. -/
  | escape (quote : Option Nat)

/-- `' \t\r\n'`. -/
def isShlexSpace (c : Nat) : Prop := c = 32 ∨ c = 9 ∨ c = 13 ∨ c = 10

instance (c : Nat) : Decidable (isShlexSpace c) := inferInstanceAs (Decidable (_ ∨ _))

/-- The words of a text, with the word that was begun. A word that is begun has a character or
was quoted, so that none is passed over. -/
def shlexWords : ShlexState → Text → Text → Except Raised (List Text)
  | .between, _, [] => return []
  | .word, word, [] => return [word]
  | .quotes _, _, [] => throw (valueError "No closing quotation")
  | .escape _, _, [] => throw (valueError "No escaped character")
  | .between, _, c :: rest =>
    if isShlexSpace c then shlexWords .between [] rest
    else if c = 92 then shlexWords (.escape none) [] rest
    else if c = 34 ∨ c = 39 then shlexWords (.quotes c) [] rest
    else shlexWords .word [c] rest
  | .word, word, c :: rest =>
    if isShlexSpace c then do return word :: (← shlexWords .between [] rest)
    else if c = 34 ∨ c = 39 then shlexWords (.quotes c) word rest
    else if c = 92 then shlexWords (.escape none) word rest
    else shlexWords .word (word ++ [c]) rest
  | .quotes quote, word, c :: rest =>
    if c = quote then shlexWords .word word rest
    else if c = 92 ∧ quote = 34 then shlexWords (.escape (some quote)) word rest
    else shlexWords (.quotes quote) (word ++ [c]) rest
  | .escape none, word, c :: rest => shlexWords .word (word ++ [c]) rest
  | .escape (some quote), word, c :: rest =>
    -- Within quotes a backslash stays, except before another one or the quote.
    if c ≠ 92 ∧ c ≠ quote then shlexWords (.quotes quote) (word ++ [92, c]) rest
    else shlexWords (.quotes quote) (word ++ [c]) rest

/-- `shlex.split(line)`. -/
def shlexSplit (line : Text) : Except Raised (List Text) := shlexWords .between [] line

/-! ## Commands -/

/-- A line of the shell, as it was understood. -/
inductive ShellCommand where
  | blank
  | quit
  | help
  | wallet (name : Text)
  | address (name : Text)
  | balance (value : Text)
  | mine (name : Text)
  | send (senderName recipientName amountText : Text) (feeText : Option Text)
  | chain
  | unknown

/-- Which branch the words take. -/
def ShellCommand.parse : List Text → ShellCommand
  | [] => .blank
  | command :: arguments =>
    if command = text "quit" ∨ command = text "exit" then .quit
    else if command = text "help" then .help
    else match arguments with
      | [] => if command = text "chain" then .chain else .unknown
      | [argument] =>
        if command = text "wallet" then .wallet argument
        else if command = text "address" then .address argument
        else if command = text "balance" then .balance argument
        else if command = text "mine" then .mine argument
        else .unknown
      | [sender, recipient, amount] =>
        if command = text "send" then .send sender recipient amount none else .unknown
      | [sender, recipient, amount, fee] =>
        if command = text "send" then .send sender recipient amount (some fee) else .unknown
      | _ => .unknown

/-- The text that `help` prints. -/
def shellHelp : Text :=
  text ("commands: wallet NAME | address NAME | balance NAME_OR_ADDRESS | mine NAME | " ++
    "send FROM TO AMOUNT [FEE] | chain | help | quit")

/-- The first line of a session. -/
def shellBanner : Text :=
  text "OurCoin M6 local shell (blockchain state is persistent; wallets are in-memory)"

/-- The fee of a transfer that names none. -/
def defaultFeeAtoms : Int := atomsPerOur / 100

/-! ## The session -/

/-- A line, the key that `Wallet.create` draws, and the faults that its statements meet. -/
structure ShellInput where
  line : Text
  privateKeyBytes : Bytes
  faults : List Fault

/-- What a session works on. -/
structure Shell where
  node : LocalNode
  wallets : Dict Text NamedWallet

/-- What becomes of a line: the session ends, or prints and goes on. -/
inductive ShellAnswer where
  | ends
  | prints (lines : List Text)

namespace Shell

/-- `wallets[name]`. -/
def walletOf (shell : Shell) (name : Text) : Except Raised NamedWallet :=
  match shell.wallets.get? name with
  | some wallet => return wallet
  | none => throw keyError

/-- `_resolve_address(value, wallets)`. -/
def resolveAddress (shell : Shell) (value : Text) : Text :=
  match shell.wallets.get? value with
  | some wallet => wallet.wallet.address
  | none => value

/-- `balance NAME_OR_ADDRESS`. -/
def balance (shell : Shell) (value : Text) : Except Raised Text := do
  let account ← (← shell.node.chain.state).getAccount (shell.resolveAddress value)
  formatAtoms account.balanceAtoms

/-- The fee, as text or the default. -/
def feeAtoms : Option Text → Except Raised Int
  | some feeText => parseOurAmount feeText true
  | none => return defaultFeeAtoms

/-- What `send` is called with: the wallet, the recipient, the amount and the fee. -/
def sendArguments (shell : Shell) (senderName recipientName amountText : Text)
    (feeText : Option Text) : Except Raised (NamedWallet × Text × Int × Int) := do
  let wallet ← shell.walletOf senderName
  let amountAtoms ← parseOurAmount amountText false
  let feeAtoms ← feeAtoms feeText
  return (wallet, shell.resolveAddress recipientName, amountAtoms, feeAtoms)

/-- `chain`. -/
def chainLine (shell : Shell) : Except Raised Text := do
  let supply ← formatAtoms shell.node.chain.totalSupplyAtoms
  return text s!"height={shell.node.chain.height} mempool={shell.node.mempool.size} supply=" ++
    supply

/-- `except (CliError, KeyError, NodeError, ValueError)`. -/
def catches (cls : ErrorClass) : Bool := cls.isValueError || cls == .keyError

/-- `error: …`. -/
def errorLine (e : Raised) : Text :=
  text ("error: " ++ if e.cls = .keyError then "wallet does not exist" else e.message)

variable [Platform]

/-- `wallet NAME`: the wallet that is added. -/
def createWallet (shell : Shell) (name : Text) (privateKeyBytes : Bytes) :
    Except Raised NamedWallet := do
  raiseIf (shell.wallets.contains name = true)
    (cliError "wallet name already exists in this session")
  NamedWallet.new name privateKeyBytes testnet

/-- Perform one command on the shell. -/
def execute (shell : Shell) (input : ShellInput) :
    ShellCommand → Outcome Raised Shell ShellAnswer
  | .blank => (.ok (.prints []), shell)
  | .quit => (.ok .ends, shell)
  | .help => (.ok (.prints [shellHelp]), shell)
  | .wallet name =>
    match shell.createWallet name input.privateKeyBytes with
    | .error e => (.error e, shell)
    | .ok wallet =>
      (.ok (.prints [wallet.wallet.address]),
        { shell with wallets := shell.wallets.set name wallet })
  | .address name => (do return .prints [(← shell.walletOf name).wallet.address], shell)
  | .balance value => (do return .prints [← shell.balance value], shell)
  | .mine name =>
    match shell.walletOf name with
    | .error e => (.error e, shell)
    | .ok wallet =>
      match shell.node.mine wallet.wallet.address none maxBlockTransactions 1000000
          input.faults with
      | (.error e, node) => (.error e, { shell with node })
      | (.ok result, node) =>
        (do
          let hash ← result.block.blockHash
          return .prints [text s!"height={node.chain.height} block=" ++ hexText hash],
        { shell with node })
  | .send senderName recipientName amountText feeText =>
    match shell.sendArguments senderName recipientName amountText feeText with
    | .error e => (.error e, shell)
    | .ok (wallet, recipientAddress, amountAtoms, feeAtoms) =>
      match shell.node.send wallet.wallet recipientAddress amountAtoms feeAtoms
          defaultTransactionLifetimeBlocks with
      | (.error e, node) => (.error e, { shell with node })
      | (.ok tx, node) => (do return .prints [hexText (← tx.txid)], { shell with node })
  | .chain => (do return .prints [← shell.chainLine], shell)
  | .unknown => (.error (cliError "unknown command or wrong number of arguments"), shell)

/-- The body of `try`. -/
def perform (shell : Shell) (input : ShellInput) : Outcome Raised Shell ShellAnswer :=
  match shlexSplit input.line with
  | .error e => (.error e, shell)
  | .ok parts => shell.execute input (.parse parts)

/-- One line. -/
def turn (shell : Shell) (input : ShellInput) : Outcome Raised Shell ShellAnswer :=
  match shell.perform input with
  | (.error e, shell) =>
    if catches e.cls = true then (.ok (.prints [errorLine e]), shell) else (.error e, shell)
  | answered => answered

/-- The loop, up to the end of the input, where `input()` raises `EOFError`. -/
def loop (shell : Shell) : List ShellInput → Outcome Raised Shell (List Text)
  | [] => (.ok [[]], shell)
  | input :: rest =>
    match shell.turn input with
    | (.error e, shell) => (.error e, shell)
    | (.ok .ends, shell) => (.ok [], shell)
    | (.ok (.prints lines), shell) =>
      match shell.loop rest with
      | (.error e, shell) => (.error e, shell)
      | (.ok more, shell) => (.ok (lines ++ more), shell)

/-- `_run_shell_session(node)`. -/
def session (node : LocalNode) (inputs : List ShellInput) : Outcome Raised Shell (List Text) :=
  match loop ⟨node, .empty⟩ inputs with
  | (.error e, shell) => (.error e, shell)
  | (.ok lines, shell) => (.ok (shellBanner :: shellHelp :: lines), shell)

end Shell

end OurCoin
