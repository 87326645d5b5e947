import OurCoin.Node.Readmission
import OurCoin.Peer.Dialing
import OurCoin.Wire.Relay

/-!
# When a relayed transaction is punished

A transaction that one node accepted reaches another one. The peer that sent it gets ten
points exactly when the pool of the receiver has a reason to refuse it that does not mention
what the pool already has.

* `Mempool.Blames` lists these reasons: the pool is full, the transaction has expired, or its
  nonce is free but the sender has too many pending transactions, another next nonce, or too
  little money for all of them. `Mempool.add_blames_iff` says that they are the refusals
  without `already`.
* `P2PNode.relayed_transaction_punished`: reading the transaction adds ten points in exactly
  these cases, and twenty more when they reach the threshold; otherwise it adds none.
* `P2PNode.not_never_punished`: the second pending transaction of a sender is punished when
  the receiver has not seen the first one.
-/

set_option autoImplicit false

namespace OurCoin

open Raising Stateful

/-! ## Reasons to refuse -/

namespace Mempool

/-- The reasons to refuse a transaction for which its sender is blamed. -/
def Blames (pool : Mempool) (state : AccountState) (height : Int) (tx : Transaction) : Prop :=
  maxMempoolTransactions ≤ pool.size ∨ ¬ (0 ≤ height ∧ height ≤ u64Max) ∨
    tx.validUntilHeight < height ∨
    pool.bySenderNonce.get? (tx.senderAddress, tx.nonce) = none ∧
      (maxPendingPerSender ≤ (pool.senderTransactions tx.senderAddress).length ∨
        (state.accountOf tx.senderAddress).nonce = u64Max ∨
        tx.nonce ≠ (state.accountOf tx.senderAddress).nonce +
          (pool.senderTransactions tx.senderAddress).length ∨
        (state.accountOf tx.senderAddress).balanceAtoms <
          reservedAtoms (pool.senderTransactions tx.senderAddress) + tx.amountAtoms + tx.feeAtoms)

variable [Platform] {pool : Mempool} {state : AccountState} {height : Int} {tx : Transaction}
  {txid : Bytes}

/-- A transaction that was valid once is refused by the validation with another text. -/
theorem validateTransaction_mentions (valid : tx.IntrinsicallyValid state.network) :
    RaisesOnly (fun e => e.cls = .transactionError ∧ ¬ e.mentions "already")
      (validateTransaction tx height state.network) := by
  obtain ⟨_, senderOk⟩ := valid.sender_valid
  obtain ⟨_, recipientOk⟩ := valid.recipient_valid
  obtain ⟨signed, signedOk, ⟨encoded, encodedOk⟩, -⟩ := valid.encodable
  have addresses : (do
      let _ ← decodeAddress tx.senderAddress state.network
      let _ ← decodeAddress tx.recipientAddress state.network
      addressFromPublicKey tx.senderPublicKey state.network) = .ok tx.senderAddress := by
    rw [senderOk, ok_bind, recipientOk, ok_bind, valid.sender_eq]
  have encodes : (do
      let signed ← tx.signingBytes
      let _ ← tx.toBytes
      return signed) = .ok signed := by
    rw [signedOk, ok_bind, encodedOk, ok_bind]
    rfl
  unfold validateTransaction validateU64
  repeat refine .bind (.raiseIf ⟨rfl, by decide⟩) fun _ _ => ?_
  refine .bind (.rethrow (.of_ok addresses)) fun expected _ => ?_
  refine .bind (.raiseIf ⟨rfl, by decide⟩) fun _ _ => ?_
  exact .bind (.rethrow (.of_ok encodes)) fun _ _ => .raiseIf ⟨rfl, by decide⟩

/-- The pool has another transaction in the place of this one, and no reason to refuse it
earlier. -/
structure Occupied (pool : Mempool) (height : Int) (tx : Transaction) : Prop where
  size_lt : pool.size < maxMempoolTransactions
  height_range : 0 ≤ height ∧ height ≤ u64Max
  alive : height ≤ tx.validUntilHeight
  slot_taken : pool.bySenderNonce.get? (tx.senderAddress, tx.nonce) ≠ none

omit [Platform] in
theorem Occupied.not_blames (occupied : pool.Occupied height tx) : ¬ pool.Blames state height tx := by
  obtain ⟨size, range, alive, taken⟩ := occupied
  rintro (full | outside | expired | ⟨free, -⟩)
  · omega
  · exact outside range
  · omega
  · exact taken free

/-- A pool that blames nobody and in which the place is taken is occupied. -/
theorem occupied_of_not_blames (valid : tx.IntrinsicallyValid state.network)
    (named : tx.txid = .ok txid) (notPending : pool.contains txid = false)
    (unconfirmed : state.containsTransaction txid = false) (spared : ¬ pool.Blames state height tx)
    (refused : ∀ pool', pool.add tx state height ≠ .ok (txid, pool')) : pool.Occupied height tx := by
  simp only [Blames, not_or, not_le, not_not, not_lt] at spared
  obtain ⟨size, range, alive, fits⟩ := spared
  refine ⟨size, range, alive, ?_⟩
  intro free
  have spared := fun reason => fits ⟨free, reason⟩
  simp only [imp_false, not_or, not_le, not_not, not_lt] at spared
  obtain ⟨few, left, next, covered⟩ := spared
  exact refused _ (add_eq_ok.mpr ⟨⟨size, range, valid, alive, named,
    Dict.contains_eq_false.mp notPending,
    by simpa [AccountState.containsTransaction] using unconfirmed, free, few, left, next, covered⟩,
    rfl⟩)

/-- Only an occupied place is refused with `already`. -/
theorem add_mentions (valid : tx.IntrinsicallyValid state.network) (named : tx.txid = .ok txid)
    (notPending : pool.contains txid = false) (unconfirmed : state.containsTransaction txid = false) :
    RaisesOnly (fun e => e.mentions "already" → pool.Occupied height tx)
      (pool.add tx state height) := by
  have account := getAccount_eq_ok.mpr ⟨valid.sender_valid, rfl⟩
  unfold add
  refine .bind (.raiseIf fun wrong => absurd wrong (by decide)) fun _ roomy => ?_
  refine .bind (.rethrow ?_) fun _ valid' => ?_
  · intro e raised
    obtain ⟨cls, plain⟩ := validateTransaction_mentions valid e raised
    rw [reraiseSame, if_pos (by simp [cls])]
    exact fun wrong => absurd wrong plain
  refine .bind (.of_ok named) fun _ same => ?_
  cases named.symm.trans same
  rw [notPending, unconfirmed]
  refine .bind (.of_ok rfl) fun _ _ => ?_
  refine .bind (.of_ok rfl) fun _ _ => ?_
  dsimp only
  by_cases taken : pool.bySenderNonce.contains (tx.senderAddress, tx.nonce) = true
  · obtain ⟨range, -, alive⟩ := validateTransaction_eq_ok.mp (rethrow_eq_ok.mp valid')
    have size := raiseIf_eq_ok.mp roomy
    have occupied : pool.Occupied height tx :=
      ⟨by omega, range, alive, fun free => by rw [Dict.contains_eq_false.mpr free] at taken; cases taken⟩
    intro e _ _
    exact occupied
  · have free : raiseIf (pool.bySenderNonce.contains (tx.senderAddress, tx.nonce) = true)
        (mempoolError "another transaction already uses this sender nonce") = .ok () :=
      raiseIf_eq_ok.mpr taken
    refine .bind (.of_ok free) fun _ _ => ?_
    refine .bind (.raiseIf fun wrong => absurd wrong (by decide)) fun _ _ => ?_
    refine .bind (.of_ok account) fun _ _ => ?_
    repeat refine .bind (.raiseIf fun wrong => absurd wrong (by decide)) fun _ _ => ?_
    exact .pure _

/-- An occupied place is refused with `already`. -/
theorem Occupied.add_eq (occupied : pool.Occupied height tx)
    (valid : tx.IntrinsicallyValid state.network) (named : tx.txid = .ok txid)
    (notPending : pool.contains txid = false) (unconfirmed : state.containsTransaction txid = false) :
    pool.add tx state height =
      .error (mempoolError "another transaction already uses this sender nonce") := by
  have roomy : raiseIf (pool.size ≥ maxMempoolTransactions)
      (mempoolError "mempool transaction limit has been reached") = .ok () :=
    raiseIf_eq_ok.mpr (not_le.mpr occupied.size_lt)
  have checked : rethrow (reraiseSame (· == .transactionError) .mempoolError)
      (validateTransaction tx height state.network) = .ok () :=
    rethrow_eq_ok.mpr (validateTransaction_eq_ok.mpr ⟨occupied.height_range, valid, occupied.alive⟩)
  have new : raiseIf (pool.contains txid = true)
      (mempoolError "transaction is already in the mempool") = .ok () :=
    raiseIf_eq_ok.mpr (by simp [notPending])
  have fresh : raiseIf (state.containsTransaction txid = true)
      (mempoolError "transaction has already been confirmed") = .ok () :=
    raiseIf_eq_ok.mpr (by simp [unconfirmed])
  have taken : pool.bySenderNonce.contains (tx.senderAddress, tx.nonce) = true := by
    by_contra free
    exact occupied.slot_taken (Dict.contains_eq_false.mp ((Bool.not_eq_true _).mp free))
  rw [add, roomy, ok_bind, checked, ok_bind, named, ok_bind, new, ok_bind, fresh, ok_bind]
  dsimp only
  rw [raiseIf_eq_error.mpr ⟨taken, rfl⟩]
  rfl

/-- **The pool blames the peer** exactly for the refusals that do not mention `already`. -/
theorem add_blames_iff (valid : tx.IntrinsicallyValid state.network) (named : tx.txid = .ok txid)
    (notPending : pool.contains txid = false) (unconfirmed : state.containsTransaction txid = false) :
    pool.Blames state height tx ↔
      ∃ e, pool.add tx state height = .error e ∧ ¬ e.mentions "already" := by
  constructor
  · intro blames
    cases outcome : pool.add tx state height with
    | ok result =>
        exfalso
        obtain ⟨id, pool'⟩ := result
        obtain ⟨accepts, -⟩ := add_eq_ok.mp outcome
        obtain ⟨size, range, -, alive, -, -, -, -, few, left, next, covered⟩ := accepts
        rcases blames with full | outside | expired | ⟨-, many | last | gap | poor⟩
        · omega
        · exact outside range
        · omega
        · omega
        · exact left last
        · exact gap next
        · omega
    | error e =>
        refine ⟨e, rfl, fun mentioned => ?_⟩
        exact (add_mentions valid named notPending unconfirmed e outcome mentioned).not_blames blames
  · rintro ⟨e, refused, plain⟩
    by_contra spared
    have occupied := occupied_of_not_blames valid named notPending unconfirmed spared fun pool' => by
      rw [refused]
      simp
    rw [occupied.add_eq valid named notPending unconfirmed] at refused
    cases refused
    exact plain (by decide)

end Mempool

/-! ## Points -/

namespace Session

variable {session after : Session}

/-- The peer got so many points, and nobody else got any. -/
structure Scored (points : Int) (before after : Session) : Prop where
  score_eq : after.connection.score = before.connection.score + points
  host_eq : after.connection.host = before.connection.host
  hostScore_eq : ∀ host, (after.node.hostScores.get? host).getD 0 =
    (before.node.hostScores.get? host).getD 0 + if host = before.connection.host then points else 0

theorem Scored.refl (session : Session) : Scored 0 session session :=
  ⟨(add_zero _).symm, rfl, fun host => by simp⟩

theorem Scored.trans {points points' : Int} {first second third : Session}
    (one : Scored points first second) (two : Scored points' second third) :
    Scored (points + points') first third where
  score_eq := by rw [two.score_eq, one.score_eq, add_assoc]
  host_eq := two.host_eq.trans one.host_eq
  hostScore_eq host := by
    rw [two.hostScore_eq, one.hostScore_eq, one.host_eq, add_assoc]
    split
    · rfl
    · rfl

theorem Scored.trans_zero (first second third : Session) (one : Scored 0 first second)
    (two : Scored 0 second third) : Scored 0 first third :=
  one.trans two

theorem scored_penalized (points : Int) (now : Time) (session : Session) :
    Scored points session (penalized points now session) where
  score_eq := rfl
  host_eq := rfl
  hostScore_eq host := by
    simp only [penalized]
    by_cases same : host = session.connection.host
    · subst same
      rw [Dict.get?_set_self, if_pos rfl, Option.getD_some]
    · rw [Dict.get?_set_of_ne (fun other => same other.symm), if_neg same, add_zero]

/-- So many more points bring the connection or its host to the threshold. -/
def Reaches (session : Session) (points : Int) : Prop :=
  session.connection.score + points ≥ session.node.limits.scoreDisconnectThreshold ∨
    (session.node.hostScores.get? session.connection.host).getD 0 + points ≥
      session.node.limits.scoreDisconnectThreshold

instance (session : Session) (points : Int) : Decidable (session.Reaches points) :=
  inferInstanceAs (Decidable (_ ∨ _))

/-- `ProtocolError("peer score reached the disconnect threshold")`. -/
def thresholdReached : Raised := protocolError "peer score reached the disconnect threshold"

/-- The points are added, and reaching the threshold is an exception. -/
theorem penalize_eq (points : Int) (now : Time) (session : Session) :
    penalize points now session =
      (if session.Reaches points then .error thresholdReached else .ok (),
        penalized points now session) := by
  have reaches : ((penalized points now session).connection.score ≥
        (penalized points now session).node.limits.scoreDisconnectThreshold ∨
      ((penalized points now session).node.hostScores.get?
          (penalized points now session).connection.host).getD 0 ≥
        (penalized points now session).node.limits.scoreDisconnectThreshold) ↔
      session.Reaches points := by
    simp only [penalized, Reaches, Dict.get?_set_self, Option.getD_some]
  rw [penalize, bind_of_ok (update_apply _ _), bind_of_ok (read_apply _ _)]
  dsimp only
  simp only [reaches]
  split
  · rfl
  · rfl

theorem scored_broadcast (messageType : MessageType) (payload : Bytes) :
    Stateful.Keeps (Scored 0) (broadcast messageType payload) :=
  fun session => ⟨(add_zero _).symm, rfl, fun host => by simp [broadcast, update, P2PNode.broadcast]⟩

variable [Platform]

theorem scored_reject (code : Int) (reason : String) :
    Stateful.Keeps (Scored 0) (reject code reason) := by
  apply Keeps.suppress
  apply Keeps.bind Scored.trans_zero (Keeps.lift Scored.refl _)
  intro payload session
  rcases send_cases .reject payload session with ⟨e, raised⟩ | ⟨-, written⟩
  · rw [raised]
    exact .refl session
  · rw [written]
    exact ⟨(add_zero _).symm, rfl, fun host => by simp [wrote]⟩

/-- The payload of the REJECT that answers a refused transaction. -/
def invalidTransactionPayload : Bytes :=
  (0 :: 0 :: 0 :: 0x15 :: rejectDomain) ++ [0, 31] ++
    (0 :: 0 :: 0 :: 0x13 :: (text "invalid transaction").map UInt8.ofNat)

theorem toBytes_invalidTransaction :
    Reject.toBytes ⟨31, (text "invalid transaction").take 256⟩ = .ok invalidTransactionPayload := by
  rw [Reject.toBytes, encodeText_ascii (by decide)]
  rfl

/-- A REJECT is sent unless the connection was closed, and never raises. -/
theorem reject_eq_ok {code : Int} {reason : String} {payload : Bytes}
    (encoded : Reject.toBytes ⟨code, (text reason).take 256⟩ = .ok payload)
    (short : payload.length ≤ maxFramePayload) (session : Session) :
    (reject code reason session).1 = .ok () := by
  rw [reject, suppress, bind_apply, lift_apply, encoded]
  dsimp only
  cases closed : session.connection.closed with
  | true =>
      rw [send_of_closed closed]
      rfl
  | false => rw [send_of_open closed short]

/-- A handler that blames the peer adds ten points, and raises when they reach the threshold; one
that does not blame it adds none. -/
structure Judged {α : Type} (blamed : Prop) (before : Session)
    (outcome : Except Raised α × Session) : Prop where
  blames : blamed → Scored 10 before outcome.2 ∧
    if before.Reaches 10 then outcome.1 = .error thresholdReached else outcome.1.isOk = true
  spares : ¬ blamed → Scored 0 before outcome.2 ∧ outcome.1.isOk = true

omit [Platform] in
/-- What a handler goes on with does not matter. -/
theorem Judged.congr {α β : Type} {blamed : Prop} {before after : Session}
    {result : Except Raised α} {result' : Except Raised β}
    (judged : Judged blamed before (result, after))
    (fails : ∀ e, result = .error e → result' = .error e)
    (goesOn : result.isOk = true → result'.isOk = true) : Judged blamed before (result', after) := by
  refine ⟨fun blames => ?_, fun spared => ?_⟩
  · obtain ⟨scored, outcome⟩ := judged.blames blames
    refine ⟨scored, ?_⟩
    split at outcome
    · rw [if_pos ‹_›]
      exact fails _ outcome
    · rw [if_neg ‹_›]
      exact goesOn outcome
  · obtain ⟨scored, outcome⟩ := judged.spares spared
    exact ⟨scored, goesOn outcome⟩

/-- The refusal of a transaction is blamed on the peer unless it mentions `already`. -/
theorem judged_refusedTransaction (now : Time) (e : Raised) (session : Session) :
    Judged (¬ e.mentions "already") session (refusedTransaction now e session) := by
  rw [refusedTransaction]
  split
  · rename_i mentioned
    exact ⟨fun blamed => absurd mentioned blamed, fun _ => ⟨.refl session, rfl⟩⟩
  · rename_i plain
    refine ⟨fun _ => ?_, fun spared => absurd plain spared⟩
    have punished := scored_penalized 10 now session
    by_cases reaches : session.Reaches 10
    · have raised : penalize 10 now session = (.error thresholdReached, penalized 10 now session) := by
        rw [penalize_eq, if_pos reaches]
      rw [bind_of_error raised, if_pos reaches]
      exact ⟨punished, rfl⟩
    · have done : penalize 10 now session = (.ok (), penalized 10 now session) := by
        rw [penalize_eq, if_neg reaches]
      rw [bind_of_ok done, if_neg reaches, reject_eq_ok toBytes_invalidTransaction (by decide)]
      exact ⟨punished.trans (scored_reject 31 "invalid transaction" _), rfl⟩

end Session

/-! ## Transactions -/

/-- The node is new to a transaction, and has a reason to refuse it for which it blames the
peer. -/
def LocalNode.Blames [Platform] (node : LocalNode) (tx : Transaction) : Prop :=
  ∃ txid state, tx.txid = .ok txid ∧ node.chain.state = .ok state ∧
    node.mempool.contains txid = false ∧ state.containsTransaction txid = false ∧
    node.mempool.Blames state (node.chain.height + 1) tx

theorem LocalNode.chain_submitTransaction [Platform] (node : LocalNode) (tx : Transaction) :
    (node.submitTransaction tx).2.chain = node.chain := by
  rw [LocalNode.submitTransaction]
  split
  · rfl
  · rfl

/-- What a node accepted is valid as long as it has not expired. -/
theorem LocalNode.Invariant.valid_of_accepted [Platform] {node after : LocalNode}
    (inv : node.Invariant) {tx : Transaction} {txid : Bytes}
    (accepted : node.submitTransaction tx = (.ok txid, after)) : tx.IntrinsicallyValid testnet := by
  obtain ⟨path, branch, state, ends, stateOk, -, network⟩ := inv.chain_reachable.refines.exists_state
  rw [LocalNode.submitTransaction, stateOk] at accepted
  simp only [ok_bind] at accepted
  cases outcome : node.mempool.add tx state (node.chain.height + 1) with
  | error e =>
      rw [outcome] at accepted
      cases accepted
  | ok result =>
      obtain ⟨id, pool⟩ := result
      obtain ⟨accepts, -⟩ := Mempool.add_eq_ok.mp outcome
      rw [← network]
      exact accepts.valid

namespace Session

variable [Platform] {session : Session} {tx : Transaction}

/-- **Handling a transaction** adds ten points exactly when the node blames the peer. -/
theorem judged_handleTransaction (inv : session.node.localNode.Invariant)
    (valid : tx.IntrinsicallyValid testnet) (now : Time) :
    Judged (session.node.localNode.Blames tx) session (handleTransaction tx now session) := by
  obtain ⟨txid, named⟩ := valid.exists_txid
  obtain ⟨path, branch, state, ends, stateOk, -, network⟩ := inv.chain_reachable.refines.exists_state
  have unblamed : (session.node.localNode.mempool.contains txid = true ∨
      state.containsTransaction txid = true) → ¬ session.node.localNode.Blames tx := by
    rintro known ⟨id, state', idOk, stateOk', notPending, unconfirmed, -⟩
    rw [named] at idOk
    cases idOk
    rw [stateOk] at stateOk'
    cases stateOk'
    rcases known with pending | confirmed
    · rw [notPending] at pending
      cases pending
    · rw [unconfirmed] at confirmed
      cases confirmed
  rw [handleTransaction, bind_apply, lift_apply, named]
  dsimp only
  rw [bind_of_ok (read_apply _ _)]
  split
  · rename_i pending
    exact ⟨fun blames => absurd blames (unblamed (.inl pending)), fun _ => ⟨.refl session, rfl⟩⟩
  · rename_i notPending
    rw [bind_of_ok (read_apply _ _), bind_apply, lift_apply, stateOk]
    dsimp only
    split
    · rename_i confirmed
      exact ⟨fun blames => absurd blames (unblamed (.inr confirmed)),
        fun _ => ⟨.refl session, rfl⟩⟩
    · rename_i unconfirmed
      rw [Bool.not_eq_true] at notPending unconfirmed
      have blames_iff : session.node.localNode.Blames tx ↔
          session.node.localNode.mempool.Blames state (session.node.localNode.chain.height + 1) tx := by
        constructor
        · rintro ⟨_, state', -, stateOk', -, -, blames⟩
          rw [stateOk] at stateOk'
          cases stateOk'
          exact blames
        · intro blames
          exact ⟨txid, state, named, stateOk, notPending, unconfirmed, blames⟩
      obtain ⟨_, -, ⟨payload, encoded⟩, -⟩ := valid.encodable
      rw [← network] at valid
      rw [blames_iff, Mempool.add_blames_iff valid named notPending unconfirmed, trying,
        submitTransaction, LocalNode.submitTransaction, stateOk]
      simp only [ok_bind]
      cases outcome : session.node.localNode.mempool.add tx state
          (session.node.localNode.chain.height + 1) with
      | ok result =>
          obtain ⟨id, mempool⟩ := result
          refine ⟨?_, fun _ => ?_⟩
          · rintro ⟨e, wrong, -⟩
            cases wrong
          have accepted : Scored 0 session { session with node := { session.node with
              localNode := { session.node.localNode with mempool } } } :=
            ⟨(add_zero _).symm, rfl, fun host => by simp⟩
          simp only [rethrow]
          rw [bind_apply, lift_apply, encoded]
          exact ⟨accepted.trans_zero _ _ _ (scored_broadcast .transaction payload _), rfl⟩
      | error e =>
          have cls := Mempool.add_error_cls valid outcome
          have translated : reraiseSame (· == .mempoolError) .nodeError e = ⟨.nodeError, e.message⟩ := by
            rw [reraiseSame, if_pos (by simp [cls])]
          simp only [rethrow, translated]
          rw [if_pos (by rfl)]
          have judged := judged_refusedTransaction now ⟨.nodeError, e.message⟩ session
          refine ⟨?_, fun spared => judged.spares fun plain => spared ⟨e, rfl, plain⟩⟩
          rintro ⟨e', same, plain⟩
          cases same
          exact judged.blames plain

/-- So does handling its frame. -/
theorem judged_handleFrame (inv : session.node.localNode.Invariant)
    (valid : tx.IntrinsicallyValid testnet) {payload : Bytes} (encoded : tx.toBytes = .ok payload)
    (now : Time) (faults : List Transactions.Fault) :
    Judged (session.node.localNode.Blames tx) session
      (handleFrame ⟨.transaction, payload⟩ now faults session) := by
  have decoded : Transaction.fromBytes payload = .ok tx := by
    obtain ⟨encoded', encodes, decodes⟩ := Transaction.canonicalCodec.readBack valid.inRange
    rw [encoded] at encodes
    cases encodes
    exact decodes
  have judged := judged_handleTransaction inv valid now
  rw [handleFrame]
  dsimp only
  rw [bind_apply, lift_apply, decoded]
  dsimp only
  rw [bind_apply]
  cases outcome : handleTransaction tx now session with
  | mk result after =>
      rw [outcome] at judged
      cases result with
      | error e => exact judged.congr (fun _ same => by cases same; rfl) fun wrong => by cases wrong
      | ok _ => exact judged.congr (fun _ wrong => by cases wrong) fun _ => rfl

/-- The rate limiter notes a frame. -/
def limited (session : Session) (frame : Frame) (now : Time) : Session :=
  { session with connection := { session.connection with
    rateLimiter := (session.connection.rateLimiter.allow session.node.limits
      (framePrefixSize + frame.payload.length) now).2 } }

/-- The rate limiter has room for a frame. -/
def Allows (session : Session) (frame : Frame) (now : Time) : Prop :=
  (session.connection.rateLimiter.allow session.node.limits
    (framePrefixSize + frame.payload.length) now).1 = true

/-- A frame that the rate limiter lets pass is handled. -/
theorem receive_of_allows {frame : Frame} {now : Time} (allows : session.Allows frame now)
    (faults : List Transactions.Fault) :
    receive frame now faults session = handleFrame frame now faults (session.limited frame now) := by
  have passes : limitRate (framePrefixSize + frame.payload.length) now session =
      (.ok (), session.limited frame now) := by
    rw [limitRate, bind_of_ok (read_apply _ _)]
    cases outcome : session.connection.rateLimiter.allow session.node.limits
        (framePrefixSize + frame.payload.length) now with
    | mk allowed rateLimiter =>
        rw [Allows, outcome] at allows
        dsimp only at allows ⊢
        rw [bind_of_ok (onConnection_apply _ _), if_pos allows, limited, outcome]
        rfl
  rw [receive, bind_of_ok passes]

omit [Platform] in
theorem scored_setTask (session : Session) (task : Task) : Scored 0 session (session.setTask task) :=
  ⟨(add_zero _).symm, rfl, fun host => by simp [setTask]⟩

omit [Platform] in
theorem scored_close (session : Session) : Scored 0 session session.close := by
  rw [close]
  split
  · exact .refl session
  · exact ⟨(add_zero _).symm, rfl, fun host => by simp [P2PNode.removeConnection]⟩

omit [Platform] in
/-- `_run` adds twenty points for the exception at the threshold. -/
theorem scored_fail_thresholdReached (now : Time) (session : Session) :
    Scored 20 session (session.fail thresholdReached now) := by
  have points : session.pointsFor thresholdReached.cls = some 20 := rfl
  rw [fail, points]
  exact (scored_penalized 20 now session).trans
    ((scored_close _).trans_zero _ _ _ (scored_setTask _ _))

omit [Platform] in
theorem scored_resume {now : Time} {outcome : Except Raised (Option (List Block)) × Session}
    (isOk : outcome.1.isOk = true) : Scored 0 outcome.2 (resume now outcome) := by
  obtain ⟨result, after⟩ := outcome
  cases result with
  | error e => cases isOk
  | ok answer =>
      cases answer with
      | none => exact scored_setTask _ _
      | some blocks => exact scored_setTask _ _

/-- **Reading a transaction** costs the peer ten points, and twenty more at the threshold, exactly
when the node blames it. -/
theorem deliver_scored (inv : session.node.localNode.Invariant)
    (valid : tx.IntrinsicallyValid testnet) {payload : Bytes} (encoded : tx.toBytes = .ok payload)
    (reading : session.connection.task = .reading) {now : Time}
    (allows : session.Allows ⟨.transaction, payload⟩ now) (faults : List Transactions.Fault) :
    (session.node.localNode.Blames tx →
      Scored (if session.Reaches 10 then 30 else 10) session
        (session.deliver ⟨.transaction, payload⟩ now faults)) ∧
    (¬ session.node.localNode.Blames tx →
      Scored 0 session (session.deliver ⟨.transaction, payload⟩ now faults)) := by
  have noted : Scored 0 session (session.limited ⟨.transaction, payload⟩ now) :=
    ⟨(add_zero _).symm, rfl, fun host => by simp [limited]⟩
  have judged := @judged_handleFrame _ (session.limited ⟨.transaction, payload⟩ now) tx inv valid
    payload encoded now faults
  simp only [deliver, reading, receive_of_allows allows]
  constructor
  · intro blames
    obtain ⟨scored, outcome⟩ := judged.blames blames
    have upTo := noted.trans scored
    rw [zero_add] at upTo
    by_cases reaches : session.Reaches 10
    · have reaches' : (session.limited ⟨.transaction, payload⟩ now).Reaches 10 := reaches
      rw [if_pos reaches'] at outcome
      rw [if_pos reaches]
      have fails := upTo.trans (scored_fail_thresholdReached now _)
      cases handled : handleFrame ⟨.transaction, payload⟩ now faults
          (session.limited ⟨.transaction, payload⟩ now) with
      | mk result after =>
          rw [handled] at outcome fails
          cases outcome
          exact fails
    · have below : ¬ (session.limited ⟨.transaction, payload⟩ now).Reaches 10 := reaches
      rw [if_neg below] at outcome
      rw [if_neg reaches]
      have goesOn := upTo.trans (@scored_resume now _ outcome)
      rwa [add_zero] at goesOn
  · intro spared
    obtain ⟨scored, outcome⟩ := judged.spares spared
    exact noted.trans_zero _ _ _ (scored.trans_zero _ _ _ (scored_resume outcome))

end Session

namespace P2PNode

/-- **A relayed transaction is punished** exactly when its receiver blames the peer: by ten points,
and by twenty more when these reach the threshold. -/
theorem relayed_transaction_punished [Platform] {isLoopbackAddress : Text → Bool}
    {receiver : P2PNode} (reachable : receiver.Reachable isLoopbackAddress)
    {connection : PeerConnection} (reading : connection.task = .reading)
    {sender holder : LocalNode} (honest : sender.Reachable)
    {tx : Transaction} {txid payload : Bytes}
    (accepted : sender.submitTransaction tx = (.ok txid, holder)) (encoded : tx.toBytes = .ok payload)
    {now : Time} (allows : Session.Allows ⟨receiver, connection⟩ ⟨.transaction, payload⟩ now)
    (faults : List Transactions.Fault) :
    (receiver.localNode.Blames tx →
      Session.Scored (if Session.Reaches ⟨receiver, connection⟩ 10 then 30 else 10)
        ⟨receiver, connection⟩
        (Session.deliver ⟨.transaction, payload⟩ now faults ⟨receiver, connection⟩)) ∧
    (¬ receiver.localNode.Blames tx → Session.Scored 0 ⟨receiver, connection⟩
      (Session.deliver ⟨.transaction, payload⟩ now faults ⟨receiver, connection⟩)) :=
  @Session.deliver_scored _ ⟨receiver, connection⟩ tx reachable.sound.1.invariant
    (honest.invariant.valid_of_accepted accepted) _ encoded reading _ allows faults

/-- A local node can be connected to a peer that completed the handshake. -/
theorem exists_met [Platform] {localNode : LocalNode} (reachable : localNode.Reachable) :
    ∃ (receiver : P2PNode) (connection : PeerConnection), receiver.Reachable (fun _ => true) ∧
      receiver.localNode = localNode ∧ receiver.limits = .default ∧
      receiver.peers.get? 0 = some connection ∧
      connection.task = .reading ∧ connection.closed = false ∧ connection.hello.isSome = true ∧
      connection.rateLimiter = .empty ∧ ¬ Session.Reaches ⟨receiver, connection⟩ 10 := by
  let node : P2PNode := .new localNode 19733 .default ownNodeId length_ownNodeId (by decide)
  let peer : P2PNode := .new localNode 19734 .default Dialing.peerNodeId (by decide) (by decide)
  let host := text "127.0.0.1"
  have inv := reachable.invariant
  have made : node.Reachable fun _ => true := .new length_ownNodeId (by decide) reachable
  have admitted : node.accept (fun _ => true) 0 (some host) 0 = node.opened 0 host false := rfl
  have opened : (node.opened 0 host false).Reachable fun _ => true :=
    admitted ▸ made.turn (.accept 0 (some host) 0 rfl)
  obtain ⟨connection, greets, unlimited, sent⟩ := @sendHello_eq _ (node.opened 0 host false) 0 host false inv
    (Dict.get?_set_self _ _ _)
  have greeted := @sendHello_reachable _ (node.opened 0 host false) 0 _ opened
  rw [sent] at greeted
  obtain ⟨hello, payload, -, -, decoded, -, fromPeer, sameChain, sameGenesis⟩ :=
    @exists_hello _ peer inv
  let waiting : P2PNode := { node.opened 0 host false with
    peers := (node.opened 0 host false).peers.set 0 connection }
  have stored : waiting.peers.get? 0 = some connection := Dict.get?_set_self _ _ _
  have key_eq : connection.key = 0 := greeted.sound.1.keyed 0 connection stored
  have meets : Session.Meets ⟨waiting, connection⟩ hello :=
    ⟨sameChain, sameGenesis, fromPeer.trans_ne (by decide : Dialing.peerNodeId ≠ ownNodeId)⟩
  have free : Session.Unclaimed ⟨waiting, connection⟩ hello.nodeId :=
    fun _ _ registered => by cases registered
  obtain ⟨connection', delivered, key_eq', -, isOpen, met, reading, -, score, limiter⟩ :=
    @Session.deliver_free ⟨waiting, connection⟩ _ hello payload 0 inv greets.task_eq greets.isOpen
      decoded meets free
  have turned := greeted.turn (.act (.deliver ⟨.hello, payload⟩ 0 []) stored trivial)
  rw [Session.step, delivered] at turned
  refine ⟨_, connection', turned, rfl, rfl, ?_, reading, isOpen, by rw [met]; rfl,
    limiter.trans unlimited, ?_⟩
  · rw [Session.store]
    dsimp only
    rw [key_eq', key_eq]
    exact Dict.get?_set_self _ _ _
  · have below : ∀ score : Int, score = 0 →
        ¬ (score + 10 ≥ scoreDisconnectThreshold ∨ (0 : Int) + 10 ≥ scoreDisconnectThreshold) := by
      rintro _ rfl
      decide
    exact below connection'.score score

/-! ## Two pending transactions -/

open LocalNode (minedNode minedNode_reachable)

/-- The node with the block that pays the payer, and a pending transfer. -/
def pendingNode : LocalNode :=
  (@LocalNode.submitTransaction trustingPlatform minedNode Payer.firstTransfer).2

theorem pendingNode_reachable : @LocalNode.Reachable trustingPlatform pendingNode :=
  @LocalNode.Reachable.submitTransaction trustingPlatform _ _ minedNode_reachable

theorem pendingNode_chain : pendingNode.chain = minedNode.chain := by
  rw [pendingNode, @LocalNode.chain_submitTransaction trustingPlatform]

theorem exists_secondTransfer : ∃ txid holder,
    @LocalNode.submitTransaction trustingPlatform pendingNode Payer.secondTransfer =
      (.ok txid, holder) := by
  have accepted : (@LocalNode.submitTransaction trustingPlatform pendingNode
      Payer.secondTransfer).1.toOption.isSome = true := by
    decide +kernel
  cases outcome : @LocalNode.submitTransaction trustingPlatform pendingNode
      Payer.secondTransfer with
  | mk result holder =>
      rw [outcome] at accepted
      cases result with
      | error e => cases accepted
      | ok txid => exact ⟨txid, holder, rfl⟩

/-- The node without the first transfer refuses the second one. -/
theorem secondTransfer_refused :
    (do
      let state ← minedNode.chain.state
      let txid ← @Transaction.txid trustingPlatform Payer.secondTransfer
      return (minedNode.mempool.contains txid, state.containsTransaction txid,
        match @Mempool.add trustingPlatform minedNode.mempool Payer.secondTransfer state
            (minedNode.chain.height + 1) with
        | .ok _ => none
        | .error e => some e)) =
      Except.ok (false, false, some (mempoolError "transaction nonce would create a pending gap")) := by
  decide +kernel

/-- And it blames the peer for it. -/
theorem minedNode_blames :
    @LocalNode.Blames trustingPlatform minedNode Payer.secondTransfer := by
  have refused := secondTransfer_refused
  simp only [bind_eq_ok, pure_eq_ok, Prod.mk.injEq] at refused
  obtain ⟨state, stateOk, txid, named, notPending, unconfirmed, gap⟩ := refused
  obtain ⟨id, holder, accepted⟩ := exists_secondTransfer
  have valid := @LocalNode.Invariant.valid_of_accepted trustingPlatform _ _
    (@LocalNode.Reachable.invariant trustingPlatform _ pendingNode_reachable) _ _ accepted
  have inv := @LocalNode.Reachable.invariant trustingPlatform _ minedNode_reachable
  have refines := @Chain.Reachable.refines trustingPlatform _
    (@LocalNode.Invariant.chain_reachable trustingPlatform _ inv)
  obtain ⟨path, branch, state', ends, stateOk', -, network⟩ :=
    @Chain.Refines.exists_state trustingPlatform _ refines
  rw [stateOk] at stateOk'
  cases stateOk'
  have valid' : @Transaction.IntrinsicallyValid trustingPlatform Payer.secondTransfer
      state.network := by
    rw [network]
    exact valid
  refine ⟨txid, state, named, stateOk, notPending, unconfirmed, ?_⟩
  rw [@Mempool.add_blames_iff trustingPlatform _ _ _ _ _ valid' named notPending unconfirmed]
  split at gap
  · cases gap
  · rename_i e outcome
    cases gap
    exact ⟨_, outcome, by decide⟩

/-- The payload of the second transfer, which a new connection has room for. -/
theorem exists_secondPayload : ∃ payload,
    @Transaction.toBytes trustingPlatform Payer.secondTransfer = .ok payload ∧
    ∀ session : Session, session.node.limits = .default →
      session.connection.rateLimiter = .empty → session.Allows ⟨.transaction, payload⟩ 0 := by
  have short : (@Transaction.toBytes trustingPlatform Payer.secondTransfer).toOption.any
      (fun payload => decide (payload.length ≤ 1000)) = true := by
    decide +kernel
  cases outcome : @Transaction.toBytes trustingPlatform Payer.secondTransfer with
  | error e =>
      rw [outcome] at short
      cases short
  | ok payload =>
      rw [outcome] at short
      have few : payload.length ≤ 1000 := of_decide_eq_true short
      refine ⟨payload, rfl, fun session limits limiter => ?_⟩
      have room : framePrefixSize + payload.length ≤ 32 * 1024 * 1024 := by
        rw [framePrefixSize]
        omega
      rw [Session.Allows, limits, limiter, RateLimiter.allow]
      simp only [RateLimiter.empty, RateLimiter.expire, List.length_nil, PeerLimits.default]
      rw [if_neg (by decide), if_neg (by omega)]

/-- The receiver has not seen the first transfer. -/
theorem relayed_transaction_punished_gap : ∃ (receiver : P2PNode) (connection : PeerConnection)
    (payload : Bytes), receiver.localNode = minedNode ∧
    @Transaction.toBytes trustingPlatform Payer.secondTransfer = .ok payload ∧
    Session.Scored 10 ⟨receiver, connection⟩ (@Session.deliver trustingPlatform
      ⟨.transaction, payload⟩ 0 [] ⟨receiver, connection⟩) := by
  obtain ⟨receiver, connection, reachable, same, limits, -, reading, -, -, unlimited, below⟩ :=
    @exists_met trustingPlatform _ minedNode_reachable
  obtain ⟨txid, holder, accepted⟩ := exists_secondTransfer
  obtain ⟨payload, encoded, allowed⟩ := exists_secondPayload
  have punished := (@relayed_transaction_punished trustingPlatform _ _ reachable _ reading _ _
    pendingNode_reachable _ _ _ accepted encoded _ (allowed ⟨receiver, connection⟩ limits unlimited)
    []).1
  rw [if_neg below, same] at punished
  exact ⟨receiver, connection, payload, same, encoded, punished minedNode_blames⟩

/-- **An honest peer may be punished**: a node with the same chain that accepted two transfers
relays the second one. -/
theorem not_never_punished : ¬ ∀ (receiver : P2PNode) (key : Nat) (connection : PeerConnection)
    (sender holder : LocalNode) (tx : Transaction) (txid payload : Bytes) (now : Time)
    (faults : List Transactions.Fault),
    @P2PNode.Reachable trustingPlatform (fun _ => true) receiver →
    receiver.peers.get? key = some connection → connection.task = .reading →
    Session.Allows ⟨receiver, connection⟩ ⟨.transaction, payload⟩ now →
    @LocalNode.Reachable trustingPlatform sender →
    sender.chain = receiver.localNode.chain →
    @LocalNode.submitTransaction trustingPlatform sender tx = (.ok txid, holder) →
    @Transaction.toBytes trustingPlatform tx = .ok payload →
    Session.Scored 0 ⟨receiver, connection⟩ (@Session.deliver trustingPlatform
      ⟨.transaction, payload⟩ now faults ⟨receiver, connection⟩) := by
  intro never
  obtain ⟨receiver, connection, reachable, same, limits, stored, reading, -, -, unlimited, below⟩ :=
    @exists_met trustingPlatform _ minedNode_reachable
  obtain ⟨txid, holder, accepted⟩ := exists_secondTransfer
  obtain ⟨payload, encoded, allowed⟩ := exists_secondPayload
  have room := allowed ⟨receiver, connection⟩ limits unlimited
  have spared := never receiver 0 connection pendingNode holder _ txid payload 0 [] reachable stored
    reading room pendingNode_reachable (by rw [same, pendingNode_chain]) accepted encoded
  have valid := @LocalNode.Invariant.valid_of_accepted trustingPlatform _ _
    (@LocalNode.Reachable.invariant trustingPlatform _ pendingNode_reachable) _ _ accepted
  have inv := @LocalNode.Reachable.invariant trustingPlatform _ minedNode_reachable
  rw [← same] at inv
  obtain ⟨punished, -⟩ := @Session.deliver_scored trustingPlatform ⟨receiver, connection⟩ _ inv valid
    _ encoded reading _ room []
  have scored := (punished (by rw [same]; exact minedNode_blames)).score_eq
  rw [if_neg below, spared.score_eq] at scored
  omega

end P2PNode

end OurCoin
