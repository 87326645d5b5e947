import OurCoin.Peer.Effects

/-!
# What one step can do

The stretches of a task that handle no frame: sending the HELLO, the handshake, one more
block of an answer, the keepalive, and one send of a broadcast.

* `greet_cases`, `handshake_handled`, `sendNext_cases`, `idle_cases` and `flush_cases` are
  everything these stretches can do.
* `Session.step_submits`: a step changes the node by at most one submission, so it keeps the
  invariant of the node (`Session.step_invariant`).
-/

set_option autoImplicit false

namespace OurCoin

open Raising Stateful

namespace Session

variable {session : Session}

/-! ## The handshake -/

/-- The session after a handshake: the connection is registered under the ID of the peer. -/
def greeted (session : Session) (hello : Hello) : Session where
  node := { session.node with
    byNodeId := session.node.byNodeId.set hello.nodeId session.connection.key }
  connection := { session.connection with
    hello := some hello
    score := (session.node.scores.get? hello.nodeId).getD 0 }

section

variable [Platform]

/-- The HELLO is written, or nothing happens and the stretch raises. -/
theorem greet_cases (session : Session) :
    (∃ e, greet session = (.error e, session)) ∨
    ∃ hello payload, session.node.hello = .ok hello ∧ hello.toBytes = .ok payload ∧
      session.connection.closed = false ∧ greet session = (.ok (), session.wrote ⟨.hello, payload⟩) := by
  rw [greet, bind_of_ok (read_apply _ _), bind_apply, lift_apply]
  cases made : session.node.hello with
  | error e => exact .inl ⟨e, rfl⟩
  | ok hello =>
      rw [ok_bind]
      cases encoded : hello.toBytes with
      | error e => exact .inl ⟨e, rfl⟩
      | ok payload =>
          dsimp only
          rcases send_cases .hello payload session with ⟨e, raised⟩ | ⟨isOpen, written⟩
          · rw [raised]
            exact .inl ⟨e, rfl⟩
          · rw [written]
            exact .inr ⟨hello, payload, rfl, encoded, isOpen, rfl⟩

/-- No other open connection is registered under the ID. -/
def Unclaimed (session : Session) (nodeId : Bytes) : Prop :=
  ∀ key other, session.node.byNodeId.get? nodeId = some key → key ≠ session.connection.key →
    session.node.peers.get? key = some other → other.closed = true

/-- A handshake registers the connection, or raises and changes nothing. -/
theorem completeHandshake_cases (hello : Hello) (session : Session) :
    (∃ e, completeHandshake hello session = (.error e, session)) ∨
    ∃ own, session.node.hello = .ok own ∧ hello.chainId = own.chainId ∧
      hello.genesisHash = own.genesisHash ∧ hello.nodeId ≠ session.node.nodeId ∧
      session.Unclaimed hello.nodeId ∧
      completeHandshake hello session = (.ok (), { session with node := { session.node with
        byNodeId := session.node.byNodeId.set hello.nodeId session.connection.key } }) := by
  rw [completeHandshake, bind_of_ok (read_apply _ _), bind_apply, lift_apply]
  cases made : session.node.hello with
  | error e => exact .inl ⟨e, rfl⟩
  | ok own =>
      dsimp only
      rw [bind_apply, lift_apply]
      cases checked : (do
          raiseIf (hello.chainId ≠ own.chainId) (protocolError "peer belongs to another chain_id")
          raiseIf (hello.genesisHash ≠ own.genesisHash)
            (protocolError "peer uses another genesis block")
          raiseIf (hello.nodeId = session.node.nodeId)
            (protocolError "self-connections are not allowed") : Except Raised Unit) with
      | error e => exact .inl ⟨e, rfl⟩
      | ok _ =>
          simp only [bind_eq_ok, raiseIf_eq_ok, exists_const, not_not] at checked
          obtain ⟨sameChain, sameGenesis, notSelf⟩ := checked
          dsimp only
          rw [bind_of_ok (read_apply _ _)]
          split
          · exact .inl ⟨_, rfl⟩
          · rename_i free
            refine .inr ⟨own, rfl, sameChain, sameGenesis, notSelf, ?_, rfl⟩
            intro key other registered different stored
            by_contra isOpen
            apply free
            simp only [registered, stored, Option.any_some, decide_eq_true_eq]
            exact ⟨different, by simpa using isOpen⟩

/-- What the handling of the first frame can do. -/
inductive HandshakeHandled (session : Session) (frame : Frame) :
    Except Raised (Option (List Block)) × Session → Prop
  | refused {e : Raised} : HandshakeHandled session frame (.error e, session)
  | light {hello own : Hello} : frame.messageType = .hello → Hello.fromBytes frame.payload = .ok hello →
      session.node.hello = .ok own → hello.genesisHash = own.genesisHash →
      hello.cumulativeWork ≤ session.node.localNode.chain.cumulativeWork →
      HandshakeHandled session frame (.ok none, session.greeted hello)
  | heavy {hello own : Hello} {result : Except Raised Bool} {after : Session} :
      frame.messageType = .hello → Hello.fromBytes frame.payload = .ok hello →
      session.node.hello = .ok own → hello.genesisHash = own.genesisHash →
      session.node.localNode.chain.cumulativeWork < hello.cumulativeWork →
      requestBlocks (session.greeted hello) = (result, after) →
      HandshakeHandled session frame (result.map fun _ => none, after)

/-- **Handling the first frame does nothing else.** -/
theorem handshake_handled (session : Session) (frame : Frame) :
    HandshakeHandled session frame (handshake frame session) := by
  rw [handshake]
  split
  · exact .refused
  · rename_i isHello
    rw [bind_apply, lift_apply]
    cases decoded : Hello.fromBytes frame.payload with
    | error e => exact .refused
    | ok hello =>
        dsimp only
        rcases completeHandshake_cases hello session with ⟨e, raised⟩ |
          ⟨own, made, -, sameGenesis, -, -, registered⟩
        · rw [bind_of_error raised]
          exact .refused
        · have noted : (update fun session => { session with connection := { session.connection with
              hello := some hello
              score := (session.node.scores.get? hello.nodeId).getD 0 } } : Action Unit)
              { session with node := { session.node with
                byNodeId := session.node.byNodeId.set hello.nodeId session.connection.key } } =
              (.ok (), session.greeted hello) := rfl
          have greeting : frame.messageType = .hello := not_not.mp isHello
          rw [bind_of_ok registered, bind_of_ok noted, bind_of_ok (read_apply _ _)]
          split
          · rename_i heavier
            rw [bind_apply]
            cases request : requestBlocks (session.greeted hello) with
            | mk result after =>
                have handled : HandshakeHandled session frame (result.map fun _ => none, after) :=
                  .heavy greeting decoded made sameGenesis heavier request
                cases result with
                | error e => exact handled
                | ok sent => exact handled
          · rename_i lighter
            exact .light greeting decoded made sameGenesis (not_lt.mp lighter)

/-! ## Answers -/

/-- One more frame of an answer is written, or nothing happens and the stretch raises. -/
theorem sendNext_cases (blocks : List Block) (session : Session) :
    (∃ e, sendNext blocks session = (.error e, session)) ∨
    (session.connection.closed = false ∧ ∃ block rest payload, blocks = block :: rest ∧
      encodeBlock block = .ok payload ∧
      sendNext blocks session = (.ok (some rest), session.wrote ⟨.block, payload⟩)) ∨
    (session.connection.closed = false ∧ blocks = [] ∧ ∃ payload,
      (ChainSummary.ofChain session.node.localNode.chain).toBytes = .ok payload ∧
      sendNext blocks session = (.ok none, session.wrote ⟨.syncComplete, payload⟩)) := by
  cases blocks with
  | nil =>
      rw [sendNext, bind_of_ok (read_apply _ _), bind_apply, lift_apply]
      cases encoded : (ChainSummary.ofChain session.node.localNode.chain).toBytes with
      | error e => exact .inl ⟨e, rfl⟩
      | ok payload =>
          dsimp only
          rcases send_cases .syncComplete payload session with ⟨e, raised⟩ | ⟨isOpen, written⟩
          · rw [bind_of_error raised]
            exact .inl ⟨e, rfl⟩
          · rw [bind_of_ok written]
            exact .inr (.inr ⟨isOpen, rfl, payload, rfl, rfl⟩)
  | cons block rest =>
      rw [sendNext, bind_apply, lift_apply]
      cases encoded : encodeBlock block with
      | error e => exact .inl ⟨e, rfl⟩
      | ok payload =>
          dsimp only
          rcases send_cases .block payload session with ⟨e, raised⟩ | ⟨isOpen, written⟩
          · rw [bind_of_error raised]
            exact .inl ⟨e, rfl⟩
          · rw [bind_of_ok written]
            exact .inr (.inl ⟨isOpen, block, rest, payload, rfl, encoded, rfl⟩)

end

/-! ## Keepalive and broadcasts -/

/-- The session that waits for the answer to a PING. -/
def pinged (session : Session) (nonce : UInt64) : Session :=
  { session with connection := { session.connection with pendingPing := some nonce.toNat } }

/-- A PING is written, unless the last one is unanswered or the write is refused. -/
theorem idle_cases (nonce : UInt64) (session : Session) :
    (∃ e, idle nonce session = (.error e, session)) ∨
    (session.connection.pendingPing = none ∧
      ∃ e, idle nonce session = (.error e, session.pinged nonce)) ∨
    (session.connection.pendingPing = none ∧ session.connection.closed = false ∧
      ∃ payload, encodePing nonce.toNat = .ok payload ∧
        idle nonce session = (.ok none, (session.pinged nonce).wrote ⟨.ping, payload⟩)) := by
  rw [idle, bind_of_ok (read_apply _ _)]
  cases pending : session.connection.pendingPing with
  | some unanswered => exact .inl ⟨_, rfl⟩
  | none =>
      right
      have noted : onConnection (fun connection => { connection with
          pendingPing := some nonce.toNat }) session = (.ok (), session.pinged nonce) := rfl
      rw [if_neg (by simp), bind_of_ok noted, bind_apply, lift_apply]
      cases encoded : encodePing nonce.toNat with
      | error e => exact .inl ⟨rfl, e, rfl⟩
      | ok payload =>
          dsimp only
          rcases send_cases .ping payload (session.pinged nonce) with ⟨e, raised⟩ | ⟨isOpen, written⟩
          · rw [bind_of_error raised]
            exact .inl ⟨rfl, e, rfl⟩
          · rw [bind_of_ok written]
            exact .inr ⟨rfl, isOpen, payload, rfl, rfl⟩

/-- The session without the frame that is sent next for a broadcast. -/
def unqueued (session : Session) (index : Nat) : Session :=
  { session with connection := { session.connection with
    pendingSends := session.connection.pendingSends.eraseIdx index } }

/-- One send of a broadcast writes its frame, or closes the connection. -/
theorem flush_cases (index : Nat) (session : Session) :
    (session.connection.pendingSends[index]? = none ∧ session.flush index = session) ∨
    ∃ frame, session.connection.pendingSends[index]? = some frame ∧
      (session.flush index = (session.unqueued index).close ∨
        session.connection.closed = false ∧
          session.flush index = (session.unqueued index).wrote frame) := by
  rw [flush]
  cases queued : session.connection.pendingSends[index]? with
  | none => exact .inl ⟨rfl, rfl⟩
  | some frame =>
      refine .inr ⟨frame, rfl, ?_⟩
      dsimp only
      rcases send_cases frame.messageType frame.payload (session.unqueued index) with ⟨e, raised⟩ |
        ⟨isOpen, written⟩
      · left
        rw [show ({ session with connection := _ } : Session) = session.unqueued index from rfl, raised]
      · right
        rw [show ({ session with connection := _ } : Session) = session.unqueued index from rfl,
          written]
        exact ⟨isOpen, rfl⟩

/-- A broadcast is noted for a connection that is open and greeted. -/
theorem course_broadcastAll (frame : Frame) (session : Session) :
    (session.broadcastAll frame).course = { session.course with
      pendingSends :=
        if session.connection.hello.isSome = true ∧ session.connection.closed = false then
          session.connection.pendingSends ++ [frame]
        else session.connection.pendingSends } := by
  simp only [broadcastAll, course, PeerConnection.offer]
  split
  · rfl
  · rfl

/-! ## The node behind the sessions -/

variable [Platform]

/-- A step changes the node by at most one submission. -/
def Submits (before after : LocalNode) : Prop :=
  after = before ∨ (∃ block faults, after = (before.submitBlock block faults).2) ∨
    ∃ tx, after = (before.submitTransaction tx).2

theorem Submits.invariant {before after : LocalNode} (submits : Submits before after)
    (inv : before.Invariant) : after.Invariant := by
  rcases submits with rfl | ⟨block, faults, rfl⟩ | ⟨tx, rfl⟩
  · exact inv
  · exact inv.submitBlock block faults
  · exact inv.submitTransaction tx

theorem handleFrame_submits (inv : session.node.localNode.Invariant) (frame : Frame) (now : Time)
    (faults : List Transactions.Fault) :
    Submits session.node.localNode (handleFrame frame now faults session).2.node.localNode := by
  have related : Relates (fun before after => before.localNode.Invariant →
      Submits before.localNode after.localNode) (handleFrame frame now faults) := by
    apply relates_handleFrame (fun _ _ => .inl rfl)
    · intro _ block session inv
      have handled := handleBlock_handled inv block now faults
      generalize handleBlock block now faults session = outcome at handled ⊢
      cases handled with
      | unhashed _ => exact .inl rfl
      | known _ _ => exact .inl rfl
      | failed _ _ => exact .inl rfl
      | orphaned _ _ _ _ _ request =>
          rcases requestBlocks_cases session with ⟨-, outcome⟩ | ⟨-, e, outcome⟩ |
            ⟨-, -, locator, payload, -, -, outcome⟩
          all_goals
            rw [request] at outcome
            cases outcome
            exact .inl rfl
      | refused _ _ _ _ _ judged => exact .inl (congrArg Course.localNode judged)
      | accepted _ _ accepted same =>
          refine .inr (.inl ⟨block, faults, ?_⟩)
          dsimp only
          rw [same]
          exact (congrArg Prod.snd accepted).symm
    · intro _ summary session _
      have handled := handleSyncComplete_handled session summary now
      generalize handleSyncComplete summary now session = outcome at handled ⊢
      cases handled with
      | refused _ => exact .inl rfl
      | light _ _ _ => exact .inl rfl
      | stuck _ _ _ _ judged =>
          have same := congrArg Course.localNode judged
          exact .inl same
      | @heavy hello _ _ _ _ _ _ request =>
          rcases requestBlocks_cases (session.synced summary hello) with ⟨-, outcome⟩ |
            ⟨-, e, outcome⟩ | ⟨-, -, locator, payload, -, -, outcome⟩
          all_goals
            rw [request] at outcome
            cases outcome
            exact .inl rfl
    · intro _ tx session _
      have handled := handleTransaction_handled session tx now
      generalize handleTransaction tx now session = outcome at handled ⊢
      cases handled with
      | judged same => exact .inl (congrArg Course.localNode same)
      | accepted accepted same =>
          refine .inr (.inr ⟨tx, ?_⟩)
          dsimp only
          rw [same]
          exact (congrArg Prod.snd accepted).symm
    · intro payload session _
      rcases send_cases .pong payload session with ⟨e, raised⟩ | ⟨-, written⟩
      · rw [raised]
        exact .inl rfl
      · rw [written]
        exact .inl rfl
    · intro nonce session _
      rw [handlePong, bind_of_ok (read_apply _ _)]
      split
      · exact .inl rfl
      · exact .inl rfl
  exact related session inv

omit [Platform] in
theorem localNode_resume (now : Time) (outcome : Except Raised (Option (List Block)) × Session) :
    (resume now outcome).node.localNode = outcome.2.node.localNode := by
  obtain ⟨closed, task, same, -⟩ := course_resume now outcome
  exact congrArg Course.localNode same

omit [Platform] in
theorem localNode_fail (e : Raised) (now : Time) (session : Session) :
    (session.fail e now).node.localNode = session.node.localNode :=
  congrArg Course.localNode (course_fail e now session)

omit [Platform] in
theorem localNode_close (session : Session) : session.close.node.localNode = session.node.localNode :=
  congrArg Course.localNode (course_close session)

theorem localNode_requestBlocks (session : Session) :
    (requestBlocks session).2.node.localNode = session.node.localNode := by
  rcases requestBlocks_cases session with ⟨-, outcome⟩ | ⟨-, e, outcome⟩ |
    ⟨-, -, locator, payload, -, -, outcome⟩
  · rw [outcome]
  · rw [outcome]
  · rw [outcome]
    rfl

theorem localNode_handshake (frame : Frame) (session : Session) :
    (handshake frame session).2.node.localNode = session.node.localNode := by
  have handled := handshake_handled session frame
  generalize handshake frame session = outcome at handled ⊢
  cases handled with
  | refused => rfl
  | light => rfl
  | @heavy hello _ _ _ _ _ _ _ _ request =>
      have same := localNode_requestBlocks (session.greeted hello)
      rw [request] at same
      exact same

/-- The rate limiter lets the frame pass, or the stretch raises. -/
theorem receive_cases (frame : Frame) (now : Time) (faults : List Transactions.Fault)
    (session : Session) :
    (∃ e after, receive frame now faults session = (.error e, after) ∧ Judges session after) ∨
    ∃ passed, Judges session passed ∧
      receive frame now faults session = handleFrame frame now faults passed := by
  have judged := onlyJudges_limitRate (framePrefixSize + frame.payload.length) now session
  rw [receive, bind_apply]
  cases limited : limitRate (framePrefixSize + frame.payload.length) now session with
  | mk result after =>
      rw [limited] at judged
      cases result with
      | error e => exact .inl ⟨e, after, rfl, judged⟩
      | ok _ => exact .inr ⟨after, judged, rfl⟩

theorem receive_submits (inv : session.node.localNode.Invariant) (frame : Frame) (now : Time)
    (faults : List Transactions.Fault) :
    Submits session.node.localNode (receive frame now faults session).2.node.localNode := by
  rcases receive_cases frame now faults session with ⟨e, after, raised, judged⟩ | ⟨passed, judged, same⟩
  · rw [raised]
    exact .inl (congrArg Course.localNode judged)
  · have node := congrArg Course.localNode judged
    dsimp only [course] at node
    rw [same, ← node]
    rw [← node] at inv
    exact handleFrame_submits inv frame now faults

/-- The node rests in a step that is none of a frame, a block and a transaction. -/
theorem localNode_step {event : Event} (noFrame : ∀ frame now faults, event ≠ .deliver frame now faults)
    (noBlock : ∀ block faults, event ≠ .accept block faults) (noTransaction : ∀ tx, event ≠ .transact tx) :
    (session.step event).node.localNode = session.node.localNode := by
  cases event with
  | start now =>
      rw [step, start]
      split
      · rcases greet_cases session with ⟨e, raised⟩ | ⟨hello, payload, -, -, -, written⟩
        · rw [raised]
          exact localNode_fail e now session
        · rw [written]
          rfl
      · rfl
  | deliver frame now faults => exact absurd rfl (noFrame frame now faults)
  | answer now =>
      rw [step, answer]
      split
      · rename_i blocks _
        rw [localNode_resume]
        rcases sendNext_cases blocks session with ⟨e, raised⟩ |
          ⟨-, block, rest, payload, -, -, written⟩ | ⟨-, -, payload, -, written⟩
        · rw [raised]
        · rw [written]
          rfl
        · rw [written]
          rfl
      · rfl
  | timeout nonce now =>
      rw [step, timeout]
      split
      · exact localNode_fail _ now session
      · rw [localNode_resume]
        rcases idle_cases nonce session with ⟨e, raised⟩ | ⟨-, e, raised⟩ | ⟨-, -, payload, -, written⟩
        · rw [raised]
        · rw [raised]
          rfl
        · rw [written]
          rfl
      · rfl
  | flush index =>
      rcases flush_cases index session with ⟨-, same⟩ | ⟨frame, -, closing | ⟨-, written⟩⟩
      · rw [step, same]
      · rw [step, closing, localNode_close]
        rfl
      · rw [step, written]
        rfl
  | accept block faults => exact absurd rfl (noBlock block faults)
  | transact tx => exact absurd rfl (noTransaction tx)
  | close => exact localNode_close session
  | elsewhere => rfl

theorem localNode_accept (block : Block) (faults : List Transactions.Fault) :
    (session.step (.accept block faults)).node.localNode =
      (session.node.localNode.submitBlock block faults).2 := by
  rw [step, acceptBlock, submitBlock]
  cases session.node.localNode.submitBlock block faults with
  | mk result localNode =>
      cases result with
      | error e => rfl
      | ok update =>
          dsimp only
          cases encodeBlock block with
          | error e => rfl
          | ok payload => rfl

theorem localNode_transact (tx : Transaction) :
    (session.step (.transact tx)).node.localNode =
      (session.node.localNode.submitTransaction tx).2 := by
  rw [step, acceptTransaction, submitTransaction]
  cases session.node.localNode.submitTransaction tx with
  | mk result localNode =>
      cases result with
      | error e => rfl
      | ok txid =>
          dsimp only
          cases tx.toBytes with
          | error e => rfl
          | ok payload => rfl

/-- **A step submits at most one block or transaction.** -/
theorem step_submits (inv : session.node.localNode.Invariant) (event : Event) :
    Submits session.node.localNode (session.step event).node.localNode := by
  cases event with
  | deliver frame now faults =>
      rw [step, deliver]
      split
      · rw [localNode_resume, localNode_handshake]
        exact .inl rfl
      · rw [localNode_resume]
        exact receive_submits inv frame now faults
      · exact .inl rfl
  | accept block faults => exact .inr (.inl ⟨block, faults, localNode_accept block faults⟩)
  | transact tx => exact .inr (.inr ⟨tx, localNode_transact tx⟩)
  | _ => exact .inl (localNode_step (by simp) (by simp) (by simp))

theorem step_invariant (inv : session.node.localNode.Invariant) (event : Event) :
    (session.step event).node.localNode.Invariant :=
  (step_submits inv event).invariant inv

end Session

/-! ## Values for instances -/

/-- The ID of a node. -/
def ownNodeId : Bytes := List.replicate 16 1

theorem length_ownNodeId : ownNodeId.length = nodeIdLength := by decide

end OurCoin
