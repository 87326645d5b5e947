import OurCoin.Model.Conversation
import OurCoin.Peer.Parties

/-!
# Two nodes meet

The conversations from their start, and how two nodes come to rest: each sends its HELLO and reads
that of the other one.

* `exists_unannounced`: a block that one node accepts between the two is announced to nobody. Its HELLO
  was sent before, and a broadcast goes to the connections whose HELLO was handled.
* `Run` is a run with all its states, and `LeftLost` says that such a block is still what makes up the
  work of the left node.
-/

set_option autoImplicit false

namespace OurCoin

open Raising Stateful

variable [Platform]

namespace Conversation

/-- The connection object was just made, at a node. -/
structure Opened (session : Session) : Prop where
  reachable : session.node.localNode.Reachable
  fresh : ∃ key host outbound, session.connection = .new key host outbound

/-- The conversations that two nodes can have. -/
def Reachable (conversation : Conversation) : Prop :=
  ∃ start : Conversation, Opened start.left ∧ Opened start.right ∧
    Relation.ReflTransGen Step start conversation

/-- The conversations in which every block is announced. -/
def Announced (conversation : Conversation) : Prop :=
  ∃ start : Conversation, Opened start.left ∧ Opened start.right ∧
    Relation.ReflTransGen (fun before after => Step before after ∧ ¬ before.Unannounced after) start
      conversation

/-- The states of a run, the last one first. -/
inductive Run : List Conversation → Prop
  | opened {start : Conversation} : Opened start.left → Opened start.right → Run [start]
  | step {before after : Conversation} {earlier : List Conversation} : Run (before :: earlier) →
      Step before after → Run (after :: before :: earlier)

/-- The left node has its work from a block that it accepted unannounced, and kept that work in the
run since. -/
def LeftLost : List Conversation → Prop
  | after :: before :: earlier =>
    before.LeftUnannounced after ∨ LeftLost (before :: earlier) ∧
      after.left.node.localNode.chain.cumulativeWork =
        before.left.node.localNode.chain.cumulativeWork
  | _ => False

/-- The right node has its work from such a block. -/
def RightLost (run : List Conversation) : Prop := LeftLost (run.map swap)

/-- SHA-256 has a collision among what was hashed for the blocks of both nodes. -/
def Collides (conversation : Conversation) : Prop :=
  conversation.left.node.localNode.chain.Collide conversation.right.node.localNode.chain

variable {conversation after : Conversation}

theorem Reachable.tail (reachable : conversation.Reachable) (step : Step conversation after) :
    after.Reachable := by
  obtain ⟨start, left, right, steps⟩ := reachable
  exact ⟨start, left, right, steps.tail step⟩

theorem Announced.reachable (announced : conversation.Announced) : conversation.Reachable := by
  obtain ⟨start, left, right, steps⟩ := announced
  exact ⟨start, left, right, Relation.ReflTransGen.mono (fun _ _ one => one.1) _ _ steps⟩

theorem Run.reachable {earlier : List Conversation} (run : Run (conversation :: earlier)) :
    conversation.Reachable := by
  generalize isRun : conversation :: earlier = states at run
  induction run generalizing conversation earlier with
  | opened left right =>
      cases isRun
      exact ⟨_, left, right, .refl⟩
  | step _ step ih =>
      cases isRun
      exact (ih rfl).tail step

/-- What is announced is reached by a run in which nothing is lost. -/
theorem Announced.exists_run (announced : conversation.Announced) : ∃ earlier,
    Run (conversation :: earlier) ∧ ¬ LeftLost (conversation :: earlier) ∧
      ¬ RightLost (conversation :: earlier) := by
  obtain ⟨start, left, right, steps⟩ := announced
  induction steps with
  | refl => exact ⟨[], .opened left right, id, id⟩
  | @tail before after _ step ih =>
      obtain ⟨earlier, run, noLeft, noRight⟩ := ih
      obtain ⟨left, right⟩ := not_or.mp step.2
      exact ⟨before :: earlier, .step run step.1, not_or.mpr ⟨left, fun lost => noLeft lost.1⟩,
        not_or.mpr ⟨right, fun lost => noRight lost.1⟩⟩

/-- A step in which no block is accepted. -/
def Settles (conversation after : Conversation) : Prop :=
  Step conversation after ∧
    after.left.node.localNode = conversation.left.node.localNode ∧
    after.right.node.localNode = conversation.right.node.localNode

theorem steps_of_settles (settles : Relation.ReflTransGen Settles conversation after) :
    Relation.ReflTransGen Step conversation after :=
  Relation.ReflTransGen.mono (fun _ _ one => one.1) _ _ settles

/-- A run goes on, and what was lost stays lost. -/
theorem Run.exists_settled {earlier : List Conversation} (run : Run (conversation :: earlier))
    (settles : Relation.ReflTransGen Settles conversation after) : ∃ later, Run (after :: later) ∧
      (LeftLost (conversation :: earlier) → LeftLost (after :: later)) := by
  induction settles with
  | refl => exact ⟨earlier, run, id⟩
  | @tail before after _ step ih =>
      obtain ⟨later, run, stays⟩ := ih
      exact ⟨before :: later, .step run step.1,
        fun lost => .inr ⟨stays lost, by rw [step.2.1]⟩⟩

/-! ## Runs without blocks from elsewhere -/

theorem ActsAlone.acts (acts : ActsAlone conversation after) : Acts conversation after := by
  cases acts with
  | event event noFrame _ => exact .event event noFrame
  | read now faults awaits arrives => exact .read now faults awaits arrives
  | ended now awaits => exact .ended now awaits

theorem StepAlone.step (step : StepAlone conversation after) : Step conversation after :=
  step.imp ActsAlone.acts ActsAlone.acts

theorem ActsAlone.other_rests (acts : ActsAlone conversation after) :
    after.right.node = conversation.right.node := by
  cases acts with
  | event => rfl
  | read => rfl
  | ended => rfl

/-- A node that waits for a HELLO keeps its chain. -/
theorem ActsAlone.chain_eq (acts : ActsAlone conversation after)
    (greeting : conversation.left.connection.task = .handshaking) :
    after.left.node.localNode.chain = conversation.left.node.localNode.chain := by
  cases acts with
  | @event session _ event noFrame noBlock =>
      dsimp only
      by_cases transacts : ∃ tx, event = .transact tx
      · obtain ⟨tx, rfl⟩ := transacts
        rw [Session.localNode_transact]
        exact LocalNode.chain_submitTransaction _ tx
      · rw [Session.localNode_step noFrame noBlock fun tx isTx => transacts ⟨tx, isTx⟩]
  | read now faults _ _ =>
      dsimp only at greeting ⊢
      rw [Session.deliver, greeting]
      dsimp only
      rw [Session.localNode_resume, Session.localNode_handshake]
  | ended now _ => exact congrArg LocalNode.chain (Session.localNode_fail _ now _)

theorem ActsAlone.announced (acts : ActsAlone conversation after) :
    ¬ conversation.Unannounced after := by
  rintro (⟨greeting, grows, -⟩ | ⟨-, grows, -⟩)
  · rw [acts.chain_eq greeting] at grows
    exact lt_irrefl _ grows
  · dsimp only [swap] at grows
    rw [acts.other_rests] at grows
    exact lt_irrefl _ grows

/-- Blocks that come from the other end only are announced. -/
theorem StepAlone.announced (step : StepAlone conversation after) :
    Step conversation after ∧ ¬ conversation.Unannounced after := by
  refine ⟨step.step, ?_⟩
  rcases step with acts | acts
  · exact acts.announced
  · exact fun unannounced => acts.announced unannounced.symm

/-! ## The two nodes -/

/-- The IDs of two nodes, and the addresses they listen at. -/
inductive Member where
  | own
  | peer

/-- The ID of each node. -/
def Member.nodeId : Member → Bytes
  | .own => ownNodeId
  | .peer => Dialing.peerNodeId

omit [Platform] in
theorem Member.length_nodeId (member : Member) : member.nodeId.length = nodeIdLength := by
  cases member <;> decide

omit [Platform] in
theorem listening_port : (0 : Int) ≤ 19733 ∧ (19733 : Int) ≤ 0xFFFF := by decide

/-- A new node, at a connection that was just made. -/
def opening (member : Member) (localNode : LocalNode) : Session where
  node := .new localNode 19733 .default member.nodeId member.length_nodeId listening_port
  connection := .new 0 (text "127.0.0.1") true

/-- The node sent frames and waits for a HELLO. -/
def waiting (member : Member) (localNode : LocalNode) (frames : List Frame) : Session :=
  { opening member localNode with connection := { (opening member localNode).connection with
    task := .handshaking
    written := frames } }

/-- The node handled a HELLO. -/
def resting (member : Member) (localNode : LocalNode) (hello : Hello) : Session :=
  ((waiting member localNode []).greeted hello).setTask .reading

omit [Platform] in
theorem resting_atRest (member : Member) (localNode : LocalNode) (hello : Hello) :
    AtRest (resting member localNode hello) :=
  ⟨rfl, rfl, rfl, rfl⟩

/-- The HELLO of a node, with what its reader sees. -/
structure Introduces (member : Member) (localNode : LocalNode) (frame : Frame) (hello : Hello) :
    Prop where
  isHello : frame.messageType = .hello
  decoded : Hello.fromBytes frame.payload = .ok hello
  nodeId_eq : hello.nodeId = member.nodeId
  chain_eq : hello.chainId = testnet.chainId
  genesis_eq : hello.genesisHash = genesisHash
  work_eq : hello.cumulativeWork = localNode.chain.cumulativeWork

variable {member : Member} {localNode grown : LocalNode}

/-- A node sends its HELLO. -/
theorem exists_introduction (reachable : localNode.Reachable) (member : Member) :
    ∃ frame hello, Introduces member localNode frame hello ∧
      (opening member localNode).step (.start 0) = waiting member localNode [frame] := by
  have inv : (opening member localNode).node.localNode.Invariant := reachable.invariant
  obtain ⟨hello, payload, made, encoded, decoded, -, nodeId, chainId, genesis⟩ :=
    P2PNode.exists_hello inv
  obtain ⟨hello', payload', made', encoded', sent⟩ := Session.greet_ok inv rfl
  rw [made] at made'
  cases made'
  rw [encoded] at encoded'
  cases encoded'
  have work : hello.cumulativeWork = localNode.chain.cumulativeWork := by
    have own := Session.hello_ok inv
    rw [made] at own
    cases own
    rfl
  refine ⟨⟨.hello, payload⟩, hello, ⟨rfl, decoded, nodeId, chainId, genesis, work⟩, ?_⟩
  rw [Session.step, Session.start]
  simp only [opening, PeerConnection.new] at sent ⊢
  rw [sent]
  rfl

/-- A HELLO that claims no more work is read, and nothing is sent. -/
theorem deliver_introduction {other : Member} {peer : LocalNode} {frame : Frame} {hello : Hello}
    (reachable : localNode.Reachable) (introduces : Introduces other peer frame hello)
    (different : other.nodeId ≠ member.nodeId)
    (lighter : peer.chain.cumulativeWork ≤ localNode.chain.cumulativeWork) (frames : List Frame) :
    (waiting member localNode frames).deliver frame 0 [] =
      ((waiting member localNode frames).greeted hello).setTask .reading := by
  obtain ⟨messageType, payload⟩ := frame
  obtain ⟨rfl, decoded, nodeId, chainId, genesis, work⟩ := introduces
  have inv : (waiting member localNode frames).node.localNode.Invariant := reachable.invariant
  obtain ⟨after, handled, -⟩ := Session.handshake_free inv rfl decoded
    ⟨chainId, genesis, nodeId.trans_ne different⟩ (by rintro _ _ ⟨⟩)
  have quiet := Session.handshake_handled (waiting member localNode frames) ⟨.hello, payload⟩
  rw [handled] at quiet
  have same : after = (waiting member localNode frames).greeted hello := by
    generalize outcome : (Except.ok none, after) = result at quiet
    cases quiet with
    | refused => cases outcome
    | @light hello' _ _ decoded' _ _ _ =>
        rw [decoded] at decoded'
        cases decoded'
        cases outcome
        rfl
    | @heavy hello' _ _ _ _ decoded' _ _ heavier _ =>
        rw [decoded] at decoded'
        cases decoded'
        rw [work] at heavier
        exact absurd lighter (not_le.mpr heavier)
  have waits : (waiting member localNode frames).connection.task = .handshaking := rfl
  rw [Session.deliver, waits]
  dsimp only
  rw [handled, same]
  rfl

/-- A block that is accepted while the node waits for a HELLO is sent to nobody. -/
theorem accept_waiting {block : Block} {faults : List Transactions.Fault} {update : ChainUpdate}
    (reachable : localNode.Reachable)
    (accepted : localNode.submitBlock block faults = (.ok update, grown)) (frames : List Frame) :
    (waiting member localNode frames).step (.accept block faults) = waiting member grown frames := by
  obtain ⟨_, payload, -, -, -, -, -, -, encoded, -⟩ := reachable.invariant.accepted accepted
  have submitted : Session.submitBlock block faults (waiting member localNode frames) =
      (.ok update, waiting member grown frames) := by
    rw [Session.submitBlock]
    dsimp only [waiting, opening, P2PNode.new]
    rw [accepted]
  rw [Session.step, Session.acceptBlock, submitted]
  dsimp only
  rw [encoded]
  rfl

/-! ## How they meet -/

/-- Both nodes send their HELLOs. -/
theorem exists_waiting {left right : LocalNode} (leftReachable : left.Reachable)
    (rightReachable : right.Reachable) :
    ∃ leftFrame leftHello rightFrame rightHello, Introduces .own left leftFrame leftHello ∧
      Introduces .peer right rightFrame rightHello ∧
      Relation.ReflTransGen Settles ⟨opening .own left, opening .peer right⟩
        ⟨waiting .own left [leftFrame], waiting .peer right [rightFrame]⟩ := by
  obtain ⟨leftFrame, leftHello, leftSent, leftStarts⟩ := exists_introduction leftReachable .own
  obtain ⟨rightFrame, rightHello, rightSent, rightStarts⟩ :=
    exists_introduction rightReachable .peer
  refine ⟨leftFrame, leftHello, rightFrame, rightHello, leftSent, rightSent, ?_⟩
  have first : Settles ⟨opening .own left, opening .peer right⟩
      ⟨waiting .own left [leftFrame], opening .peer right⟩ :=
    ⟨.inl (leftStarts ▸ .event (.start 0) fun _ _ _ => Session.Event.noConfusion), rfl, rfl⟩
  have second : Settles ⟨waiting .own left [leftFrame], opening .peer right⟩
      ⟨waiting .own left [leftFrame], waiting .peer right [rightFrame]⟩ := by
    refine ⟨.inr ?_, rfl, rfl⟩
    have acts : Acts ⟨opening .peer right, waiting .own left [leftFrame]⟩
        ⟨(opening .peer right).step (.start 0), waiting .own left [leftFrame]⟩ :=
      .event (.start 0) fun _ _ _ => Session.Event.noConfusion
    rwa [rightStarts] at acts
  exact .tail (.single first) second

/-- Both nodes read HELLOs that claim no more work than they have. -/
theorem reads_settle {left right claimed : LocalNode} {leftFrame rightFrame : Frame}
    {leftHello rightHello : Hello} (leftReachable : left.Reachable) (rightReachable : right.Reachable)
    (leftSent : Introduces .own claimed leftFrame leftHello)
    (rightSent : Introduces .peer right rightFrame rightHello)
    (leftLighter : claimed.chain.cumulativeWork ≤ right.chain.cumulativeWork)
    (rightLighter : right.chain.cumulativeWork ≤ left.chain.cumulativeWork) :
    Relation.ReflTransGen Settles ⟨waiting .own left [leftFrame], waiting .peer right [rightFrame]⟩
      ⟨resting .own left rightHello, resting .peer right leftHello⟩ := by
  have first : Settles ⟨waiting .own left [leftFrame], waiting .peer right [rightFrame]⟩
      ⟨((waiting .own left [leftFrame]).greeted rightHello).setTask .reading,
        waiting .peer right []⟩ := by
    refine ⟨.inl ?_, rfl, rfl⟩
    have acts : Acts ⟨waiting .own left [leftFrame], waiting .peer right [rightFrame]⟩
        ⟨(waiting .own left [leftFrame]).deliver rightFrame 0 [], waiting .peer right []⟩ :=
      .read 0 [] (.inl rfl) rfl
    rwa [deliver_introduction leftReachable rightSent (by decide) rightLighter] at acts
  have second : Settles ⟨((waiting .own left [leftFrame]).greeted rightHello).setTask .reading,
      waiting .peer right []⟩ ⟨resting .own left rightHello, resting .peer right leftHello⟩ := by
    refine ⟨.inr ?_, rfl, rfl⟩
    have acts : Acts ⟨waiting .peer right [],
        ((waiting .own left [leftFrame]).greeted rightHello).setTask .reading⟩
        ⟨(waiting .peer right []).deliver leftFrame 0 [], resting .own left rightHello⟩ :=
      .read 0 [] (.inl rfl) rfl
    rwa [deliver_introduction rightReachable leftSent (by decide) leftLighter] at acts
  exact .tail (.single first) second

omit [Platform] in
theorem opening_opened [Platform] {left right : LocalNode} (leftReachable : left.Reachable)
    (rightReachable : right.Reachable) :
    Opened (opening .own left) ∧ Opened (opening .peer right) :=
  ⟨⟨leftReachable, _, _, _, rfl⟩, rightReachable, _, _, _, rfl⟩

/-- A block between the HELLOs is accepted unannounced, and both nodes come to rest. -/
theorem exists_losing {left right : LocalNode} {block : Block} {faults : List Transactions.Fault}
    {update : ChainUpdate} (leftReachable : left.Reachable) (rightReachable : right.Reachable)
    (accepted : left.submitBlock block faults = (.ok update, grown))
    (lighter : left.chain.cumulativeWork ≤ right.chain.cumulativeWork)
    (overtakes : right.chain.cumulativeWork < grown.chain.cumulativeWork) :
    ∃ before after conversation : Conversation,
      Relation.ReflTransGen Settles ⟨opening .own left, opening .peer right⟩ before ∧
      Step before after ∧ before.LeftUnannounced after ∧
      Relation.ReflTransGen Settles after conversation ∧ conversation.Quiet ∧
      conversation.left.node.localNode = grown ∧ conversation.right.node.localNode = right := by
  obtain ⟨leftFrame, leftHello, rightFrame, rightHello, leftSent, rightSent, opens⟩ :=
    exists_waiting leftReachable rightReachable
  have grownReachable : grown.Reachable := by
    have reachable : (left.submitBlock block faults).2.Reachable :=
      .submitBlock block faults leftReachable
    rwa [accepted] at reachable
  have accepts : Step ⟨waiting .own left [leftFrame], waiting .peer right [rightFrame]⟩
      ⟨waiting .own grown [leftFrame], waiting .peer right [rightFrame]⟩ := by
    have acts : Acts ⟨waiting .own left [leftFrame], waiting .peer right [rightFrame]⟩
        ⟨(waiting .own left [leftFrame]).step (.accept block faults),
          waiting .peer right [rightFrame]⟩ :=
      .event (.accept block faults) fun _ _ _ => Session.Event.noConfusion
    rw [accept_waiting leftReachable accepted] at acts
    exact .inl acts
  have reads := reads_settle grownReachable rightReachable leftSent rightSent lighter overtakes.le
  exact ⟨_, _, _, opens, accepts, ⟨rfl, lighter.trans_lt overtakes, overtakes, rfl⟩, reads,
    ⟨resting_atRest _ _ _, resting_atRest _ _ _⟩, rfl, rfl⟩

/-- **A block between the HELLOs** is lost: both nodes come to rest, and one has more work. -/
theorem exists_unannounced {left right : LocalNode} {block : Block} {faults : List Transactions.Fault}
    {update : ChainUpdate} (leftReachable : left.Reachable) (rightReachable : right.Reachable)
    (accepted : left.submitBlock block faults = (.ok update, grown))
    (lighter : left.chain.cumulativeWork ≤ right.chain.cumulativeWork)
    (overtakes : right.chain.cumulativeWork < grown.chain.cumulativeWork) :
    ∃ conversation : Conversation, conversation.Reachable ∧ conversation.Quiet ∧
      conversation.left.node.localNode = grown ∧ conversation.right.node.localNode = right ∧
      conversation.right.node.localNode.chain.cumulativeWork <
        conversation.left.node.localNode.chain.cumulativeWork := by
  obtain ⟨before, after, conversation, opens, accepts, -, reads, quiet, leftEq, rightEq⟩ :=
    exists_losing leftReachable rightReachable accepted lighter overtakes
  obtain ⟨leftOpened, rightOpened⟩ := opening_opened leftReachable rightReachable
  refine ⟨conversation, ⟨⟨_, _⟩, leftOpened, rightOpened, ?_⟩, quiet, leftEq, rightEq, ?_⟩
  · exact ((steps_of_settles opens).tail accepts).trans (steps_of_settles reads)
  · rw [leftEq, rightEq]
    exact overtakes

/-- A node with the genesis block. -/
def genesisNode : LocalNode := ⟨genesisChain, Mempool.empty, none⟩

omit [Platform] in
theorem genesisNode_reachable : @LocalNode.Reachable asciiPlatform genesisNode := by
  apply @LocalNode.Reachable.inMemory asciiPlatform
  simp only [LocalNode.new, @Chain.init_testnet asciiPlatform]
  rfl

/-- The same node with the block on it. -/
def advancedNode : LocalNode := (@LocalNode.submitBlock asciiPlatform genesisNode firstBlock []).2

omit [Platform] in
theorem genesisNode_accepts : ∃ update,
    @LocalNode.submitBlock asciiPlatform genesisNode firstBlock [] = (.ok update, advancedNode) ∧
      genesisChain.cumulativeWork < advancedNode.chain.cumulativeWork := by
  have accepted : (@LocalNode.submitBlock asciiPlatform genesisNode firstBlock
      []).1.toOption.isSome = true := by
    decide +kernel
  have heavier : genesisChain.cumulativeWork < advancedNode.chain.cumulativeWork := by
    decide +kernel
  cases outcome : (@LocalNode.submitBlock asciiPlatform genesisNode firstBlock []).1 with
  | error e =>
      rw [outcome] at accepted
      cases accepted
  | ok update => exact ⟨update, by rw [advancedNode, ← outcome], heavier⟩

omit [Platform] in
/-- The first block is lost between two nodes with the genesis block. -/
theorem exists_unannounced_first : ∃ conversation : Conversation,
    @Reachable asciiPlatform conversation ∧ conversation.Quiet ∧
      conversation.left.node.localNode = advancedNode ∧
      conversation.right.node.localNode = genesisNode ∧
      conversation.right.node.localNode.chain.cumulativeWork <
        conversation.left.node.localNode.chain.cumulativeWork := by
  obtain ⟨update, accepted, heavier⟩ := genesisNode_accepts
  exact @exists_unannounced asciiPlatform advancedNode genesisNode genesisNode firstBlock []
    update genesisNode_reachable genesisNode_reachable accepted le_rfl heavier

omit [Platform] in
/-- A run loses the first block, and both nodes come to rest. -/
theorem exists_lost : ∃ (conversation : Conversation) (earlier : List Conversation),
    @Run asciiPlatform (conversation :: earlier) ∧ LeftLost (conversation :: earlier) ∧
      conversation.Quiet ∧ conversation.right.node.localNode.chain.cumulativeWork <
        conversation.left.node.localNode.chain.cumulativeWork := by
  obtain ⟨update, accepted, heavier⟩ := genesisNode_accepts
  obtain ⟨before, after, conversation, opens, accepts, loses, reads, quiet, leftEq, rightEq⟩ :=
    @exists_losing asciiPlatform advancedNode genesisNode genesisNode firstBlock [] update
      genesisNode_reachable genesisNode_reachable accepted le_rfl heavier
  obtain ⟨leftOpened, rightOpened⟩ :=
    @opening_opened asciiPlatform _ _ genesisNode_reachable genesisNode_reachable
  have starts := @Run.opened asciiPlatform ⟨opening .own genesisNode, opening .peer genesisNode⟩
    leftOpened rightOpened
  obtain ⟨first, run, -⟩ := @Run.exists_settled asciiPlatform _ _ _ starts opens
  obtain ⟨later, run', stays⟩ :=
    @Run.exists_settled asciiPlatform _ _ _ (@Run.step asciiPlatform _ _ _ run accepts) reads
  refine ⟨conversation, later, run', stays (.inl loses), quiet, ?_⟩
  rw [leftEq, rightEq]
  exact heavier

/-! ## Scheduled runs -/

/-- What an end does next. -/
inductive Move where
  | start
  | read
  | answer
  deriving DecidableEq

/-- The left end makes the move, if it can. -/
def Move.play (move : Move) (conversation : Conversation) : Option Conversation :=
  match move with
  | .start => some ⟨conversation.left.step (.start 0), conversation.right⟩
  | .answer => some ⟨conversation.left.step (.answer 0), conversation.right⟩
  | .read =>
    match conversation.right.connection.written with
    | [] => none
    | frame :: rest =>
      if conversation.left.connection.task = .handshaking ∨
          conversation.left.connection.task = .reading then
        some ⟨conversation.left.deliver frame 0 [], conversation.right.withWritten rest⟩
      else none

/-- The moves of both ends in order, those of the left end marked. -/
def play : List (Bool × Move) → Conversation → Option Conversation
  | [], conversation => some conversation
  | (true, move) :: rest, conversation => (move.play conversation).bind (play rest)
  | (false, move) :: rest, conversation =>
    (move.play conversation.swap).bind fun after => play rest after.swap

theorem Move.acts {move : Move} (played : move.play conversation = some after) :
    ActsAlone conversation after := by
  obtain ⟨left, right⟩ := conversation
  cases move with
  | start =>
      cases played
      exact .event (.start 0) (fun _ _ _ => Session.Event.noConfusion)
        fun _ _ => Session.Event.noConfusion
  | answer =>
      cases played
      exact .event (.answer 0) (fun _ _ _ => Session.Event.noConfusion)
        fun _ _ => Session.Event.noConfusion
  | read =>
      rw [Move.play] at played
      split at played
      · cases played
      · rename_i written
        split at played
        · rename_i awaits
          cases played
          exact .read 0 [] awaits written
        · cases played

/-- What is scheduled is a run. -/
theorem run_of_play {moves : List (Bool × Move)} {conversation after : Conversation}
    (played : play moves conversation = some after) :
    Relation.ReflTransGen StepAlone conversation after := by
  induction moves generalizing conversation with
  | nil =>
      cases played
      exact .refl
  | cons turn rest ih =>
      obtain ⟨isLeft, move⟩ := turn
      cases isLeft with
      | true =>
          obtain ⟨next, moved, played'⟩ := Option.bind_eq_some_iff.mp played
          exact .head (.inl (Move.acts moved)) (ih played')
      | false =>
          obtain ⟨next, moved, played'⟩ := Option.bind_eq_some_iff.mp played
          exact .head (.inr (Move.acts moved)) (ih played')

/-- A state with nothing under way can be recognised. -/
instance (session : Session) : Decidable (AtRest session) :=
  decidable_of_iff (session.connection.task = .reading ∧ session.connection.closed = false ∧
      session.connection.pendingSends = [] ∧ session.connection.written = [])
    ⟨fun ⟨reading, isOpen, queued, written⟩ => ⟨reading, isOpen, queued, written⟩,
      fun rest => ⟨rest.reading, rest.isOpen, rest.nothing_queued, rest.nothing_written⟩⟩

instance (conversation : Conversation) : Decidable conversation.Quiet :=
  inferInstanceAs (Decidable (AtRest conversation.left ∧ AtRest conversation.right))

/-- A node with the genesis block meets one that has another block. -/
def meeting : Conversation := ⟨opening .own genesisNode, opening .peer advancedNode⟩

/-- The left node asks for blocks, and its peer sends them. -/
def transfer : List (Bool × Move) :=
  [(true, .start), (false, .start), (true, .read), (false, .read), (false, .read),
    (false, .answer), (true, .read), (false, .answer)]

omit [Platform] in
theorem meeting_opened : @Opened asciiPlatform meeting.left ∧ @Opened asciiPlatform meeting.right := by
  have advanced : @LocalNode.Reachable asciiPlatform advancedNode :=
    @LocalNode.Reachable.submitBlock asciiPlatform genesisNode firstBlock [] genesisNode_reachable
  exact @opening_opened asciiPlatform _ _ genesisNode_reachable advanced

omit [Platform] in
/-- What follows the meeting is announced. -/
theorem meeting_announced {conversation : Conversation}
    (run : Relation.ReflTransGen (@StepAlone asciiPlatform) meeting conversation) :
    @Announced asciiPlatform conversation :=
  ⟨meeting, meeting_opened.1, meeting_opened.2,
    Relation.ReflTransGen.mono (fun _ _ one => @StepAlone.announced asciiPlatform _ _ one) _ _ run⟩

omit [Platform] in
/-- The states of the transfer in which a frame of the peer has arrived, and the last one. -/
theorem transfer_evaluated :
    ((@play asciiPlatform (transfer.take 6) meeting).any fun conversation =>
      decide (conversation.left.connection.task = .reading ∧
        conversation.right.connection.written.map Frame.messageType = [.block] ∧
        ∀ frame ∈ conversation.right.connection.written,
          (conversation.left.connection.rateLimiter.allow conversation.left.node.limits
            (framePrefixSize + frame.payload.length) 0).1 = true)) = true ∧
    ((@play asciiPlatform transfer meeting).any fun conversation =>
      decide (conversation.left.connection.task = .reading ∧
        conversation.right.connection.written.map Frame.messageType = [.syncComplete]) &&
      conversation.right.connection.written.all fun frame =>
        (ChainSummary.fromBytes frame.payload).toOption.isSome) = true ∧
    ((@play asciiPlatform (transfer ++ [(true, .read)]) meeting).any fun conversation =>
      decide (conversation.Quiet ∧
        conversation.left.node.localNode.chain.activeTipHash ≠ genesisChain.activeTipHash)) = true := by
  decide +kernel

omit [Platform] in
/-- The block of the peer arrives. -/
theorem exists_block_arriving : ∃ (conversation : Conversation) (frame : Frame),
    Relation.ReflTransGen (@StepAlone asciiPlatform) meeting conversation ∧
      conversation.left.connection.task = .reading ∧
      conversation.right.connection.written = [frame] ∧ frame.messageType = .block ∧
      conversation.left.Allows frame 0 := by
  obtain ⟨conversation, played, facts⟩ := (Option.any_eq_true _ _).mp transfer_evaluated.1
  obtain ⟨reading, types, within⟩ := of_decide_eq_true facts
  obtain ⟨frame, written, isBlock⟩ := List.map_eq_singleton_iff.mp types
  exact ⟨conversation, frame, @run_of_play asciiPlatform _ _ _ played, reading, written, isBlock,
    within frame (by simp [written])⟩

omit [Platform] in
/-- After the transfer both nodes rest, and the left one has another tip. -/
theorem exists_transferred : ∃ conversation : Conversation,
    Relation.ReflTransGen (@StepAlone asciiPlatform) meeting conversation ∧ conversation.Quiet ∧
      conversation.left.node.localNode.chain.activeTipHash ≠ genesisChain.activeTipHash := by
  obtain ⟨conversation, played, facts⟩ := (Option.any_eq_true _ _).mp transfer_evaluated.2.2
  obtain ⟨quiet, advanced⟩ := of_decide_eq_true facts
  exact ⟨conversation, @run_of_play asciiPlatform _ _ _ played, quiet, advanced⟩

end Conversation

end OurCoin
