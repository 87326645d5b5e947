import OurCoin.Library.Stateful
import OurCoin.Model.Node
import OurCoin.Model.Protocol

/-!
# Peers

`p2p.py`: the connections of a node, the handshake, the handling of frames, penalties and
bans.

A connection is driven by its own task, which runs without interruption between two
`await`s that suspend it. `Task` says where the task stands, and the methods of `Session`
are the stretches between two such points: sending the HELLO, handling one frame, sending
one more block of an answer.

* `written` holds the frames that were written to the stream and that the peer has not
  read. A frame is written whole and at once. A write that is refused or comes too late
  raises `PeerDisconnectedError`, which ends the task.
* `pendingSends` holds the frames of broadcasts. `asyncio.gather` starts their sends later,
  so they are written in any order, after whatever else is written meanwhile.
* Object identity is a key: `_connections` and `_by_node_id` hold keys, and `peers` holds
  the connection objects.
-/

set_option autoImplicit false

namespace OurCoin

open Raising Stateful

/-- A reading of `time.monotonic()`, in seconds. -/
abbrev Time : Type := ℚ

def maxBlocksPerResponse : Nat := 128
def scoreDisconnectThreshold : Int := 100
def banSeconds : Time := 60

/-- The limits on what one node accepts from its peers. -/
structure PeerLimits where
  maxPeers : Nat
  maxPeersPerIp : Nat
  maxMessagesPerMinute : Nat
  maxBytesPerMinute : Nat
  scoreDisconnectThreshold : Int
  positive : 0 < maxPeers ∧ 0 < maxPeersPerIp ∧ 0 < maxMessagesPerMinute ∧
    0 < maxBytesPerMinute ∧ 0 < scoreDisconnectThreshold

/-- `PeerLimits()`. -/
def PeerLimits.default : PeerLimits where
  maxPeers := 32
  maxPeersPerIp := 4
  maxMessagesPerMinute := 600
  maxBytesPerMinute := 32 * 1024 * 1024
  scoreDisconnectThreshold := OurCoin.scoreDisconnectThreshold
  positive := by decide

/-! ## The rate limiter -/

/-- The frames of the last minute with their sizes, and the sum of the sizes. -/
structure RateLimiter where
  events : List (Time × Nat)
  bytes : Nat

namespace RateLimiter

/-- A limiter before its first event. -/
def empty : RateLimiter := ⟨[], 0⟩

/-- `while self._events and self._events[0][0] <= cutoff`. -/
def expire (cutoff : Time) : List (Time × Nat) → Nat → RateLimiter
  | [], bytes => ⟨[], bytes⟩
  | event :: events, bytes =>
    if event.1 ≤ cutoff then expire cutoff events (bytes - event.2) else ⟨event :: events, bytes⟩

/-- `allow(size, now=current)`. -/
def allow (limits : PeerLimits) (limiter : RateLimiter) (size : Nat) (current : Time) :
    Bool × RateLimiter :=
  let recent := expire (current - 60) limiter.events limiter.bytes
  if recent.events.length + 1 > limits.maxMessagesPerMinute then (false, recent)
  else if recent.bytes + size > limits.maxBytesPerMinute then (false, recent)
  else (true, ⟨recent.events ++ [(current, size)], recent.bytes + size⟩)

end RateLimiter

/-! ## Connections -/

/-- Where the task of a connection stands. -/
inductive Task where
  /-- Before the HELLO is sent. -/
  | starting
  /-- Waiting for the first frame. -/
  | handshaking
  /-- Waiting for another frame. -/
  | reading
  /-- Within `_send_blocks`, with the blocks that are still to be sent. -/
  | answering (blocks : List Block)
  | ended
  deriving DecidableEq

/-- What a node keeps for one connection. -/
structure PeerConnection where
  key : Nat
  host : Text
  outbound : Bool
  hello : Option Hello
  score : Int
  closed : Bool
  rateLimiter : RateLimiter
  task : Task
  pendingPing : Option Int
  blockRequestOutstanding : Bool
  acceptedBlocksInRequest : Int
  blockRequestStartWork : Int
  pendingSends : List Frame
  written : List Frame

namespace PeerConnection

/-- `_PeerConnection(owner, reader, writer, host=host, port=port, outbound=outbound)`. -/
def new (key : Nat) (host : Text) (outbound : Bool) : PeerConnection where
  key
  host
  outbound
  hello := none
  score := 0
  closed := false
  rateLimiter := .empty
  task := .starting
  pendingPing := none
  blockRequestOutstanding := false
  acceptedBlocksInRequest := 0
  blockRequestStartWork := 0
  pendingSends := []
  written := []

/-- Note that blocks are asked for, and with which work. -/
def beginBlockRequest (connection : PeerConnection) (localWork : Int) : PeerConnection :=
  { connection with
    blockRequestOutstanding := true
    acceptedBlocksInRequest := 0
    blockRequestStartWork := localWork }

/-- Forget the open request. -/
def cancelBlockRequest (connection : PeerConnection) : PeerConnection :=
  { connection with
    blockRequestOutstanding := false
    acceptedBlocksInRequest := 0
    blockRequestStartWork := 0 }

/-- Count a block that was accepted while a request is open. -/
def noteAcceptedBlock (connection : PeerConnection) : PeerConnection :=
  if connection.blockRequestOutstanding = true then
    { connection with acceptedBlocksInRequest := connection.acceptedBlocksInRequest + 1 }
  else connection

/-- The accepted blocks and the starting work of the request that is outstanding. -/
def requestProgress (connection : PeerConnection) : Option (Int × Int) :=
  if connection.blockRequestOutstanding = true then
    some (connection.acceptedBlocksInRequest, connection.blockRequestStartWork)
  else none

/-- The connection after `finish_block_request()`. -/
def finishBlockRequest (connection : PeerConnection) : PeerConnection :=
  if connection.blockRequestOutstanding = true then connection.cancelBlockRequest else connection

/-- A target of a broadcast is a connection whose HELLO was handled and that is open. -/
def offer (connection : PeerConnection) (frame : Frame) : PeerConnection :=
  if connection.hello.isSome = true ∧ connection.closed = false then
    { connection with pendingSends := connection.pendingSends ++ [frame] }
  else connection

end PeerConnection

/-! ## Nodes -/

/-- One peer service around a local node. -/
structure P2PNode where
  localNode : LocalNode
  port : Int
  nodeId : Bytes
  limits : PeerLimits
  peers : Dict Nat PeerConnection
  connections : List Nat
  byNodeId : Dict Bytes Nat
  scores : Dict Bytes Int
  hostScores : Dict Text Int
  bannedUntil : Dict Text Time
  nodeId_length : nodeId.length = nodeIdLength
  port_range : 0 ≤ port ∧ port ≤ 0xFFFF

namespace P2PNode

/-- `P2PNode(local_node, port=port, limits=limits, node_id=node_id)`. -/
def new (localNode : LocalNode) (port : Int) (limits : PeerLimits) (nodeId : Bytes)
    (nodeId_length : nodeId.length = nodeIdLength) (port_range : 0 ≤ port ∧ port ≤ 0xFFFF) :
    P2PNode where
  localNode
  port
  nodeId
  limits
  peers := Dict.empty
  connections := []
  byNodeId := Dict.empty
  scores := Dict.empty
  hostScores := Dict.empty
  bannedUntil := Dict.empty
  nodeId_length
  port_range

/-- `_hello()`. -/
def hello [Platform] (node : P2PNode) : Except Raised Hello := do
  let chain := node.localNode.chain
  let genesisHash ← match (← chain.activeChain).head? with
    | some genesis => genesis.blockHash
    | none => throw diverges
  return {
    nodeId := node.nodeId
    chainId := chain.network.chainId
    genesisHash
    tipHash := chain.activeTipHash
    height := chain.height
    cumulativeWork := chain.cumulativeWork
    listenPort := node.port }

/-- `_remove_connection(connection)`. -/
def removeConnection (node : P2PNode) (connection : PeerConnection) : P2PNode :=
  { node with
    connections := node.connections.erase connection.key
    byNodeId := match connection.hello with
      | none => node.byNodeId
      | some hello =>
        if node.byNodeId.get? hello.nodeId = some connection.key then
          node.byNodeId.pop hello.nodeId
        else node.byNodeId }

/-- `_broadcast(message_type, payload, exclude=connection)` up to `asyncio.gather`. -/
def broadcast (node : P2PNode) (frame : Frame) (exclude : Nat) : P2PNode :=
  { node with peers := node.connections.foldl (fun peers key =>
      match peers.get? key with
      | some connection => if key ≠ exclude then peers.set key (connection.offer frame) else peers
      | none => peers) node.peers }

end P2PNode

/-- `while index > 0 and len(hashes) < 63`, with the number of hashes that are still
allowed. -/
def locatorLoop [Platform] (active : List Block) :
    Nat → Nat → Nat → List Bytes → Except Raised (List Bytes)
  | 0, _, _, hashes => .ok hashes
  | allowed + 1, index, step, hashes =>
    if index > 0 then
      match active[index]? with
      | none => .error keyError
      | some block => do
        let hashes := hashes ++ [← block.blockHash]
        let step := if hashes.length ≥ 10 then step * 2 else step
        locatorLoop active allowed (index - step) step hashes
    else .ok hashes

/-- `_block_locator()`. -/
def blockLocator [Platform] (chain : Chain) : Except Raised BlockLocator := do
  let active ← chain.activeChain
  let hashes ← locatorLoop active 63 (active.length - 1) 1 []
  match active with
  | [] => throw keyError
  | genesis :: _ => do
    let genesisHash ← genesis.blockHash
    if hashes.getLast? ≠ some genesisHash then return ⟨hashes ++ [genesisHash]⟩
    else return ⟨hashes⟩

/-- The blocks that answer a locator: at most 128 that follow the first of its hashes that
is active. -/
def blocksAfter [Platform] (chain : Chain) (locator : BlockLocator) :
    Except Raised (Option (List Block)) := do
  let active ← chain.activeChain
  let positions := Dict.ofItems ((← active.mapM Block.blockHash).zipIdx)
  match locator.hashes.findSome? positions.get? with
  | none => return none
  | some commonIndex => return some ((active.drop (commonIndex + 1)).take maxBlocksPerResponse)

/-- The summary of the active chain of a node. -/
def ChainSummary.ofChain (chain : Chain) : ChainSummary where
  tipHash := chain.activeTipHash
  height := chain.height
  cumulativeWork := chain.cumulativeWork

/-- `needle in str(error)`. -/
def Raised.mentions (e : Raised) (needle : String) : Prop := needle.toList <:+: e.message.toList

instance (e : Raised) (needle : String) : Decidable (e.mentions needle) :=
  inferInstanceAs (Decidable (needle.toList <:+: e.message.toList))

/-! ## One connection of a node -/

/-- A node with the connection whose task is running. The connections of the node that the
task reads or changes beside its own are in `node.peers`. -/
structure Session where
  node : P2PNode
  connection : PeerConnection

namespace Session

/-- A stretch of the task of a connection. -/
abbrev Action (α : Type) : Type := Stateful Raised Session α

/-- Change the connection. -/
def onConnection (f : PeerConnection → PeerConnection) : Action Unit :=
  update fun session => { session with connection := f session.connection }

/-- Queue a frame, unless the connection is closed. -/
def send (messageType : MessageType) (payload : Bytes) : Action Unit := do
  if (← read fun session => session.connection.closed) = true then
    throw (peerDisconnectedError "peer connection is closed")
  else do
    let _ ← lift (encodeFrame messageType payload protocolVersion)
    onConnection fun connection =>
      { connection with written := connection.written ++ [⟨messageType, payload⟩] }

/-- `reject(code, reason)`. -/
def reject [Platform] (code : Int) (reason : String) : Action Unit :=
  suppress (fun e => e.cls == .peerDisconnectedError || e.cls == .connectionError) (do
    let payload ← lift (Reject.toBytes ⟨code, (text reason).take 256⟩)
    send .reject payload)

/-- The scores and the ban after a penalty. -/
def penalized (points : Int) (now : Time) (session : Session) : Session :=
  let node := session.node
  let connection := { session.connection with score := session.connection.score + points }
  let hostScore := (node.hostScores.get? connection.host).getD 0 + points
  { node := { node with
      hostScores := node.hostScores.set connection.host hostScore
      scores := match connection.hello with
        | none => node.scores
        | some hello => node.scores.set hello.nodeId connection.score
      bannedUntil :=
        if connection.score ≥ node.limits.scoreDisconnectThreshold ∨
          hostScore ≥ node.limits.scoreDisconnectThreshold then
          node.bannedUntil.set connection.host (now + banSeconds)
        else node.bannedUntil }
    connection }

/-- `penalize(points)`. -/
def penalize (points : Int) (now : Time) : Action Unit := do
  update (penalized points now)
  let (score, hostScore, threshold) ← read fun session =>
    (session.connection.score, (session.node.hostScores.get? session.connection.host).getD 0,
      session.node.limits.scoreDisconnectThreshold)
  if score ≥ threshold ∨ hostScore ≥ threshold then
    throw (protocolError "peer score reached the disconnect threshold")
  else return ()

/-- `_request_blocks(connection)`: whether a request was sent. -/
def requestBlocks [Platform] : Action Bool := do
  if (← read fun session => session.connection.blockRequestOutstanding) = true then return false
  else do
    update fun session => { session with connection :=
      session.connection.beginBlockRequest session.node.localNode.chain.cumulativeWork }
    onError (do
      let chain ← read fun session => session.node.localNode.chain
      let payload ← lift (do (← blockLocator chain).toBytes)
      send .getBlocks payload)
      fun session => { session with connection := session.connection.cancelBlockRequest }
    return true

/-- `_send_blocks(connection, locator)` up to its first block: the blocks to send, unless
the locator was rejected. -/
def sendBlocks [Platform] (locator : BlockLocator) (now : Time) : Action (Option (List Block)) := do
  let chain ← read fun session => session.node.localNode.chain
  match ← lift (blocksAfter chain locator) with
  | some blocks => return some blocks
  | none => do
    penalize 10 now
    reject 20 "block locator has no common testnet ancestor"
    return none

/-- The next step of `_send_blocks`: a block, or the summary after the last one. What is
left to send is returned. -/
def sendNext [Platform] : List Block → Action (Option (List Block))
  | block :: rest => do
    let payload ← lift (encodeBlock block)
    send .block payload
    return some rest
  | [] => do
    let summary ← read fun session => ChainSummary.ofChain session.node.localNode.chain
    let payload ← lift summary.toBytes
    send .syncComplete payload
    return none

/-- `self.local_node.submit_block(block)`. -/
def submitBlock [Platform] (block : Block) (faults : List Transactions.Fault) :
    Action ChainUpdate := fun session =>
  let (result, localNode) := session.node.localNode.submitBlock block faults
  (result, { session with node := { session.node with localNode } })

/-- `self.local_node.submit_transaction(transaction)`. -/
def submitTransaction [Platform] (tx : Transaction) : Action Bytes := fun session =>
  let (result, localNode) := session.node.localNode.submitTransaction tx
  (result, { session with node := { session.node with localNode } })

/-- `_broadcast(message_type, payload, exclude=connection)`. -/
def broadcast (messageType : MessageType) (payload : Bytes) : Action Unit :=
  update fun session =>
    { session with node := session.node.broadcast ⟨messageType, payload⟩ session.connection.key }

/-- `except ChainError as error` in `_handle_block`. -/
def refusedBlock [Platform] (now : Time) (e : Raised) : Action Unit := do
  if e.mentions "parent is unknown" then do
    let _ ← requestBlocks
    return ()
  else if e.mentions "already known" then return ()
  else do
    penalize 20 now
    reject 30 "invalid block"

/-- Submit a block that is new, and announce it to the other peers. -/
def handleBlock [Platform] (block : Block) (now : Time) (faults : List Transactions.Fault) :
    Action Unit := do
  let blockHash ← lift block.blockHash
  if (← read fun session => session.node.localNode.chain.contains blockHash) = true then return ()
  else
    trying (submitBlock block faults) (fun e => e.cls == .chainError) (refusedBlock now) fun _ => do
      onConnection PeerConnection.noteAcceptedBlock
      let payload ← lift (encodeBlock block)
      broadcast .block payload

/-- The check of a summary against a block that is known. -/
def checkSummary (chain : Chain) (summary : ChainSummary) : Except Raised Unit :=
  if chain.contains summary.tipHash = true then do
    let record ← chain.getRecord summary.tipHash
    raiseIf (record.height ≠ summary.height ∨ record.cumulativeWork ≠ summary.cumulativeWork)
      (protocolError "peer summary contradicts a known block")
  else .ok ()

/-- `update_advertised_summary(summary)`. -/
def updateAdvertisedSummary (summary : ChainSummary) : Action Unit := do
  match ← read fun session => session.connection.hello with
  | none => throw (protocolError "peer summary arrived before HELLO")
  | some hello =>
    if summary.cumulativeWork < hello.cumulativeWork then
      throw (protocolError "peer cumulative work moved backwards")
    else
      onConnection fun connection => { connection with hello := some { hello with
        tipHash := summary.tipHash
        height := summary.height
        cumulativeWork := summary.cumulativeWork } }

/-- `finish_block_request()`. -/
def finishBlockRequest : Action (Option (Int × Int)) := do
  let progress ← read fun session => session.connection.requestProgress
  onConnection PeerConnection.finishBlockRequest
  return progress

/-- A request that neither brought a block nor saw the local work grow. -/
def madeNoProgress (localWork : Int) : Option (Int × Int) → Prop
  | none => False
  | some (accepted, startWork) => accepted = 0 ∧ localWork ≤ startWork

instance (localWork : Int) : (progress : Option (Int × Int)) →
    Decidable (madeNoProgress localWork progress)
  | none => inferInstanceAs (Decidable False)
  | some (accepted, startWork) => inferInstanceAs (Decidable (accepted = 0 ∧ localWork ≤ startWork))

/-- The end of a request that made no progress while the peer claims more work. -/
def stuckRequest [Platform] (now : Time) : Action Unit := do
  penalize 20 now
  reject 32 "block synchronization made no progress"
  throw (peerDisconnectedError "peer claimed higher work without progress")

/-- End a request, and ask again if the peer claims more work and there was progress. -/
def handleSyncComplete [Platform] (summary : ChainSummary) (now : Time) : Action Unit := do
  let chain ← read fun session => session.node.localNode.chain
  lift (checkSummary chain summary)
  updateAdvertisedSummary summary
  let progress ← finishBlockRequest
  if summary.cumulativeWork ≤ chain.cumulativeWork then return ()
  else if madeNoProgress chain.cumulativeWork progress then stuckRequest now
  else do
    let _ ← requestBlocks
    return ()

/-- `except NodeError as error` in `_handle_transaction`. -/
def refusedTransaction [Platform] (now : Time) (e : Raised) : Action Unit := do
  if e.mentions "already" then return ()
  else do
    penalize 10 now
    reject 31 "invalid transaction"

/-- Offer a transaction to the node, and announce one that is new. -/
def handleTransaction [Platform] (tx : Transaction) (now : Time) : Action Unit := do
  let txid ← lift tx.txid
  if (← read fun session => session.node.localNode.mempool.contains txid) = true then return ()
  else do
    let chain ← read fun session => session.node.localNode.chain
    let state ← lift chain.state
    if state.containsTransaction txid = true then return ()
    else
      trying (submitTransaction tx) (fun e => e.cls == .nodeError) (refusedTransaction now)
        fun _ => do
          let payload ← lift tx.toBytes
          broadcast .transaction payload

/-- Accept the answer to the open ping only. -/
def handlePong (nonce : Int) : Action Unit := do
  if (← read fun session => session.connection.pendingPing) ≠ some nonce then
    throw (protocolError "peer returned an unsolicited or mismatched PONG")
  else onConnection fun connection => { connection with pendingPing := none }

/-- `_handle_frame(connection, frame)`: the blocks that are left to send, if it answers a
request. -/
def handleFrame [Platform] (frame : Frame) (now : Time) (faults : List Transactions.Fault) :
    Action (Option (List Block)) :=
  match frame.messageType with
  | .hello => throw (protocolError "HELLO may appear only once")
  | .getBlocks => do sendBlocks (← lift (BlockLocator.fromBytes frame.payload)) now
  | .block => do
    handleBlock (← lift (decodeBlock frame.payload)) now faults
    return none
  | .transaction => do
    handleTransaction (← lift (Transaction.fromBytes frame.payload)) now
    return none
  | .syncComplete => do
    handleSyncComplete (← lift (ChainSummary.fromBytes frame.payload)) now
    return none
  | .ping => do
    let nonce ← lift (decodePing frame.payload)
    let payload ← lift (encodePing nonce)
    send .pong payload
    return none
  | .pong => do
    handlePong (← lift (decodePing frame.payload))
    return none
  | .reject => do
    let _ ← lift (Reject.fromBytes frame.payload)
    return none

/-! ## The task of a connection -/

/-- `close()`. -/
def close (session : Session) : Session :=
  if session.connection.closed = true then session
  else
    { node := session.node.removeConnection session.connection
      connection := { session.connection with closed := true } }

/-- The session with its task moved on. -/
def setTask (session : Session) (task : Task) : Session :=
  { session with connection := { session.connection with task } }

/-- The points that `_run` gives for the exception that ended it. -/
def pointsFor (session : Session) (cls : ErrorClass) : Option Int :=
  if cls = .peerDisconnectedError then none
  else if cls = .unsupportedProtocolVersionError then
    some session.node.limits.scoreDisconnectThreshold
  else if cls = .peerFrameTimeoutError then some 20
  else if cls = .protocolError ∨ cls = .transactionError then some 20
  else none

/-- The exception handlers of `_run` and its `finally`. -/
def fail (e : Raised) (now : Time) (session : Session) : Session :=
  let session := match session.pointsFor e.cls with
    | none => session
    | some points => penalized points now session
  session.close.setTask .ended

/-- The state after a stretch of the task: it waits for the next frame or goes on with an
answer. The task ends when it raised, or when the connection was closed. -/
def resume (now : Time) (outcome : Except Raised (Option (List Block)) × Session) : Session :=
  match outcome with
  | (.error e, session) => session.fail e now
  | (.ok (some blocks), session) => session.setTask (.answering blocks)
  | (.ok none, session) =>
    session.setTask (if session.connection.closed = true then .ended else .reading)

/-- The first stretch of `_run`: send the HELLO. -/
def greet [Platform] : Action Unit := do
  let node ← read Session.node
  let payload ← lift (do (← node.hello).toBytes)
  send .hello payload

/-- The first turn: send a HELLO. -/
def start [Platform] (now : Time) (session : Session) : Session :=
  match session.connection.task with
  | .starting =>
    match greet session with
    | (.error e, session) => session.fail e now
    | (.ok (), session) => session.setTask .handshaking
  | _ => session

/-- `_complete_handshake(connection, hello)`. -/
def completeHandshake [Platform] (hello : Hello) : Action Unit := do
  let node ← read Session.node
  let own ← lift node.hello
  lift (do
    raiseIf (hello.chainId ≠ own.chainId) (protocolError "peer belongs to another chain_id")
    raiseIf (hello.genesisHash ≠ own.genesisHash)
      (protocolError "peer uses another genesis block")
    raiseIf (hello.nodeId = node.nodeId) (protocolError "self-connections are not allowed"))
  let key ← read fun session => session.connection.key
  let duplicate := (node.byNodeId.get? hello.nodeId).any fun existing =>
    existing ≠ key ∧ (node.peers.get? existing).any fun other => other.closed = false
  if duplicate = true then throw (protocolError "duplicate peer node ID")
  else update fun session => { session with node :=
    { session.node with byNodeId := session.node.byNodeId.set hello.nodeId key } }

/-- What `_run` does with the first frame. -/
def handshake [Platform] (frame : Frame) : Action (Option (List Block)) := do
  if frame.messageType ≠ .hello then throw (protocolError "first peer message must be HELLO")
  else do
    let hello ← lift (Hello.fromBytes frame.payload)
    completeHandshake hello
    update fun session => { session with connection := { session.connection with
      hello := some hello
      score := (session.node.scores.get? hello.nodeId).getD 0 } }
    let localWork ← read fun session => session.node.localNode.chain.cumulativeWork
    if hello.cumulativeWork > localWork then do
      let _ ← requestBlocks
      return none
    else return none

/-- The check of the rate limiter. -/
def limitRate (size : Nat) (now : Time) : Action Unit := do
  let (allowed, rateLimiter) ← read fun session =>
    session.connection.rateLimiter.allow session.node.limits size now
  onConnection fun connection => { connection with rateLimiter }
  if allowed = true then return ()
  else do
    let threshold ← read fun session => session.node.limits.scoreDisconnectThreshold
    penalize threshold now

/-- What `_run` does with another frame. -/
def receive [Platform] (frame : Frame) (now : Time) (faults : List Transactions.Fault) :
    Action (Option (List Block)) := do
  limitRate (framePrefixSize + frame.payload.length) now
  handleFrame frame now faults

/-- `except PeerFrameTimeoutError` in the loop of `_run`: send a PING with a random nonce,
unless one is unanswered. -/
def idle (nonce : UInt64) : Action (Option (List Block)) := do
  if (← read fun session => session.connection.pendingPing).isSome = true then
    throw (peerDisconnectedError "peer did not answer the keepalive ping")
  else do
    onConnection fun connection => { connection with pendingPing := some nonce.toNat }
    let payload ← lift (encodePing nonce.toNat)
    send .ping payload
    return none

/-- One frame was read. -/
def deliver [Platform] (frame : Frame) (now : Time) (faults : List Transactions.Fault)
    (session : Session) : Session :=
  match session.connection.task with
  | .handshaking => resume now (handshake frame session)
  | .reading => resume now (receive frame now faults session)
  | _ => session

/-- The answer goes on. -/
def answer [Platform] (now : Time) (session : Session) : Session :=
  match session.connection.task with
  | .answering blocks => resume now (sendNext blocks session)
  | _ => session

/-- No frame came in time. -/
def timeout (nonce : UInt64) (now : Time) (session : Session) : Session :=
  match session.connection.task with
  | .handshaking => session.fail peerFrameTimeout now
  | .reading => resume now (idle nonce session)
  | _ => session

/-! ## What the rest of the node does -/

/-- One of the sends of a broadcast. When it raises, the connection is closed. -/
def flush (index : Nat) (session : Session) : Session :=
  match session.connection.pendingSends[index]? with
  | none => session
  | some frame =>
    let started := { session with connection := { session.connection with
      pendingSends := session.connection.pendingSends.eraseIdx index } }
    match send frame.messageType frame.payload started with
    | (.ok (), session) => session
    | (.error _, session) => session.close

/-- A broadcast to all connections. -/
def broadcastAll (frame : Frame) (session : Session) : Session :=
  { node := session.node.broadcast frame session.connection.key
    connection := session.connection.offer frame }

/-- A block that the node mined, or accepted from another peer, is submitted and
broadcast. -/
def acceptBlock [Platform] (block : Block) (faults : List Transactions.Fault) (session : Session) :
    Session :=
  match submitBlock block faults session with
  | (.error _, session) => session
  | (.ok _, session) =>
    match encodeBlock block with
    | .error _ => session
    | .ok payload => session.broadcastAll ⟨.block, payload⟩

/-- A transaction of the wallet, or of another peer, is submitted and broadcast. -/
def acceptTransaction [Platform] (tx : Transaction) (session : Session) : Session :=
  match submitTransaction tx session with
  | (.error _, session) => session
  | (.ok _, session) =>
    match tx.toBytes with
    | .error _ => session
    | .ok payload => session.broadcastAll ⟨.transaction, payload⟩

/-! ## Runs of one connection -/

/-- What can happen next, at the connection or elsewhere in its node. -/
inductive Event where
  | start (now : Time)
  | deliver (frame : Frame) (now : Time) (faults : List Transactions.Fault)
  | answer (now : Time)
  | timeout (nonce : UInt64) (now : Time)
  | flush (index : Nat)
  | accept (block : Block) (faults : List Transactions.Fault)
  | transact (tx : Transaction)
  | close
  /-- Other connections are opened, closed, handled and scored. -/
  | elsewhere (peers : Dict Nat PeerConnection) (connections : List Nat) (byNodeId : Dict Bytes Nat)
    (scores : Dict Bytes Int) (hostScores : Dict Text Int) (bannedUntil : Dict Text Time)

/-- One turn of the event loop. -/
def step [Platform] (session : Session) : Event → Session
  | .start now => session.start now
  | .deliver frame now faults => session.deliver frame now faults
  | .answer now => session.answer now
  | .timeout nonce now => session.timeout nonce now
  | .flush index => session.flush index
  | .accept block faults => session.acceptBlock block faults
  | .transact tx => session.acceptTransaction tx
  | .close => session.close
  | .elsewhere peers connections byNodeId scores hostScores bannedUntil =>
    { session with node := { session.node with
      peers, connections, byNodeId, scores, hostScores, bannedUntil } }

/-- The session after a sequence of events. -/
def run [Platform] (session : Session) (events : List Event) : Session := events.foldl step session

end Session

end OurCoin
