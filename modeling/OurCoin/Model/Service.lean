import OurCoin.Model.Peer

/-!
# All connections of a node

The part of `p2p.py` that opens connections, and the turns that the coroutines of a node
take.

A coroutine runs without interruption between two suspensions, so the state of a node
changes in turns, and any coroutine may take the next one. `P2PNode.Turn` lists them.

* `accept` and `dialled` are `_accept` and the part of `connect` after `open_connection`.
  `dial` is the part before it, and the checks that it made may be out of date when the
  socket is open.
* `act` is a stretch of the task of one connection, or a call of its `close`, which
  `P2PNode.close`, a timeout of `connect` and a failed broadcast make. A connection that was
  closed may still have a task that handles a frame.
* A send may suspend the stretch that it belongs to, and may fail when it goes on. The turns
  up to there are `meanwhile`: whatever a stretch changes beside the registry.
* `_is_loopback_address` asks the standard library about an address, and is a parameter.
-/

set_option autoImplicit false

namespace OurCoin

/-- The hosts that a node listens on. -/
def loopbackHosts : List Text := [text "127.0.0.1", text "::1", text "localhost"]

/-- `P2PError(message)`. -/
def p2pError (message : String) : Raised := ⟨.p2pError, message⟩

/-- `LocalTestnetOnlyError(message)`. -/
def localTestnetOnlyError (message : String) : Raised := ⟨.localTestnetOnlyError, message⟩

/-- `PeerLimitError(message)`. -/
def peerLimitError (message : String) : Raised := ⟨.peerLimitError, message⟩

namespace P2PNode

/-! ## Admission -/

/-- `_host_connection_count(host)`. -/
def hostConnectionCount (node : P2PNode) (host : Text) : Nat :=
  node.connections.countP fun key => (node.peers.get? key).any fun connection =>
    connection.host = host

/-- `_can_accept(host)`: an expired ban is forgotten. -/
def canAccept (node : P2PNode) (host : Text) (current : Time) : Bool × P2PNode :=
  let bannedUntil := (node.bannedUntil.get? host).getD 0
  let expired : Bool := decide (bannedUntil ≠ 0 ∧ current ≥ bannedUntil)
  let node := if expired = true then
      { node with
        bannedUntil := node.bannedUntil.pop host
        hostScores := node.hostScores.pop host }
    else node
  let bannedUntil := if expired = true then 0 else bannedUntil
  (decide (current ≥ bannedUntil ∧ node.connections.length < node.limits.maxPeers ∧
    node.hostConnectionCount host < node.limits.maxPeersPerIp), node)

/-- `self._connections.add(connection)` for a new connection. -/
def opened (node : P2PNode) (key : Nat) (host : Text) (outbound : Bool) : P2PNode :=
  { node with
    peers := node.peers.set key (.new key host outbound)
    connections := node.connections ++ [key] }

/-- `_accept(reader, writer)`. The endpoint is the remote host of the socket, if it has
one. -/
def accept (isLoopbackAddress : Text → Bool) (node : P2PNode) (key : Nat) (endpoint : Option Text)
    (current : Time) : P2PNode :=
  match endpoint with
  | none => node
  | some host =>
    if isLoopbackAddress host = false then node
    else
      match node.canAccept host current with
      | (false, node) => node
      | (true, node) => node.opened key host false

/-- `connect(host, port)` on a running server, up to `open_connection`. -/
def dial (node : P2PNode) (host : Text) (port : Int) (current : Time) :
    Outcome Raised P2PNode Unit :=
  if host ∉ loopbackHosts then
    (.error (localTestnetOnlyError "M7 dials only localhost addresses"), node)
  else if ¬ (1 ≤ port ∧ port ≤ 0xFFFF) then
    (.error (p2pError "peer port must be between 1 and 65535"), node)
  else
    match node.canAccept host current with
    | (false, node) =>
      (.error (peerLimitError "peer limit or temporary ban prevents connection"), node)
    | (true, node) => (.ok (), node)

/-- `connect(host, port)` after `open_connection`, up to the wait for the handshake. -/
def dialled (isLoopbackAddress : Text → Bool) (node : P2PNode) (key : Nat) (endpoint : Option Text)
    (current : Time) : Outcome Raised P2PNode Unit :=
  match endpoint with
  | none => (.error (p2pError "peer socket has no remote endpoint"), node)
  | some host =>
    if isLoopbackAddress host = false then
      (.error (localTestnetOnlyError "resolved peer address is not loopback"), node)
    else
      match node.canAccept host current with
      | (false, node) =>
        (.error (peerLimitError "resolved peer endpoint exceeds a connection limit"), node)
      | (true, node) => (.ok (), node.opened key host true)

/-! ## Turns -/

/-- The connections that were not closed. -/
def openConnections (node : P2PNode) : List PeerConnection :=
  node.peers.values.filter fun connection => connection.closed = false

end P2PNode

/-- What the registry knows a connection by. -/
structure PeerConnection.Identity where
  key : Nat
  host : Text
  closed : Bool
  /-- The node ID, the chain ID and the genesis hash of the peer. -/
  peer : Option (Bytes × Text × Bytes)
  deriving DecidableEq

/-- What other tasks read of a connection. -/
def PeerConnection.identity (connection : PeerConnection) : PeerConnection.Identity where
  key := connection.key
  host := connection.host
  closed := connection.closed
  peer := connection.hello.map fun hello => (hello.nodeId, hello.chainId, hello.genesisHash)

/-- Put the connection back among the connections of its node. -/
def Session.store (session : Session) : P2PNode :=
  { session.node with peers := session.node.peers.set session.connection.key session.connection }

/-- An event of the connection itself, or of its local node. -/
def Session.Event.Own : Session.Event → Prop
  | .elsewhere _ _ _ _ _ _ => False
  | _ => True

namespace P2PNode

/-- Two nodes with the same connections under the same keys, that differ in nothing a
registration depends on. -/
structure SameRegistry (node after : P2PNode) : Prop where
  localNode_eq : after.localNode = node.localNode
  port_eq : after.port = node.port
  nodeId_eq : after.nodeId = node.nodeId
  limits_eq : after.limits = node.limits
  connections_eq : after.connections = node.connections
  byNodeId_eq : after.byNodeId = node.byNodeId
  identity_eq : ∀ key, (after.peers.get? key).map PeerConnection.identity =
    (node.peers.get? key).map PeerConnection.identity

/-- One turn of a coroutine of the node. -/
inductive Turn [Platform] (isLoopbackAddress : Text → Bool) : P2PNode → P2PNode → Prop
  | accept {node : P2PNode} (key : Nat) (endpoint : Option Text) (current : Time) :
      node.peers.get? key = none →
      Turn isLoopbackAddress node (node.accept isLoopbackAddress key endpoint current)
  | dial {node : P2PNode} (host : Text) (port : Int) (current : Time) :
      Turn isLoopbackAddress node (node.dial host port current).2
  | dialled {node : P2PNode} (key : Nat) (endpoint : Option Text) (current : Time) :
      node.peers.get? key = none →
      Turn isLoopbackAddress node (node.dialled isLoopbackAddress key endpoint current).2
  | act {node : P2PNode} {key : Nat} {connection : PeerConnection} (event : Session.Event) :
      node.peers.get? key = some connection → event.Own →
      Turn isLoopbackAddress node (Session.step ⟨node, connection⟩ event).store
  | submitBlock {node : P2PNode} (block : Block) (faults : List Transactions.Fault) :
      Turn isLoopbackAddress node
        { node with localNode := (node.localNode.submitBlock block faults).2 }
  | submitTransaction {node : P2PNode} (tx : Transaction) :
      Turn isLoopbackAddress node
        { node with localNode := (node.localNode.submitTransaction tx).2 }
  | meanwhile {node after : P2PNode} : node.SameRegistry after →
      Turn isLoopbackAddress node after

end P2PNode

end OurCoin
