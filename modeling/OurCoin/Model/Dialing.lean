import OurCoin.Library.Crossing
import OurCoin.Model.Service

/-!
# Simultaneous dialing

Two nodes that dialled each other. Two TCP connections join them, and each node has a
connection object for its end of each.

* `Step.greeting`: an end that sent its own HELLO reads the first frame that the other end
  wrote.
* `Step.closing`: an end that read the HELLO reaches the end of the stream, after the other
  end was closed. `read_frame` raises, and the task ends. What was written between the HELLO
  and the end of the stream is not part of this model.
-/

set_option autoImplicit false

namespace OurCoin

open Crossing (Side Link)

/-- Two nodes, and the keys of their connection objects. -/
structure Dialing where
  node : Side → P2PNode
  key : Side → Link → Nat

namespace Dialing

/-- The connection object of one node for one of the connections. -/
def connection (dialing : Dialing) (side : Side) (link : Link) : Option PeerConnection :=
  (dialing.node side).peers.get? (dialing.key side link)

/-- The ID that a node knows its peer by. -/
def peerId (dialing : Dialing) (side : Side) : Bytes := (dialing.node side.other).nodeId

/-- One of the nodes changed. -/
def put (dialing : Dialing) (side : Side) (node : P2PNode) : Dialing :=
  { dialing with node := Function.update dialing.node side node }

/-- The penalties that a node has for a host. -/
def hostScore (dialing : Dialing) (side : Side) (host : Text) : Int :=
  ((dialing.node side).hostScores.get? host).getD 0

/-- A connection that sent its HELLO and waits for that of the peer. -/
structure Greets [Platform] (node : P2PNode) (connection : PeerConnection) : Prop where
  task_eq : connection.task = .handshaking
  isOpen : connection.closed = false
  unmet : connection.hello = none
  wrote : ∃ hello payload, node.hello = .ok hello ∧ hello.toBytes = .ok payload ∧
    connection.written = [⟨.hello, payload⟩]

/-- One HELLO or the end of one stream is read. -/
inductive Step [Platform] : Dialing → Dialing → Prop
  | greeting {dialing : Dialing} {side : Side} {link : Link} {connection sender : PeerConnection}
      {frame : Frame} (now : Time) :
      dialing.connection side link = some connection → connection.task = .handshaking →
      dialing.connection side.other link = some sender → sender.written.head? = some frame →
      Step dialing (dialing.put side
        (Session.deliver frame now [] ⟨dialing.node side, connection⟩).store)
  | closing {dialing : Dialing} {side : Side} {link : Link} {connection sender : PeerConnection}
      (now : Time) :
      dialing.connection side link = some connection → connection.task = .reading →
      dialing.connection side.other link = some sender → sender.closed = true →
      Step dialing (dialing.put side (Session.fail
        (peerDisconnectedError "peer disconnected during a frame") now
        ⟨dialing.node side, connection⟩).store)

/-- All four HELLO frames and all closings were read. -/
structure Settled (dialing : Dialing) : Prop where
  greeted : ∀ side link connection, dialing.connection side link = some connection →
    connection.task ≠ .handshaking
  told : ∀ side link connection sender, dialing.connection side link = some connection →
    dialing.connection side.other link = some sender → sender.closed = true →
    connection.closed = true

/-- The handshake was completed, and the end is open. -/
def Open (dialing : Dialing) (side : Side) (link : Link) : Prop :=
  ∃ connection, dialing.connection side link = some connection ∧ connection.closed = false ∧
    connection.hello.isSome = true

/-- The end was closed without a handshake. -/
def Refused (dialing : Dialing) (side : Side) (link : Link) : Prop :=
  ∃ connection, dialing.connection side link = some connection ∧ connection.closed = true ∧
    connection.hello = none

/-- The connection is the one that the node has for its peer. -/
def Registered (dialing : Dialing) (side : Side) (link : Link) : Prop :=
  (dialing.node side).byNodeId.get? (dialing.peerId side) = some (dialing.key side link)

/-- The end reads the HELLO of its peer while the other connection is open and registered, and
`_complete_handshake` raises. -/
structure MeetsDuplicate [Platform] (dialing : Dialing) (side : Side) (link : Link) : Prop where
  other_open : dialing.Open side link.other
  other_registered : dialing.Registered side link.other
  raises : ∃ connection sender frame, dialing.connection side link = some connection ∧
    dialing.connection side.other link = some sender ∧ sender.written.head? = some frame ∧
    (Session.handshake frame ⟨dialing.node side, connection⟩).1 =
      .error (protocolError "duplicate peer node ID")

end Dialing

end OurCoin
