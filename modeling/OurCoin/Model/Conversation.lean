import OurCoin.Model.Peer

/-!
# Two connected nodes

Both ends of one connection, each with its node. The stream that one end writes is read by the
other one, frame by frame and in order: what was written and not read is in `written`.

The nodes do whatever else they do meanwhile: they mine, talk to other peers, send what is
queued, answer, wait, and close.
-/

set_option autoImplicit false

namespace OurCoin

/-- The task waits for a frame. -/
def Session.Awaits (session : Session) : Prop :=
  session.connection.task = .handshaking ∨ session.connection.task = .reading

/-- The frames that were written and not read. -/
def Session.withWritten (session : Session) (frames : List Frame) : Session :=
  { session with connection := { session.connection with written := frames } }

/-- Two ends of a connection. -/
structure Conversation where
  left : Session
  right : Session

namespace Conversation

/-- The conversation with its sides exchanged. -/
def swap (conversation : Conversation) : Conversation := ⟨conversation.right, conversation.left⟩

/-- What happens at the left end. -/
inductive Acts [Platform] : Conversation → Conversation → Prop
  /-- Anything but the arrival of a frame. -/
  | event {session other : Session} (event : Session.Event) :
      (∀ frame now faults, event ≠ .deliver frame now faults) →
      Acts ⟨session, other⟩ ⟨session.step event, other⟩
  /-- `read_frame` returns the next frame that the other end wrote. -/
  | read {session other : Session} {frame : Frame} {rest : List Frame} (now : Time)
      (faults : List Transactions.Fault) :
      session.Awaits → other.connection.written = frame :: rest →
      Acts ⟨session, other⟩ ⟨session.deliver frame now faults, other.withWritten rest⟩
  /-- `read_frame` raises, since the stream has ended or is broken. -/
  | ended {session other : Session} (now : Time) : session.Awaits →
      Acts ⟨session, other⟩
        ⟨session.fail (peerDisconnectedError "peer disconnected during a frame") now, other⟩

/-- Something happens at one of the ends. -/
def Step [Platform] (conversation after : Conversation) : Prop :=
  Acts conversation after ∨ Acts conversation.swap after.swap

/-- What happens at the left end when it accepts no block but those that the other end sends. -/
inductive ActsAlone [Platform] : Conversation → Conversation → Prop
  | event {session other : Session} (event : Session.Event) :
      (∀ frame now faults, event ≠ .deliver frame now faults) →
      (∀ block faults, event ≠ .accept block faults) →
      ActsAlone ⟨session, other⟩ ⟨session.step event, other⟩
  | read {session other : Session} {frame : Frame} {rest : List Frame} (now : Time)
      (faults : List Transactions.Fault) :
      session.Awaits → other.connection.written = frame :: rest →
      ActsAlone ⟨session, other⟩ ⟨session.deliver frame now faults, other.withWritten rest⟩
  | ended {session other : Session} (now : Time) : session.Awaits →
      ActsAlone ⟨session, other⟩
        ⟨session.fail (peerDisconnectedError "peer disconnected during a frame") now, other⟩

/-- Something happens at one of the ends, and no block comes from elsewhere. -/
def StepAlone [Platform] (conversation after : Conversation) : Prop :=
  ActsAlone conversation after ∨ ActsAlone conversation.swap after.swap

/-- The left end accepts a block that makes its chain the heavier one, after its HELLO was
sent and before that of the other end is handled, while the other end waits for no answer. -/
def LeftUnannounced (conversation after : Conversation) : Prop :=
  conversation.left.connection.task = .handshaking ∧
    conversation.left.node.localNode.chain.cumulativeWork <
      after.left.node.localNode.chain.cumulativeWork ∧
    conversation.right.node.localNode.chain.cumulativeWork <
      after.left.node.localNode.chain.cumulativeWork ∧
    conversation.right.connection.blockRequestOutstanding = false

/-- One of the sides moves its tip without announcing the block that did it. -/
def Unannounced (conversation after : Conversation) : Prop :=
  conversation.LeftUnannounced after ∨ conversation.swap.LeftUnannounced after.swap

/-- An end that waits for a frame with nothing left to send. -/
structure AtRest (session : Session) : Prop where
  reading : session.connection.task = .reading
  isOpen : session.connection.closed = false
  nothing_queued : session.connection.pendingSends = []
  nothing_written : session.connection.written = []

/-- Both handshakes are complete, the connection is open, and no frame is under way. -/
def Quiet (conversation : Conversation) : Prop :=
  AtRest conversation.left ∧ AtRest conversation.right

end Conversation

end OurCoin
