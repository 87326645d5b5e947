import OurCoin.Library.Steps
import OurCoin.Model.Peer

/-!
# The receive loop

The loop of `_run` after the handshake, on the bytes of the stream: `read_frame`, the rate
limiter, `_handle_frame`, and the keepalive when no frame came in time.
-/

set_option autoImplicit false

namespace OurCoin

/-- The event is one of those that the loop itself brings about. -/
def Session.Event.reads : Session.Event → Bool
  | .deliver _ _ _ => true
  | .timeout _ _ => true
  | _ => false

/-- A connection in its receive loop. -/
structure Reception where
  session : Session
  /-- What is still to be read, up to the end of the stream. -/
  stream : Bytes
  /-- The frames that `_handle_frame` was called with. -/
  handed : List Frame
  /-- The exceptions that `read_frame` raised. -/
  raised : List Raised

namespace Reception

/-- One turn of the loop, with the steps of `read_frame` that come late. -/
def read [Platform] (prefixLate payloadLate : Bool) (nonce : UInt64) (now : Time)
    (faults : List Transactions.Fault) (reception : Reception) : Reception :=
  match readFrame prefixLate payloadLate reception.stream with
  | (.ok frame, stream) =>
    let (limited, _) :=
      Session.limitRate (framePrefixSize + frame.payload.length) now reception.session
    { reception with
      session := reception.session.deliver frame now faults
      stream
      handed := match limited with
        | .ok () => reception.handed ++ [frame]
        | .error _ => reception.handed }
  | (.error e, stream) =>
    { reception with
      session := if e.cls = .peerFrameTimeoutError then reception.session.timeout nonce now
        else reception.session.fail e now
      stream
      raised := reception.raised ++ [e] }

/-- What happens next. -/
inductive Event where
  | read (prefixLate payloadLate : Bool) (nonce : UInt64) (now : Time)
    (faults : List Transactions.Fault)
  | meanwhile (event : Session.Event)

/-- One turn of the loop that reads frames. -/
def step [Platform] (reception : Reception) : Event → Reception
  | .read prefixLate payloadLate nonce now faults =>
    match reception.session.connection.task with
    | .reading => reception.read prefixLate payloadLate nonce now faults
    | _ => reception
  | .meanwhile event =>
    if event.reads = true then reception
    else { reception with session := reception.session.step event }

/-- The loop after the first events of a run. -/
def after [Platform] (reception : Reception) (events : List Event) (count : Nat) : Reception :=
  Steps.after step reception events count

end Reception

end OurCoin
