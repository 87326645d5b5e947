import OurCoin.Library.Steps
import OurCoin.Peer.Steps
import OurCoin.Tree.Genesis

/-!
# Requests without progress

A connection with an arbitrary peer. A round trip is a GET_BLOCKS that the node sent and
the next SYNC_COMPLETE that it handles, and it makes no progress when meanwhile no block of
the peer was accepted and the work of the node did not grow.

* A step that sends a GET_BLOCKS leaves a request that starts with the work of the chain
  (`Session.step_asks`), and only an accepted block or a summary changes it
  (`Session.step_waits`). So the counters of the connection record the round trip.
* `Session.round_trip_closes`: a round trip without progress that ends with a claim of more
  work closes the connection, so there is at most one.
* A claim of no more work is not held against the peer, however often it is repeated
  (`Session.light_round_trips`).
-/

set_option autoImplicit false

namespace OurCoin

open Raising Stateful

namespace Session

/-! ## Round trips -/

/-- The frames written between two sessions contain a GET_BLOCKS. -/
def SendsRequest (before after : Session) : Prop :=
  ∃ frames, after.connection.written = before.connection.written ++ frames ∧
    ∃ frame ∈ frames, frame.messageType = .getBlocks

variable [Platform]

/-- The session after the first events of a run. -/
def after (session : Session) (events : List Event) (count : Nat) : Session :=
  Steps.after step session events count

/-- A GET_BLOCKS that the event at `first` sent is completed by the SYNC_COMPLETE that the
event at `last` delivers, and no progress was made in between. -/
structure NoProgressTrip (session : Session) (events : List Event) (first last : Nat)
    (summary : ChainSummary) : Prop where
  in_order : first < last
  requested : SendsRequest (session.after events first) (session.after events (first + 1))
  completed : ∃ frame now faults, events[last]? = some (.deliver frame now faults) ∧
    frame.messageType = .syncComplete ∧ ChainSummary.fromBytes frame.payload = .ok summary
  listening : (session.after events last).connection.task = .reading
  /-- No summary was handled before. -/
  next_summary : ∀ index frame now faults, first < index → index < last →
    events[index]? = some (.deliver frame now faults) →
    (session.after events index).connection.task = .reading → frame.messageType ≠ .syncComplete
  /-- No block of the peer was accepted. -/
  nothing_accepted : ∀ index frame now faults, first < index → index < last →
    events[index]? = some (.deliver frame now faults) →
    (session.after events (index + 1)).node.localNode.chain =
      (session.after events index).node.localNode.chain
  /-- The work of the node did not grow. -/
  work_le : (session.after events last).node.localNode.chain.cumulativeWork ≤
    (session.after events (first + 1)).node.localNode.chain.cumulativeWork

/-! ## What one step does to the request -/

/-- A request is outstanding that started with the given work and brought no block. -/
structure Waits (work : Int) (course : Course) : Prop where
  outstanding : course.outstanding = true
  nothing_accepted : course.acceptedBlocks = 0
  startWork_eq : course.startWork = work

/-- Nothing but frames that are no GET_BLOCKS was written. -/
def AsksNothing (before after : Course) : Prop :=
  ∃ frames, after.written = before.written ++ frames ∧
    ∀ frame ∈ frames, frame.messageType ≠ .getBlocks

/-- If a GET_BLOCKS was written, a request waits that started with the work of the chain. -/
def Asks (before after : Course) : Prop :=
  AsksNothing before after ∨ Waits after.localNode.chain.cumulativeWork after

omit [Platform] in
theorem AsksNothing.of_eq {before after : Course} (same : after.written = before.written) :
    AsksNothing before after :=
  ⟨[], by simp [same], by simp⟩

omit [Platform] in
/-- The parts of a course that a request changes do not depend on the task. -/
theorem asks_resume {before : Course} {outcome : Except Raised (Option (List Block)) × Session}
    (now : Time) (asks : Asks before outcome.2.course) :
    Asks before (resume now outcome).course := by
  obtain ⟨closed, task, same, -⟩ := course_resume now outcome
  rw [same]
  rcases asks with nothing | waits
  · exact .inl nothing
  · exact .inr ⟨waits.outstanding, waits.nothing_accepted, waits.startWork_eq⟩

variable {session : Session}

theorem requestBlocks_asks (session : Session) :
    Asks session.course (requestBlocks session).2.course := by
  rcases requestBlocks_cases session with ⟨-, outcome⟩ | ⟨-, e, outcome⟩ |
    ⟨-, -, locator, payload, -, -, outcome⟩
  · rw [outcome]
    exact .inl (.of_eq rfl)
  · rw [outcome]
    exact .inl (.of_eq rfl)
  · rw [outcome]
    exact .inr ⟨rfl, rfl, rfl⟩

/-- While a request is outstanding, no other one is sent. -/
theorem requestBlocks_of_waits {work : Int} (waits : Waits work session.course) :
    requestBlocks session = (.ok false, session) := by
  rcases requestBlocks_cases session with ⟨-, outcome⟩ | ⟨idle, -⟩ | ⟨idle, -⟩
  · exact outcome
  · exact absurd (waits.outstanding.symm.trans idle) (by simp)
  · exact absurd (waits.outstanding.symm.trans idle) (by simp)

theorem requestBlocks_pendingSends (session : Session) :
    (requestBlocks session).2.course.pendingSends = session.course.pendingSends := by
  rcases requestBlocks_cases session with ⟨-, outcome⟩ | ⟨-, e, outcome⟩ |
    ⟨-, -, locator, payload, -, -, outcome⟩
  · rw [outcome]
  · rw [outcome]
    rfl
  · rw [outcome]
    rfl

/-- **A frame that is handled asks for blocks at most by a new request.** -/
theorem handleFrame_asks (inv : session.node.localNode.Invariant) (frame : Frame) (now : Time)
    (faults : List Transactions.Fault) :
    Asks session.course (handleFrame frame now faults session).2.course := by
  have related : Relates (fun before after => before.localNode.Invariant → Asks before after)
      (handleFrame frame now faults) := by
    apply relates_handleFrame (fun _ _ => .inl (.of_eq rfl))
    · intro _ block session inv
      have handled := handleBlock_handled inv block now faults
      generalize handleBlock block now faults session = outcome at handled ⊢
      cases handled with
      | unhashed _ => exact .inl (.of_eq rfl)
      | known _ _ => exact .inl (.of_eq rfl)
      | failed _ _ => exact .inl (.of_eq rfl)
      | orphaned _ _ _ _ _ request =>
          have asks := requestBlocks_asks session
          rw [request] at asks
          exact asks
      | refused _ _ _ _ _ judged => exact .inl (.of_eq (congrArg Course.written judged))
      | accepted _ _ _ same =>
          have written := congrArg Course.written same
          exact .inl (.of_eq written)
    · intro _ summary session _
      have handled := handleSyncComplete_handled session summary now
      generalize handleSyncComplete summary now session = outcome at handled ⊢
      cases handled with
      | refused _ => exact .inl (.of_eq rfl)
      | light _ _ _ => exact .inl (.of_eq rfl)
      | stuck _ _ _ _ judged =>
          have written := congrArg Course.written judged
          exact .inl (.of_eq written)
      | @heavy hello _ _ _ _ _ _ request =>
          have asks := requestBlocks_asks (session.synced summary hello)
          rw [request] at asks
          exact asks
    · intro _ tx session _
      have handled := handleTransaction_handled session tx now
      generalize handleTransaction tx now session = outcome at handled ⊢
      cases handled with
      | judged same => exact .inl (.of_eq (congrArg Course.written same))
      | accepted _ same =>
          have written := congrArg Course.written same
          exact .inl (.of_eq written)
    · intro payload session _
      rcases send_cases .pong payload session with ⟨e, raised⟩ | ⟨-, written⟩
      · rw [raised]
        exact .inl (.of_eq rfl)
      · rw [written]
        left
        rw [course_wrote (by simp)]
        exact ⟨[⟨.pong, payload⟩], rfl, by simp⟩
    · intro nonce session _
      rw [handlePong, bind_of_ok (read_apply _ _)]
      split
      · exact .inl (.of_eq rfl)
      · exact .inl (.of_eq rfl)
  exact related session inv

/-- A request that waits goes on waiting, and no other one is sent. -/
structure StillWaits (work : Int) (before after : Course) : Prop where
  waits : Waits work after
  nothing : AsksNothing before after

omit [Platform] in
theorem StillWaits.of_eq {work : Int} {before after : Course} (waits : Waits work before)
    (written : after.written = before.written) (outstanding : after.outstanding = before.outstanding)
    (accepted : after.acceptedBlocks = before.acceptedBlocks)
    (startWork : after.startWork = before.startWork) : StillWaits work before after where
  waits := ⟨outstanding.trans waits.outstanding, accepted.trans waits.nothing_accepted,
    startWork.trans waits.startWork_eq⟩
  nothing := .of_eq written

/-- **A request waits** while frames are handled that are no summaries and bring no block. -/
theorem handleFrame_waits (inv : session.node.localNode.Invariant) {frame : Frame} (now : Time)
    (faults : List Transactions.Fault) (notSummary : frame.messageType ≠ .syncComplete) {work : Int}
    (waits : Waits work session.course)
    (same : (handleFrame frame now faults session).2.node.localNode.chain =
      session.node.localNode.chain) :
    StillWaits work session.course (handleFrame frame now faults session).2.course := by
  have related : Relates (fun before after => before.localNode.Invariant → Waits work before →
      after.localNode.chain = before.localNode.chain → StillWaits work before after)
      (handleFrame frame now faults) := by
    apply relates_handleFrame (fun _ _ waits _ => .of_eq waits rfl rfl rfl rfl)
    · intro _ block session inv waits same
      have handled := handleBlock_handled inv block now faults
      generalize handleBlock block now faults session = outcome at handled same ⊢
      cases handled with
      | unhashed _ => exact .of_eq waits rfl rfl rfl rfl
      | known _ _ => exact .of_eq waits rfl rfl rfl rfl
      | failed _ _ => exact .of_eq waits rfl rfl rfl rfl
      | orphaned _ _ _ _ _ request =>
          rw [requestBlocks_of_waits waits] at request
          cases request
          exact .of_eq waits rfl rfl rfl rfl
      | refused _ _ _ _ _ judged => exact judged.symm ▸ .of_eq waits rfl rfl rfl rfl
      | accepted hashOk fresh accepted course =>
          -- The block is stored now, and was not before.
          have stored := inv.submitBlock_stores accepted hashOk
          rw [course] at same
          dsimp only [Session.course] at same
          rw [same, fresh] at stored
          cases stored
    · intro isSummary
      exact absurd isSummary notSummary
    · intro _ tx session _ waits _
      have handled := handleTransaction_handled session tx now
      generalize handleTransaction tx now session = outcome at handled ⊢
      cases handled with
      | judged same => exact same.symm ▸ .of_eq waits rfl rfl rfl rfl
      | accepted _ same =>
          rw [same]
          exact .of_eq waits rfl rfl rfl rfl
    · intro payload session _ waits _
      rcases send_cases .pong payload session with ⟨e, raised⟩ | ⟨-, written⟩
      · rw [raised]
        exact .of_eq waits rfl rfl rfl rfl
      · rw [written]
        refine ⟨⟨waits.outstanding, waits.nothing_accepted, waits.startWork_eq⟩, ?_⟩
        rw [course_wrote (by simp)]
        exact ⟨[⟨.pong, payload⟩], rfl, by simp⟩
    · intro nonce session _ waits _
      rw [handlePong, bind_of_ok (read_apply _ _)]
      split
      · exact .of_eq waits rfl rfl rfl rfl
      · exact .of_eq waits rfl rfl rfl rfl
  exact related session inv waits same

/-- Handling a frame queues nothing for this connection. -/
theorem handleFrame_pendingSends (inv : session.node.localNode.Invariant) (frame : Frame)
    (now : Time) (faults : List Transactions.Fault) :
    (handleFrame frame now faults session).2.course.pendingSends = session.course.pendingSends := by
  have related : Relates (fun before after => before.localNode.Invariant →
      after.pendingSends = before.pendingSends) (handleFrame frame now faults) := by
    apply relates_handleFrame (fun _ _ => rfl)
    · intro _ block session inv
      have handled := handleBlock_handled inv block now faults
      generalize handleBlock block now faults session = outcome at handled ⊢
      cases handled with
      | unhashed _ => rfl
      | known _ _ => rfl
      | failed _ _ => rfl
      | orphaned _ _ _ _ _ request =>
          have same := requestBlocks_pendingSends session
          rw [request] at same
          exact same
      | refused _ _ _ _ _ judged => exact congrArg Course.pendingSends judged
      | accepted _ _ _ same =>
          have kept := congrArg Course.pendingSends same
          exact kept
    · intro _ summary session _
      have handled := handleSyncComplete_handled session summary now
      generalize handleSyncComplete summary now session = outcome at handled ⊢
      cases handled with
      | refused _ => rfl
      | light _ _ _ => rfl
      | stuck _ _ _ _ judged =>
          have kept := congrArg Course.pendingSends judged
          exact kept
      | @heavy hello _ _ _ _ _ _ request =>
          have same := requestBlocks_pendingSends (session.synced summary hello)
          rw [request] at same
          exact same
    · intro _ tx session _
      have handled := handleTransaction_handled session tx now
      generalize handleTransaction tx now session = outcome at handled ⊢
      cases handled with
      | judged same => exact congrArg Course.pendingSends same
      | accepted _ same =>
          have kept := congrArg Course.pendingSends same
          exact kept
    · intro payload session _
      rcases send_cases .pong payload session with ⟨e, raised⟩ | ⟨-, written⟩
      · rw [raised]
      · rw [written]
        rfl
    · intro nonce session _
      rw [handlePong, bind_of_ok (read_apply _ _)]
      split
      · rfl
      · rfl
  exact related session inv

/-! ## The other steps -/

/-- The request of the connection is left alone, or there is none and at most one is sent.
What is queued asks for no blocks, if that was so before. -/
structure Steady (before after : Course) : Prop where
  queued : ∀ frame ∈ after.pendingSends, frame ∈ before.pendingSends ∨ frame.messageType ≠ .getBlocks
  request : (AsksNothing before after ∧ after.outstanding = before.outstanding ∧
      after.acceptedBlocks = before.acceptedBlocks ∧ after.startWork = before.startWork) ∨
    (before.outstanding = false ∧ Asks before after)

section

variable {before after : Course}

omit [Platform]

theorem Steady.asks (steady : Steady before after) : Asks before after := by
  rcases steady.request with ⟨nothing, -⟩ | ⟨-, asks⟩
  · exact .inl nothing
  · exact asks

theorem Steady.waits (steady : Steady before after) {work : Int} (waits : Waits work before) :
    StillWaits work before after := by
  rcases steady.request with ⟨nothing, outstanding, accepted, startWork⟩ | ⟨idle, -⟩
  · exact ⟨⟨outstanding.trans waits.outstanding, accepted.trans waits.nothing_accepted,
      startWork.trans waits.startWork_eq⟩, nothing⟩
  · exact absurd (waits.outstanding.symm.trans idle) (by simp)

/-- Steps that touch neither the request nor the queue, and write at most other frames. -/
theorem Steady.of_written (frames : List Frame) (written : after.written = before.written ++ frames)
    (other : ∀ frame ∈ frames, frame.messageType ≠ .getBlocks)
    (pending : after.pendingSends = before.pendingSends)
    (outstanding : after.outstanding = before.outstanding)
    (accepted : after.acceptedBlocks = before.acceptedBlocks)
    (startWork : after.startWork = before.startWork) : Steady before after where
  queued := by
    intro frame queued
    rw [pending] at queued
    exact .inl queued
  request := .inl ⟨⟨frames, written, other⟩, outstanding, accepted, startWork⟩

theorem Steady.refl (course : Course) : Steady course course :=
  .of_written [] (by simp) (by simp) rfl rfl rfl rfl

/-- The task and the closing flag do not matter. -/
theorem Steady.ending (steady : Steady before after) (closed : Bool) (task : Task) :
    Steady before { after with closed, task } where
  queued := steady.queued
  request := by
    rcases steady.request with unasked | ⟨idle, nothing | waits⟩
    · exact .inl unasked
    · exact .inr ⟨idle, .inl nothing⟩
    · exact .inr ⟨idle, .inr ⟨waits.outstanding, waits.nothing_accepted, waits.startWork_eq⟩⟩

theorem steady_resume {outcome : Except Raised (Option (List Block)) × Session} (now : Time)
    (steady : Steady before outcome.2.course) : Steady before (resume now outcome).course := by
  obtain ⟨closed, task, same, -⟩ := course_resume now outcome
  rw [same]
  exact steady.ending closed task

theorem steady_fail (e : Raised) (now : Time) (session : Session) :
    Steady session.course (session.fail e now).course := by
  rw [course_fail]
  exact (Steady.refl _).ending true .ended

theorem steady_close (steady : Steady before session.course) : Steady before session.close.course := by
  rw [course_close]
  exact steady.ending true session.course.task

/-- A frame is written that asks for no blocks. -/
theorem steady_wrote {frame : Frame} (other : frame.messageType ≠ .getBlocks) (session : Session) :
    Steady session.course (session.wrote frame).course := by
  apply Steady.of_written (withoutRejects [frame])
  · simp [course, wrote]
  · intro found member
    rw [withoutRejects, List.mem_filter, List.mem_singleton] at member
    rw [member.1]
    exact other
  · rfl
  · rfl
  · rfl
  · rfl

end

theorem requestBlocks_steady (session : Session) :
    Steady session.course (requestBlocks session).2.course := by
  have asks := requestBlocks_asks session
  rcases requestBlocks_cases session with ⟨-, outcome⟩ | ⟨idle, e, outcome⟩ |
    ⟨idle, -, locator, payload, -, -, outcome⟩
  · rw [outcome]
    exact .refl _
  · rw [outcome] at asks ⊢
    exact ⟨fun _ queued => .inl queued, .inr ⟨idle, asks⟩⟩
  · rw [outcome] at asks ⊢
    exact ⟨fun _ queued => .inl queued, .inr ⟨idle, asks⟩⟩

theorem handshake_steady (frame : Frame) (session : Session) :
    Steady session.course (handshake frame session).2.course := by
  have handled := handshake_handled session frame
  generalize handshake frame session = outcome at handled ⊢
  cases handled with
  | refused => exact .refl _
  | light => exact .of_written [] (by simp [course, greeted]) (by simp) rfl rfl rfl rfl
  | @heavy hello _ _ _ _ _ _ _ _ request =>
      have steady := requestBlocks_steady (session.greeted hello)
      rw [request] at steady
      exact ⟨steady.queued, steady.request⟩

omit [Platform] in
theorem broadcastAll_steady {frame : Frame} (other : frame.messageType ≠ .getBlocks)
    (session : Session) : Steady session.course (session.broadcastAll frame).course := by
  rw [course_broadcastAll]
  refine ⟨?_, .inl ⟨.of_eq rfl, rfl, rfl, rfl⟩⟩
  intro found queued
  dsimp only at queued
  split at queued
  · rcases List.mem_append.mp queued with old | new
    · exact .inl old
    · rw [List.mem_singleton.mp new]
      exact .inr other
  · exact .inl queued

/-- What is queued asks for no blocks. -/
def NothingQueued (course : Course) : Prop :=
  ∀ frame ∈ course.pendingSends, frame.messageType ≠ .getBlocks

/-! ### Events -/

theorem start_steady (now : Time) (session : Session) :
    Steady session.course (session.start now).course := by
  rw [start]
  split
  · rcases greet_cases session with ⟨e, raised⟩ | ⟨hello, payload, -, -, -, written⟩
    · rw [raised]
      exact steady_fail e now session
    · rw [written]
      exact (steady_wrote (by simp) session).ending _ _
  · exact .refl _

theorem answer_steady (now : Time) (session : Session) :
    Steady session.course (session.answer now).course := by
  rw [answer]
  split
  · rename_i blocks _
    apply steady_resume
    rcases sendNext_cases blocks session with ⟨e, raised⟩ |
      ⟨-, block, rest, payload, -, -, written⟩ | ⟨-, -, payload, -, written⟩
    · rw [raised]
      exact .refl _
    · rw [written]
      exact steady_wrote (by simp) session
    · rw [written]
      exact steady_wrote (by simp) session
  · exact .refl _

omit [Platform] in
theorem idle_steady (nonce : UInt64) (session : Session) :
    Steady session.course (idle nonce session).2.course := by
  have pinged : Steady session.course (session.pinged nonce).course :=
    .of_written [] (by simp [course, pinged]) (by simp) rfl rfl rfl rfl
  rcases idle_cases nonce session with ⟨e, raised⟩ | ⟨-, e, raised⟩ | ⟨-, -, payload, -, written⟩
  · rw [raised]
    exact .refl _
  · rw [raised]
    exact pinged
  · rw [written]
    have sent : Steady (session.pinged nonce).course
        ((session.pinged nonce).wrote ⟨.ping, payload⟩).course := steady_wrote (by simp) _
    exact ⟨sent.queued, sent.request⟩

omit [Platform] in
theorem timeout_steady (nonce : UInt64) (now : Time) (session : Session) :
    Steady session.course (session.timeout nonce now).course := by
  rw [timeout]
  split
  · exact steady_fail _ now session
  · exact steady_resume now (idle_steady nonce session)
  · exact .refl _

omit [Platform] in
/-- A queued frame that asks for no blocks is written, or the connection is closed. -/
theorem flush_steady (nothing : NothingQueued session.course) (index : Nat) :
    Steady session.course (session.flush index).course := by
  have unqueued : ∀ frame ∈ (session.unqueued index).connection.pendingSends,
      frame ∈ session.connection.pendingSends := fun frame kept => List.mem_of_mem_eraseIdx kept
  have dropped : Steady session.course (session.unqueued index).course :=
    ⟨fun frame kept => .inl (unqueued frame kept), .inl ⟨.of_eq rfl, rfl, rfl, rfl⟩⟩
  rcases flush_cases index session with ⟨-, same⟩ | ⟨frame, queued, closing | ⟨-, written⟩⟩
  · rw [same]
    exact .refl _
  · rw [closing]
    exact steady_close dropped
  · rw [written]
    have member := List.mem_of_getElem? queued
    have sent := steady_wrote (nothing frame member) (session.unqueued index)
    exact ⟨fun frame kept => .inl (unqueued frame kept), sent.request⟩

omit [Platform] in
/-- The node changes. -/
theorem steady_submitted (session : Session) (localNode : LocalNode) :
    Steady session.course (Session.course { session with node := { session.node with localNode } }) :=
  .of_written [] (by simp [course]) (by simp) rfl rfl rfl rfl

omit [Platform] in
/-- The node changes, and announces what it accepted. -/
theorem steady_announced {frame : Frame} (other : frame.messageType ≠ .getBlocks)
    (session : Session) (localNode : LocalNode) : Steady session.course
      (broadcastAll frame { session with node := { session.node with localNode } }).course := by
  have announced := broadcastAll_steady other
    { session with node := { session.node with localNode } }
  exact ⟨announced.queued, announced.request⟩

theorem acceptBlock_steady (block : Block) (faults : List Transactions.Fault) (session : Session) :
    Steady session.course (session.acceptBlock block faults).course := by
  rw [acceptBlock, submitBlock]
  cases session.node.localNode.submitBlock block faults with
  | mk result localNode =>
      cases result with
      | error e => exact steady_submitted session localNode
      | ok update =>
          dsimp only
          cases encodeBlock block with
          | error e => exact steady_submitted session localNode
          | ok payload => exact steady_announced (by simp) session localNode

theorem acceptTransaction_steady (tx : Transaction) (session : Session) :
    Steady session.course (session.acceptTransaction tx).course := by
  rw [acceptTransaction, submitTransaction]
  cases session.node.localNode.submitTransaction tx with
  | mk result localNode =>
      cases result with
      | error e => exact steady_submitted session localNode
      | ok txid =>
          dsimp only
          cases tx.toBytes with
          | error e => exact steady_submitted session localNode
          | ok payload => exact steady_announced (by simp) session localNode

/-- **Only a frame that is handled can interfere with a request.** -/
theorem step_steady (nothing : NothingQueued session.course) (event : Event)
    (other : ∀ frame now faults, event = .deliver frame now faults →
      session.connection.task ≠ .reading) : Steady session.course (session.step event).course := by
  cases event with
  | start now => exact start_steady now session
  | deliver frame now faults =>
      rw [step, deliver]
      split
      · exact steady_resume now (handshake_steady frame session)
      · rename_i reading
        exact absurd reading (other frame now faults rfl)
      · exact .refl _
  | answer now => exact answer_steady now session
  | timeout nonce now => exact timeout_steady nonce now session
  | flush index => exact flush_steady nothing index
  | accept block faults => exact acceptBlock_steady block faults session
  | transact tx => exact acceptTransaction_steady tx session
  | close => exact steady_close (.refl _)
  | elsewhere => exact .refl _

/-! ## Whole steps -/

/-- Between two events the node keeps its invariant, and nothing queued asks for blocks. -/
structure Orderly (session : Session) : Prop where
  inv : session.node.localNode.Invariant
  nothing : NothingQueued session.course

omit [Platform] in
/-- A frame that is read goes through the rate limiter and is handled. -/
theorem course_of_judged {session passed : Session} (judged : Judges session passed) :
    passed.node.localNode = session.node.localNode :=
  congrArg Course.localNode judged

theorem step_deliver {frame : Frame} {now : Time} {faults : List Transactions.Fault}
    (reading : session.connection.task = .reading) :
    session.step (.deliver frame now faults) = resume now (receive frame now faults session) := by
  rw [step, deliver, reading]

/-- **A GET_BLOCKS leaves a request that starts with the work of the chain.** -/
theorem step_asks (orderly : session.Orderly) (event : Event) :
    Asks session.course (session.step event).course := by
  by_cases handles : ∃ frame now faults, event = .deliver frame now faults ∧
      session.connection.task = .reading
  · obtain ⟨frame, now, faults, rfl, reading⟩ := handles
    rw [step_deliver reading]
    apply asks_resume
    rcases receive_cases frame now faults session with ⟨e, after, raised, judged⟩ |
      ⟨passed, judged, same⟩
    · rw [raised]
      exact .inl (.of_eq (congrArg Course.written judged))
    · have inv : passed.node.localNode.Invariant := course_of_judged judged ▸ orderly.inv
      have sameCourse : passed.course = session.course := judged
      rw [same, ← sameCourse]
      exact handleFrame_asks inv frame now faults
  · push Not at handles
    exact (step_steady orderly.nothing event handles).asks

/-- **A request waits** for a summary or a block. -/
theorem step_waits (orderly : session.Orderly) (event : Event) {work : Int}
    (waits : Waits work session.course)
    (other : ∀ frame now faults, event = .deliver frame now faults →
      session.connection.task = .reading → frame.messageType ≠ .syncComplete)
    (idle : ∀ frame now faults, event = .deliver frame now faults →
      (session.step event).node.localNode.chain = session.node.localNode.chain) :
    StillWaits work session.course (session.step event).course := by
  by_cases handles : ∃ frame now faults, event = .deliver frame now faults ∧
      session.connection.task = .reading
  · obtain ⟨frame, now, faults, rfl, reading⟩ := handles
    have notSummary := other frame now faults rfl reading
    have sameChain := idle frame now faults rfl
    rw [step_deliver reading, localNode_resume] at sameChain
    rw [step_deliver reading]
    have handled : StillWaits work session.course (receive frame now faults session).2.course := by
      rcases receive_cases frame now faults session with ⟨e, after, raised, judged⟩ |
        ⟨passed, judged, same⟩
      · rw [raised]
        exact judged.symm ▸ .of_eq waits rfl rfl rfl rfl
      · have inv : passed.node.localNode.Invariant := course_of_judged judged ▸ orderly.inv
        have sameCourse : passed.course = session.course := judged
        rw [same, ← course_of_judged judged] at sameChain
        rw [← sameCourse] at waits
        rw [same, ← sameCourse]
        exact handleFrame_waits inv now faults notSummary waits sameChain
    obtain ⟨closed, task, same, -⟩ := course_resume now (receive frame now faults session)
    rw [same]
    exact ⟨⟨handled.waits.outstanding, handled.waits.nothing_accepted, handled.waits.startWork_eq⟩,
      handled.nothing⟩
  · push Not at handles
    exact (step_steady orderly.nothing event handles).waits waits

theorem step_orderly (orderly : session.Orderly) (event : Event) : (session.step event).Orderly := by
  refine ⟨step_invariant orderly.inv event, ?_⟩
  by_cases handles : ∃ frame now faults, event = .deliver frame now faults ∧
      session.connection.task = .reading
  · obtain ⟨frame, now, faults, rfl, reading⟩ := handles
    have kept : (receive frame now faults session).2.course.pendingSends =
        session.course.pendingSends := by
      rcases receive_cases frame now faults session with ⟨e, after, raised, judged⟩ |
        ⟨passed, judged, same⟩
      · rw [raised]
        exact congrArg Course.pendingSends judged
      · have inv : passed.node.localNode.Invariant := course_of_judged judged ▸ orderly.inv
        have sameCourse : passed.course = session.course := judged
        rw [same, ← sameCourse]
        exact handleFrame_pendingSends inv frame now faults
    obtain ⟨closed, task, same, -⟩ := course_resume now (receive frame now faults session)
    rw [step_deliver reading, NothingQueued, same]
    dsimp only
    rw [kept]
    exact orderly.nothing
  · push Not at handles
    intro frame queued
    rcases (step_steady orderly.nothing event handles).queued frame queued with old | other
    · exact orderly.nothing frame old
    · exact other

/-! ## Whole runs -/

theorem after_succ {events : List Event} {count : Nat} {event : Event}
    (next : events[count]? = some event) :
    session.after events (count + 1) = (session.after events count).step event :=
  Steps.after_succ next

theorem after_succ_of_none {events : List Event} {count : Nat} (none_left : events[count]? = none) :
    session.after events (count + 1) = session.after events count :=
  Steps.after_succ_of_none none_left

theorem after_orderly (orderly : session.Orderly) (events : List Event) (count : Nat) :
    (session.after events count).Orderly :=
  Steps.after_invariant orderly (fun _ event kept => step_orderly kept event) events count

/-- A task that ended on a closed connection stays so. -/
structure Over (session : Session) : Prop where
  closed : session.connection.closed = true
  ended : session.connection.task = .ended

theorem step_over (ended : session.Over) (event : Event) : (session.step event).Over := by
  obtain ⟨closed, ended⟩ := ended
  cases event with
  | start now =>
      rw [step, start, ended]
      exact ⟨closed, ended⟩
  | deliver frame now faults =>
      rw [step, deliver, ended]
      exact ⟨closed, ended⟩
  | answer now =>
      rw [step, answer, ended]
      exact ⟨closed, ended⟩
  | timeout nonce now =>
      rw [step, timeout, ended]
      exact ⟨closed, ended⟩
  | flush index =>
      rw [step]
      rcases flush_cases index session with ⟨-, same⟩ | ⟨frame, -, closing | ⟨isOpen, -⟩⟩
      · rw [same]
        exact ⟨closed, ended⟩
      · have course := course_close (session.unqueued index)
        rw [closing]
        exact ⟨congrArg Course.closed course, (congrArg Course.task course).trans ended⟩
      · rw [closed] at isOpen
        cases isOpen
  | accept block faults =>
      rw [step, acceptBlock, submitBlock]
      cases session.node.localNode.submitBlock block faults with
      | mk result localNode =>
          cases result with
          | error e => exact ⟨closed, ended⟩
          | ok update =>
              dsimp only
              cases encodeBlock block with
              | error e => exact ⟨closed, ended⟩
              | ok payload =>
                  have course := course_broadcastAll ⟨.block, payload⟩
                    { session with node := { session.node with localNode } }
                  exact ⟨(congrArg Course.closed course).trans closed,
                    (congrArg Course.task course).trans ended⟩
  | transact tx =>
      rw [step, acceptTransaction, submitTransaction]
      cases session.node.localNode.submitTransaction tx with
      | mk result localNode =>
          cases result with
          | error e => exact ⟨closed, ended⟩
          | ok txid =>
              dsimp only
              cases tx.toBytes with
              | error e => exact ⟨closed, ended⟩
              | ok payload =>
                  have course := course_broadcastAll ⟨.transaction, payload⟩
                    { session with node := { session.node with localNode } }
                  exact ⟨(congrArg Course.closed course).trans closed,
                    (congrArg Course.task course).trans ended⟩
  | close =>
      have course := course_close session
      exact ⟨congrArg Course.closed course, (congrArg Course.task course).trans ended⟩
  | elsewhere => exact ⟨closed, ended⟩

/-! ## The bound -/

variable {events : List Event} {first last : Nat} {summary : ChainSummary}

omit [Platform] in
/-- A GET_BLOCKS that was sent is not nothing. -/
theorem not_asksNothing {before after : Session} (sends : SendsRequest before after) :
    ¬ AsksNothing before.course after.course := by
  rintro ⟨others, written, none_asks⟩
  obtain ⟨frames, grown, frame, member, isRequest⟩ := sends
  dsimp only [course] at written
  rw [grown, withoutRejects_append] at written
  have same := List.append_cancel_left written
  have kept : frame ∈ withoutRejects frames := by
    rw [withoutRejects, List.mem_filter]
    exact ⟨member, by simp [isRequest]⟩
  rw [same] at kept
  exact none_asks frame kept isRequest

/-- The request of a trip waits until its summary arrives, and no other one is sent. -/
theorem NoProgressTrip.waits (trip : NoProgressTrip session events first last summary)
    (orderly : session.Orderly) :
    let work := (session.after events (first + 1)).node.localNode.chain.cumulativeWork
    Waits work (session.after events last).course ∧
      ∀ index, first < index → index < last →
        ¬ SendsRequest (session.after events index) (session.after events (index + 1)) := by
  intro work
  have asked : Waits work (session.after events (first + 1)).course := by
    cases next : events[first]? with
    | none =>
        have sends := trip.requested
        rw [after_succ_of_none next] at sends
        exact absurd (.of_eq rfl) (not_asksNothing sends)
    | some event =>
        have asks := step_asks (after_orderly orderly events first) event
        have sends := trip.requested
        rw [after_succ next] at sends
        rcases asks with nothing | waits
        · exact absurd nothing (not_asksNothing sends)
        · rw [← after_succ next] at waits
          exact waits
  have stepWaits : ∀ index event, first + 1 ≤ index → index < last → events[index]? = some event →
      Waits work (session.after events index).course →
      StillWaits work (session.after events index).course
        ((session.after events index).step event).course := by
    intro index event later earlier next waits
    apply step_waits (after_orderly orderly events index) event waits
    · rintro frame now faults rfl reading
      exact trip.next_summary index frame now faults later earlier next reading
    · rintro frame now faults rfl
      have idle := trip.nothing_accepted index frame now faults later earlier next
      rw [after_succ next] at idle
      exact idle
  have untilLast : ∀ index, first + 1 ≤ index → index ≤ last →
      Waits work (session.after events index).course := by
    intro index later
    apply Steps.after_induction
      (P := fun count session => count ≤ last → Waits work (Session.course session)) _ _ _ index later
    · exact fun _ => asked
    · intro count event later next waits earlier
      exact (stepWaits count event later earlier next (waits (by omega))).waits
    · intro count session later waits earlier
      exact waits (by omega)
  refine ⟨untilLast last trip.in_order le_rfl, ?_⟩
  intro index later earlier sends
  cases next : events[index]? with
  | none =>
      rw [after_succ_of_none next] at sends
      exact absurd (.of_eq rfl) (not_asksNothing sends)
  | some event =>
      have still := stepWaits index event later earlier next (untilLast index later earlier.le)
      rw [after_succ next] at sends
      exact not_asksNothing sends still.nothing

/-- A trip whose summary arrives at once. -/
theorem NoProgressTrip.of_next
    (requested : SendsRequest (session.after events first) (session.after events (first + 1)))
    (completed : ∃ frame now faults, events[first + 1]? = some (.deliver frame now faults) ∧
      frame.messageType = .syncComplete ∧ ChainSummary.fromBytes frame.payload = .ok summary)
    (listening : (session.after events (first + 1)).connection.task = .reading) :
    NoProgressTrip session events first (first + 1) summary where
  in_order := Nat.lt_succ_self first
  requested := requested
  completed := completed
  listening := listening
  next_summary := fun index _ _ _ later earlier => by omega
  nothing_accepted := fun index _ _ _ later earlier => by omega
  work_le := le_rfl

/-- A summary that claims more work after a request without progress ends the task. -/
theorem step_stuck {frame : Frame} {now : Time}
    {faults : List Transactions.Fault} {work : Int} (reading : session.connection.task = .reading)
    (isSummary : frame.messageType = .syncComplete)
    (decoded : ChainSummary.fromBytes frame.payload = .ok summary)
    (waits : Waits work session.course)
    (noGrowth : session.node.localNode.chain.cumulativeWork ≤ work)
    (heavier : session.node.localNode.chain.cumulativeWork < summary.cumulativeWork) :
    (session.step (.deliver frame now faults)).Over := by
  have raises : ∃ e, (receive frame now faults session).1 = .error e := by
    rcases receive_cases frame now faults session with ⟨e, after, raised, -⟩ | ⟨passed, judged, same⟩
    · exact ⟨e, congrArg Prod.fst raised⟩
    · have sameCourse : passed.course = session.course := judged
      have sameNode := course_of_judged judged
      rw [← sameNode] at noGrowth heavier
      have stuck : madeNoProgress passed.node.localNode.chain.cumulativeWork
          passed.connection.requestProgress := by
        have outstanding : passed.connection.blockRequestOutstanding = true :=
          (congrArg Course.outstanding sameCourse).trans waits.outstanding
        have accepted : passed.connection.acceptedBlocksInRequest = 0 :=
          (congrArg Course.acceptedBlocks sameCourse).trans waits.nothing_accepted
        have startWork : passed.connection.blockRequestStartWork = work :=
          (congrArg Course.startWork sameCourse).trans waits.startWork_eq
        rw [PeerConnection.requestProgress, if_pos outstanding, accepted, startWork]
        exact ⟨rfl, noGrowth⟩
      have handled := handleSyncComplete_handled passed summary now
      rw [same]
      simp only [handleFrame, isSummary]
      rw [bind_apply, lift_apply, decoded]
      dsimp only
      rw [bind_apply]
      generalize handleSyncComplete summary now passed = outcome at handled ⊢
      cases handled with
      | refused _ => exact ⟨_, rfl⟩
      | light _ _ lighter => exact absurd heavier (not_lt.mpr lighter)
      | stuck _ _ _ _ _ => exact ⟨_, rfl⟩
      | heavy _ _ _ progress _ => exact absurd stuck progress
  rw [step_deliver reading]
  obtain ⟨e, raised⟩ := raises
  have ending := course_resume_error now e (receive frame now faults session).2
  rw [← raised] at ending
  exact ⟨congrArg Course.closed ending, congrArg Course.task ending⟩

/-- **At most one round trip is wasted on a peer that claims more work.** When a round trip
without progress ends with a summary that claims more work than the chain has, the
connection is closed, and no round trip ends after it. -/
theorem round_trip_closes (reachable : session.node.localNode.Reachable)
    {key : Nat} {host : Text} {outbound : Bool}
    (fresh : session.connection = PeerConnection.new key host outbound)
    (trip : NoProgressTrip session events first last summary)
    (heavier : (session.after events last).node.localNode.chain.cumulativeWork <
      summary.cumulativeWork) :
    (∀ count, last < count → (session.after events count).connection.closed = true ∧
      (session.after events count).connection.task = .ended) ∧
    ∀ first' last' summary', NoProgressTrip session events first' last' summary' →
      last' ≤ last ∧ (last' = last → first' = first) := by
  have orderly : session.Orderly := by
    refine ⟨reachable.invariant, ?_⟩
    intro frame queued
    rw [show session.course.pendingSends = session.connection.pendingSends from rfl, fresh] at queued
    cases queued
  obtain ⟨waits, alone⟩ := trip.waits orderly
  obtain ⟨frame, now, faults, next, isSummary, decoded⟩ := trip.completed
  have stuck : ((session.after events last).step (.deliver frame now faults)).Over :=
    step_stuck trip.listening isSummary decoded waits trip.work_le heavier
  rw [← after_succ next] at stuck
  have closes : ∀ count, last < count → (session.after events count).Over :=
    Steps.after_induction (P := fun _ => Over) stuck (fun _ event _ _ kept => step_over kept event)
      fun _ _ _ kept => kept
  refine ⟨fun count later => ⟨(closes count later).closed, (closes count later).ended⟩, ?_⟩
  intro first' last' summary' trip'
  refine ⟨?_, ?_⟩
  · by_contra later
    have reading := trip'.listening
    rw [(closes last' (not_le.mp later)).ended] at reading
    cases reading
  · intro same
    subst same
    rcases lt_trichotomy first' first with earlier | same | later
    · exact absurd trip.requested ((trip'.waits orderly).2 first earlier trip.in_order)
    · exact same
    · exact absurd trip'.requested (alone first' later trip'.in_order)

/-! ## A peer that sends orphans -/

/-- The frame of an encoding that returns. -/
def frameOf (messageType : MessageType) (encoded : Except Raised Bytes) : Frame :=
  ⟨messageType, encoded.toOption.getD []⟩

/-- A node with the genesis block, and a connection that was just accepted. -/
def freshSession : Session where
  node := .new ⟨genesisChain, Mempool.empty, none⟩ 18444 .default ownNodeId length_ownNodeId
    (by decide)
  connection := .new 0 (text "127.0.0.1") false

/-- The HELLO of a peer with the same chain. -/
def peerHello : Frame := frameOf .hello (@Hello.toBytes asciiPlatform {
  nodeId := List.replicate 16 2
  chainId := testnet.chainId
  genesisHash
  tipHash := genesisHash
  height := 0
  cumulativeWork := genesisChain.cumulativeWork
  listenPort := 18444 })

/-- The first block on top of a parent that nobody has. -/
def orphanBlock : Frame := frameOf .block (@encodeBlock asciiPlatform { firstBlock with
  header := { firstBlock.header with previousBlockHash := List.replicate 32 7 } })

/-- A claim of the work of the genesis block. -/
def lightSummary : ChainSummary := ⟨genesisHash, 0, genesisChain.cumulativeWork⟩

/-- A claim of more work, for a tip that nobody has. -/
def heavySummary : ChainSummary := ⟨List.replicate 32 7, 1, genesisChain.cumulativeWork + 1⟩

/-- The request that an orphan causes. -/
def orphanRequest : Frame := frameOf .getBlocks (@BlockLocator.toBytes ⟨[genesisHash]⟩)

/-- An orphan, a claim of more work than the node has. -/
def heavyTrip : List Event := [.start 0, .deliver peerHello 0 [], .deliver orphanBlock 0 [],
  .deliver (frameOf .syncComplete heavySummary.toBytes) 0 []]

/-- An orphan, a claim of no more work than the node has, and both again. -/
def lightTrips : List Event := [.start 0, .deliver peerHello 0 [], .deliver orphanBlock 0 [],
  .deliver (frameOf .syncComplete lightSummary.toBytes) 0 [], .deliver orphanBlock 0 [],
  .deliver (frameOf .syncComplete lightSummary.toBytes) 0 []]

omit [Platform] in
theorem freshSession_reachable : @LocalNode.Reachable asciiPlatform freshSession.node.localNode := by
  apply @LocalNode.Reachable.inMemory asciiPlatform
  simp only [LocalNode.new, @Chain.init_testnet asciiPlatform]
  rfl

omit [Platform] in
theorem round_trip_closes_heavy :
    (∀ count, 3 < count →
      (@after asciiPlatform freshSession heavyTrip count).connection.closed = true ∧
      (@after asciiPlatform freshSession heavyTrip count).connection.task = .ended) ∧
    ∀ first' last' summary', @NoProgressTrip asciiPlatform freshSession heavyTrip first' last' summary' →
      last' ≤ 3 ∧ (last' = 3 → first' = 2) := by
  apply @round_trip_closes asciiPlatform freshSession heavyTrip 2 3 heavySummary
    freshSession_reachable _ _ _ rfl
  · apply @NoProgressTrip.of_next asciiPlatform
    · exact ⟨[orphanRequest], by decide +kernel, orphanRequest, List.mem_singleton_self _, rfl⟩
    · exact ⟨_, 0, [], rfl, rfl, by decide +kernel⟩
    · decide +kernel
  · decide +kernel

omit [Platform] in
/-- **A claim of no more work is not held against the peer**: two round trips without
progress, and the connection is still open. -/
theorem light_round_trips :
    @LocalNode.Reachable asciiPlatform freshSession.node.localNode ∧
    @NoProgressTrip asciiPlatform freshSession lightTrips 2 3 lightSummary ∧
    @NoProgressTrip asciiPlatform freshSession lightTrips 4 5 lightSummary ∧
    (@after asciiPlatform freshSession lightTrips 6).connection.closed = false ∧
    (@after asciiPlatform freshSession lightTrips 6).connection.task = .reading := by
  refine ⟨freshSession_reachable, ?_, ?_, by decide +kernel, by decide +kernel⟩
  · apply @NoProgressTrip.of_next asciiPlatform
    · exact ⟨[orphanRequest], by decide +kernel, orphanRequest, List.mem_singleton_self _, rfl⟩
    · exact ⟨_, 0, [], rfl, rfl, by decide +kernel⟩
    · decide +kernel
  · apply @NoProgressTrip.of_next asciiPlatform
    · exact ⟨[orphanRequest], by decide +kernel, orphanRequest, List.mem_singleton_self _, rfl⟩
    · exact ⟨_, 0, [], rfl, rfl, by decide +kernel⟩
    · decide +kernel

end Session

end OurCoin
