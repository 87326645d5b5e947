import OurCoin.Peer.Conversation

/-!
# What does not touch a synchronization

The frames of a synchronization are GET_BLOCKS, BLOCK and SYNC_COMPLETE. Most of what happens on a
connection leaves them alone, with the chain of the node and the request that is outstanding.

* `Course.Rests` says so of two moments of a course.
* `Session.step_rests`: anything but a block, an answer and the arrival of a frame.
* `Session.deliver_rests`: the arrival of another frame after the handshake.
-/

set_option autoImplicit false

namespace OurCoin

open Raising Stateful

/-- The messages of a synchronization. -/
def MessageType.synchronizes : MessageType → Bool
  | .getBlocks => true
  | .block => true
  | .syncComplete => true
  | _ => false

/-- The frames of a synchronization. -/
def syncFrames (frames : List Frame) : List Frame :=
  frames.filter fun frame => frame.messageType.synchronizes

@[simp] theorem syncFrames_append (first second : List Frame) :
    syncFrames (first ++ second) = syncFrames first ++ syncFrames second :=
  List.filter_append _ _

/-- The frame belongs to a synchronization. -/
theorem syncFrames_cons {frame : Frame} (synchronizes : frame.messageType.synchronizes = true)
    (rest : List Frame) : syncFrames (frame :: rest) = frame :: syncFrames rest :=
  List.filter_cons_of_pos synchronizes

/-- It does not. -/
theorem syncFrames_cons_other {frame : Frame} (other : frame.messageType.synchronizes = false)
    (rest : List Frame) : syncFrames (frame :: rest) = syncFrames rest :=
  List.filter_cons_of_neg (by simp [other])

/-- The blocks that are left to send. -/
def Task.answers : Task → Option (List Block)
  | .answering blocks => some blocks
  | _ => none

/-- A task ends, or goes on with the same answer. -/
def Task.Keeps (before after : Task) : Prop :=
  after = .ended ∨ before ≠ .ended ∧ after.answers = before.answers

theorem Task.Keeps.refl (task : Task) : task.Keeps task := by
  by_cases ended : task = .ended
  · exact .inl ended
  · exact .inr ⟨ended, rfl⟩

namespace Course

/-- Broadcasts carry transactions only. -/
def QueuesTransactions (course : Course) : Prop :=
  ∀ frame ∈ course.pendingSends, frame.messageType = .transaction

variable [Platform]

/-- A HELLO claims the work of a chain. -/
def ClaimsWork (chain : Chain) (frame : Frame) : Prop :=
  frame.messageType = .hello → ∀ hello, Hello.fromBytes frame.payload = .ok hello →
    hello.cumulativeWork = chain.cumulativeWork

omit [Platform] in
theorem claimsWork_of_other [Platform] {chain : Chain} {frame : Frame}
    (other : frame.messageType ≠ .hello) : ClaimsWork chain frame :=
  fun isHello => absurd isHello other

/-- The chain, the request and the frames of a synchronization stay as they are. -/
structure Rests (before after : Course) : Prop where
  chain_eq : after.localNode.chain = before.localNode.chain
  hello_eq : after.hello = before.hello
  outstanding_eq : after.outstanding = before.outstanding
  acceptedBlocks_eq : after.acceptedBlocks = before.acceptedBlocks
  written_eq : syncFrames after.written = syncFrames before.written
  queued : after.QueuesTransactions
  claims : ∀ frame ∈ after.written, frame ∈ before.written ∨
    ClaimsWork before.localNode.chain frame

variable {before middle after course : Course}

theorem Rests.refl (queued : course.QueuesTransactions) : course.Rests course :=
  ⟨rfl, rfl, rfl, rfl, rfl, queued, fun _ member => .inl member⟩

theorem Rests.of_eq (queued : before.QueuesTransactions) (same : after = before) :
    before.Rests after := by
  rw [same]
  exact .refl queued

/-- The task and the closing flag do not matter. -/
theorem Rests.ending (rests : before.Rests after) (closed : Bool) (task : Task) :
    before.Rests { after with closed, task } :=
  ⟨rests.chain_eq, rests.hello_eq, rests.outstanding_eq, rests.acceptedBlocks_eq, rests.written_eq,
    rests.queued, rests.claims⟩

/-- Another frame is written. -/
theorem Rests.wrote (rests : before.Rests after) {frame : Frame}
    (other : frame.messageType.synchronizes = false)
    (claims : ClaimsWork before.localNode.chain frame) :
    before.Rests { after with written := after.written ++ [frame] } where
  chain_eq := rests.chain_eq
  hello_eq := rests.hello_eq
  outstanding_eq := rests.outstanding_eq
  acceptedBlocks_eq := rests.acceptedBlocks_eq
  written_eq := by
    dsimp only
    rw [syncFrames_append, syncFrames_cons_other other, rests.written_eq]
    exact List.append_nil _
  queued := rests.queued
  claims := by
    intro frame' member
    rcases List.mem_append.mp member with earlier | last
    · exact rests.claims frame' earlier
    · rw [List.mem_singleton] at last
      subst last
      exact .inr claims

end Course

namespace Session

variable [Platform] {session : Session}

omit [Platform] in
theorem Judges.course_eq {after : Session} (judges : session.Judges after) :
    after.course = session.course :=
  judges

omit [Platform] in
/-- The next frame is a rejection, or the first one of the course. -/
theorem course_withWritten {frame : Frame} {rest : List Frame}
    (arrives : session.connection.written = frame :: rest) :
    (frame.messageType = .reject ∧ (session.withWritten rest).course = session.course) ∨
    frame.messageType ≠ .reject ∧ session.course.written = frame :: withoutRejects rest ∧
      (session.withWritten rest).course =
        { session.course with written := withoutRejects rest } := by
  by_cases isReject : frame.messageType = .reject
  · left
    refine ⟨isReject, ?_⟩
    simp [course, withWritten, arrives, withoutRejects, isReject]
  · right
    refine ⟨isReject, ?_, rfl⟩
    simp [course, arrives, withoutRejects, isReject]

/-- A task that fails changes nothing else. -/
theorem fail_rests {after : Session} (rests : session.course.Rests after.course) (e : Raised)
    (now : Time) : session.course.Rests (after.fail e now).course := by
  rw [course_fail]
  exact rests.ending _ _

/-! ## Steps without a frame -/

theorem start_rests (inv : session.node.localNode.Invariant)
    (queues : session.course.QueuesTransactions) (now : Time) :
    session.course.Rests (session.start now).course := by
  have rests := Course.Rests.refl queues
  rw [start]
  split
  · rcases greet_cases session with ⟨e, raised⟩ | ⟨hello, payload, made, encoded, -, written⟩
    · rw [raised]
      exact fail_rests rests e now
    · rw [written]
      dsimp only
      rw [course_setTask, course_wrote (by simp)]
      refine Course.Rests.ending (rests.wrote rfl ?_) session.course.closed .handshaking
      intro _ decoded decodedOk
      rw [hello_ok inv] at made
      cases made
      rw [Hello.fromBytes_toBytes .chainId encoded] at decodedOk
      cases decodedOk
      rfl
  · exact rests

theorem timeout_rests (queues : session.course.QueuesTransactions) (nonce : UInt64) (now : Time) :
    session.course.Rests (session.timeout nonce now).course := by
  have rests := Course.Rests.refl queues
  have pinged : session.course.Rests (session.pinged nonce).course :=
    ⟨rfl, rfl, rfl, rfl, rfl, queues, fun _ member => .inl member⟩
  rw [timeout]
  split
  · exact fail_rests rests _ now
  · rcases idle_cases nonce session with ⟨e, raised⟩ | ⟨-, e, raised⟩ |
      ⟨-, -, payload, encoded, written⟩
    · rw [raised]
      exact fail_rests rests e now
    · rw [raised]
      exact fail_rests pinged e now
    · rw [written, course_resume_ok, course_wrote (by simp)]
      exact Course.Rests.ending (pinged.wrote rfl (Course.claimsWork_of_other (by simp))) _ _
  · exact rests

theorem flush_rests (queues : session.course.QueuesTransactions) (index : Nat) :
    session.course.Rests (session.flush index).course := by
  have rests := Course.Rests.refl queues
  have unqueued : session.course.Rests (session.unqueued index).course := by
    refine ⟨rfl, rfl, rfl, rfl, rfl, ?_, fun _ member => .inl member⟩
    intro frame member
    exact queues frame (List.mem_of_mem_eraseIdx member)
  rcases flush_cases index session with ⟨-, same⟩ | ⟨frame, here, outcome⟩
  · rw [same]
    exact rests
  · have transaction : frame.messageType = .transaction :=
      queues frame (List.mem_of_getElem? here)
    rcases outcome with closing | ⟨-, written⟩
    · rw [closing, course_close]
      exact unqueued.ending _ _
    · rw [written, course_wrote (by simp [transaction])]
      exact unqueued.wrote (by rw [transaction]; rfl)
        (Course.claimsWork_of_other (by simp [transaction]))

theorem acceptTransaction_rests (queues : session.course.QueuesTransactions) (tx : Transaction) :
    session.course.Rests (session.acceptTransaction tx).course := by
  have sameChain := session.node.localNode.chain_submitTransaction tx
  rw [acceptTransaction, submitTransaction]
  cases outcome : session.node.localNode.submitTransaction tx with
  | mk result localNode =>
      rw [outcome] at sameChain
      have submitted : session.course.Rests
          { session.course with localNode : Course } :=
        ⟨sameChain, rfl, rfl, rfl, rfl, queues, fun _ member => .inl member⟩
      cases result with
      | error e => exact submitted
      | ok txid =>
          dsimp only
          cases tx.toBytes with
          | error e => exact submitted
          | ok payload =>
              dsimp only
              rw [course_broadcastAll]
              refine ⟨sameChain, rfl, rfl, rfl, rfl, ?_, fun _ member => .inl member⟩
              intro frame member
              dsimp only at member
              split at member
              · rcases List.mem_append.mp member with earlier | last
                · exact queues frame earlier
                · rw [List.mem_singleton.mp last]
              · exact queues frame member

/-- **Anything but a block, an answer and a frame** leaves a synchronization alone. -/
theorem step_rests (inv : session.node.localNode.Invariant)
    (queues : session.course.QueuesTransactions) {event : Event}
    (noFrame : ∀ frame now faults, event ≠ .deliver frame now faults)
    (noBlock : ∀ block faults, event ≠ .accept block faults)
    (noAnswer : ∀ now, event = .answer now → ∀ blocks, session.connection.task ≠ .answering blocks) :
    session.course.Rests (session.step event).course := by
  cases event with
  | start now => exact start_rests inv queues now
  | deliver frame now faults => exact absurd rfl (noFrame frame now faults)
  | answer now =>
      rw [step, answer]
      split
      · exact absurd ‹_› (noAnswer now rfl _)
      · exact .refl queues
  | timeout nonce now => exact timeout_rests queues nonce now
  | flush index => exact flush_rests queues index
  | accept block faults => exact absurd rfl (noBlock block faults)
  | transact tx => exact acceptTransaction_rests queues tx
  | close =>
      rw [step, course_close]
      exact (Course.Rests.refl queues).ending _ _
  | elsewhere => exact .refl queues

omit [Platform] in
theorem task_fail (e : Raised) (now : Time) (session : Session) :
    (session.fail e now).connection.task = .ended :=
  congrArg Course.task (course_fail e now session)

/-- Its task ends, or goes on with the same answer. -/
theorem step_keeps {event : Event} (noFrame : ∀ frame now faults, event ≠ .deliver frame now faults)
    (noAnswer : ∀ now, event = .answer now → ∀ blocks, session.connection.task ≠ .answering blocks) :
    session.connection.task.Keeps (session.step event).connection.task := by
  cases event with
  | start now =>
      rw [step, start]
      split
      · rename_i starting
        rcases greet_cases session with ⟨e, raised⟩ | ⟨hello, payload, -, -, -, written⟩
        · rw [raised]
          exact .inl (task_fail e now session)
        · rw [written, starting]
          exact .inr ⟨by simp, rfl⟩
      · exact .refl _
  | deliver frame now faults => exact absurd rfl (noFrame frame now faults)
  | answer now =>
      rw [step, answer]
      split
      · exact absurd ‹_› (noAnswer now rfl _)
      · exact .refl _
  | timeout nonce now =>
      rw [step, timeout]
      split
      · exact .inl (task_fail _ now session)
      · rename_i reading
        rcases idle_cases nonce session with ⟨e, raised⟩ | ⟨-, e, raised⟩ |
          ⟨-, isOpen, payload, -, written⟩
        · rw [raised]
          exact .inl (task_fail e now session)
        · rw [raised]
          exact .inl (task_fail e now _)
        · have goesOn : ((session.pinged nonce).wrote ⟨.ping, payload⟩).nextTask none = .reading :=
            if_neg (by simp [wrote, pinged, isOpen])
          have same : (resume now (.ok none,
              (session.pinged nonce).wrote ⟨.ping, payload⟩)).connection.task = .reading :=
            (congrArg Course.task (course_resume_ok now none _)).trans goesOn
          rw [written, reading]
          exact .inr ⟨by simp, by rw [same]⟩
      · exact .refl _
  | flush index =>
      rw [step]
      rcases flush_cases index session with ⟨-, same⟩ | ⟨frame, -, closing | ⟨-, written⟩⟩
      · rw [same]
        exact .refl _
      · have same : (session.unqueued index).close.connection.task = session.connection.task :=
          congrArg Course.task (course_close (session.unqueued index))
        rw [closing, same]
        exact .refl _
      · rw [written]
        exact .refl _
  | accept block faults =>
      have same : (session.step (.accept block faults)).connection.task = session.connection.task := by
        rw [step, acceptBlock, submitBlock]
        cases session.node.localNode.submitBlock block faults with
        | mk result localNode =>
            cases result with
            | error e => rfl
            | ok update =>
                dsimp only
                cases encodeBlock block with
                | error e => rfl
                | ok payload => exact congrArg Course.task (course_broadcastAll _ _)
      rw [same]
      exact .refl _
  | transact tx =>
      have same : (session.step (.transact tx)).connection.task = session.connection.task := by
        rw [step, acceptTransaction, submitTransaction]
        cases session.node.localNode.submitTransaction tx with
        | mk result localNode =>
            cases result with
            | error e => rfl
            | ok txid =>
                dsimp only
                cases tx.toBytes with
                | error e => rfl
                | ok payload => exact congrArg Course.task (course_broadcastAll _ _)
      rw [same]
      exact .refl _
  | close =>
      have same : session.close.connection.task = session.connection.task :=
        congrArg Course.task (course_close session)
      rw [step, same]
      exact .refl _
  | elsewhere => exact .refl _

/-! ## Other frames -/

/-- The handling of another frame leaves a synchronization alone. -/
theorem handleFrame_rests {frame : Frame} (other : frame.messageType.synchronizes = false)
    (queues : session.course.QueuesTransactions) (now : Time) (faults : List Transactions.Fault) :
    session.course.Rests (handleFrame frame now faults session).2.course := by
  have related : Relates (fun before after => before.QueuesTransactions → before.Rests after)
      (handleFrame frame now faults) := by
    apply relates_handleFrame (fun _ queues => .refl queues)
    · intro isBlock
      rw [isBlock] at other
      cases other
    · intro isSummary
      rw [isSummary] at other
      cases other
    · intro _ tx session queues
      have handled := handleTransaction_handled session tx now
      generalize handleTransaction tx now session = outcome at handled ⊢
      cases handled with
      | judged same => exact .of_eq queues same
      | accepted accepted same =>
          have sameChain := session.node.localNode.chain_submitTransaction tx
          rw [accepted] at sameChain
          dsimp only
          rw [same]
          exact ⟨sameChain, rfl, rfl, rfl, rfl, queues, fun _ member => .inl member⟩
    · intro payload session queues
      have rests := Course.Rests.refl queues
      rcases send_cases .pong payload session with ⟨e, raised⟩ | ⟨-, written⟩
      · rw [raised]
        exact rests
      · rw [written]
        dsimp only
        rw [course_wrote (by simp)]
        exact rests.wrote rfl (Course.claimsWork_of_other (by simp))
    · intro nonce session queues
      have rests := Course.Rests.refl queues
      rw [handlePong, bind_of_ok (read_apply _ _)]
      split
      · exact rests
      · exact ⟨rfl, rfl, rfl, rfl, rfl, queues, fun _ member => .inl member⟩
  exact related session queues

/-- Only a GET_BLOCKS leads to an answer. -/
theorem handleFrame_answers {frame : Frame} (noRequest : frame.messageType ≠ .getBlocks) (now : Time)
    (faults : List Transactions.Fault) (answer : Option (List Block))
    (returned : (handleFrame frame now faults session).1 = .ok answer) : answer = none := by
  have last : ∀ {α : Type} {action : Action α} {session : Session} {answer : Option (List Block)},
      ((action >>= fun _ => Pure.pure none : Action (Option (List Block))) session).1 = .ok answer →
        answer = none := by
    intro α action session answer returned
    rw [bind_apply] at returned
    cases outcome : action session with
    | mk result after =>
        rw [outcome] at returned
        cases result with
        | error e => cases returned
        | ok a =>
            cases returned
            rfl
  have lifted : ∀ {α : Type} {x : Except Raised α} {next : α → Action (Option (List Block))},
      ((Stateful.lift x >>= next) session).1 = .ok answer → ∃ a, (next a session).1 = .ok answer := by
    intro α x next returned
    rw [bind_apply, lift_apply] at returned
    cases x with
    | error e => cases returned
    | ok a => exact ⟨a, returned⟩
  cases messageType : frame.messageType with
  | getBlocks => exact absurd messageType noRequest
  | hello =>
      rw [handleFrame, messageType] at returned
      cases returned
  | block =>
      rw [handleFrame, messageType] at returned
      obtain ⟨block, returned⟩ := lifted returned
      exact last returned
  | transaction =>
      rw [handleFrame, messageType] at returned
      obtain ⟨tx, returned⟩ := lifted returned
      exact last returned
  | syncComplete =>
      rw [handleFrame, messageType] at returned
      obtain ⟨summary, returned⟩ := lifted returned
      exact last returned
  | ping =>
      rw [handleFrame, messageType] at returned
      obtain ⟨nonce, returned⟩ := lifted returned
      obtain ⟨payload, returned⟩ := lifted returned
      exact last returned
  | pong =>
      rw [handleFrame, messageType] at returned
      obtain ⟨nonce, returned⟩ := lifted returned
      exact last returned
  | reject =>
      rw [handleFrame, messageType] at returned
      obtain ⟨rejection, returned⟩ := lifted returned
      cases returned
      rfl

/-- **Another frame after the handshake** leaves a synchronization alone, and ends the task or not. -/
theorem deliver_rests {frame : Frame} (other : frame.messageType.synchronizes = false)
    (queues : session.course.QueuesTransactions) (reading : session.connection.task = .reading)
    (now : Time) (faults : List Transactions.Fault) :
    session.course.Rests (session.deliver frame now faults).course ∧
      session.connection.task.Keeps (session.deliver frame now faults).connection.task := by
  have noRequest : frame.messageType ≠ .getBlocks := by
    intro isRequest
    rw [isRequest] at other
    cases other
  rw [deliver, reading]
  dsimp only
  rcases receive_cases frame now faults session with ⟨e, after, raised, judged⟩ |
    ⟨passed, judged, same⟩
  · rw [raised]
    exact ⟨fail_rests (.of_eq queues judged) e now, .inl (task_fail e now after)⟩
  · have queues' : passed.course.QueuesTransactions := by
      rw [judged.course_eq]
      exact queues
    have rests : session.course.Rests (handleFrame frame now faults passed).2.course := by
      have handled := handleFrame_rests other queues' now faults
      rwa [judged.course_eq] at handled
    have answers := @handleFrame_answers _ passed frame noRequest now faults
    rw [same]
    generalize handleFrame frame now faults passed = outcome at rests answers ⊢
    obtain ⟨result, after⟩ := outcome
    cases result with
    | error e => exact ⟨fail_rests rests e now, .inl (task_fail e now after)⟩
    | ok answer =>
        cases answers answer rfl
        rw [course_resume_ok]
        refine ⟨rests.ending after.course.closed _, ?_⟩
        have next : (resume now (.ok none, after)).connection.task = after.nextTask none :=
          congrArg Course.task (course_resume_ok now none after)
        rw [next]
        by_cases closed : after.connection.closed = true
        · exact .inl (if_pos closed)
        · refine .inr ⟨by simp, ?_⟩
          rw [show after.nextTask none = .reading from if_neg closed]

/-- Another frame than a HELLO ends a handshake. -/
theorem deliver_uninvited {frame : Frame} (waiting : session.connection.task = .handshaking)
    (uninvited : frame.messageType ≠ .hello) (now : Time) (faults : List Transactions.Fault) :
    (session.deliver frame now faults).course = { session.course with closed := true, task := .ended } ∧
      (session.deliver frame now faults).connection.task = .ended := by
  have same : (session.deliver frame now faults).course =
      { session.course with closed := true, task := .ended } := by
    rw [deliver, waiting]
    dsimp only
    have handled := handshake_handled session frame
    generalize handshake frame session = outcome at handled ⊢
    cases handled with
    | refused => exact course_resume_error now _ session
    | light isHello => exact absurd isHello uninvited
    | heavy isHello => exact absurd isHello uninvited
  exact ⟨same, congrArg Course.task same⟩

/-- What was read is no frame of a synchronization. -/
theorem withWritten_rests (queues : session.course.QueuesTransactions) {frame : Frame}
    {rest : List Frame} (arrives : session.connection.written = frame :: rest)
    (other : frame.messageType.synchronizes = false) :
    session.course.Rests (session.withWritten rest).course := by
  rcases course_withWritten arrives with ⟨-, same⟩ | ⟨-, first, same⟩
  · exact .of_eq queues same
  · rw [same]
    refine ⟨rfl, rfl, rfl, rfl, ?_, queues, fun frame' member => .inl ?_⟩
    · rw [first, syncFrames_cons_other other]
    · rw [first]
      exact List.mem_cons_of_mem _ member

end Session

end OurCoin
