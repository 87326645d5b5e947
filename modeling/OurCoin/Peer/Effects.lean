import OurCoin.Model.Peer
import OurCoin.Node.Runs

/-!
# What the stretches of a task can do

The course of a session is what its stretches do apart from judging the peer: the node
that the connection works on, the state of its requests and pings, and the frames that it
sends, rejections left out. Scores, bans, the rate limiter and the registry of the node
are not part of it.

* Penalties, rejections and the rate limiter keep the course (`Judges`).
* `requestBlocks_cases` is everything that a request can do.
* `BlockHandled`, `SyncHandled` and `TransactionHandled` list what the handling of a frame
  can do, with one constructor for each of its ends, and `handleBlock_handled` and its
  siblings say that there are no others.
* `fail` and `resume` end or continue the task and keep the rest of the course.
-/

set_option autoImplicit false

namespace OurCoin

open Raising Stateful

/-- A session without what judges the peer. -/
structure Course where
  localNode : LocalNode
  nodeId : Bytes
  port : Int
  hello : Option Hello
  closed : Bool
  task : Task
  pendingPing : Option Int
  outstanding : Bool
  acceptedBlocks : Int
  startWork : Int
  pendingSends : List Frame
  written : List Frame

namespace Session

variable {session after : Session}

/-- The frames of a list that are not rejections. -/
def withoutRejects (frames : List Frame) : List Frame :=
  frames.filter fun frame => frame.messageType ≠ .reject

@[simp] theorem withoutRejects_append (first second : List Frame) :
    withoutRejects (first ++ second) = withoutRejects first ++ withoutRejects second :=
  List.filter_append _ _

/-- What a session remembers between two frames. -/
def course (session : Session) : Course where
  localNode := session.node.localNode
  nodeId := session.node.nodeId
  port := session.node.port
  hello := session.connection.hello
  closed := session.connection.closed
  task := session.connection.task
  pendingPing := session.connection.pendingPing
  outstanding := session.connection.blockRequestOutstanding
  acceptedBlocks := session.connection.acceptedBlocksInRequest
  startWork := session.connection.blockRequestStartWork
  pendingSends := session.connection.pendingSends
  written := withoutRejects session.connection.written

theorem onConnection_apply (f : PeerConnection → PeerConnection) (session : Session) :
    onConnection f session = (.ok (), { session with connection := f session.connection }) := rfl

/-! ## Writing frames -/

/-- The session after a frame was written. -/
def wrote (session : Session) (frame : Frame) : Session :=
  { session with connection := { session.connection with
    written := session.connection.written ++ [frame] } }

/-- A frame that is not a rejection is the last one of the course. -/
theorem course_wrote {frame : Frame} (notReject : frame.messageType ≠ .reject) :
    (session.wrote frame).course =
      { session.course with written := session.course.written ++ [frame] } := by
  simp [course, wrote, withoutRejects, notReject]

theorem send_of_closed (closed : session.connection.closed = true) (messageType : MessageType)
    (payload : Bytes) :
    send messageType payload session =
      (.error (peerDisconnectedError "peer connection is closed"), session) := by
  rw [send, bind_of_ok (read_apply _ _), if_pos closed, throw_apply]

/-- A payload within the limit is written. -/
theorem send_of_open (isOpen : session.connection.closed = false) {messageType : MessageType}
    {payload : Bytes} (short : payload.length ≤ maxFramePayload) :
    send messageType payload session = (.ok (), session.wrote ⟨messageType, payload⟩) := by
  have encoded : ∃ frame, encodeFrame messageType payload protocolVersion = .ok frame := by
    simp only [encodeFrame, bind_eq_ok, raiseIf_eq_ok, exists_const, pure_eq_ok]
    exact ⟨_, by omega, by decide, rfl⟩
  obtain ⟨frame, encoded⟩ := encoded
  rw [send, bind_of_ok (read_apply _ _), if_neg (by simp [isOpen]), bind_apply, lift_apply, encoded]
  rfl

/-- A frame is written whole, or the call raises and nothing is written. -/
theorem send_cases (messageType : MessageType) (payload : Bytes) (session : Session) :
    (∃ e, send messageType payload session = (.error e, session)) ∨
    (session.connection.closed = false ∧
      send messageType payload session = (.ok (), session.wrote ⟨messageType, payload⟩)) := by
  cases closed : session.connection.closed with
  | true => exact .inl ⟨_, send_of_closed closed _ _⟩
  | false =>
      rw [send, bind_of_ok (read_apply _ _), if_neg (by simp [closed]), bind_apply, lift_apply]
      cases encodeFrame messageType payload protocolVersion with
      | error e => exact .inl ⟨e, rfl⟩
      | ok frame => exact .inr ⟨rfl, rfl⟩

/-! ## Scores and rejections -/

/-- The peer was at most judged. -/
def Judges (before after : Session) : Prop := after.course = before.course

theorem Judges.refl (session : Session) : Judges session session := rfl

/-- A stretch that at most judges the peer. -/
def OnlyJudges {α : Type} (action : Action α) : Prop := Keeps Judges action

namespace OnlyJudges

variable {α β : Type}

theorem bind {action : Action α} {next : α → Action β} (first : OnlyJudges action)
    (rest : ∀ a, OnlyJudges (next a)) : OnlyJudges (action >>= next) :=
  Keeps.bind (fun _ _ _ one two => two.trans one) first rest

theorem pure (a : α) : OnlyJudges (Pure.pure a : Action α) := Keeps.pure Judges.refl a

theorem throw (e : Raised) : OnlyJudges (throw e : Action α) := Keeps.throw Judges.refl e

theorem lift (x : Except Raised α) : OnlyJudges (Stateful.lift x : Action α) :=
  Keeps.lift Judges.refl x

theorem read (f : Session → α) : OnlyJudges (Stateful.read f : Action α) :=
  Keeps.read Judges.refl f

theorem update {f : Session → Session} (kept : ∀ session, (f session).course = session.course) :
    OnlyJudges (Stateful.update f) :=
  kept

end OnlyJudges

theorem onlyJudges_penalize (points : Int) (now : Time) : OnlyJudges (penalize points now) := by
  apply OnlyJudges.bind
  · exact .update fun _ => rfl
  · intro _
    apply OnlyJudges.bind (.read _)
    rintro ⟨score, hostScore, threshold⟩
    dsimp only
    split
    · exact .throw _
    · exact .pure _

theorem onlyJudges_limitRate (size : Nat) (now : Time) : OnlyJudges (limitRate size now) := by
  apply OnlyJudges.bind (.read _)
  rintro ⟨allowed, rateLimiter⟩
  apply OnlyJudges.bind
  · exact .update fun _ => rfl
  · intro _
    split
    · exact .pure _
    · apply OnlyJudges.bind (.read _)
      intro threshold
      exact onlyJudges_penalize threshold now

section

variable [Platform]

theorem onlyJudges_reject (code : Int) (reason : String) : OnlyJudges (reject code reason) := by
  apply Keeps.suppress
  apply OnlyJudges.bind (.lift _)
  intro payload session
  rcases send_cases .reject payload session with ⟨e, raised⟩ | ⟨isOpen, written⟩
  · rw [raised]
    rfl
  · rw [written]
    simp [Judges, course, wrote, withoutRejects]

theorem onlyJudges_sendBlocks (locator : BlockLocator) (now : Time) :
    OnlyJudges (sendBlocks locator now) := by
  apply OnlyJudges.bind (.read _)
  intro chain
  apply OnlyJudges.bind (.lift _)
  intro found
  cases found with
  | some blocks => exact .pure _
  | none =>
      apply OnlyJudges.bind (onlyJudges_penalize 10 now)
      intro _
      apply OnlyJudges.bind (onlyJudges_reject _ _)
      intro _
      exact .pure _

/-! ## Requests -/

/-- The session after `_request_blocks` wrote its GET_BLOCKS. -/
def requested (session : Session) (payload : Bytes) : Session :=
  let work := session.node.localNode.chain.cumulativeWork
  let connection := session.connection.beginBlockRequest work
  { session with connection := { connection with
    written := connection.written ++ [⟨.getBlocks, payload⟩] } }

/-- **Everything `_request_blocks` can do**: nothing while a request is outstanding, raise
and leave no request behind, or write one. -/
theorem requestBlocks_cases (session : Session) :
    (session.connection.blockRequestOutstanding = true ∧
      requestBlocks session = (.ok false, session)) ∨
    (session.connection.blockRequestOutstanding = false ∧ ∃ e, requestBlocks session =
      (.error e, { session with connection := session.connection.cancelBlockRequest })) ∨
    (session.connection.blockRequestOutstanding = false ∧ session.connection.closed = false ∧
      ∃ locator payload, blockLocator session.node.localNode.chain = .ok locator ∧
        locator.toBytes = .ok payload ∧
        requestBlocks session = (.ok true, session.requested payload)) := by
  cases outstanding : session.connection.blockRequestOutstanding with
  | true =>
      left
      refine ⟨rfl, ?_⟩
      rw [requestBlocks, bind_of_ok (read_apply _ _), if_pos outstanding, pure_apply]
  | false =>
      right
      rw [requestBlocks, bind_of_ok (read_apply _ _), if_neg (by simp [outstanding]),
        bind_of_ok (update_apply _ _), bind_apply, onError, bind_of_ok (read_apply _ _), bind_apply,
        lift_apply]
      cases located : blockLocator session.node.localNode.chain with
      | error e => exact .inl ⟨rfl, e, rfl⟩
      | ok locator =>
          rw [ok_bind]
          cases encoded : locator.toBytes with
          | error e => exact .inl ⟨rfl, e, rfl⟩
          | ok payload =>
              dsimp only
              rcases send_cases .getBlocks payload ⟨session.node, session.connection.beginBlockRequest
                session.node.localNode.chain.cumulativeWork⟩ with ⟨e, raised⟩ | ⟨isOpen, written⟩
              · rw [raised]
                exact .inl ⟨rfl, e, rfl⟩
              · rw [written]
                exact .inr ⟨rfl, isOpen, locator, payload, rfl, encoded, rfl⟩

/-! ## Blocks -/

/-- What the handling of a block can do. -/
inductive BlockHandled (session : Session) (block : Block) (faults : List Transactions.Fault) :
    Except Raised Unit × Session → Prop
  | unhashed {e : Raised} : block.blockHash = .error e →
      BlockHandled session block faults (.error e, session)
  | known {hash : Bytes} : block.blockHash = .ok hash →
      session.node.localNode.chain.contains hash = true →
      BlockHandled session block faults (.ok (), session)
  | failed {e : Raised} : (session.node.localNode.submitBlock block faults).1 = .error e →
      e.cls ≠ .chainError → BlockHandled session block faults (.error e, session)
  | orphaned {hash : Bytes} {e : Raised} {result : Except Raised Bool} {after : Session} :
      block.blockHash = .ok hash → session.node.localNode.chain.contains hash = false →
      (session.node.localNode.submitBlock block faults).1 = .error e → e.cls = .chainError →
      e.mentions "parent is unknown" → requestBlocks session = (result, after) →
      BlockHandled session block faults (result.map fun _ => (), after)
  | refused {hash : Bytes} {e : Raised} {result : Except Raised Unit} {after : Session} :
      block.blockHash = .ok hash → session.node.localNode.chain.contains hash = false →
      (session.node.localNode.submitBlock block faults).1 = .error e → e.cls = .chainError →
      ¬ e.mentions "parent is unknown" → Judges session after →
      BlockHandled session block faults (result, after)
  | accepted {hash : Bytes} {update : ChainUpdate} {localNode : LocalNode}
      {result : Except Raised Unit} {after : Session} :
      block.blockHash = .ok hash → session.node.localNode.chain.contains hash = false →
      session.node.localNode.submitBlock block faults = (.ok update, localNode) →
      after.course = { session.course with
        localNode
        acceptedBlocks :=
          if session.course.outstanding = true then session.course.acceptedBlocks + 1
          else session.course.acceptedBlocks } →
      BlockHandled session block faults (result, after)

omit [Platform] in
theorem noteAcceptedBlock_eq (connection : PeerConnection) :
    connection.noteAcceptedBlock = { connection with acceptedBlocksInRequest :=
      if connection.blockRequestOutstanding = true then connection.acceptedBlocksInRequest + 1
      else connection.acceptedBlocksInRequest } := by
  rw [PeerConnection.noteAcceptedBlock]
  split
  · rfl
  · rfl

/-- **Handling a block does nothing else.** -/
theorem handleBlock_handled (inv : session.node.localNode.Invariant) (block : Block) (now : Time)
    (faults : List Transactions.Fault) :
    BlockHandled session block faults (handleBlock block now faults session) := by
  rw [handleBlock, bind_apply, lift_apply]
  cases hashed : block.blockHash with
  | error e => exact .unhashed hashed
  | ok hash =>
      dsimp only
      rw [bind_of_ok (read_apply _ _)]
      cases known : session.node.localNode.chain.contains hash with
      | true =>
          rw [if_pos rfl, pure_apply]
          exact .known hashed known
      | false =>
          rw [if_neg (by simp), trying, submitBlock]
          cases outcome : session.node.localNode.submitBlock block faults with
          | mk result localNode =>
              cases result with
              | error e =>
                  -- A submission that raises changes nothing.
                  have same := inv.submitBlock_error (congrArg Prod.fst outcome)
                  rw [outcome] at same
                  dsimp only at same ⊢
                  subst same
                  have refusal := congrArg Prod.fst outcome
                  dsimp only at refusal
                  by_cases chainError : e.cls = .chainError
                  · rw [if_pos (by simp [chainError]), refusedBlock]
                    by_cases orphan : e.mentions "parent is unknown"
                    · rw [if_pos orphan, bind_apply]
                      cases request : requestBlocks session with
                      | mk result after =>
                          have handled : BlockHandled session block faults
                              (result.map fun _ => (), after) :=
                            .orphaned hashed known refusal chainError orphan request
                          cases result with
                          | error e' => exact handled
                          | ok sent => exact handled
                    · rw [if_neg orphan]
                      have judged : OnlyJudges (if e.mentions "already known" then return ()
                          else do
                            penalize 20 now
                            reject 30 "invalid block" : Action Unit) := by
                        split
                        · exact .pure _
                        · exact .bind (onlyJudges_penalize 20 now) fun _ => onlyJudges_reject _ _
                      exact .refused hashed known refusal chainError orphan (judged session)
                  · rw [if_neg (by simp [chainError])]
                    exact .failed refusal chainError
              | ok update =>
                  dsimp only
                  rw [bind_of_ok (onConnection_apply _ _), bind_apply, lift_apply, noteAcceptedBlock_eq]
                  cases encodeBlock block with
                  | error e => exact .accepted hashed known outcome rfl
                  | ok payload => exact .accepted hashed known outcome rfl

/-! ## Summaries -/

/-- The session after a summary was noted and the request of the connection was finished. -/
def synced (session : Session) (summary : ChainSummary) (hello : Hello) : Session :=
  let outstanding := session.connection.blockRequestOutstanding
  { session with connection := { session.connection with
    hello := some { hello with
      tipHash := summary.tipHash
      height := summary.height
      cumulativeWork := summary.cumulativeWork }
    blockRequestOutstanding := false
    acceptedBlocksInRequest :=
      if outstanding = true then 0 else session.connection.acceptedBlocksInRequest
    blockRequestStartWork :=
      if outstanding = true then 0 else session.connection.blockRequestStartWork } }

/-- What the handling of a summary can do. -/
inductive SyncHandled (session : Session) (summary : ChainSummary) :
    Except Raised Unit × Session → Prop
  /-- The summary was refused before it took effect. -/
  | refused {e : Raised} : checkSummary session.node.localNode.chain summary = .error e ∨
      session.connection.hello = none ∨
      (∃ hello, session.connection.hello = some hello ∧
        summary.cumulativeWork < hello.cumulativeWork) →
      SyncHandled session summary (.error e, session)
  /-- It claims no more work than there is. -/
  | light {hello : Hello} : session.connection.hello = some hello →
      hello.cumulativeWork ≤ summary.cumulativeWork →
      summary.cumulativeWork ≤ session.node.localNode.chain.cumulativeWork →
      SyncHandled session summary (.ok (), session.synced summary hello)
  /-- It claims more work after a request without progress, which ends the connection. -/
  | stuck {hello : Hello} {e : Raised} {after : Session} : session.connection.hello = some hello →
      hello.cumulativeWork ≤ summary.cumulativeWork →
      session.node.localNode.chain.cumulativeWork < summary.cumulativeWork →
      madeNoProgress session.node.localNode.chain.cumulativeWork
        session.connection.requestProgress →
      Judges (session.synced summary hello) after →
      SyncHandled session summary (.error e, after)
  /-- It claims more work, and the next request follows. -/
  | heavy {hello : Hello} {result : Except Raised Bool} {after : Session} :
      session.connection.hello = some hello → hello.cumulativeWork ≤ summary.cumulativeWork →
      session.node.localNode.chain.cumulativeWork < summary.cumulativeWork →
      ¬ madeNoProgress session.node.localNode.chain.cumulativeWork
        session.connection.requestProgress →
      requestBlocks (session.synced summary hello) = (result, after) →
      SyncHandled session summary (result.map fun _ => (), after)

omit [Platform] in
theorem finishBlockRequest_eq (connection : PeerConnection) :
    connection.finishBlockRequest = { connection with
      blockRequestOutstanding := false
      acceptedBlocksInRequest :=
        if connection.blockRequestOutstanding = true then 0 else connection.acceptedBlocksInRequest
      blockRequestStartWork :=
        if connection.blockRequestOutstanding = true then 0 else connection.blockRequestStartWork } := by
  rw [PeerConnection.finishBlockRequest]
  cases connection
  split
  · rfl
  · rename_i idle
    simpa using idle

/-- A request without progress is judged, and ends the task. -/
theorem onlyJudges_stuckRequest (now : Time) : OnlyJudges (stuckRequest now) := by
  apply OnlyJudges.bind (onlyJudges_penalize 20 now)
  intro _
  apply OnlyJudges.bind (onlyJudges_reject _ _)
  intro _
  exact .throw _

theorem stuckRequest_raises (now : Time) (session : Session) :
    ∃ e, (stuckRequest now session).1 = .error e := by
  apply exists_error_bind
  intro _
  apply exists_error_bind
  intro _ session
  exact ⟨_, rfl⟩

/-- A summary that contradicts no known block and takes nothing back takes effect. -/
theorem handleSyncComplete_eq {summary : ChainSummary} {hello : Hello}
    (checked : checkSummary session.node.localNode.chain summary = .ok ())
    (greeted : session.connection.hello = some hello)
    (forward : hello.cumulativeWork ≤ summary.cumulativeWork) (now : Time) :
    handleSyncComplete summary now session =
      (if summary.cumulativeWork ≤ session.node.localNode.chain.cumulativeWork then return ()
      else if madeNoProgress session.node.localNode.chain.cumulativeWork
          session.connection.requestProgress then stuckRequest now
      else do
        let _ ← requestBlocks
        return () : Action Unit) (session.synced summary hello) := by
  rw [handleSyncComplete, bind_of_ok (read_apply _ _), bind_apply, lift_apply, checked]
  dsimp only
  rw [bind_apply, updateAdvertisedSummary, bind_of_ok (read_apply _ _), greeted]
  dsimp only
  rw [if_neg (not_lt.mpr forward), onConnection_apply]
  dsimp only
  rw [bind_apply, finishBlockRequest, bind_of_ok (read_apply _ _),
    bind_of_ok (onConnection_apply _ _), pure_apply, finishBlockRequest_eq]
  rfl

/-- **Handling a summary does nothing else.** -/
theorem handleSyncComplete_handled (session : Session) (summary : ChainSummary) (now : Time) :
    SyncHandled session summary (handleSyncComplete summary now session) := by
  cases checked : checkSummary session.node.localNode.chain summary with
  | error e =>
      rw [handleSyncComplete, bind_of_ok (read_apply _ _), bind_apply, lift_apply, checked]
      exact .refused (.inl checked)
  | ok u =>
      cases greeted : session.connection.hello with
      | none =>
          rw [handleSyncComplete, bind_of_ok (read_apply _ _), bind_apply, lift_apply, checked]
          dsimp only
          rw [bind_apply, updateAdvertisedSummary, bind_of_ok (read_apply _ _), greeted]
          exact .refused (.inr (.inl greeted))
      | some hello =>
          by_cases backwards : summary.cumulativeWork < hello.cumulativeWork
          · rw [handleSyncComplete, bind_of_ok (read_apply _ _), bind_apply, lift_apply, checked]
            dsimp only
            rw [bind_apply, updateAdvertisedSummary, bind_of_ok (read_apply _ _), greeted]
            dsimp only
            rw [if_pos backwards]
            exact .refused (.inr (.inr ⟨hello, greeted, backwards⟩))
          · rw [handleSyncComplete_eq checked greeted (not_lt.mp backwards)]
            by_cases light : summary.cumulativeWork ≤ session.node.localNode.chain.cumulativeWork
            · rw [if_pos light]
              exact .light greeted (not_lt.mp backwards) light
            · rw [if_neg light]
              by_cases stuck : madeNoProgress session.node.localNode.chain.cumulativeWork
                session.connection.requestProgress
              · rw [if_pos stuck]
                have judged := onlyJudges_stuckRequest now (session.synced summary hello)
                obtain ⟨e, raised⟩ := stuckRequest_raises now (session.synced summary hello)
                generalize stuckRequest now (session.synced summary hello) = outcome at judged raised ⊢
                obtain ⟨result, after⟩ := outcome
                dsimp only at raised
                subst raised
                exact .stuck greeted (not_lt.mp backwards) (not_le.mp light) stuck judged
              · rw [if_neg stuck, bind_apply]
                cases request : requestBlocks (session.synced summary hello) with
                | mk result after =>
                    have handled : SyncHandled session summary (result.map fun _ => (), after) :=
                      .heavy greeted (not_lt.mp backwards) (not_le.mp light) stuck request
                    cases result with
                    | error e => exact handled
                    | ok sent => exact handled

/-! ## Transactions -/

/-- What the handling of a transaction can do. -/
inductive TransactionHandled (session : Session) (tx : Transaction) :
    Except Raised Unit × Session → Prop
  | judged {result : Except Raised Unit} {after : Session} : Judges session after →
      TransactionHandled session tx (result, after)
  | accepted {txid : Bytes} {localNode : LocalNode} {result : Except Raised Unit} {after : Session} :
      session.node.localNode.submitTransaction tx = (.ok txid, localNode) →
      after.course = { session.course with localNode } →
      TransactionHandled session tx (result, after)

/-- A transaction that is refused changes nothing. -/
theorem submitTransaction_error {node after : LocalNode} {tx : Transaction} {e : Raised}
    (refused : node.submitTransaction tx = (.error e, after)) : after = node := by
  rw [LocalNode.submitTransaction] at refused
  split at refused
  · cases refused
    rfl
  · cases refused

theorem onlyJudges_refusedTransaction (now : Time) (e : Raised) :
    OnlyJudges (refusedTransaction now e) := by
  rw [refusedTransaction]
  split
  · exact .pure _
  · exact .bind (onlyJudges_penalize 10 now) fun _ => onlyJudges_reject _ _

/-- **Handling a transaction does nothing else.** -/
theorem handleTransaction_handled (session : Session) (tx : Transaction) (now : Time) :
    TransactionHandled session tx (handleTransaction tx now session) := by
  rw [handleTransaction, bind_apply, lift_apply]
  cases hashed : tx.txid with
  | error e => exact .judged rfl
  | ok txid =>
      dsimp only
      rw [bind_of_ok (read_apply _ _)]
      split
      · exact .judged rfl
      · rw [bind_of_ok (read_apply _ _), bind_apply, lift_apply]
        cases session.node.localNode.chain.state with
        | error e => exact .judged rfl
        | ok state =>
            dsimp only
            split
            · exact .judged rfl
            · rw [trying, submitTransaction]
              cases outcome : session.node.localNode.submitTransaction tx with
              | mk result localNode =>
                  cases result with
                  | error e =>
                      have same := submitTransaction_error outcome
                      subst same
                      dsimp only
                      split
                      · exact .judged (onlyJudges_refusedTransaction now e session)
                      · exact .judged rfl
                  | ok id =>
                      dsimp only
                      rw [bind_apply, lift_apply]
                      cases tx.toBytes with
                      | error e => exact .accepted outcome rfl
                      | ok payload => exact .accepted outcome rfl

/-! ## How the task goes on -/

omit [Platform] in
theorem course_setTask (session : Session) (task : Task) :
    (session.setTask task).course = { session.course with task } := rfl

omit [Platform] in
theorem course_close (session : Session) :
    session.close.course = { session.course with closed := true } := by
  rw [close]
  split
  · rename_i closed
    simp only [course, closed]
  · rfl

omit [Platform] in
/-- A session that failed is closed, and its task is over. -/
theorem course_fail (e : Raised) (now : Time) (session : Session) :
    (session.fail e now).course = { session.course with closed := true, task := .ended } := by
  have ended : ∀ judged : Session, judged.course = session.course →
      (judged.close.setTask .ended).course =
        { session.course with closed := true, task := .ended } := by
    intro judged same
    rw [course_setTask, course_close, same]
  rw [fail]
  cases session.pointsFor e.cls with
  | none => exact ended session rfl
  | some points => exact ended (penalized points now session) rfl

/-- The task of a session that goes on. -/
def nextTask (session : Session) : Option (List Block) → Task
  | some blocks => .answering blocks
  | none => if session.connection.closed = true then .ended else .reading

omit [Platform] in
/-- A stretch that returned leaves the task where it goes on. -/
theorem course_resume_ok (now : Time) (answer : Option (List Block)) (session : Session) :
    (resume now (.ok answer, session)).course =
      { session.course with task := session.nextTask answer } := by
  cases answer with
  | some blocks => rfl
  | none => rfl

omit [Platform] in
theorem course_resume_error (now : Time) (e : Raised) (session : Session) :
    (resume now (.error e, session)).course =
      { session.course with closed := true, task := .ended } :=
  course_fail e now session

omit [Platform] in
/-- Whatever a stretch ends with, only the task and the closing flag depend on it. -/
theorem course_resume (now : Time) (outcome : Except Raised (Option (List Block)) × Session) :
    ∃ closed task, (resume now outcome).course = { outcome.2.course with closed, task } ∧
      ((∃ answer, outcome.1 = .ok answer ∧ closed = outcome.2.connection.closed ∧
          task = outcome.2.nextTask answer) ∨
        ∃ e, outcome.1 = .error e ∧ closed = true ∧ task = .ended) := by
  obtain ⟨result, session⟩ := outcome
  cases result with
  | ok answer => exact ⟨_, _, course_resume_ok now answer session, .inl ⟨answer, rfl, rfl, rfl⟩⟩
  | error e => exact ⟨_, _, course_resume_error now e session, .inr ⟨e, rfl, rfl, rfl⟩⟩

/-! ## Handling one frame -/

/-- A stretch relates the courses before and after it, also when it raises. -/
def Relates {α : Type} (R : Course → Course → Prop) (action : Action α) : Prop :=
  Keeps (fun before after => R before.course after.course) action

omit [Platform] in
theorem OnlyJudges.relates {α : Type} {R : Course → Course → Prop} (refl : ∀ course, R course course)
    {action : Action α} (judged : OnlyJudges action) : Relates R action := by
  intro session
  rw [judged session]
  exact refl _

omit [Platform] in
/-- A stretch after one that only judges. -/
theorem OnlyJudges.bind_relates {α β : Type} {R : Course → Course → Prop}
    (refl : ∀ course, R course course) {action : Action α} {next : α → Action β}
    (judged : OnlyJudges action) (rest : ∀ a, Relates R (next a)) : Relates R (action >>= next) := by
  intro session
  have kept := judged session
  rw [bind_apply]
  cases outcome : action session with
  | mk result after =>
      rw [outcome] at kept
      have same : after.course = session.course := kept
      cases result with
      | ok a =>
          have related : R after.course (next a after).2.course := rest a after
          rw [same] at related
          exact related
      | error e =>
          have related : R session.course after.course := by
            rw [same]
            exact refl _
          exact related

omit [Platform] in
/-- What is returned in the end does not matter. -/
theorem Relates.bind_pure {α β : Type} {R : Course → Course → Prop} {action : Action α}
    (related : Relates R action) (b : β) : Relates R (action >>= fun _ => Pure.pure b) := by
  intro session
  have kept := related session
  rw [bind_apply]
  cases outcome : action session with
  | mk result after =>
      rw [outcome] at kept
      cases result with
      | ok a => exact kept
      | error e => exact kept

/-- **The rule for one frame**: what the handlers of blocks, summaries and transactions, the
answers to pings and the handling of pongs relate, the handling of any frame relates. -/
theorem relates_handleFrame {R : Course → Course → Prop} (refl : ∀ course, R course course)
    (frame : Frame) (now : Time) (faults : List Transactions.Fault)
    (block : frame.messageType = .block → ∀ block, Relates R (handleBlock block now faults))
    (summary : frame.messageType = .syncComplete →
      ∀ summary, Relates R (handleSyncComplete summary now))
    (transaction : frame.messageType = .transaction → ∀ tx, Relates R (handleTransaction tx now))
    (ping : ∀ payload, Relates R (send .pong payload)) (pong : ∀ nonce, Relates R (handlePong nonce)) :
    Relates R (handleFrame frame now faults) := by
  have quiet : ∀ {α : Type} {action : Action α}, OnlyJudges action → Relates R action :=
    fun judged => judged.relates refl
  rw [handleFrame]
  split
  · exact quiet (.throw _)
  · apply quiet
    apply OnlyJudges.bind (.lift _)
    intro locator
    exact onlyJudges_sendBlocks locator now
  · rename_i isBlock
    apply OnlyJudges.bind_relates refl (.lift _)
    intro decoded
    exact (block isBlock decoded).bind_pure _
  · rename_i isTransaction
    apply OnlyJudges.bind_relates refl (.lift _)
    intro tx
    exact (transaction isTransaction tx).bind_pure _
  · rename_i isSummary
    apply OnlyJudges.bind_relates refl (.lift _)
    intro decoded
    exact (summary isSummary decoded).bind_pure _
  · apply OnlyJudges.bind_relates refl (.lift _)
    intro nonce
    apply OnlyJudges.bind_relates refl (.lift _)
    intro payload
    exact (ping payload).bind_pure _
  · apply OnlyJudges.bind_relates refl (.lift _)
    intro nonce
    exact (pong nonce).bind_pure _
  · apply quiet
    apply OnlyJudges.bind (.lift _)
    intro _
    exact .pure _

end

end Session

end OurCoin
