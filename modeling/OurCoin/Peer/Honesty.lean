import OurCoin.Peer.Conversation

/-!
# Honest traffic is not judged

What an honest peer sends about its chain adds no points to its score, whatever else happens at
both nodes.

* `Harmless` stretches add no points, and what they raise is not held against the peer.
* `Conversation.Reachable.never_judged`: handling a BLOCK, a GET_BLOCKS, a SYNC_COMPLETE, a PING
  or a PONG is harmless, as long as the rate limiter lets it pass. A SYNC_COMPLETE that claims
  more work after a request without progress is the exception (`Session.Stuck`).
* `Conversation.Reachable.respects`: and whatever progress a request made, a SYNC_COMPLETE is not
  refused for what it claims.
* `Conversation.Reachable.first_frame`: the first frame is a HELLO of the same network, and no
  other one follows.
-/

set_option autoImplicit false

namespace OurCoin

open Raising Stateful

namespace Session

variable {session after : Session}

/-! ## Harmless stretches -/

/-- No points are added, and what is raised is not held against the peer. -/
structure Harmless {α : Type} (session : Session) (outcome : Except Raised α × Session) : Prop where
  scored : Scored 0 session outcome.2
  spares : ∀ e, outcome.1 = .error e → Spares e

theorem Harmless.of_ok {α : Type} {a : α} (scored : Scored 0 session after) :
    session.Harmless ((.ok a, after) : Except Raised α × Session) :=
  ⟨scored, fun _ raised => by cases raised⟩

theorem Harmless.of_error {α : Type} {e : Raised} (spares : Spares e) :
    session.Harmless ((.error e, session) : Except Raised α × Session) :=
  ⟨.refl session, fun _ raised => by cases raised; exact spares⟩

theorem Harmless.map {α β : Type} {f : α → β} {outcome : Except Raised α × Session}
    (harmless : session.Harmless outcome) : session.Harmless (outcome.1.map f, outcome.2) :=
  ⟨harmless.scored, fun e raised => harmless.spares e (map_eq_error.mp raised)⟩

/-- After a part that adds no points. -/
theorem Harmless.following {α : Type} {outcome : Except Raised α × Session}
    (scored : Scored 0 session after) (harmless : after.Harmless outcome) : session.Harmless outcome :=
  ⟨Scored.trans_zero _ _ _ scored harmless.scored, harmless.spares⟩

theorem pointsFor_of_spares {e : Raised} (spares : Spares e) (session : Session) :
    session.pointsFor e.cls = none := by
  rw [pointsFor]
  rw [Spares] at spares
  cases cls : e.cls <;> rw [cls] at spares <;> first | rfl | cases spares

/-- A task that ends for such an exception, or goes on, adds no points. -/
theorem Harmless.resume {outcome : Except Raised (Option (List Block)) × Session}
    (harmless : session.Harmless outcome) (now : Time) :
    Scored 0 session (Session.resume now outcome) := by
  obtain ⟨scored, spares⟩ := harmless
  obtain ⟨result, after⟩ := outcome
  cases result with
  | error e =>
      rw [Session.resume, fail, pointsFor_of_spares (spares e rfl)]
      exact Scored.trans_zero _ _ _ scored
        (Scored.trans_zero _ _ _ (scored_close after) (scored_setTask _ _))
  | ok answer =>
      cases answer with
      | some blocks => exact Scored.trans_zero _ _ _ scored (scored_setTask after _)
      | none => exact Scored.trans_zero _ _ _ scored (scored_setTask after _)

variable [Platform]

/-- A request adds no points. -/
theorem harmless_requestBlocks (inv : session.node.localNode.Invariant) :
    session.Harmless (requestBlocks session) := by
  have quiet : ∀ connection : PeerConnection, connection.score = session.connection.score →
      connection.host = session.connection.host → Scored 0 session { session with connection } :=
    fun connection sameScore sameHost => ⟨by simp [sameScore], sameHost, fun host => by simp⟩
  cases isOpen : session.connection.closed with
  | false =>
      obtain ⟨sent, after, requested, same | ⟨locator, same⟩⟩ := requestBlocks_succeeds inv isOpen
      · rw [requested, same]
        exact .of_ok (.refl session)
      · rw [requested, same]
        exact .of_ok (quiet _ rfl rfl)
  | true =>
      rcases requestBlocks_cases session with ⟨-, outcome⟩ | ⟨idle, e, outcome⟩ |
        ⟨-, stillOpen, -⟩
      · rw [outcome]
        exact .of_ok (.refl session)
      · have refines := inv.chain_reachable.refines
        obtain ⟨path, branch, ends⟩ :=
          refines.exists_branch session.node.localNode.chain.tipEntry_stored
        obtain ⟨hashes, positions, located, ⟨descends, few, -⟩, rooted⟩ := refines.blockLocator_ok ends
        obtain ⟨payload, encoded⟩ := BlockLocator.exists_toBytes (List.ne_nil_of_mem rooted) few
          fun hash member => refines.length_of_mem ends.lineage (descends.mem_of_mem member)
        have closed : (session.connection.beginBlockRequest
            session.node.localNode.chain.cumulativeWork).closed = true := isOpen
        have raised := @send_of_closed ⟨session.node, session.connection.beginBlockRequest
          session.node.localNode.chain.cumulativeWork⟩ closed .getBlocks payload
        have run := outcome
        rw [requestBlocks, bind_of_ok (read_apply _ _), if_neg (by simp [idle]),
          bind_of_ok (update_apply _ _), bind_apply, onError, bind_of_ok (read_apply _ _), bind_apply,
          lift_apply, located, ok_bind, encoded] at run
        dsimp only at run
        rw [raised] at run
        rw [outcome]
        cases run
        refine ⟨quiet _ rfl rfl, fun e same => ?_⟩
        cases same
        rfl
      · rw [isOpen] at stillOpen
        cases stillOpen

/-! ## Handling what an honest peer sends -/

variable {other : Chain}

/-- **A block of another honest node** is known, accepted, or an orphan. -/
theorem harmless_handleBlock (inv : session.node.localNode.Invariant) (refines : other.Refines)
    (apart : ¬ session.node.localNode.chain.Collide other) {hash : Bytes} {entry : ChainEntry}
    (stored : other.entries.get? hash = some entry) (now : Time)
    (faults : List Transactions.Fault) :
    session.Harmless (handleBlock entry.block now faults session) := by
  rw [handleBlock, bind_apply, lift_apply, refines.blockHash_ok stored]
  dsimp only
  rw [bind_of_ok (read_apply _ _)]
  cases known : session.node.localNode.chain.contains hash with
  | true =>
      rw [if_pos rfl, pure_apply]
      exact .of_ok (.refl session)
  | false =>
      rw [if_neg (by simp), trying, submitBlock]
      cases outcome : session.node.localNode.submitBlock entry.block faults with
      | mk result localNode =>
          cases result with
          | error e =>
              have refused := congrArg Prod.fst outcome
              have same := inv.submitBlock_error refused
              rw [outcome] at same
              dsimp only at same refused ⊢
              subst same
              rcases inv.submitBlock_shared refines apart stored known refused with rfl | spares
              · rw [if_pos (by rfl), refusedBlock, if_pos (by decide), bind_apply]
                have harmless := harmless_requestBlocks inv
                cases request : requestBlocks session with
                | mk result after =>
                    rw [request] at harmless
                    cases result with
                    | error e => exact harmless.map (f := fun _ => ())
                    | ok sent => exact harmless.map (f := fun _ => ())
              · have uncaught : (e.cls == .chainError) = false := by
                  rw [Spares] at spares
                  cases cls : e.cls <;> rw [cls] at spares <;> first | rfl | cases spares
                rw [uncaught, if_neg (by simp)]
                exact .of_error spares
          | ok update =>
              obtain ⟨_, payload, -, -, -, -, -, -, encoded, -⟩ := inv.accepted outcome
              dsimp only
              rw [bind_of_ok (onConnection_apply _ _), bind_apply, lift_apply, encoded]
              refine .of_ok ⟨?_, ?_, fun host => by simp [P2PNode.broadcast]⟩
              · rw [noteAcceptedBlock_eq]
                exact (add_zero _).symm
              · rw [noteAcceptedBlock_eq]

/-- The summary claims more work after a request that made no progress. -/
def Stuck (session : Session) (summary : ChainSummary) : Prop :=
  session.node.localNode.chain.cumulativeWork < summary.cumulativeWork ∧
    madeNoProgress session.node.localNode.chain.cumulativeWork session.connection.requestProgress

/-- **A summary of another honest node** contradicts no known block. -/
theorem checkSummary_of_stored (inv : session.node.localNode.Invariant) (refines : other.Refines)
    (apart : ¬ session.node.localNode.chain.Collide other) {summary : ChainSummary}
    {entry : ChainEntry} (stored : other.entries.get? summary.tipHash = some entry)
    (height : entry.record.height = summary.height)
    (work : entry.record.cumulativeWork = summary.cumulativeWork) :
    checkSummary session.node.localNode.chain summary = .ok () := by
  rw [checkSummary]
  split
  · rename_i known
    obtain ⟨entry', stored'⟩ := Chain.contains_eq_true.mp known
    have same := inv.chain_reachable.refines.entry_eq_of_shared refines apart stored' stored
    subst same
    rw [Chain.Refines.getRecord_eq_ok stored', ok_bind]
    exact raiseIf_eq_ok.mpr (by simp [height, work])
  · rfl

/-- **A summary of another honest node** is not refused. -/
theorem harmless_handleSyncComplete (inv : session.node.localNode.Invariant)
    (refines : other.Refines) (apart : ¬ session.node.localNode.chain.Collide other)
    {summary : ChainSummary} {entry : ChainEntry}
    (stored : other.entries.get? summary.tipHash = some entry)
    (height : entry.record.height = summary.height)
    (work : entry.record.cumulativeWork = summary.cumulativeWork) {hello : Hello}
    (met : session.connection.hello = some hello) (forward : hello.cumulativeWork ≤ summary.cumulativeWork)
    (progress : ¬ session.Stuck summary) (now : Time) :
    session.Harmless (handleSyncComplete summary now session) := by
  have handled := handleSyncComplete_handled session summary now
  generalize handleSyncComplete summary now session = outcome at handled ⊢
  have synced : ∀ hello, Scored 0 session (session.synced summary hello) :=
    fun hello => ⟨(add_zero _).symm, rfl, fun host => by simp [Session.synced]⟩
  cases handled with
  | refused reason =>
      exfalso
      rcases reason with contradicts | unmet | ⟨hello', met', backwards⟩
      · rw [checkSummary_of_stored inv refines apart stored height work] at contradicts
        cases contradicts
      · rw [met] at unmet
        cases unmet
      · rw [met] at met'
        cases met'
        omega
  | light _ _ _ => exact .of_ok (synced _)
  | stuck _ _ heavier noProgress _ => exact absurd ⟨heavier, noProgress⟩ progress
  | @heavy hello' result after _ _ _ _ request =>
      have harmless := @harmless_requestBlocks (session.synced summary hello') _ inv
      rw [request] at harmless
      exact .following (synced hello') (harmless.map (f := fun _ => ()))

/-- The payload of the REJECT after a request without progress. -/
def noProgressPayload : Bytes :=
  (0 :: 0 :: 0 :: 0x15 :: rejectDomain) ++ [0, 32] ++
    (0 :: 0 :: 0 :: 0x26 :: (text "block synchronization made no progress").map UInt8.ofNat)

theorem toBytes_noProgress :
    Reject.toBytes ⟨32, (text "block synchronization made no progress").take 256⟩ =
      .ok noProgressPayload := by
  rw [Reject.toBytes, encodeText_ascii (by decide)]
  rfl

/-- A request without progress ends with one of two exceptions. -/
theorem stuckRequest_error {now : Time} {e : Raised} (raised : (stuckRequest now session).1 = .error e) :
    e = thresholdReached ∨ e = peerDisconnectedError "peer claimed higher work without progress" := by
  rw [stuckRequest] at raised
  by_cases reaches : session.Reaches 20
  · have stops : penalize 20 now session = (.error thresholdReached, penalized 20 now session) := by
      rw [penalize_eq, if_pos reaches]
    rw [bind_of_error stops] at raised
    exact .inl (Except.error.inj raised).symm
  · have goesOn : penalize 20 now session = (.ok (), penalized 20 now session) := by
      rw [penalize_eq, if_neg reaches]
    have sent := reject_eq_ok toBytes_noProgress (by decide) (penalized 20 now session)
    rw [bind_of_ok goesOn, bind_apply] at raised
    generalize reject 32 "block synchronization made no progress" (penalized 20 now session) =
      outcome at sent raised
    obtain ⟨result, after⟩ := outcome
    dsimp only at sent
    subst sent
    exact .inr (Except.error.inj raised).symm

/-- **A summary of another honest node** is never refused for what it claims, whether the request
made progress or not. -/
theorem handleSyncComplete_accepts (inv : session.node.localNode.Invariant)
    (refines : other.Refines) (apart : ¬ session.node.localNode.chain.Collide other)
    {summary : ChainSummary} {entry : ChainEntry}
    (stored : other.entries.get? summary.tipHash = some entry)
    (height : entry.record.height = summary.height)
    (work : entry.record.cumulativeWork = summary.cumulativeWork) {hello : Hello}
    (met : session.connection.hello = some hello) (forward : hello.cumulativeWork ≤ summary.cumulativeWork)
    {now : Time} {e : Raised} (raised : (handleSyncComplete summary now session).1 = .error e) :
    e = thresholdReached ∨
      e = peerDisconnectedError "peer claimed higher work without progress" ∨ Spares e := by
  rw [handleSyncComplete_eq (checkSummary_of_stored inv refines apart stored height work) met forward]
    at raised
  split at raised
  · cases raised
  · split at raised
    · rcases stuckRequest_error raised with reached | claimed
      · exact .inl reached
      · exact .inr (.inl claimed)
    · have harmless := @harmless_requestBlocks (session.synced summary hello) _ inv
      right; right
      apply harmless.spares
      rw [bind_apply] at raised
      generalize requestBlocks (session.synced summary hello) = outcome at raised ⊢
      obtain ⟨result, after⟩ := outcome
      cases result with
      | error e' =>
          cases raised
          rfl
      | ok sent => cases raised

omit [Platform] in
/-- A frame is sent, unless the connection is closed. -/
theorem harmless_send {messageType : MessageType} {payload : Bytes}
    (short : payload.length ≤ maxFramePayload) {α : Type} (a : α) :
    session.Harmless ((do send messageType payload; return a : Action α) session) := by
  cases closed : session.connection.closed with
  | true =>
      rw [bind_of_error (send_of_closed closed _ _)]
      exact .of_error rfl
  | false =>
      rw [bind_of_ok (send_of_open closed short)]
      exact .of_ok ⟨(add_zero _).symm, rfl, fun host => by simp [wrote]⟩

omit [Platform] in
/-- A PING is answered, unless the connection is closed. -/
theorem harmless_answerPing {nonce : Int} {payload : Bytes} (encoded : encodePing nonce = .ok payload) :
    session.Harmless ((do
      let payload ← lift (encodePing nonce)
      send .pong payload
      return none : Action (Option (List Block))) session) := by
  have short : payload.length ≤ maxFramePayload := by
    simp only [encodePing, bind_eq_ok, raiseIf_eq_ok, exists_const] at encoded
    rw [length_encodeUnsigned encoded.2]
    decide
  rw [bind_apply, lift_apply, encoded]
  exact harmless_send short none

/-- The blocks of an answer, and the summary after them, are sent. -/
theorem harmless_sendNext (inv : session.node.localNode.Invariant)
    (answers : session.course.AnswersStored) {blocks : List Block}
    (answering : session.connection.task = .answering blocks) :
    session.Harmless (sendNext blocks session) := by
  cases blocks with
  | nil =>
      obtain ⟨payload, encoded⟩ := inv.exists_summary
      rw [sendNext, bind_of_ok (read_apply _ _), bind_apply, lift_apply, encoded]
      exact harmless_send (ChainSummary.length_toBytes encoded) none
  | cons block rest =>
      obtain ⟨hash, entry, stored, rfl⟩ := answers _ answering block List.mem_cons_self
      obtain ⟨payload, encoded, short, -⟩ :=
        (inv.chain_reachable.refines.inRange stored).relayable.envelope
      rw [sendNext, bind_apply, lift_apply, encoded]
      exact harmless_send short (some rest)

/-- The PONG that is waited for is taken. -/
theorem handleFrame_pong {nonce : Int} {payload : Bytes} (encoded : encodePing nonce = .ok payload)
    (awaited : session.connection.pendingPing = some nonce) (now : Time)
    (faults : List Transactions.Fault) :
    handleFrame ⟨.pong, payload⟩ now faults session =
      (.ok none, { session with connection := { session.connection with pendingPing := none } }) := by
  rw [handleFrame]
  dsimp only
  rw [bind_apply, lift_apply, decodePing_encodePing encoded]
  dsimp only
  rw [Course.then_none, handlePong, bind_of_ok (read_apply _ _), if_neg (not_not.mpr awaited),
    onConnection_apply]
  rfl

/-- What a session waits for, when a message of an honest peer arrives. -/
structure Expects (session : Session) (message : Exchange.Message Int) : Prop where
  notHello : ¬ message.IsHello
  summary : ∀ claim, message = .summary claim → ∃ hello, session.connection.hello = some hello ∧
    hello.cumulativeWork ≤ claim
  pong : ∀ nonce, message = .pong nonce → session.connection.pendingPing = some nonce

/-- **A frame of another honest node**, transactions apart. -/
theorem harmless_handleFrame (inv : session.node.localNode.Invariant) (refines : other.Refines)
    (apart : ¬ session.node.localNode.chain.Collide other) {frame : Frame}
    {message : Exchange.Message Int} (meaning : Shows other frame message)
    (expects : session.Expects message) (notTransaction : frame.messageType ≠ .transaction)
    (progress : ∀ summary, frame.messageType = .syncComplete →
      ChainSummary.fromBytes frame.payload = .ok summary → ¬ session.Stuck summary)
    (now : Time) (faults : List Transactions.Fault) :
    session.Harmless (handleFrame frame now faults session) := by
  cases meaning with
  | hello => exact absurd ⟨_, rfl⟩ expects.notHello
  | getBlocks decoded rooted =>
      obtain ⟨blocks, outcome, -⟩ := Course.sendBlocks_rooted inv rooted now
      rw [handleFrame]
      dsimp only
      rw [bind_apply, lift_apply, decoded]
      dsimp only
      rw [outcome]
      exact .of_ok (.refl session)
  | block decoded stored =>
      rw [handleFrame]
      dsimp only
      rw [bind_apply, lift_apply, decoded]
      dsimp only
      rw [Course.then_none]
      exact (harmless_handleBlock inv refines apart stored now faults).map
  | summary decoded stored height work =>
      obtain ⟨hello, met, forward⟩ := expects.summary _ rfl
      rw [handleFrame]
      dsimp only
      rw [bind_apply, lift_apply, decoded]
      dsimp only
      rw [Course.then_none]
      exact (harmless_handleSyncComplete inv refines apart stored height work met forward
        (progress _ rfl decoded) now).map
  | ping encoded =>
      rw [handleFrame]
      dsimp only
      rw [bind_apply, lift_apply, decodePing_encodePing encoded]
      exact harmless_answerPing encoded
  | pong encoded =>
      rw [handleFrame_pong encoded (expects.pong _ rfl)]
      exact .of_ok ⟨(add_zero _).symm, rfl, fun host => by simp⟩
  | transaction => exact absurd rfl notTransaction

/-- How a frame about the chain is handled: a BLOCK or a GET_BLOCKS adds no points, a SYNC_COMPLETE
is not refused for what it claims, and a PONG is the one that is waited for. -/
structure Respects (session : Session) (frame : Frame)
    (outcome : Except Raised (Option (List Block)) × Session) : Prop where
  blocks : frame.messageType = .block ∨ frame.messageType = .getBlocks → session.Harmless outcome
  summaries : frame.messageType = .syncComplete → ∀ e, outcome.1 = .error e →
    e ≠ protocolError "peer cumulative work moved backwards" ∧
      e ≠ protocolError "peer summary contradicts a known block"
  pongs : frame.messageType = .pong → outcome.1 = .ok none

/-- **A frame of another honest node about its chain**, whatever progress the request made. -/
theorem respects_handleFrame (inv : session.node.localNode.Invariant) (refines : other.Refines)
    (apart : ¬ session.node.localNode.chain.Collide other) {frame : Frame}
    {message : Exchange.Message Int} (meaning : Shows other frame message)
    (expects : session.Expects message) (now : Time) (faults : List Transactions.Fault) :
    session.Respects frame (handleFrame frame now faults session) := by
  refine ⟨fun isBlock => ?_, fun isSummary e raised => ?_, fun isPong => ?_⟩
  · refine harmless_handleFrame inv refines apart meaning expects ?_ ?_ now faults
    · rcases isBlock with isBlock | isBlock
      · simp [isBlock]
      · simp [isBlock]
    · rintro _ isSummary
      rcases isBlock with isBlock | isBlock
      · simp [isBlock] at isSummary
      · simp [isBlock] at isSummary
  · cases meaning with
    | summary decoded stored height work =>
        obtain ⟨hello, met, forward⟩ := expects.summary _ rfl
        rw [handleFrame] at raised
        dsimp only at raised
        rw [bind_apply, lift_apply, decoded] at raised
        dsimp only at raised
        rw [Course.then_none] at raised
        rcases handleSyncComplete_accepts inv refines apart stored height work met forward
          (map_eq_error.mp raised) with rfl | rfl | spares
        · decide
        · decide
        · constructor
          · rintro rfl
            cases spares
          · rintro rfl
            cases spares
    | _ => cases isSummary
  · cases meaning with
    | pong encoded => rw [handleFrame_pong encoded (expects.pong _ rfl)]
    | _ => cases isPong

end Session

/-! ## Conversations -/

namespace Conversation

variable [Platform] {conversation : Conversation} {frame : Frame} {rest : List Frame}

/-- **The first frame** is a HELLO of the same network with a true claim, and no HELLO
follows. -/
theorem Reachable.first_frame (reachable : conversation.Reachable)
    (arrives : conversation.right.connection.written = frame :: rest)
    (notReject : frame.messageType ≠ .reject) (awaits : conversation.left.Awaits) :
    conversation.Collides ∨
      (conversation.left.connection.task = .handshaking ∧ ∃ hello, frame.messageType = .hello ∧
        Hello.fromBytes frame.payload = .ok hello ∧ hello.chainId = testnet.chainId ∧
        hello.genesisHash = genesisHash ∧
        hello.cumulativeWork ≤ conversation.right.node.localNode.chain.cumulativeWork) ∨
      conversation.left.connection.task = .reading ∧ frame.messageType ≠ .hello := by
  obtain ⟨-, collides | ⟨start, pair, -, -, represents, orderly⟩⟩ := reachable.exists_pair
  · exact .inl collides
  · exact .inr (represents.next_frame orderly arrives notReject awaits)

omit [Platform] in
theorem first_frame_waiting : ∃ (conversation : Conversation) (frame : Frame),
    conversation.right.connection.written = [frame] ∧
      conversation.left.connection.task = .handshaking ∧ (@Collides asciiPlatform conversation ∨
        (conversation.left.connection.task = .handshaking ∧ ∃ hello, frame.messageType = .hello ∧
          @Hello.fromBytes asciiPlatform frame.payload = .ok hello ∧ hello.chainId = testnet.chainId ∧
          hello.genesisHash = genesisHash ∧
          hello.cumulativeWork ≤ conversation.right.node.localNode.chain.cumulativeWork) ∨
        conversation.left.connection.task = .reading ∧ frame.messageType ≠ .hello) := by
  obtain ⟨leftFrame, _, rightFrame, _, -, introduces, opens⟩ :=
    @exists_waiting asciiPlatform _ _ genesisNode_reachable genesisNode_reachable
  obtain ⟨leftOpened, rightOpened⟩ :=
    @opening_opened asciiPlatform _ _ genesisNode_reachable genesisNode_reachable
  have reachable : @Reachable asciiPlatform
      ⟨waiting .own genesisNode [leftFrame], waiting .peer genesisNode [rightFrame]⟩ :=
    ⟨⟨_, _⟩, leftOpened, rightOpened, @steps_of_settles asciiPlatform _ _ opens⟩
  refine ⟨_, rightFrame, rfl, rfl, @Reachable.first_frame asciiPlatform _ _ _ reachable rfl ?_ (.inl rfl)⟩
  rw [@Introduces.isHello asciiPlatform _ _ _ _ introduces]
  decide

/-- After its handshake a node waits for what an honest peer sends. -/
theorem Represents.expects {pair : Exchange.Pair Int} (represents : conversation.Represents pair)
    (orderly : pair.Orderly) {message : Exchange.Message Int}
    {messages : List (Exchange.Message Int)} (sent : pair.right.sent = message :: messages)
    (reading : conversation.left.connection.task = .reading) : conversation.left.Expects message := by
  have position : pair.left.phase = .reading :=
    represents.left.phase_eq.trans (congrArg Task.phase reading)
  have expected := orderly.expects sent (.inr position)
  refine ⟨fun isHello => ?_, fun claim isSummary => ?_, fun nonce isPong => ?_⟩
  · exact absurd (position.symm.trans (expected.hello.mpr isHello)) (by simp)
  · obtain ⟨work, known, forward⟩ := expected.summary claim isSummary
    rw [represents.left.peerWork_eq, Option.map_eq_some_iff] at known
    obtain ⟨hello, met, rfl⟩ := known
    exact ⟨hello, met, forward⟩
  · rw [← represents.left.pendingPing_eq.symm.trans (expected.pong nonce isPong)]
    rfl

/-- **Honest chain traffic is never judged.** -/
theorem Reachable.never_judged (reachable : conversation.Reachable)
    (arrives : conversation.right.connection.written = frame :: rest)
    (reading : conversation.left.connection.task = .reading)
    (notReject : frame.messageType ≠ .reject) (notTransaction : frame.messageType ≠ .transaction)
    (now : Time) (faults : List Transactions.Fault)
    (allows : conversation.left.Allows frame now)
    (progress : ∀ summary, frame.messageType = .syncComplete →
      ChainSummary.fromBytes frame.payload = .ok summary → ¬ conversation.left.Stuck summary) :
    conversation.Collides ∨
      Session.Scored 0 conversation.left (conversation.left.deliver frame now faults) := by
  obtain ⟨sound, collides | ⟨start, pair, -, -, represents, orderly⟩⟩ := reachable.exists_pair
  · exact .inl collides
  by_cases apart : conversation.Collides
  · exact .inl apart
  right
  obtain ⟨message, messages, sent, meaning, -⟩ := exists_message represents.right arrives notReject
  have expects := represents.expects orderly sent reading
  have harmless := @Session.harmless_handleFrame (conversation.left.limited frame now) _ _ sound.left
    sound.right.chain_reachable.refines apart _ _ meaning
    ⟨expects.notHello, expects.summary, expects.pong⟩ notTransaction progress now faults
  rw [Session.deliver, reading]
  dsimp only
  rw [Session.receive_of_allows allows]
  exact Session.Scored.trans_zero _ (conversation.left.limited frame now) _
    ⟨(add_zero _).symm, rfl, fun host => by simp [Session.limited]⟩ (harmless.resume now)

omit [Platform] in
/-- The block of the peer, on its way in the transfer. -/
theorem never_judged_block : ∃ (conversation : Conversation) (frame : Frame),
    Relation.ReflTransGen (@StepAlone asciiPlatform) meeting conversation ∧
      conversation.left.connection.task = .reading ∧
      conversation.right.connection.written = [frame] ∧ frame.messageType = .block ∧
      (@Collides asciiPlatform conversation ∨ Session.Scored 0 conversation.left
        (@Session.deliver asciiPlatform frame 0 [] conversation.left)) := by
  obtain ⟨conversation, frame, run, reading, written, isBlock, allows⟩ := exists_block_arriving
  have reachable := @Announced.reachable asciiPlatform _ (meeting_announced run)
  exact ⟨conversation, frame, run, reading, written, isBlock,
    @Reachable.never_judged asciiPlatform _ _ _ reachable written reading (by simp [isBlock])
      (by simp [isBlock]) 0 [] allows fun _ isSummary => by simp [isBlock] at isSummary⟩

/-- The left end does not judge the other one for its chain traffic: not for a frame when it is
handled, and not while it is answered. -/
structure RespectsPeer (conversation : Conversation) : Prop where
  handled : ∀ frame rest now faults, conversation.right.connection.written = frame :: rest →
    conversation.left.Awaits → (frame.messageType = .block ∨ frame.messageType = .getBlocks ∨
      frame.messageType = .syncComplete ∨ frame.messageType = .pong) →
    conversation.left.connection.task = .reading ∧
      (conversation.left.limited frame now).Respects frame
        (Session.handleFrame frame now faults (conversation.left.limited frame now))
  answered : ∀ blocks, conversation.left.connection.task = .answering blocks →
    conversation.left.Harmless (Session.sendNext blocks conversation.left)

theorem Represents.respectsPeer {pair : Exchange.Pair Int} (represents : conversation.Represents pair)
    (orderly : pair.Orderly) (sound : conversation.Sound) (apart : ¬ conversation.Collides) :
    conversation.RespectsPeer := by
  constructor
  · intro frame rest now faults arrives awaits traffic
    have notReject : frame.messageType ≠ .reject := by
      rcases traffic with type | type | type | type <;> simp [type]
    have reading : conversation.left.connection.task = .reading := by
      rcases represents.next_frame orderly arrives notReject awaits with
        ⟨-, hello, isHello, -⟩ | ⟨reading, -⟩
      · rcases traffic with type | type | type | type <;> simp [isHello] at type
      · exact reading
    obtain ⟨message, messages, sent, meaning, -⟩ := exists_message represents.right arrives notReject
    have expects := represents.expects orderly sent reading
    exact ⟨reading, @Session.respects_handleFrame (conversation.left.limited frame now) _ _ sound.left
      sound.right.chain_reachable.refines apart _ _ meaning
      ⟨expects.notHello, expects.summary, expects.pong⟩ now faults⟩
  · intro blocks answering
    refine Session.harmless_sendNext sound.left ?_ answering
    have stands := represents.left
    generalize pair.left = party at stands
    cases stands with
    | intro _ answers _ _ => exact answers

/-- **Honest chain traffic is respected** at both ends in every run. -/
theorem Reachable.respects (reachable : conversation.Reachable) :
    conversation.Collides ∨ conversation.RespectsPeer ∧ conversation.swap.RespectsPeer := by
  obtain ⟨sound, collides | ⟨start, pair, -, -, represents, orderly⟩⟩ := reachable.exists_pair
  · exact .inl collides
  by_cases apart : conversation.Collides
  · exact .inl apart
  exact .inr ⟨represents.respectsPeer orderly sound apart,
    represents.swap.respectsPeer orderly.symm sound.swap fun collides => apart collides.symm⟩

omit [Platform] in
/-- The block of the peer arrives, and the peer goes on with its answer. -/
theorem respects_transfer : ∃ (conversation : Conversation) (frame : Frame),
    Relation.ReflTransGen (@StepAlone asciiPlatform) meeting conversation ∧
    conversation.left.connection.task = .reading ∧
    conversation.right.connection.written = [frame] ∧ frame.messageType = .block ∧
    (@Collides asciiPlatform conversation ∨
      @RespectsPeer asciiPlatform conversation ∧ @RespectsPeer asciiPlatform conversation.swap) := by
  obtain ⟨conversation, frame, run, reading, written, isBlock, -⟩ := exists_block_arriving
  have reachable := @Announced.reachable asciiPlatform _ (meeting_announced run)
  exact ⟨conversation, frame, run, reading, written, isBlock,
    @Reachable.respects asciiPlatform _ reachable⟩

end Conversation

end OurCoin
