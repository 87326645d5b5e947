import OurCoin.Library.Batches
import OurCoin.Peer.Copying
import OurCoin.Peer.Honesty

/-!
# Catching up with a peer

A node whose tip is on the active chain of its peer copies what it lacks, in batches. Neither node
accepts blocks from elsewhere meanwhile. Whatever else they do, and in whatever order,

* `CatchesUp.never_stuck`: every batch brings a block, so the rule against requests without
  progress never ends the connection, and
* `CatchesUp.same_tip`: when nothing is under way, both nodes have the same tip.

Both follow from one simulation (`copying_simulation`) by a transfer in batches.
-/

set_option autoImplicit false

namespace OurCoin

open Raising Stateful

variable [Platform]

namespace Conversation

variable {chain : Chain} {path : List (Bytes × ChainEntry)} {branch : BranchState}
  {conversation after : Conversation}

/-! ## What is under way -/

/-- The frame carries the block of an item. -/
def Carries (item : Bytes × ChainEntry) (frame : Frame) : Prop :=
  ∃ payload, encodeBlock item.2.block = .ok payload ∧ frame = ⟨.block, payload⟩

/-- The end that offers its chain. -/
structure Offers (chain : Chain) (course : Course) : Prop where
  chain_eq : course.localNode.chain = chain
  queued : course.QueuesTransactions
  claims : ∀ frame ∈ course.written, Course.ClaimsWork chain frame

/-- The end that copies it. -/
structure Copies (path : List (Bytes × ChainEntry)) (count : Nat) (course : Course) : Prop where
  copied : course.localNode.chain.Copied path count
  queued : course.QueuesTransactions
  unasked : course.task.answers = none

/-- What is under way between them at each stage: the frames of the offering end and what is left
of its answer. -/
def UnderWay (chain : Chain) (path : List (Bytes × ChainEntry)) (course : Course)
    (arriving : List Frame) (task : Task) (count : Nat) : Batches.Stage → Prop
  | .waiting => course.hello = none ∧ course.outstanding = false ∧
      syncFrames course.written = [] ∧ arriving = [] ∧ task.answers = none
  | .asked => course.hello ≠ none ∧ course.outstanding = true ∧ course.acceptedBlocks = 0 ∧
      (∃ locator payload, blockLocator course.localNode.chain = .ok locator ∧
        locator.toBytes = .ok payload ∧ syncFrames course.written = [⟨.getBlocks, payload⟩]) ∧
      arriving = [] ∧ task.answers = none
  | .answering since sent last => course.hello ≠ none ∧ course.outstanding = true ∧
      course.acceptedBlocks + since = count ∧ syncFrames course.written = [] ∧
      List.Forall₂ Carries (slice path count sent) arriving ∧
      (task = .ended ∨ task.answers = some (pathBlocks (slice path sent last)))
  | .answered since last => course.hello ≠ none ∧ course.outstanding = true ∧
      course.acceptedBlocks + since = count ∧ syncFrames course.written = [] ∧
      (∃ frames payload, (ChainSummary.ofChain chain).toBytes = .ok payload ∧
        arriving = frames ++ [⟨.syncComplete, payload⟩] ∧
        List.Forall₂ Carries (slice path count last) frames) ∧ task.answers = none
  | .complete => course.hello ≠ none ∧ course.outstanding = false ∧
      syncFrames course.written = [] ∧ arriving = [] ∧ task.answers = none
  | .broken => False

/-- A conversation in which the left end copies the chain of the right end. -/
structure Copying (chain : Chain) (path : List (Bytes × ChainEntry)) (conversation : Conversation)
    (state : Batches.State) : Prop where
  copies : Copies path state.count conversation.left.course
  offers : Offers chain conversation.right.course
  underWay : UnderWay chain path conversation.left.course
    (syncFrames conversation.right.course.written) conversation.right.connection.task state.count
    state.stage

/-- The conversation is copying, or its left end is over. -/
def Stands (chain : Chain) (path : List (Bytes × ChainEntry)) (conversation : Conversation)
    (state : Batches.State) : Prop :=
  Batches.Fits maxBlocksPerResponse path.length state ∧
    (Copying chain path conversation state ∨
      state.stage = .broken ∧ conversation.left.connection.task = .ended)

/-! ## What does not matter -/

variable {course course' : Course} {arriving : List Frame} {task task' : Task} {count : Nat}
  {stage : Batches.Stage}

theorem UnderWay.rests (underWay : UnderWay chain path course arriving task count stage)
    (rests : course.Rests course') : UnderWay chain path course' arriving task count stage := by
  obtain ⟨chain_eq, hello_eq, outstanding_eq, acceptedBlocks_eq, written_eq, -, -⟩ := rests
  cases stage with
  | broken => exact underWay
  | _ =>
      simp only [UnderWay, chain_eq, hello_eq, outstanding_eq, acceptedBlocks_eq, written_eq]
      exact underWay

theorem UnderWay.keeps (underWay : UnderWay chain path course arriving task count stage)
    (keeps : task.Keeps task') : UnderWay chain path course arriving task' count stage := by
  have quiet : task.answers = none → task'.answers = none := by
    intro answered
    rcases keeps with rfl | ⟨-, same⟩
    · rfl
    · exact same.trans answered
  cases stage with
  | waiting =>
      obtain ⟨unmet, idle, written, none, answered⟩ := underWay
      exact ⟨unmet, idle, written, none, quiet answered⟩
  | asked =>
      obtain ⟨met, busy, accepted, written, none, answered⟩ := underWay
      exact ⟨met, busy, accepted, written, none, quiet answered⟩
  | answering since sent last =>
      obtain ⟨met, busy, accepted, written, carried, left⟩ := underWay
      refine ⟨met, busy, accepted, written, carried, ?_⟩
      rcases keeps with ended | ⟨running, same⟩
      · exact .inl ended
      · exact .inr (same.trans (left.resolve_left running))
  | answered since last =>
      obtain ⟨met, busy, accepted, written, marked, answered⟩ := underWay
      exact ⟨met, busy, accepted, written, marked, quiet answered⟩
  | complete =>
      obtain ⟨met, idle, written, none, answered⟩ := underWay
      exact ⟨met, idle, written, none, quiet answered⟩
  | broken => exact underWay

theorem Copies.rests (copies : Copies path count course) (rests : course.Rests course')
    (keeps : course.task.Keeps course'.task) : Copies path count course' := by
  refine ⟨rests.chain_eq ▸ copies.copied, rests.queued, ?_⟩
  rcases keeps with ended | ⟨-, same⟩
  · rw [ended]
    rfl
  · exact same.trans copies.unasked

theorem Offers.rests (offers : Offers chain course) (rests : course.Rests course') :
    Offers chain course' := by
  refine ⟨rests.chain_eq.trans offers.chain_eq, rests.queued, ?_⟩
  intro frame member
  rcases rests.claims frame member with earlier | claims
  · exact offers.claims frame earlier
  · exact offers.chain_eq ▸ claims

/-- The task and the closing flag do not matter. -/
theorem Offers.ending (offers : Offers chain course) (closed : Bool) (task : Task) :
    Offers chain { course with closed, task } :=
  ⟨offers.chain_eq, offers.queued, offers.claims⟩

/-- A frame of an answer is written. -/
theorem Offers.wrote (offers : Offers chain course) {frame : Frame}
    (notHello : frame.messageType ≠ .hello) (closed : Bool) (task : Task) :
    Offers chain { course with closed, task, written := course.written ++ [frame] } := by
  refine ⟨offers.chain_eq, offers.queued, fun frame' member => ?_⟩
  rcases List.mem_append.mp member with earlier | last
  · exact offers.claims frame' earlier
  · rw [List.mem_singleton.mp last]
    exact Course.claimsWork_of_other notHello

/-- A frame was read from the offering end. -/
theorem Offers.withWritten {session : Session} (offers : Offers chain session.course) {frame : Frame}
    {rest : List Frame} (arrives : session.connection.written = frame :: rest) :
    Offers chain (session.withWritten rest).course := by
  rcases Session.course_withWritten arrives with ⟨-, same⟩ | ⟨-, first, same⟩
  · rw [same]
    exact offers
  · rw [same]
    refine ⟨offers.chain_eq, offers.queued, fun frame' member => offers.claims frame' ?_⟩
    rw [first]
    exact List.mem_cons_of_mem _ member

omit [Platform] in
/-- Another frame was read. -/
theorem syncFrames_withWritten {session : Session} {frame : Frame} {rest : List Frame}
    (arrives : session.connection.written = frame :: rest)
    (other : frame.messageType.synchronizes = false) :
    syncFrames (session.withWritten rest).course.written = syncFrames session.course.written := by
  rcases Session.course_withWritten arrives with ⟨-, same⟩ | ⟨-, first, same⟩
  · rw [same]
  · rw [same, first, syncFrames_cons_other other]

/-! ## What the copying end does -/

variable {state : Batches.State}

/-- The copying end is over. -/
theorem exists_broken (after : Conversation)
    (fits : Batches.Fits maxBlocksPerResponse path.length state)
    (ended : after.left.connection.task = .ended) :
    ∃ next, Batches.Turn maxBlocksPerResponse path.length state next ∧
      Stands chain path after next := by
  have turn : Batches.Turn maxBlocksPerResponse path.length state ⟨state.count, .broken⟩ :=
    .breakOff state
  exact ⟨_, turn, turn.fits fits, .inr ⟨rfl, ended⟩⟩

/-- What both ends rely on. -/
structure Grounds (chain : Chain) (path : List (Bytes × ChainEntry)) (branch : BranchState)
    (conversation : Conversation) : Prop where
  sound : conversation.Sound
  apart : ¬ conversation.Collides
  ends : chain.BranchTo chain.activeTipHash chain.tipEntry path branch
  refines : chain.Refines

/-- A batch that is not all there goes on with the next item. -/
theorem exists_next {sent : Nat} {frame : Frame} {frames : List Frame}
    (within : sent ≤ path.length)
    (carried : List.Forall₂ Carries (slice path count sent) (frame :: frames)) :
    count < sent ∧ ∃ item, path[count]? = some item ∧ Carries item frame ∧
      List.Forall₂ Carries (slice path (count + 1) sent) frames := by
  have less : count < sent := by
    by_contra none
    rw [slice, show sent - count = 0 by omega, List.take_zero] at carried
    cases carried
  have here : path[count]? = some path[count] := List.getElem?_eq_getElem _
  rw [slice_cons less here] at carried
  cases carried with
  | cons first rest => exact ⟨less, _, here, first, rest⟩

/-- Nothing that matters happened. -/
theorem exists_rest (after : Conversation)
    (fits : Batches.Fits maxBlocksPerResponse path.length state)
    (copying : Copying chain path conversation state)
    (rests : conversation.left.course.Rests after.left.course)
    (keeps : conversation.left.connection.task.Keeps after.left.connection.task)
    (offers : Offers chain after.right.course)
    (arriving_eq : syncFrames after.right.course.written =
      syncFrames conversation.right.course.written)
    (keeps' : conversation.right.connection.task.Keeps after.right.connection.task) :
    ∃ next, Batches.Turn maxBlocksPerResponse path.length state next ∧
      Stands chain path after next := by
  refine ⟨state, .rest state, fits, .inl ⟨copying.copies.rests rests keeps, offers, ?_⟩⟩
  rw [arriving_eq]
  exact (copying.underWay.rests rests).keeps keeps'

/-- After a claim of the peer, the copy is complete or asks for what follows. -/
theorem underWay_next (grounds : Grounds chain path branch conversation)
    (copies : Copies path count conversation.left.course)
    (wrote : syncFrames conversation.left.course.written = []) (answered : task.answers = none)
    (claim : (chain.cumulativeWork ≤ conversation.left.node.localNode.chain.cumulativeWork ∧
        conversation.left.course.Satisfied course') ∨
      conversation.left.node.localNode.chain.cumulativeWork < chain.cumulativeWork ∧
        conversation.left.course.Asks course')
    (isRight : conversation.right.node.localNode.chain = chain) :
    Copies path count course' ∧
      UnderWay chain path course' [] task count (Batches.next path.length count) := by
  obtain ⟨sound, apart, ends, refines⟩ := grounds
  have apart' : ¬ conversation.left.node.localNode.chain.Collide chain := by
    rw [← isRight]
    exact apart
  have reachable := sound.left.chain_reachable
  obtain ⟨copied, queued, unasked⟩ := copies
  have within := copied.count_le
  have kept : ∀ {course' : Course}, course'.localNode = conversation.left.course.localNode →
      course'.pendingSends = conversation.left.course.pendingSends → course'.task = .reading →
      Copies path count course' := by
    intro course' node_eq pendingSends_eq task_eq
    refine ⟨by rw [node_eq]; exact copied, ?_, by rw [task_eq]; rfl⟩
    rw [Course.QueuesTransactions, pendingSends_eq]
    exact queued
  rcases claim with ⟨heavy, satisfied⟩ | ⟨light, asks⟩
  · have complete := copied.complete_of_le ends refines reachable apart' heavy
    rw [Batches.next, if_neg (by omega)]
    refine ⟨kept satisfied.node_eq satisfied.pendingSends_eq satisfied.task_eq, satisfied.met,
      satisfied.idle, ?_, rfl, answered⟩
    rw [satisfied.written_eq, wrote]
  · have incomplete : count < path.length := by
      by_contra whole
      have sameTip := copied.tip_eq ends (by omega)
      have same := reachable.refines.entry_eq_of_shared refines apart'
        conversation.left.node.localNode.chain.tipEntry_stored (sameTip ▸ chain.tipEntry_stored)
      rw [Chain.cumulativeWork, Chain.cumulativeWork, same] at light
      exact lt_irrefl _ light
    obtain ⟨locator, payload, located, encoded, written⟩ := asks.exists_written
    rw [Batches.next, if_pos incomplete]
    refine ⟨kept asks.node_eq asks.pendingSends_eq asks.task_eq, asks.met, asks.busy,
      asks.acceptedBlocks_eq, ⟨locator, payload, ?_, encoded, ?_⟩, rfl, answered⟩
    · rw [asks.node_eq]
      exact located
    · rw [written, syncFrames_append, wrote]
      rfl

/-- **The HELLO of the offering end** begins the transfer. -/
theorem exists_begin (grounds : Grounds chain path branch conversation)
    (fits : Batches.Fits maxBlocksPerResponse path.length state)
    (copying : Copying chain path conversation state)
    (waiting : conversation.left.connection.task = .handshaking)
    (unmet : conversation.left.course.hello = none) (idle : conversation.left.course.outstanding = false)
    {payload : Bytes} {rest : List Frame} {hello : Hello}
    (arrives : conversation.right.connection.written = ⟨.hello, payload⟩ :: rest)
    (decoded : Hello.fromBytes payload = .ok hello) (now : Time) (faults : List Transactions.Fault) :
    ∃ next, Batches.Turn maxBlocksPerResponse path.length state next ∧
      Stands chain path ⟨conversation.left.deliver ⟨.hello, payload⟩ now faults,
        conversation.right.withWritten rest⟩ next := by
  obtain ⟨copies, offers, underWay⟩ := copying
  obtain ⟨count, stage⟩ := state
  have isRight : conversation.right.node.localNode.chain = chain := offers.chain_eq
  have honest : hello.cumulativeWork = chain.cumulativeWork := by
    have member : ⟨.hello, payload⟩ ∈ conversation.right.course.written := by
      rcases Session.course_withWritten arrives with ⟨isReject, -⟩ | ⟨-, first, -⟩
      · cases isReject
      · rw [first]
        exact List.mem_cons_self
    exact offers.claims _ member rfl hello decoded
  have claim := Session.deliver_greeting waiting idle decoded now faults
  rw [honest] at claim
  rcases claim with ended | claim
  · exact exists_broken _ fits ended
  cases stage with
  | waiting =>
      obtain ⟨-, -, wrote, none, answered⟩ := underWay
      obtain ⟨copies', underWay'⟩ :=
        underWay_next grounds copies wrote answered claim isRight
      refine ⟨_, .begin count, Batches.Turn.fits (.begin count) fits,
        .inl ⟨copies', offers.withWritten arrives, ?_⟩⟩
      dsimp only
      rw [syncFrames_withWritten arrives rfl, none]
      exact underWay'
  | broken => exact underWay.elim
  | asked => exact absurd unmet underWay.1
  | answering since sent last => exact absurd unmet underWay.1
  | answered since last => exact absurd unmet underWay.1
  | complete => exact absurd unmet underWay.1

/-- **The next frame of an answer** is a block that extends the copy. -/
theorem exists_take (grounds : Grounds chain path branch conversation)
    (copies : Copies path count conversation.left.course)
    (isRight : conversation.right.node.localNode.chain = chain)
    (reading : conversation.left.connection.task = .reading) {frame : Frame}
    {item : Bytes × ChainEntry} (here : path[count]? = some item) (carries : Carries item frame)
    (now : Time) (faults : List Transactions.Fault) :
    (conversation.left.deliver frame now faults).connection.task = .ended ∨
      ∃ localNode, (conversation.left.deliver frame now faults).course =
          { conversation.left.course with
            localNode
            acceptedBlocks :=
              if conversation.left.course.outstanding = true then
                conversation.left.course.acceptedBlocks + 1
              else conversation.left.course.acceptedBlocks
            task := .reading } ∧
        Copies path (count + 1) (conversation.left.deliver frame now faults).course := by
  obtain ⟨sound, apart, ends, refines⟩ := grounds
  obtain ⟨hash, entry⟩ := item
  obtain ⟨payload, encoded, rfl⟩ := carries
  have apart' : ¬ conversation.left.node.localNode.chain.Collide chain := by
    rw [← isRight]
    exact apart
  rcases Session.deliver_next sound.left reading copies.copied ends refines apart' here encoded now
    faults with ended | ⟨localNode, copied, same⟩
  · exact .inl ended
  · refine .inr ⟨localNode, same, ?_⟩
    rw [same]
    exact ⟨copied, copies.queued, rfl⟩

/-- **A frame of a synchronization** is the next one of the answer. -/
theorem exists_advance (grounds : Grounds chain path branch conversation)
    (fits : Batches.Fits maxBlocksPerResponse path.length state)
    (copying : Copying chain path conversation state)
    (reading : conversation.left.connection.task = .reading) {frame : Frame} {rest : List Frame}
    (arrives : conversation.right.connection.written = frame :: rest)
    (synchronizes : frame.messageType.synchronizes = true) (now : Time)
    (faults : List Transactions.Fault) :
    ∃ next, Batches.Turn maxBlocksPerResponse path.length state next ∧
      Stands chain path ⟨conversation.left.deliver frame now faults,
        conversation.right.withWritten rest⟩ next := by
  obtain ⟨copies, offers, underWay⟩ := copying
  have offers' := offers.withWritten arrives
  have isRight : conversation.right.node.localNode.chain = chain := offers.chain_eq
  obtain ⟨-, first, same⟩ := (Session.course_withWritten arrives).resolve_left fun isReject => by
    rw [isReject.1] at synchronizes
    cases synchronizes
  rw [first, syncFrames_cons synchronizes] at underWay
  have arriving_eq : syncFrames (conversation.right.withWritten rest).course.written =
      syncFrames (Session.withoutRejects rest) := by rw [same]
  have counted : ∀ {since count : Nat}, conversation.left.course.outstanding = true →
      conversation.left.course.acceptedBlocks + since = count →
      (if conversation.left.course.outstanding = true then
        conversation.left.course.acceptedBlocks + 1
      else conversation.left.course.acceptedBlocks) + since = (count + 1 : Nat) := by
    intro since count busy accepted
    rw [if_pos busy]
    push_cast
    omega
  obtain ⟨count, stage⟩ := state
  cases stage with
  | waiting => cases underWay.2.2.2.1
  | asked => cases underWay.2.2.2.2.1
  | complete => cases underWay.2.2.2.1
  | broken => exact underWay.elim
  | answering since sent last =>
      obtain ⟨met, busy, accepted, wrote, carried, left⟩ := underWay
      obtain ⟨-, -, -, sent_le, -, last_eq⟩ := id fits
      obtain ⟨less, item, here, carries, carried'⟩ := exists_next (by omega) carried
      have turn : Batches.Turn maxBlocksPerResponse path.length ⟨count, .answering since sent last⟩
          ⟨count + 1, .answering since sent last⟩ := .take less
      rcases exists_take grounds copies isRight reading here carries now faults with ended |
        ⟨localNode, sameCourse, copies'⟩
      · exact exists_broken _ fits ended
      · refine ⟨_, turn, turn.fits fits, .inl ⟨copies', offers', ?_⟩⟩
        dsimp only
        rw [arriving_eq, sameCourse]
        exact ⟨met, busy, counted busy accepted, wrote, carried', left⟩
  | answered since last =>
      obtain ⟨met, busy, accepted, wrote, ⟨frames, payload, encoded, isMarked, carried⟩, answered⟩ :=
        underWay
      obtain ⟨-, -, count_le, -, -, last_eq⟩ := id fits
      dsimp only at count_le
      cases frames with
      | nil =>
          -- The end mark: the batch is all there.
          obtain ⟨rfl, none⟩ := List.cons.inj isMarked
          have whole : count = last := by
            by_contra missing
            have here : path[count]? = some path[count] := List.getElem?_eq_getElem (by omega)
            rw [slice_cons (by omega) here] at carried
            cases carried
          subst whole
          have claim := Session.deliver_mark reading (ChainSummary.fromBytes_toBytes encoded) now faults
          rcases claim with ended | claim
          · exact exists_broken _ fits ended
          · obtain ⟨copies', underWay'⟩ := underWay_next grounds copies wrote answered claim isRight
            have turn : Batches.Turn maxBlocksPerResponse path.length ⟨count, .answered since count⟩
                ⟨count, Batches.next path.length count⟩ := .finish
            refine ⟨_, turn, turn.fits fits, .inl ⟨copies', offers', ?_⟩⟩
            dsimp only
            rw [arriving_eq, none]
            exact underWay'
      | cons block blocks =>
          obtain ⟨rfl, marked⟩ := List.cons.inj isMarked
          obtain ⟨less, item, here, carries, carried'⟩ := exists_next (by omega) carried
          have turn : Batches.Turn maxBlocksPerResponse path.length ⟨count, .answered since last⟩
              ⟨count + 1, .answered since last⟩ := .takeLast less
          rcases exists_take grounds copies isRight reading here carries now faults with ended |
            ⟨localNode, sameCourse, copies'⟩
          · exact exists_broken _ fits ended
          · refine ⟨_, turn, turn.fits fits, .inl ⟨copies', offers', ?_⟩⟩
            dsimp only
            rw [arriving_eq, sameCourse]
            exact ⟨met, busy, counted busy accepted, wrote, ⟨blocks, payload, encoded, marked, carried'⟩,
              answered⟩

variable {pair : Exchange.Pair Int}

omit [Platform] in
theorem not_answering (unasked : task.answers = none) (blocks : List Block) :
    task ≠ .answering blocks := by
  rintro rfl
  cases unasked

/-- **What happens at the copying end** is a turn of the transfer. -/
theorem ActsAlone.copies (acts : ActsAlone conversation after)
    (grounds : Grounds chain path branch conversation) (represents : conversation.Represents pair)
    (orderly : pair.Orderly) (stands : Stands chain path conversation state) :
    ∃ next, Batches.Turn maxBlocksPerResponse path.length state next ∧
      Stands chain path after next := by
  obtain ⟨fits, copying | ⟨-, hasEnded⟩⟩ := stands
  · cases acts with
    | event event noFrame noBlock =>
        have noAnswer := not_answering copying.copies.unasked
        exact exists_rest _ fits copying
          (Session.step_rests grounds.sound.left copying.copies.queued noFrame noBlock
            fun _ _ => noAnswer)
          (Session.step_keeps noFrame fun _ _ => noAnswer) copying.offers rfl (.refl _)
    | @read session other frame rest now faults awaits arrives =>
        have offers := copying.offers.withWritten arrives
        have greets := represents.greets orderly
        cases synchronizes : frame.messageType.synchronizes with
        | true =>
            have notReject : frame.messageType ≠ .reject := by
              intro isReject
              rw [isReject] at synchronizes
              cases synchronizes
            rcases represents.next_frame orderly arrives notReject awaits with
              ⟨-, hello, isHello, -⟩ | ⟨reading, -⟩
            · rw [isHello] at synchronizes
              cases synchronizes
            · exact exists_advance grounds fits copying reading arrives synchronizes now faults
        | false =>
            have arriving_eq := syncFrames_withWritten arrives synchronizes
            rcases awaits with waiting | reading
            · by_cases isHello : frame.messageType = .hello
              · have notReject : frame.messageType ≠ .reject := by
                  rw [isHello]
                  decide
                rcases represents.next_frame orderly arrives notReject (.inl waiting) with
                  ⟨-, hello, -, decoded, -⟩ | ⟨reading, -⟩
                · obtain ⟨unmet, idle⟩ := greets.1 waiting
                  obtain ⟨messageType, payload⟩ := frame
                  dsimp only at isHello
                  subst isHello
                  exact exists_begin grounds fits copying waiting unmet idle arrives decoded now faults
                · rw [waiting] at reading
                  cases reading
              · exact exists_broken _ fits (Session.deliver_uninvited waiting isHello now faults).2
            · obtain ⟨rests, keeps⟩ :=
                Session.deliver_rests synchronizes copying.copies.queued reading now faults
              exact exists_rest _ fits copying rests keeps offers arriving_eq (.refl _)
    | ended now _ => exact exists_broken _ fits (Session.task_fail _ now _)
  · cases acts with
    | event event noFrame noBlock =>
        refine exists_broken _ fits ?_
        have noAnswer := not_answering (congrArg Task.answers hasEnded)
        have keeps := Session.step_keeps noFrame fun _ _ => noAnswer
        rcases keeps with ended | ⟨running, -⟩
        · exact ended
        · exact absurd hasEnded running
    | read _ _ awaits _ =>
        rcases awaits with waiting | reading
        · rw [waiting] at hasEnded
          cases hasEnded
        · rw [reading] at hasEnded
          cases hasEnded
    | ended now _ => exact exists_broken _ fits (Session.task_fail _ now _)

/-! ## What the offering end does -/

/-- The next step of an answer: another block, or the end mark. -/
theorem exists_answer {left right : Session}
    (fits : Batches.Fits maxBlocksPerResponse path.length state)
    (copying : Copying chain path ⟨left, right⟩ state) {blocks : List Block}
    (answering : right.connection.task = .answering blocks) (now : Time) :
    ∃ next, Batches.Turn maxBlocksPerResponse path.length state next ∧
      Stands chain path ⟨left, right.answer now⟩ next := by
  obtain ⟨copies, offers, underWay⟩ := copying
  dsimp only at copies offers underWay
  have answers : right.connection.task.answers = some blocks := by rw [answering]; rfl
  have answered : right.connection.task.answers ≠ none := by simp [answers]
  obtain ⟨count, stage⟩ := state
  have ordered := fits.2
  cases stage with
  | waiting => exact absurd underWay.2.2.2.2 answered
  | asked => exact absurd underWay.2.2.2.2.2 answered
  | answered since last => exact absurd underWay.2.2.2.2.2 answered
  | complete => exact absurd underWay.2.2.2.2 answered
  | broken => exact underWay.elim
  | answering since sent last =>
      obtain ⟨met, busy, accepted, wrote, carried, rest⟩ := underWay
      obtain ⟨-, count_le, sent_le, -, last_eq⟩ := ordered
      have isRest : blocks = pathBlocks (slice path sent last) := by
        rcases rest with ended | same
        · rw [answering] at ended
          cases ended
        · rw [answers] at same
          exact Option.some.inj same
      rw [isRest] at answering
      rcases Session.answer_cases answering now with course_eq |
        ⟨block, later, payload, isBlocks, encoded, course_eq⟩ |
        ⟨isBlocks, payload, closed, task, encoded, quiet, course_eq⟩
      · -- The connection was closed.
        refine ⟨_, .rest _, fits, .inl ⟨copies, ?_, ?_⟩⟩
        · dsimp only
          rw [course_eq]
          exact offers.ending true .ended
        · dsimp only
          rw [course_eq]
          exact ⟨met, busy, accepted, wrote, carried, .inl (congrArg Course.task course_eq)⟩
      · -- Another block.
        obtain ⟨less, item, here, rfl, rfl⟩ := slice_eq_cons (by omega) isBlocks
        have turn : Batches.Turn maxBlocksPerResponse path.length ⟨count, .answering since sent last⟩
            ⟨count, .answering since (sent + 1) last⟩ := .send less
        refine ⟨_, turn, turn.fits fits, .inl ⟨copies, ?_, ?_⟩⟩
        · dsimp only
          rw [course_eq]
          exact offers.wrote (by simp) _ _
        · dsimp only
          rw [course_eq]
          refine ⟨met, busy, accepted, wrote, ?_, .inr ?_⟩
          · rw [syncFrames_append, slice_concat count_le here]
            exact List.rel_append carried (.cons ⟨payload, encoded, rfl⟩ .nil)
          · exact congrArg Task.answers (congrArg Course.task course_eq)
      · -- The end mark.
        obtain rfl := slice_eq_nil sent_le (by omega) isBlocks
        have turn : Batches.Turn maxBlocksPerResponse path.length ⟨count, .answering since sent sent⟩
            ⟨count, .answered since sent⟩ := .mark
        refine ⟨_, turn, turn.fits fits, .inl ⟨copies, ?_, ?_⟩⟩
        · dsimp only
          rw [course_eq]
          exact offers.wrote (by simp) closed task
        · dsimp only
          rw [course_eq]
          rw [show right.node.localNode.chain = chain from offers.chain_eq] at encoded
          refine ⟨met, busy, accepted, wrote, ⟨syncFrames right.course.written, payload, encoded, ?_,
            carried⟩, ?_⟩
          · rw [syncFrames_append]
            rfl
          · rw [show (right.answer now).connection.task = task from congrArg Course.task course_eq]
            exact quiet

/-- **A request** is answered with the next batch. -/
theorem exists_serve {left right : Session} (grounds : Grounds chain path branch ⟨left, right⟩)
    (fits : Batches.Fits maxBlocksPerResponse path.length state)
    (copying : Copying chain path ⟨left, right⟩ state)
    (reading : right.connection.task = .reading) {frame : Frame} {rest : List Frame}
    (arrives : left.connection.written = frame :: rest)
    (synchronizes : frame.messageType.synchronizes = true) (now : Time)
    (faults : List Transactions.Fault) :
    ∃ next, Batches.Turn maxBlocksPerResponse path.length state next ∧
      Stands chain path ⟨left.withWritten rest, right.deliver frame now faults⟩ next := by
  obtain ⟨copies, offers, underWay⟩ := copying
  dsimp only at copies offers underWay
  obtain ⟨-, first, same⟩ := (Session.course_withWritten arrives).resolve_left fun isReject => by
    rw [isReject.1] at synchronizes
    cases synchronizes
  have busy : syncFrames left.course.written ≠ [] := by
    rw [first, syncFrames_cons synchronizes]
    exact List.cons_ne_nil _ _
  obtain ⟨count, stage⟩ := state
  cases stage with
  | waiting => exact absurd underWay.2.2.1 busy
  | answering since sent last => exact absurd underWay.2.2.2.1 busy
  | answered since last => exact absurd underWay.2.2.2.1 busy
  | complete => exact absurd underWay.2.2.1 busy
  | broken => exact underWay.elim
  | asked =>
      obtain ⟨met, outstanding, accepted, ⟨locator, payload, located, encoded, written⟩, none, -⟩ :=
        underWay
      rw [first, syncFrames_cons synchronizes] at written
      obtain ⟨rfl, later⟩ := List.cons.inj written
      obtain ⟨closed, task, course_eq, answers⟩ := Session.deliver_request reading offers.chain_eq
        grounds.refines grounds.ends copies.copied grounds.sound.left.chain_reachable.refines located
        encoded now faults
      have task_eq : (right.deliver ⟨.getBlocks, payload⟩ now faults).connection.task = task :=
        congrArg Course.task course_eq
      have turn : Batches.Turn maxBlocksPerResponse path.length ⟨count, .asked⟩
          ⟨count, .answering count count (min (count + maxBlocksPerResponse) path.length)⟩ :=
        .serve count
      refine ⟨_, turn, turn.fits fits, .inl ⟨?_, ?_, ?_⟩⟩
      · dsimp only
        rw [same]
        exact ⟨copies.copied, copies.queued, copies.unasked⟩
      · dsimp only
        rw [course_eq]
        exact offers.ending closed task
      · dsimp only
        rw [course_eq, task_eq, same]
        refine ⟨met, outstanding, by rw [accepted, zero_add], later, ?_, ?_⟩
        · dsimp only
          rw [none, slice_self]
          exact .nil
        · rcases answers with ended | answering
          · exact .inl ended
          · rw [answering]
            exact .inr rfl

/-- The HELLO of the end that catches up claims no more work than the chain has, so nothing is
asked for. -/
theorem exists_welcome {left right : Session} (grounds : Grounds chain path branch ⟨left, right⟩)
    (fits : Batches.Fits maxBlocksPerResponse path.length state)
    (copying : Copying chain path ⟨left, right⟩ state)
    (waiting : right.connection.task = .handshaking) {payload : Bytes} {rest : List Frame}
    {hello : Hello} (arrives : left.connection.written = ⟨.hello, payload⟩ :: rest)
    (decoded : Hello.fromBytes payload = .ok hello)
    (honest : hello.cumulativeWork ≤ left.node.localNode.chain.cumulativeWork) (now : Time)
    (faults : List Transactions.Fault) :
    ∃ next, Batches.Turn maxBlocksPerResponse path.length state next ∧
      Stands chain path ⟨left.withWritten rest, right.deliver ⟨.hello, payload⟩ now faults⟩ next := by
  obtain ⟨copies, offers, -⟩ := id copying
  dsimp only at copies offers
  have isChain : right.node.localNode.chain = chain := offers.chain_eq
  have light : hello.cumulativeWork ≤ right.node.localNode.chain.cumulativeWork := by
    have apart : ¬ left.node.localNode.chain.Collide chain := by
      rw [← isChain]
      exact grounds.apart
    rw [isChain]
    exact honest.trans (copies.copied.work_le grounds.ends grounds.refines
      grounds.sound.left.chain_reachable apart)
  obtain ⟨met, closed, task, course_eq, unasked⟩ :=
    Session.deliver_welcome waiting decoded light now faults
  have restsRead := Session.withWritten_rests copies.queued arrives rfl
  refine exists_rest ⟨left.withWritten rest, _⟩ fits copying restsRead (.refl _) ?_ ?_ ?_
  · dsimp only
    rw [course_eq]
    exact ⟨offers.chain_eq, offers.queued, offers.claims⟩
  · dsimp only
    rw [course_eq]
  · dsimp only
    rw [waiting]
    exact .inr ⟨by simp, (congrArg (fun course => course.task.answers) course_eq).trans unasked⟩

/-- **What happens at the offering end** is a turn of the transfer. -/
theorem ActsAlone.offers {left right left' right' : Session}
    (acts : ActsAlone ⟨right, left⟩ ⟨right', left'⟩)
    (grounds : Grounds chain path branch ⟨left, right⟩)
    (represents : Represents ⟨left, right⟩ pair) (orderly : pair.Orderly)
    (stands : Stands chain path ⟨left, right⟩ state) :
    ∃ next, Batches.Turn maxBlocksPerResponse path.length state next ∧
      Stands chain path ⟨left', right'⟩ next := by
  obtain ⟨fits, copying | ⟨-, hasEnded⟩⟩ := stands
  · have copies := copying.copies
    have offers := copying.offers
    have restsLeft : left.course.Rests left.course := .refl copies.queued
    -- What leaves the synchronization alone at both ends.
    have quiet : left.course.Rests left'.course → left'.connection.task = left.connection.task →
        right.course.Rests right'.course → right.connection.task.Keeps right'.connection.task →
        ∃ next, Batches.Turn maxBlocksPerResponse path.length state next ∧
          Stands chain path ⟨left', right'⟩ next := by
      intro rests task_eq rests' keeps'
      refine exists_rest ⟨left', right'⟩ fits copying rests ?_ (offers.rests rests')
        rests'.written_eq keeps'
      dsimp only
      rw [task_eq]
      exact .refl _
    cases acts with
    | event event noFrame noBlock =>
        by_cases answers : ∃ now blocks, event = .answer now ∧ right.connection.task = .answering blocks
        · obtain ⟨now, blocks, rfl, answering⟩ := answers
          exact exists_answer fits copying answering now
        · have noAnswer : ∀ now, event = .answer now →
              ∀ blocks, right.connection.task ≠ .answering blocks :=
            fun now isAnswer blocks answering => answers ⟨now, blocks, isAnswer, answering⟩
          exact quiet restsLeft rfl
            (Session.step_rests grounds.sound.right offers.queued noFrame noBlock noAnswer)
            (Session.step_keeps noFrame noAnswer)
    | @read _ _ frame rest now faults awaits arrives =>
        have greets := represents.swap.greets orderly.symm
        cases synchronizes : frame.messageType.synchronizes with
        | true =>
            have notReject : frame.messageType ≠ .reject := by
              intro isReject
              rw [isReject] at synchronizes
              cases synchronizes
            rcases represents.swap.next_frame orderly.symm arrives notReject awaits with
              ⟨-, hello, isHello, -⟩ | ⟨reading, -⟩
            · rw [isHello] at synchronizes
              cases synchronizes
            · exact exists_serve grounds fits copying reading arrives synchronizes now faults
        | false =>
            have restsRead := Session.withWritten_rests copies.queued arrives synchronizes
            rcases awaits with waiting | reading
            · by_cases isHello : frame.messageType = .hello
              · have notReject : frame.messageType ≠ .reject := by
                  rw [isHello]
                  decide
                rcases represents.swap.next_frame orderly.symm arrives notReject (.inl waiting) with
                  ⟨-, hello, -, decoded, -, -, honest⟩ | ⟨reading, -⟩
                · obtain ⟨messageType, payload⟩ := frame
                  dsimp only at isHello
                  subst isHello
                  exact exists_welcome grounds fits copying waiting arrives decoded honest now faults
                · exact absurd (waiting.symm.trans reading) (by simp)
              · obtain ⟨course_eq, ended⟩ := Session.deliver_uninvited waiting isHello now faults
                refine quiet restsRead rfl ?_ (.inl ended)
                rw [course_eq]
                exact (Course.Rests.refl offers.queued).ending _ _
            · obtain ⟨rests, keeps⟩ :=
                Session.deliver_rests synchronizes offers.queued reading now faults
              exact quiet restsRead rfl rests keeps
    | ended now _ =>
        exact quiet restsLeft rfl (Session.fail_rests (.refl offers.queued) _ now)
          (.inl (Session.task_fail _ now _))
  · refine exists_broken ⟨left', right'⟩ fits ?_
    cases acts with
    | event => exact hasEnded
    | read => exact hasEnded
    | ended => exact hasEnded

/-! ## Whole runs -/

/-- **Steps are turns of a transfer.** -/
theorem copying_simulation (ends : chain.BranchTo chain.activeTipHash chain.tipEntry path branch)
    (refines : chain.Refines) :
    Simulation StepAlone (Batches.Turn maxBlocksPerResponse path.length)
      (fun conversation state => conversation.Reachable ∧ Stands chain path conversation state)
      Reachable Collides where
  keeps step reachable := reachable.tail step.step
  stays step reachable collides := step.step.collides reachable.exists_pair.1 collides
  matched {before after state} step related apart := by
    obtain ⟨reachable, stands⟩ := related
    obtain ⟨sound, collides | ⟨_, pair, _, _, represents, orderly⟩⟩ := reachable.exists_pair
    · exact absurd collides apart
    have grounds : Grounds chain path branch before := ⟨sound, apart, ends, refines⟩
    rcases step with acts | acts
    · obtain ⟨next, turn, stands'⟩ := acts.copies grounds represents orderly stands
      exact ⟨next, turn, reachable.tail (.inl acts.acts), stands'⟩
    · obtain ⟨next, turn, stands'⟩ := ActsAlone.offers acts grounds represents orderly stands
      exact ⟨next, turn, reachable.tail (.inr acts.acts), stands'⟩

/-- A connection was just made, and the tip of the left node is on the active chain of the right
one. -/
structure CatchesUp (start : Conversation) : Prop where
  left : Opened start.left
  right : Opened start.right
  behind : ∃ ids, start.right.node.localNode.chain.activeHashes = .ok ids ∧
    start.left.node.localNode.chain.activeTipHash ∈ ids

/-- Every conversation of such nodes is a transfer. -/
theorem CatchesUp.exists_state {start : Conversation} (catchesUp : start.CatchesUp)
    (run : Relation.ReflTransGen StepAlone start conversation) :
    conversation.Reachable ∧ (conversation.Collides ∨ ∃ chain path branch state,
      chain.BranchTo chain.activeTipHash chain.tipEntry path branch ∧
        Stands chain path conversation state) := by
  obtain ⟨left, right, ids, idsOk, member⟩ := catchesUp
  have refines := right.reachable.invariant.chain_reachable.refines
  obtain ⟨path, branch, ends⟩ :=
    refines.exists_branch start.right.node.localNode.chain.tipEntry_stored
  have sameIds := Chain.activeHashes_eq refines ends.lineage
  rw [idsOk] at sameIds
  rw [Except.ok.inj sameIds] at member
  obtain ⟨position, found⟩ := List.mem_iff_getElem?.mp member
  rw [List.getElem?_map, Option.map_eq_some_iff] at found
  obtain ⟨⟨hash, entry⟩, here, isTip⟩ := found
  dsimp only at isTip
  subst isTip
  have within := (List.getElem?_eq_some_iff.mp here).1
  have reachable : start.Reachable := ⟨start, left, right, .refl⟩
  have stands : Stands start.right.node.localNode.chain path start ⟨position + 1, .waiting⟩ := by
    refine ⟨⟨within, trivial⟩, .inl ⟨⟨⟨position, entry, rfl, here⟩, ?_, ?_⟩, ⟨rfl, ?_, ?_⟩, ?_⟩⟩
    all_goals
      obtain ⟨_, _, _, isNew⟩ := left.fresh
      obtain ⟨_, _, _, isNew'⟩ := right.fresh
    · simp [Course.QueuesTransactions, Session.course, isNew, PeerConnection.new]
    · simp [Session.course, isNew, PeerConnection.new, Task.answers]
    · simp [Course.QueuesTransactions, Session.course, isNew', PeerConnection.new]
    · simp [Session.course, isNew', PeerConnection.new, Session.withoutRejects]
    · simp [UnderWay, Session.course, isNew, isNew', PeerConnection.new, Session.withoutRejects,
        syncFrames, Task.answers]
  obtain ⟨reachable', broken | ⟨state, -, -, stands'⟩⟩ :=
    (copying_simulation ends refines).run run reachable ⟨reachable, stands⟩
  · exact ⟨reachable', .inl broken⟩
  · exact ⟨reachable', .inr ⟨_, path, branch, state, ends, stands'⟩⟩

omit [Platform] in
theorem meeting_catchesUp : @CatchesUp asciiPlatform meeting := by
  have behind : ((@Chain.activeHashes asciiPlatform advancedNode.chain).toOption.any fun ids =>
      decide (genesisNode.chain.activeTipHash ∈ ids)) = true := by
    decide +kernel
  obtain ⟨ids, found, member⟩ := (Option.any_eq_true _ _).mp behind
  refine @CatchesUp.mk asciiPlatform _ meeting_opened.1 meeting_opened.2 ⟨ids, ?_, of_decide_eq_true member⟩
  change @Chain.activeHashes asciiPlatform advancedNode.chain = .ok ids
  cases outcome : @Chain.activeHashes asciiPlatform advancedNode.chain with
  | error e =>
      rw [outcome] at found
      cases found
  | ok ids' =>
      rw [outcome] at found
      cases found
      rfl

/-! ## Catching up -/

/-- **A node that catches up has caught up** once nothing is under way. -/
theorem CatchesUp.same_tip {start : Conversation} (catchesUp : start.CatchesUp)
    (run : Relation.ReflTransGen StepAlone start conversation) (quiet : conversation.Quiet) :
    conversation.Collides ∨ conversation.left.node.localNode.chain.activeTipHash =
      conversation.right.node.localNode.chain.activeTipHash := by
  obtain ⟨reachable, collides | ⟨chain, path, branch, state, ends, fits, copying | ⟨-, hasEnded⟩⟩⟩ :=
    catchesUp.exists_state run
  · exact .inl collides
  · obtain ⟨-, collides | ⟨_, pair, _, _, represents, orderly⟩⟩ := reachable.exists_pair
    · exact .inl collides
    right
    obtain ⟨⟨reading, -, -, wrote⟩, ⟨reading', -, -, wrote'⟩⟩ := quiet
    have met := (represents.greets orderly).2 reading
    have none_written : syncFrames conversation.left.course.written = [] := by
      simp [Session.course, wrote, Session.withoutRejects, syncFrames]
    have none_arriving : syncFrames conversation.right.course.written = [] := by
      simp [Session.course, wrote', Session.withoutRejects, syncFrames]
    obtain ⟨copies, offers, underWay⟩ := copying
    rw [none_arriving, reading'] at underWay
    obtain ⟨count, stage⟩ := state
    cases stage with
    | waiting => exact absurd underWay.1 met
    | asked =>
        obtain ⟨-, -, -, ⟨locator, payload, -, -, written⟩, -⟩ := underWay
        rw [none_written] at written
        cases written
    | answering since sent last =>
        obtain ⟨-, -, -, -, -, ended | answering⟩ := underWay
        · cases ended
        · cases answering
    | answered since last =>
        obtain ⟨-, -, -, -, ⟨frames, payload, -, isMarked, -⟩, -⟩ := underWay
        exact absurd isMarked.symm (by simp)
    | broken => exact underWay.elim
    | complete =>
        have complete : count = path.length := fits.2
        have isRight : conversation.right.node.localNode.chain = chain := offers.chain_eq
        rw [isRight]
        exact copies.copied.tip_eq ends complete
  · rw [quiet.1.reading] at hasEnded
    cases hasEnded

omit [Platform] in
/-- Both nodes have the block of the peer. -/
theorem same_tip_first : ∃ conversation : Conversation, conversation.Quiet ∧
    conversation.left.node.localNode.chain.activeTipHash ≠ genesisChain.activeTipHash ∧
    (@Collides asciiPlatform conversation ∨ conversation.left.node.localNode.chain.activeTipHash =
      conversation.right.node.localNode.chain.activeTipHash) := by
  obtain ⟨conversation, run, quiet, advanced⟩ := exists_transferred
  exact ⟨conversation, quiet, advanced, @CatchesUp.same_tip asciiPlatform conversation meeting
    meeting_catchesUp run quiet⟩

end Conversation

end OurCoin
