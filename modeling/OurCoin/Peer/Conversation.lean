import OurCoin.Exchange.Agreement
import OurCoin.Library.Simulation
import OurCoin.Peer.Handling
import OurCoin.Peer.Meeting

/-!
# Two honest nodes

The conversations of two nodes over one connection, for any order in which their tasks run and
whatever else both nodes do meanwhile.

* `Reachable.follows_exchange`: every conversation follows the exchange of two parties, unless
  SHA-256 has a collision among what was hashed for the blocks of both nodes.
* `Reachable.claims_honest`: so no node believes that the other one has more work than it has.
* `Run.work_eq_or_lost`: when nothing is under way, both nodes have the same work, or the heavier
  one has its work from a block that was not announced. `Announced.agreement`: provided that every
  block was announced, they have the same work.
-/

set_option autoImplicit false

namespace OurCoin

open Raising Stateful

variable [Platform]

/-- A submission loses nothing. -/
theorem Session.Submits.grows {before after : LocalNode} (submits : Session.Submits before after)
    (inv : before.Invariant) : before.chain.Grows after.chain := by
  rcases submits with rfl | ⟨block, faults, rfl⟩ | ⟨tx, rfl⟩
  · exact .refl _
  · cases outcome : before.submitBlock block faults with
    | mk result after =>
        cases result with
        | error e =>
            have same := inv.submitBlock_error (congrArg Prod.fst outcome)
            rw [outcome] at same
            dsimp only at same ⊢
            rw [same]
            exact .refl _
        | ok update =>
            obtain ⟨_, _, -, grows, -⟩ := inv.accepted outcome
            exact grows
  · rw [before.chain_submitTransaction tx]
    exact .refl _

namespace Conversation

/-- The nodes are sound between two steps. -/
structure Sound (conversation : Conversation) : Prop where
  left : conversation.left.node.localNode.Invariant
  right : conversation.right.node.localNode.Invariant

/-- A conversation stands for two parties. -/
structure Represents (conversation : Conversation) (pair : Exchange.Pair Int) : Prop where
  left : conversation.left.course.Represents pair.left
  right : conversation.right.course.Represents pair.right

variable {conversation after : Conversation} {pair : Exchange.Pair Int}

theorem Represents.swap (represents : conversation.Represents pair) :
    conversation.swap.Represents pair.swap :=
  ⟨represents.right, represents.left⟩

theorem Sound.swap (sound : conversation.Sound) : conversation.swap.Sound := ⟨sound.right, sound.left⟩

/-! ## The nodes -/

/-- What happens at the left end is a submission to its node, and the other node rests. -/
theorem Acts.submits (acts : Acts conversation after) (sound : conversation.Sound) :
    Session.Submits conversation.left.node.localNode after.left.node.localNode ∧
      after.right.node.localNode = conversation.right.node.localNode := by
  cases acts with
  | event event _ => exact ⟨Session.step_submits sound.left event, rfl⟩
  | read now faults _ _ => exact ⟨Session.step_submits sound.left (.deliver _ now faults), rfl⟩
  | ended now _ => exact ⟨.inl (Session.localNode_fail _ now _), rfl⟩

theorem Acts.sound (acts : Acts conversation after) (sound : conversation.Sound) : after.Sound := by
  obtain ⟨submits, rests⟩ := acts.submits sound
  exact ⟨submits.invariant sound.left, rests ▸ sound.right⟩

theorem Acts.collides (acts : Acts conversation after) (sound : conversation.Sound)
    (collides : conversation.Collides) : after.Collides := by
  obtain ⟨submits, rests⟩ := acts.submits sound
  refine collides.mono (submits.grows sound.left) ?_
  rw [rests]
  exact .refl _

theorem Step.sound (step : Step conversation after) (sound : conversation.Sound) : after.Sound := by
  rcases step with acts | acts
  · exact acts.sound sound
  · exact (acts.sound sound.swap).swap

/-- A collision stays. -/
theorem Step.collides (step : Step conversation after) (sound : conversation.Sound)
    (collides : conversation.Collides) : after.Collides := by
  rcases step with acts | acts
  · exact acts.collides sound collides
  · exact (acts.collides sound.swap collides.symm).symm

/-! ## The exchange -/

/-- The next frame of an end, as the next message of its party. -/
theorem exists_message {session : Session} {party : Exchange.Party Int} {frame : Frame}
    {rest : List Frame} (represents : session.course.Represents party)
    (arrives : session.connection.written = frame :: rest) (notReject : frame.messageType ≠ .reject) :
    ∃ message messages, party.sent = message :: messages ∧
      Shows session.node.localNode.chain frame message ∧
      (session.withWritten rest).course.Represents { party with sent := messages } := by
  cases represents with
  | @intro queue sent invariant answers queued wrote =>
      have frames : session.course.written = frame :: Session.withoutRejects rest := by
        rw [Session.course]
        dsimp only
        rw [arrives]
        simp [Session.withoutRejects, notReject]
      rw [frames] at wrote
      cases wrote with
      | cons first rest' =>
          exact ⟨_, _, rfl, first, .of_eq rfl invariant answers queued rest'⟩

/-- A rejection is no message. -/
theorem represents_withWritten {session : Session} {party : Exchange.Party Int} {frame : Frame}
    {rest : List Frame} (represents : session.course.Represents party)
    (arrives : session.connection.written = frame :: rest) (isReject : frame.messageType = .reject) :
    (session.withWritten rest).course.Represents party := by
  have same : (session.withWritten rest).course = session.course := by
    simp [Session.course, Session.withWritten, arrives, Session.withoutRejects, isReject]
  rw [same]
  exact represents

/-- **What happens at the left end**, the left party can do. -/
theorem Acts.matched (acts : Acts conversation after) (represents : conversation.Represents pair)
    (orderly : pair.Orderly) (apart : ¬ conversation.Collides) :
    ∃ next, Exchange.Acts pair next ∧ after.Represents next := by
  obtain ⟨left, right⟩ := represents
  cases acts with
  | event event noFrame =>
      obtain ⟨party, moves, left'⟩ := left.step event noFrame
      exact ⟨⟨party, pair.right⟩, .act moves, left', right⟩
  | @read session other frame rest now faults awaits arrives =>
      by_cases isReject : frame.messageType = .reject
      · obtain ⟨party, moves, left'⟩ := left.deliverReject isReject awaits now faults
        exact ⟨⟨party, pair.right⟩, .act moves, left', represents_withWritten right arrives isReject⟩
      · obtain ⟨message, messages, sent, meaning, right'⟩ := exists_message right arrives isReject
        have idle : pair.left.phase = .handshaking → pair.left.outstanding = false :=
          fun greeting => (orderly.1.greets.unmet (.inr greeting)).2.2
        obtain ⟨party, moves, left'⟩ := left.deliver idle right.invariant.chain_reachable.refines
          apart meaning awaits now faults
        have waits : pair.left.phase = .handshaking ∨ pair.left.phase = .reading :=
          awaits.imp (fun greeting => left.phase_eq.trans (congrArg Task.phase greeting))
            fun reading => left.phase_eq.trans (congrArg Task.phase reading)
        exact ⟨⟨party, { pair.right with sent := messages }⟩, .receive sent waits moves, left', right'⟩
  | ended now _ =>
      obtain ⟨party, moves, left'⟩ := left.raises (Course.Lasts.refl left.invariant) _ now none
      exact ⟨⟨party, pair.right⟩, .act moves, left', right⟩

/-- **Every step** is a move of one of the parties. -/
theorem Step.matched (step : Step conversation after) (represents : conversation.Represents pair)
    (orderly : pair.Orderly) (apart : ¬ conversation.Collides) :
    ∃ next, Exchange.Turns pair next ∧ after.Represents next := by
  rcases step with acts | acts
  · obtain ⟨next, moved, represents'⟩ := acts.matched represents orderly apart
    exact ⟨next, .inl moved, represents'⟩
  · obtain ⟨next, moved, represents'⟩ :=
      acts.matched represents.swap orderly.symm fun collides => apart collides.symm
    exact ⟨next.swap, .inr moved, represents'.swap⟩

/-! ## Runs -/

/-- A connection that was just made stands for a party that did nothing yet. -/
theorem Opened.exists_fresh {session : Session} (opened : Opened session) :
    ∃ party, session.course.Represents party ∧ party.Fresh := by
  obtain ⟨node, connection⟩ := session
  obtain ⟨reachable, key, host, outbound, rfl⟩ := opened
  refine ⟨_, @Course.Represents.intro _ _ [] [] reachable.invariant ?_ .nil .nil,
    rfl, rfl, rfl, rfl, rfl, rfl⟩
  exact Course.answersStored_of_task fun _ => Task.noConfusion

theorem sound_of_opened (left : Opened conversation.left) (right : Opened conversation.right) :
    conversation.Sound :=
  ⟨left.reachable.invariant, right.reachable.invariant⟩

/-- Steps are simulated by moves. -/
theorem simulation : Simulation Step Exchange.Turns
    (fun conversation pair => conversation.Represents pair ∧ pair.Orderly) Sound Collides where
  keeps step sound := step.sound sound
  stays step sound collides := step.collides sound collides
  matched step related apart := by
    obtain ⟨next, moved, represents⟩ := step.matched related.1 related.2 apart
    exact ⟨next, moved, represents, moved.orderly related.2⟩

/-- A reachable conversation stands for a pair that two parties can reach. -/
theorem Reachable.exists_pair (reachable : conversation.Reachable) : conversation.Sound ∧
    (conversation.Collides ∨ ∃ start pair : Exchange.Pair Int, (start.left.Fresh ∧ start.right.Fresh) ∧
      Relation.ReflTransGen Exchange.Turns start pair ∧ conversation.Represents pair ∧
      pair.Orderly) := by
  obtain ⟨start, left, right, steps⟩ := reachable
  obtain ⟨leftParty, leftRepresents, leftFresh⟩ := left.exists_fresh
  obtain ⟨rightParty, rightRepresents, rightFresh⟩ := right.exists_fresh
  have related : start.Represents ⟨leftParty, rightParty⟩ ∧
      Exchange.Pair.Orderly ⟨leftParty, rightParty⟩ :=
    ⟨⟨leftRepresents, rightRepresents⟩, .of_fresh leftFresh rightFresh, .of_fresh rightFresh leftFresh⟩
  obtain ⟨sound, broken | ⟨pair, moves, represents, orderly⟩⟩ :=
    simulation.run steps (sound_of_opened left right) related
  · exact ⟨sound, .inl broken⟩
  · exact ⟨sound, .inr ⟨_, pair, ⟨leftFresh, rightFresh⟩, moves, represents, orderly⟩⟩

/-- **Every conversation follows the exchange** of two parties, unless SHA-256 collides on what
was hashed for the blocks of the nodes. -/
theorem Reachable.follows_exchange (reachable : conversation.Reachable) :
    conversation.Collides ∨ ∃ start pair : Exchange.Pair Int,
      (start.left.Fresh ∧ start.right.Fresh) ∧ Relation.ReflTransGen Exchange.Turns start pair ∧
      conversation.Represents pair := by
  obtain ⟨-, collides | ⟨start, pair, fresh, moves, represents, -⟩⟩ := reachable.exists_pair
  · exact .inl collides
  · exact .inr ⟨start, pair, fresh, moves, represents⟩

omit [Platform] in
/-- A node fetches the block of the other one. -/
theorem follows_exchange_transfer : ∃ conversation : Conversation,
    Relation.ReflTransGen (@StepAlone asciiPlatform) meeting conversation ∧
    conversation.left.node.localNode.chain.activeTipHash ≠ genesisChain.activeTipHash ∧
    (@Collides asciiPlatform conversation ∨
      ∃ start pair : Exchange.Pair Int, (start.left.Fresh ∧ start.right.Fresh) ∧
        Relation.ReflTransGen Exchange.Turns start pair ∧
        @Represents asciiPlatform conversation pair) := by
  obtain ⟨conversation, run, -, advanced⟩ := exists_transferred
  have announced := meeting_announced run
  exact ⟨conversation, run, advanced, @Reachable.follows_exchange asciiPlatform _
    (@Announced.reachable asciiPlatform _ announced)⟩

/-- The next frame is a HELLO with a true claim, or the handshake is over and it is none. -/
theorem Represents.next_frame (represents : conversation.Represents pair) (orderly : pair.Orderly)
    {frame : Frame} {rest : List Frame}
    (arrives : conversation.right.connection.written = frame :: rest)
    (notReject : frame.messageType ≠ .reject) (awaits : conversation.left.Awaits) :
    (conversation.left.connection.task = .handshaking ∧ ∃ hello, frame.messageType = .hello ∧
      Hello.fromBytes frame.payload = .ok hello ∧ hello.chainId = testnet.chainId ∧
      hello.genesisHash = genesisHash ∧
      hello.cumulativeWork ≤ conversation.right.node.localNode.chain.cumulativeWork) ∨
    conversation.left.connection.task = .reading ∧ frame.messageType ≠ .hello := by
  obtain ⟨message, messages, sent, meaning, -⟩ := exists_message represents.right arrives notReject
  have phase_eq := represents.left.phase_eq
  have waits : pair.left.phase = .handshaking ∨ pair.left.phase = .reading :=
    awaits.imp (fun greeting => phase_eq.trans (congrArg Task.phase greeting))
      fun reading => phase_eq.trans (congrArg Task.phase reading)
  have expects := orderly.expects sent waits
  rcases awaits with greeting | reading
  · obtain ⟨work, isHello⟩ := expects.hello.mp (phase_eq.trans (congrArg Task.phase greeting))
    subst isHello
    have honest := orderly.2.claims.sent_le (.hello work) (by simp [sent]) work rfl
    rw [represents.right.work_eq] at honest
    cases meaning with
    | @hello payload hello decoded chainId genesis =>
        exact .inl ⟨greeting, hello, rfl, decoded, chainId, genesis, honest⟩
  · refine .inr ⟨reading, fun isHello => ?_⟩
    have position : pair.left.phase = .reading := phase_eq.trans (congrArg Task.phase reading)
    cases meaning with
    | hello => exact absurd (position.symm.trans (expects.hello.mpr ⟨_, rfl⟩)) (by simp)
    | _ => cases isHello

/-- Before the handshake nothing is asked for, and after it the peer is known. -/
theorem Represents.greets (represents : conversation.Represents pair) (orderly : pair.Orderly) :
    (conversation.left.connection.task = .handshaking →
      conversation.left.course.hello = none ∧ conversation.left.course.outstanding = false) ∧
    (conversation.left.connection.task = .reading → conversation.left.course.hello ≠ none) := by
  obtain ⟨unmet, met, -⟩ := orderly.1.greets
  have phase_eq := represents.left.phase_eq
  have peerWork_eq := represents.left.peerWork_eq
  constructor
  · intro greeting
    obtain ⟨-, unknown, idle⟩ := unmet (.inr (phase_eq.trans (congrArg Task.phase greeting)))
    rw [peerWork_eq, Option.map_eq_none_iff] at unknown
    exact ⟨unknown, represents.left.outstanding_eq.symm.trans idle⟩
  · intro reading unknown
    apply met (.inl (phase_eq.trans (congrArg Task.phase reading)))
    rw [peerWork_eq, unknown]
    rfl

/-! ## Claims -/

/-- What a node knows of the work of its peer is no more than the peer has. -/
def Believes (session other : Session) : Prop :=
  ∀ hello, session.connection.hello = some hello → session.connection.task ≠ .ended →
    hello.cumulativeWork ≤ other.node.localNode.chain.cumulativeWork

theorem Represents.believes (represents : conversation.Represents pair) (orderly : pair.Orderly) :
    Believes conversation.left conversation.right := by
  intro hello met notEnded
  have known : pair.left.peerWork = some hello.cumulativeWork := by
    rw [represents.left.peerWork_eq]
    exact congrArg (Option.map Hello.cumulativeWork) met
  have running : pair.left.phase ≠ .ended := by
    rw [represents.left.phase_eq]
    intro ended
    cases task : conversation.left.connection.task with
    | ended => exact notEnded task
    | _ =>
        rw [show conversation.left.course.task = _ from task] at ended
        cases ended
  obtain ⟨honest, -⟩ := orderly.2.claims.advertised running _ known
  rwa [represents.right.work_eq] at honest

/-- **Claims are honest**: no node believes that its peer has more work than it has. -/
theorem Reachable.claims_honest (reachable : conversation.Reachable) :
    conversation.Collides ∨
      Believes conversation.left conversation.right ∧ Believes conversation.right conversation.left := by
  obtain ⟨-, collides | ⟨-, pair, -, -, represents, orderly⟩⟩ := reachable.exists_pair
  · exact .inl collides
  · exact .inr ⟨represents.believes orderly, represents.swap.believes orderly.symm⟩

omit [Platform] in
theorem claims_honest_transfer : ∃ conversation : Conversation,
    Relation.ReflTransGen (@StepAlone asciiPlatform) meeting conversation ∧ conversation.Quiet ∧
    conversation.left.node.localNode.chain.activeTipHash ≠ genesisChain.activeTipHash ∧
    (@Collides asciiPlatform conversation ∨ Believes conversation.left conversation.right ∧
      Believes conversation.right conversation.left) := by
  obtain ⟨conversation, run, quiet, advanced⟩ := exists_transferred
  have reachable := @Announced.reachable asciiPlatform _ (meeting_announced run)
  exact ⟨conversation, run, quiet, advanced, @Reachable.claims_honest asciiPlatform _ reachable⟩

/-! ## Agreement -/

/-- What is announced between the nodes is announced between their parties. -/
theorem LeftUnannounced.of_represents {next : Exchange.Pair Int}
    (represents : conversation.Represents pair) (represents' : after.Represents next)
    (unannounced : pair.LeftUnannounced next) : conversation.LeftUnannounced after := by
  obtain ⟨greeting, grows, heavier, idle⟩ := unannounced
  rw [represents.left.work_eq, represents'.left.work_eq] at grows
  rw [represents.right.work_eq, represents'.left.work_eq] at heavier
  rw [represents.right.outstanding_eq] at idle
  rw [represents.left.phase_eq] at greeting
  refine ⟨?_, grows, heavier, idle⟩
  cases task : conversation.left.connection.task with
  | handshaking => rfl
  | _ =>
      have position : conversation.left.course.task = _ := task
      rw [position] at greeting
      cases greeting

/-- The states of a run stand for parties that inform each other, but for what was lost. -/
theorem Run.exists_informed {earlier : List Conversation} (run : Run (conversation :: earlier)) :
    conversation.Collides ∨ ∃ pair : Exchange.Pair Int, conversation.Represents pair ∧
      pair.Orderly ∧ pair.Informed (LeftLost (conversation :: earlier))
        (RightLost (conversation :: earlier)) := by
  generalize isRun : conversation :: earlier = states at run
  induction run generalizing conversation earlier with
  | opened left right =>
      cases isRun
      obtain ⟨leftParty, leftRepresents, leftFresh⟩ := left.exists_fresh
      obtain ⟨rightParty, rightRepresents, rightFresh⟩ := right.exists_fresh
      exact .inr ⟨⟨leftParty, rightParty⟩, ⟨leftRepresents, rightRepresents⟩,
        ⟨.of_fresh leftFresh rightFresh, .of_fresh rightFresh leftFresh⟩,
        .of_fresh leftFresh rightFresh⟩
  | @step before _ earlier run step ih =>
      cases isRun
      have sound := run.reachable.exists_pair.1
      by_cases collides : before.Collides
      · exact .inl (step.collides sound collides)
      obtain ⟨pair, represents, orderly, informed⟩ := (ih rfl).resolve_left collides
      obtain ⟨next, moved, represents'⟩ := step.matched represents orderly collides
      refine .inr ⟨next, represents', moved.orderly orderly, moved.informed orderly ?_ ?_ ?_ ?_ informed⟩
      · exact fun unannounced => .inl (LeftUnannounced.of_represents represents represents' unannounced)
      · exact fun unannounced =>
          .inl (LeftUnannounced.of_represents represents.swap represents'.swap unannounced)
      · intro lost same
        rw [represents'.left.work_eq, represents.left.work_eq] at same
        exact .inr ⟨lost, same⟩
      · intro lost same
        rw [represents'.right.work_eq, represents.right.work_eq] at same
        exact .inr ⟨lost, same⟩

/-- An end at rest stands for a party with nothing under way. -/
theorem AtRest.still {session : Session} {party : Exchange.Party Int} (rest : AtRest session)
    (represents : session.course.Represents party) : party.phase = .reading ∧
      party.closed = false ∧ party.sent = [] ∧ party.queue = [] := by
  obtain ⟨reading, isOpen, unqueued, unwritten⟩ := rest
  cases represents with
  | intro _ _ queued wrote =>
      rw [show session.course.pendingSends = [] from unqueued] at queued
      rw [show session.course.written = [] by simp [Session.course, unwritten,
        Session.withoutRejects]] at wrote
      cases queued
      cases wrote
      exact ⟨congrArg Task.phase reading, isOpen, rfl, rfl⟩

/-- When nothing is under way between two nodes, the heavier one is the one whose work was lost. -/
theorem Represents.compare (represents : conversation.Represents pair) {lostLeft lostRight : Prop}
    (informed : pair.Informed lostLeft lostRight) (quiet : conversation.Quiet) :
    conversation.left.node.localNode.chain.cumulativeWork =
        conversation.right.node.localNode.chain.cumulativeWork ∨
      (conversation.right.node.localNode.chain.cumulativeWork <
        conversation.left.node.localNode.chain.cumulativeWork ∧ lostLeft) ∨
      conversation.left.node.localNode.chain.cumulativeWork <
        conversation.right.node.localNode.chain.cumulativeWork ∧ lostRight := by
  obtain ⟨leftReading, leftOpen, leftSent, leftQueue⟩ := quiet.1.still represents.left
  obtain ⟨rightReading, rightOpen, rightSent, rightQueue⟩ := quiet.2.still represents.right
  have compared := informed.compare ⟨leftReading, rightReading, leftOpen, rightOpen, leftSent,
    rightSent, leftQueue, rightQueue⟩
  rwa [represents.left.work_eq, represents.right.work_eq] at compared

/-- **Agreement in every run**: when nothing is under way between two nodes, their chains have the
same work, or the heavier node accepted its last block unannounced. -/
theorem Run.work_eq_or_lost {earlier : List Conversation} (run : Run (conversation :: earlier))
    (quiet : conversation.Quiet) : conversation.Collides ∨
      conversation.left.node.localNode.chain.cumulativeWork =
        conversation.right.node.localNode.chain.cumulativeWork ∨
      (conversation.right.node.localNode.chain.cumulativeWork <
        conversation.left.node.localNode.chain.cumulativeWork ∧ LeftLost (conversation :: earlier)) ∨
      conversation.left.node.localNode.chain.cumulativeWork <
        conversation.right.node.localNode.chain.cumulativeWork ∧
          RightLost (conversation :: earlier) := by
  obtain collides | ⟨pair, represents, -, informed⟩ := run.exists_informed
  · exact .inl collides
  · exact .inr (represents.compare informed quiet)

omit [Platform] in
theorem work_eq_or_lost_transfer : ∃ (conversation : Conversation) (earlier : List Conversation),
    @Run asciiPlatform (conversation :: earlier) ∧ conversation.Quiet ∧
    conversation.left.node.localNode.chain.activeTipHash ≠ genesisChain.activeTipHash ∧
    (@Collides asciiPlatform conversation ∨
      conversation.left.node.localNode.chain.cumulativeWork =
        conversation.right.node.localNode.chain.cumulativeWork ∨
      (conversation.right.node.localNode.chain.cumulativeWork <
        conversation.left.node.localNode.chain.cumulativeWork ∧ LeftLost (conversation :: earlier)) ∨
      conversation.left.node.localNode.chain.cumulativeWork <
        conversation.right.node.localNode.chain.cumulativeWork ∧
          RightLost (conversation :: earlier)) := by
  obtain ⟨conversation, steps, quiet, advanced⟩ := exists_transferred
  obtain ⟨earlier, run, -⟩ := @Announced.exists_run asciiPlatform _ (meeting_announced steps)
  exact ⟨conversation, earlier, run, quiet, advanced,
    @Run.work_eq_or_lost asciiPlatform conversation earlier run quiet⟩

omit [Platform] in
/-- Nodes at rest can have different work. -/
theorem quiet_disagrees : ¬ ∀ conversation : Conversation,
    @Reachable asciiPlatform conversation → conversation.Quiet →
      conversation.left.node.localNode.chain.cumulativeWork =
        conversation.right.node.localNode.chain.cumulativeWork := by
  intro agree
  obtain ⟨conversation, earlier, run, -, quiet, heavier⟩ := exists_lost
  exact heavier.ne' (agree conversation (@Run.reachable asciiPlatform _ _ run) quiet)

/-- **Agreement**: when nothing is under way between two nodes, their chains have the same work,
provided that every block was announced. -/
theorem Announced.agreement (announced : conversation.Announced) (quiet : conversation.Quiet) :
    conversation.Collides ∨ conversation.left.node.localNode.chain.cumulativeWork =
      conversation.right.node.localNode.chain.cumulativeWork := by
  obtain ⟨earlier, run, noLeft, noRight⟩ := announced.exists_run
  obtain collides | ⟨pair, represents, -, informed⟩ := run.exists_informed
  · exact .inl collides
  · right
    rcases represents.compare informed quiet with same | ⟨-, lost⟩ | ⟨-, lost⟩
    · exact same
    · exact absurd lost noLeft
    · exact absurd lost noRight

omit [Platform] in
theorem agreement_transfer : ∃ conversation : Conversation,
    Relation.ReflTransGen (@StepAlone asciiPlatform) meeting conversation ∧ conversation.Quiet ∧
    conversation.left.node.localNode.chain.activeTipHash ≠ genesisChain.activeTipHash ∧
    (@Collides asciiPlatform conversation ∨ conversation.left.node.localNode.chain.cumulativeWork =
      conversation.right.node.localNode.chain.cumulativeWork) := by
  obtain ⟨conversation, run, quiet, advanced⟩ := exists_transferred
  exact ⟨conversation, run, quiet, advanced,
    @Announced.agreement asciiPlatform _ (meeting_announced run) quiet⟩

end Conversation

end OurCoin
