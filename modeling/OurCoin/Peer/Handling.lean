import OurCoin.Model.Conversation
import OurCoin.Peer.Parties
import OurCoin.Storage.Failures
import OurCoin.Tree.Shared

/-!
# What an honest peer makes a session do

A frame that another honest node wrote, as its receiver handles it. The chains of both nodes do
not collide, so a block that both store has one record.

* `Represents.handshake` and `Represents.handleFrame`: the party of the receiver moves as the
  message of the frame says.
* `Represents.deliver` puts this together for the frame that is read next.
-/

set_option autoImplicit false

namespace OurCoin

open Raising Stateful Exchange

variable [Platform]

/-! ## Blocks of the other chain -/

/-- A block that the chain refuses is refused by the node with the same error. -/
theorem LocalNode.Invariant.submitBlock_refused {node : LocalNode} (inv : node.Invariant)
    {block : Block} {e : Raised} (refused : node.chain.newEntry block = .error e)
    (faults : List Transactions.Fault) : (node.submitBlock block faults).1 = .error e := by
  have added : ∃ chain, node.chain.addBlock block = (.error e, chain) := by
    rw [Chain.addBlock, refused]
    exact ⟨_, rfl⟩
  obtain ⟨chain, added⟩ := added
  rw [LocalNode.submitBlock]
  cases node.storage with
  | none =>
      dsimp only
      rw [added]
  | some storage =>
      dsimp only
      rw [Chain.copy_eq inv.chain_reachable.refines.network_eq]
      dsimp only
      rw [added]

/-- A block that the chain accepts is refused by the database only. -/
theorem LocalNode.Invariant.submitBlock_spares {node : LocalNode} (inv : node.Invariant)
    {block : Block} {added : ChainEntry} (newOk : node.chain.newEntry block = .ok added) {e : Raised}
    {faults : List Transactions.Fault} (refused : (node.submitBlock block faults).1 = .error e) :
    Spares e := by
  rcases inv.chain_reachable.refines.addBlock_cases block with ⟨e', refused', -⟩ | ⟨added, -, -, run⟩ |
    ⟨added, _, _, _, _, -, -, -, run⟩
  · rw [newOk] at refused'
    cases refused'
  · exact inv.submitBlock_raises run faults e refused
  · exact inv.submitBlock_raises run faults e refused

/-- **A block of another honest node** is refused only for its parent, or by the database. -/
theorem LocalNode.Invariant.submitBlock_shared {node : LocalNode} (inv : node.Invariant)
    {other : Chain} (refines : other.Refines) (apart : ¬ node.chain.Collide other) {hash : Bytes}
    {entry : ChainEntry} (stored : other.entries.get? hash = some entry)
    (missing : node.chain.contains hash = false) {e : Raised} {faults : List Transactions.Fault}
    (refused : (node.submitBlock entry.block faults).1 = .error e) :
    e = chainError "block parent is unknown" ∨ Spares e := by
  cases known : node.chain.contains entry.block.header.previousBlockHash with
  | false =>
      have orphan := Chain.newEntry_of_orphan (refines.blockHash_ok stored) missing known
      rw [inv.submitBlock_refused orphan faults] at refused
      cases refused
      exact .inl rfl
  | true =>
      exact .inr (inv.submitBlock_spares (refines.newEntry_of_shared inv.chain_reachable.refines
        (fun collide => apart collide.symm) stored missing known) refused)

namespace Course

variable {session : Session} {party : Party Int}

/-! ## Requests -/

/-- The same party in another phase. -/
theorem Represents.setTask {course : Course} (represents : course.Represents party) {task : Task}
    (quiet : ∀ blocks, task ≠ .answering blocks) :
    { course with task }.Represents { party with phase := task.phase } := by
  cases represents with
  | intro invariant _ queued wrote =>
      exact .of_eq rfl invariant (answersStored_of_task quiet) queued wrote

/-- The locator of a node reaches the genesis block. -/
theorem locator_rooted (inv : session.node.localNode.Invariant) {locator : BlockLocator}
    (located : blockLocator session.node.localNode.chain = .ok locator) :
    genesisHash ∈ locator.hashes := by
  have refines := inv.chain_reachable.refines
  obtain ⟨path, branch, ends⟩ := refines.exists_branch session.node.localNode.chain.tipEntry_stored
  obtain ⟨hashes, positions, located', -, rooted⟩ := refines.blockLocator_ok ends
  rw [located] at located'
  cases located'
  exact rooted

/-- **A request** is not needed, fails, or is sent. -/
theorem Represents.requestBlocks (represents : session.course.Represents party) :
    (session.course.outstanding = true ∧ Session.requestBlocks session = (.ok false, session)) ∨
    (∃ e after, Session.requestBlocks session = (.error e, after) ∧ session.course.Lasts after.course) ∨
    (session.course.outstanding = false ∧ session.course.closed = false ∧
      ∃ after, Session.requestBlocks session = (.ok true, after) ∧ after.course.closed = false ∧
        after.course.Represents party.asks) := by
  rcases Session.requestBlocks_cases session with ⟨busy, outcome⟩ | ⟨idle, e, outcome⟩ |
    ⟨idle, isOpen, locator, payload, located, encoded, outcome⟩
  · exact .inl ⟨busy, outcome⟩
  · exact .inr (.inl ⟨e, _, outcome, represents.invariant, .refl _, le_rfl, rfl, rfl⟩)
  · refine .inr (.inr ⟨idle, isOpen, _, outcome, isOpen, ?_⟩)
    cases represents with
    | intro invariant answers queued wrote =>
        have meaning : Shows session.course.localNode.chain ⟨.getBlocks, payload⟩ .getBlocks :=
          .getBlocks (BlockLocator.fromBytes_toBytes encoded) (locator_rooted invariant located)
        have written : (session.requested payload).course.written =
            session.course.written ++ [⟨.getBlocks, payload⟩] := by
          simp [Session.course, Session.requested, Session.withoutRejects,
            PeerConnection.beginBlockRequest]
        refine .of_eq rfl invariant answers queued ?_
        rw [written]
        exact forall₂_concat wrote meaning

/-! ## What a stretch leads to -/

/-- A stretch that handled a frame, and returned: the task goes on if the connection is open. -/
theorem Represents.resumes (represents : session.course.Represents party) {after : Session}
    {received : Option (Message Int)}
    (closed : after.connection.closed = true → session.course.Lasts after.course)
    (goesOn : after.connection.closed = false → ∃ next,
      Moves received party { next with phase := .reading } ∧ after.course.Represents next)
    (now : Time) : (Session.resume now (.ok none, after)).course.Follows received party := by
  rw [Session.course_resume_ok]
  cases isOpen : after.connection.closed with
  | true =>
      have lasts := closed isOpen
      have ends : session.course.Lasts { after.course with task := after.nextTask none } :=
        ⟨lasts.invariant, lasts.grows, lasts.work_le, lasts.pendingSends_eq, lasts.written_eq⟩
      exact represents.fails ends (if_pos isOpen) isOpen received
  | false =>
      obtain ⟨next, moves, represents'⟩ := goesOn isOpen
      have task : after.nextTask none = .reading := if_neg (by simp [isOpen])
      rw [task]
      exact ⟨_, moves, represents'.setTask fun _ => by simp⟩

/-- **The answer of a request** to a message, unless it fails or none is sent. -/
theorem Represents.asking (represents : session.course.Represents party) {before : Session}
    {beforeParty : Party Int} (lasts : before.course.Lasts session.course)
    (earlier : before.course.Represents beforeParty) {received : Option (Message Int)}
    (busy : session.course.outstanding = true → session.course.closed = false →
      Moves received beforeParty { party with phase := .reading })
    (asks : session.course.outstanding = false → session.course.closed = false →
      Moves received beforeParty { party.asks with phase := .reading })
    (now : Time) : (Session.resume now
      ((Session.requestBlocks session).1.map fun _ => none, (Session.requestBlocks session).2)).course.Follows
        received beforeParty := by
  rcases represents.requestBlocks with ⟨outstanding, outcome⟩ | ⟨e, after, outcome, lasts'⟩ |
    ⟨idle, isOpen, after, outcome, stillOpen, represents'⟩
  · rw [outcome]
    exact earlier.resumes (fun _ => lasts)
      (fun isOpen => ⟨party, busy outstanding isOpen, represents⟩) now
  · rw [outcome]
    have both : before.course.Lasts after.course :=
      ⟨lasts'.invariant, lasts.grows.trans lasts'.grows, lasts.work_le.trans lasts'.work_le,
        lasts'.pendingSends_eq.trans lasts.pendingSends_eq, lasts'.written_eq.trans lasts.written_eq⟩
    exact earlier.raises both e now received
  · rw [outcome]
    refine earlier.resumes (fun closed => ?_) (fun _ => ⟨_, asks idle isOpen, represents'⟩) now
    exact absurd (closed.symm.trans stillOpen) (by simp)

/-! ## The greeting -/

/-- A HELLO is met, and answered with a request if it claims more work. -/
theorem Represents.handshake (represents : session.course.Represents party) {payload : Bytes}
    {hello : Hello} (decoded : Hello.fromBytes payload = .ok hello)
    (greeting : session.connection.task = .handshaking) (idle : party.outstanding = false)
    (now : Time) :
    (Session.resume now (Session.handshake ⟨.hello, payload⟩ session)).course.Follows
      (some (.hello hello.cumulativeWork)) party := by
  have lasts := Lasts.refl represents.invariant
  have phase : party.phase = .handshaking := represents.phase_eq.trans (congrArg Task.phase greeting)
  have met : (session.greeted hello).course.Represents
      { party with peerWork := some hello.cumulativeWork } := by
    cases represents with
    | intro invariant answers queued wrote => exact .of_eq rfl invariant answers queued wrote
  have lasts' : session.course.Lasts (session.greeted hello).course :=
    ⟨lasts.invariant, .refl _, le_rfl, rfl, rfl⟩
  have handled := Session.handshake_handled session ⟨.hello, payload⟩
  generalize Session.handshake ⟨.hello, payload⟩ session = outcome at handled ⊢
  cases handled with
  | refused => exact represents.raises lasts _ now _
  | light _ decoded' _ _ lighter =>
      rw [decoded] at decoded'
      cases decoded'
      refine represents.resumes (fun _ => lasts') (fun isOpen => ⟨_, ?_, met⟩) now
      exact .meet phase (represents.closed_eq.trans isOpen) (lighter.trans_eq represents.work_eq.symm)
  | heavy _ decoded' _ _ heavier request =>
      rw [decoded] at decoded'
      cases decoded'
      have asking := @Represents.asking _ _ _ met _ _ lasts' represents
        (some (.hello hello.cumulativeWork)) (fun busy _ => ?_) (fun _ isOpen => ?_) now
      · rw [request] at asking
        exact asking
      · exact absurd (idle.symm.trans (represents.outstanding_eq.trans busy)) (by simp)
      · exact .meetHeavier phase (represents.closed_eq.trans isOpen)
          (represents.work_eq.trans_lt heavier)

/-! ## Blocks -/

variable {other : Chain}

/-- A block of another honest node, as its receiver counts it. -/
theorem work_of_known (inv : session.node.localNode.Invariant) (refines : other.Refines)
    (apart : ¬ session.node.localNode.chain.Collide other) {hash : Bytes} {entry : ChainEntry}
    (stored : other.entries.get? hash = some entry)
    (known : session.node.localNode.chain.contains hash = true) :
    entry.record.cumulativeWork ≤ session.node.localNode.chain.cumulativeWork := by
  obtain ⟨entry', stored'⟩ := Chain.contains_eq_true.mp known
  rw [← inv.chain_reachable.refines.entry_eq_of_shared refines apart stored' stored]
  exact inv.chain_reachable.work_le stored'

/-- The work of the node after it accepted a block of another honest node. -/
theorem work_of_accepted (inv : session.node.localNode.Invariant) (refines : other.Refines)
    (apart : ¬ session.node.localNode.chain.Collide other) {hash : Bytes} {entry : ChainEntry}
    (stored : other.entries.get? hash = some entry)
    (missing : session.node.localNode.chain.contains hash = false) {localNode : LocalNode}
    {update : ChainUpdate} {faults : List Transactions.Fault}
    (accepted : session.node.localNode.submitBlock entry.block faults = (.ok update, localNode)) :
    localNode.Invariant ∧ session.node.localNode.chain.Grows localNode.chain ∧
      localNode.chain.cumulativeWork =
        max session.node.localNode.chain.cumulativeWork entry.record.cumulativeWork := by
  have refines' := inv.chain_reachable.refines
  obtain ⟨added, payload, invariant, grows, -, -, work, newOk, -⟩ := inv.accepted accepted
  refine ⟨invariant, grows, ?_⟩
  cases known : session.node.localNode.chain.contains entry.block.header.previousBlockHash with
  | false =>
      rw [Chain.newEntry_of_orphan (refines.blockHash_ok stored) missing known] at newOk
      cases newOk
  | true =>
      rw [refines.newEntry_of_shared refines' (fun collide => apart collide.symm) stored missing
        known] at newOk
      cases newOk
      exact work

/-- **A block is absorbed**, or asks for what is missing. -/
theorem Represents.handleBlock (represents : session.course.Represents party)
    (refines : other.Refines) (apart : ¬ session.node.localNode.chain.Collide other) {hash : Bytes}
    {entry : ChainEntry} (stored : other.entries.get? hash = some entry)
    (reading : session.connection.task = .reading) (now : Time) (faults : List Transactions.Fault) :
    (Session.resume now ((Session.handleBlock entry.block now faults session).1.map fun _ => none,
      (Session.handleBlock entry.block now faults session).2)).course.Follows
        (some (.block entry.record.cumulativeWork)) party := by
  have inv : session.node.localNode.Invariant := represents.invariant
  have lasts := Lasts.refl represents.invariant
  have hashOk := refines.blockHash_ok stored
  have phase : party.phase = .reading := represents.phase_eq.trans (congrArg Task.phase reading)
  have samePhase : { party with phase := .reading } = party := by rw [← phase]
  have handled := Session.handleBlock_handled inv entry.block now faults
  generalize Session.handleBlock entry.block now faults session = outcome at handled ⊢
  cases handled with
  | unhashed _ => exact represents.raises lasts _ now _
  | known hashOk' known =>
      rw [hashOk] at hashOk'
      cases hashOk'
      refine represents.resumes (fun _ => lasts) (fun isOpen => ⟨party, ?_, represents⟩) now
      have light := work_of_known inv refines apart stored known
      have absorbs := @Moves.absorb _ _ _ entry.record.cumulativeWork phase
        (represents.closed_eq.trans isOpen)
      rw [max_eq_left (light.trans_eq represents.work_eq.symm)] at absorbs
      rwa [samePhase]
  | failed _ _ => exact represents.raises lasts _ now _
  | @orphaned _ _ result _ _ _ _ _ _ request =>
      have asking := @Represents.asking _ _ _ represents _ _ lasts represents
        (some (.block entry.record.cumulativeWork)) (fun busy isOpen => ?_) (fun idle isOpen => ?_) now
      · rw [request] at asking
        cases result with
        | error e => exact asking
        | ok sent => exact asking
      · rw [samePhase]
        exact .orphanBusy phase (represents.closed_eq.trans isOpen)
          (represents.outstanding_eq.trans busy)
      · have asks : { party.asks with phase := .reading } = party.asks := by
          rw [← phase]
          rfl
        rw [asks]
        exact .orphan phase (represents.closed_eq.trans isOpen) (represents.outstanding_eq.trans idle)
  | refused hashOk' missing refused cls notOrphan _ =>
      rw [hashOk] at hashOk'
      cases hashOk'
      rcases inv.submitBlock_shared refines apart stored missing refused with rfl | spares
      · exact absurd (by decide) notOrphan
      · rw [Spares, cls] at spares
        cases spares
  | @accepted _ _ localNode result after hashOk' missing accepted same =>
      rw [hashOk] at hashOk'
      cases hashOk'
      obtain ⟨invariant, grows, work⟩ := work_of_accepted inv refines apart stored missing accepted
      have grown := represents.grow invariant grows
      have represents' : after.course.Represents
          { party with work := localNode.chain.cumulativeWork } := by
        rw [same]
        exact grown.counting _ _
      have lasts' : session.course.Lasts after.course := by
        rw [same]
        exact ⟨invariant, grows, by rw [work]; exact le_max_left _ _, rfl, rfl⟩
      cases result with
      | error e => exact represents.raises lasts' e now _
      | ok _ =>
          refine represents.resumes (fun _ => lasts') (fun isOpen => ⟨_, ?_, represents'⟩) now
          have sameClosed : after.connection.closed = session.connection.closed :=
            congrArg Course.closed same
          have absorbs := @Moves.absorb _ _ _ entry.record.cumulativeWork phase
            (represents.closed_eq.trans (sameClosed.symm.trans isOpen))
          have asPhase : { party with work := localNode.chain.cumulativeWork, phase := .reading } =
              { party with work := localNode.chain.cumulativeWork } := by rw [← phase]
          rw [work]
          rw [represents.work_eq] at absorbs
          rw [work] at asPhase
          exact asPhase ▸ absorbs

/-! ## Requests of the peer -/

/-- **A locator with the genesis hash is answered** with stored blocks. -/
theorem sendBlocks_rooted (inv : session.node.localNode.Invariant) {locator : BlockLocator}
    (rooted : genesisHash ∈ locator.hashes) (now : Time) : ∃ blocks,
      Session.sendBlocks locator now session = (.ok (some blocks), session) ∧
      ∀ block ∈ blocks, ∃ hash entry,
        session.node.localNode.chain.entries.get? hash = some entry ∧ entry.block = block := by
  have refines := inv.chain_reachable.refines
  obtain ⟨path, branch, ends⟩ := refines.exists_branch session.node.localNode.chain.tipEntry_stored
  obtain ⟨hashes⟩ := locator
  obtain ⟨before, hash, after, common, -, -, -, answer⟩ := refines.blocksAfter_ok ends rooted
  refine ⟨((pathBlocks path).drop (common + 1)).take maxBlocksPerResponse, ?_, ?_⟩
  · rw [Session.sendBlocks, bind_of_ok (read_apply _ _), bind_apply, lift_apply, answer]
    rfl
  · intro block member
    have inPath := List.mem_of_mem_drop (List.mem_of_mem_take member)
    obtain ⟨⟨hash, entry⟩, isItem, rfl⟩ := List.mem_map.mp inPath
    exact ⟨hash, entry, ends.lineage.find_of_mem isItem, rfl⟩

theorem Represents.sendBlocks (represents : session.course.Represents party)
    {locator : BlockLocator} (rooted : genesisHash ∈ locator.hashes)
    (reading : session.connection.task = .reading) (now : Time) :
    (Session.resume now (Session.sendBlocks locator now session)).course.Follows
      (some .getBlocks) party := by
  have phase : party.phase = .reading := represents.phase_eq.trans (congrArg Task.phase reading)
  obtain ⟨blocks, outcome, stored⟩ := sendBlocks_rooted represents.invariant rooted now
  rw [outcome, Session.course_resume_ok]
  refine ⟨_, .asked phase, ?_⟩
  cases represents with
  | intro invariant _ queued wrote =>
      refine .of_eq rfl invariant ?_ queued wrote
      intro blocks' same block member
      cases same
      exact stored block member

/-! ## Summaries -/

theorem Represents.handleSyncComplete (represents : session.course.Represents party)
    (summary : ChainSummary) (reading : session.connection.task = .reading) (now : Time) :
    (Session.resume now ((Session.handleSyncComplete summary now session).1.map fun _ => none,
      (Session.handleSyncComplete summary now session).2)).course.Follows
        (some (.summary summary.cumulativeWork)) party := by
  have lasts := Lasts.refl represents.invariant
  have phase : party.phase = .reading := represents.phase_eq.trans (congrArg Task.phase reading)
  have synced : ∀ hello, (session.synced summary hello).course.Represents
      { party with outstanding := false, peerWork := some summary.cumulativeWork } := by
    intro hello
    cases represents with
    | intro invariant answers queued wrote => exact .of_eq rfl invariant answers queued wrote
  have lasts' : ∀ hello, session.course.Lasts (session.synced summary hello).course :=
    fun hello => ⟨lasts.invariant, .refl _, le_rfl, rfl, rfl⟩
  have handled := Session.handleSyncComplete_handled session summary now
  generalize Session.handleSyncComplete summary now session = outcome at handled ⊢
  cases handled with
  | refused _ => exact represents.raises lasts _ now _
  | @light hello _ _ lighter =>
      refine represents.resumes (fun _ => lasts' hello) (fun isOpen => ⟨_, ?_, synced hello⟩) now
      have moves := @Moves.summaryLight _ _ _ summary.cumulativeWork phase
        (represents.closed_eq.trans isOpen) (lighter.trans_eq represents.work_eq.symm)
      rwa [phase] at moves
  | @stuck hello _ _ _ _ _ _ judged =>
      have same : session.course.Lasts _ := lasts' hello
      rw [← judged] at same
      exact represents.raises same _ now _
  | @heavy hello result _ _ _ heavier _ request =>
      have asking := @Represents.asking _ _ _ (synced hello) _ _ (lasts' hello) represents
        (some (.summary summary.cumulativeWork)) (fun busy _ => Bool.noConfusion busy)
        (fun _ isOpen => ?_) now
      · rw [request] at asking
        cases result with
        | error e => exact asking
        | ok sent => exact asking
      · have moves := @Moves.summaryHeavier _ _ _ summary.cumulativeWork phase
          (represents.closed_eq.trans isOpen) (represents.work_eq.trans_lt heavier)
        have asks : { party.asks with phase := .reading } = party.asks := by
          rw [← phase]
          rfl
        rw [← asks] at moves
        exact moves

/-! ## Other frames -/

theorem Represents.answerPing (represents : session.course.Represents party) (nonce : Int)
    (reading : session.connection.task = .reading) (now : Time) :
    (Session.resume now ((do
      let payload ← lift (encodePing nonce)
      Session.send .pong payload
      return none : Session.Action (Option (List Block))) session)).course.Follows
        (some (.ping nonce)) party := by
  have lasts := Lasts.refl represents.invariant
  have phase : party.phase = .reading := represents.phase_eq.trans (congrArg Task.phase reading)
  rw [bind_apply, lift_apply]
  cases encoded : encodePing nonce with
  | error e => exact represents.raises lasts e now _
  | ok payload =>
      dsimp only
      rcases Session.send_cases .pong payload session with ⟨e, raised⟩ | ⟨isOpen, written⟩
      · rw [bind_of_error raised]
        exact represents.raises lasts e now _
      · rw [bind_of_ok written, pure_apply]
        have meaning : Shows session.course.localNode.chain ⟨.pong, payload⟩ (.pong nonce) :=
          .pong encoded
        have represents' : (session.wrote ⟨.pong, payload⟩).course.Represents
            (party.sends (.pong nonce)) := by
          rw [Session.course_wrote (by simp)]
          cases represents with
          | intro invariant answers queued wrote =>
              exact .of_eq rfl invariant answers queued (forall₂_concat wrote meaning)
        refine represents.resumes (fun closed => ?_) (fun _ => ⟨_, ?_, represents'⟩) now
        · exact absurd (closed.symm.trans isOpen) (by simp)
        · have moves := @Moves.answerPing _ _ _ nonce phase (represents.closed_eq.trans isOpen)
          have answers : { party.sends (.pong nonce) with phase := .reading } =
              party.sends (.pong nonce) := by
            rw [← phase]
            rfl
          rwa [answers]

theorem Represents.handlePong (represents : session.course.Represents party) (nonce : Int)
    (reading : session.connection.task = .reading) (now : Time) :
    (Session.resume now ((Session.handlePong nonce session).1.map fun _ => none,
      (Session.handlePong nonce session).2)).course.Follows (some (.pong nonce)) party := by
  have lasts := Lasts.refl represents.invariant
  have phase : party.phase = .reading := represents.phase_eq.trans (congrArg Task.phase reading)
  rw [Session.handlePong, bind_of_ok (read_apply _ _)]
  split
  · exact represents.raises lasts _ now _
  · rename_i expected
    rw [Session.onConnection_apply]
    have answered : ({ session with connection := { session.connection with
        pendingPing := none } } : Session).course.Represents { party with pendingPing := none } := by
      cases represents with
      | intro invariant answers queued wrote => exact .of_eq rfl invariant answers queued wrote
    refine represents.resumes (fun _ => ?_) (fun isOpen => ⟨_, ?_, answered⟩) now
    · exact ⟨lasts.invariant, .refl _, le_rfl, rfl, rfl⟩
    · have moves := @Moves.pong _ _ _ nonce phase (represents.closed_eq.trans isOpen)
        (represents.pendingPing_eq.trans (not_not.mp expected))
      rwa [phase] at moves

theorem Represents.handleTransaction (represents : session.course.Represents party)
    (tx : Transaction) (reading : session.connection.task = .reading) (now : Time) :
    (Session.resume now ((Session.handleTransaction tx now session).1.map fun _ => none,
      (Session.handleTransaction tx now session).2)).course.Follows (some .other) party := by
  have lasts := Lasts.refl represents.invariant
  have phase : party.phase = .reading := represents.phase_eq.trans (congrArg Task.phase reading)
  have samePhase : { party with phase := .reading } = party := by rw [← phase]
  have ends : ∀ {result : Except Raised Unit} {after : Session},
      session.course.Lasts after.course → after.course.Represents party →
      (Session.resume now (result.map fun _ => none, after)).course.Follows (some .other) party := by
    intro result after lasts' represents'
    cases result with
    | error e => exact represents.raises lasts' e now _
    | ok _ =>
        refine represents.resumes (fun _ => lasts') (fun _ => ⟨_, ?_, represents'⟩) now
        rw [samePhase]
        exact .other phase
  have handled := Session.handleTransaction_handled session tx now
  generalize Session.handleTransaction tx now session = outcome at handled ⊢
  cases handled with
  | judged same =>
      rw [Session.Judges] at same
      exact ends (same ▸ lasts) (same ▸ represents)
  | @accepted txid localNode result after accepted same =>
      have invariant := represents.invariant.submitTransaction tx
      have sameChain := session.node.localNode.chain_submitTransaction tx
      rw [show session.course.localNode.submitTransaction tx = _ from accepted] at invariant
      rw [accepted] at sameChain
      have grows : session.course.localNode.chain.Grows localNode.chain := by
        rw [show localNode.chain = session.course.localNode.chain from sameChain]
        exact .refl _
      have grown := represents.grow invariant grows
      have sameParty : { party with work := localNode.chain.cumulativeWork } = party := by
        rw [show localNode.chain = session.course.localNode.chain from sameChain,
          ← represents.work_eq]
      rw [sameParty, ← same] at grown
      refine ends ?_ grown
      rw [same]
      exact ⟨invariant, grows, (congrArg Chain.cumulativeWork sameChain).ge, rfl, rfl⟩

/-! ## The next frame -/

omit [Platform] in
/-- A handler that returns nothing. -/
theorem then_none (action : Session.Action Unit) (session : Session) :
    (do action; return none : Session.Action (Option (List Block))) session =
      ((action session).1.map fun _ => none, (action session).2) := by
  rw [bind_apply]
  cases action session with
  | mk result after =>
      cases result with
      | error e => rfl
      | ok _ => rfl

/-- **A frame that another honest node wrote** makes the party move. -/
theorem Represents.handleFrame (represents : session.course.Represents party)
    (refines : other.Refines) (apart : ¬ session.node.localNode.chain.Collide other) {frame : Frame}
    {message : Message Int} (meaning : Shows other frame message)
    (reading : session.connection.task = .reading) (now : Time) (faults : List Transactions.Fault) :
    (Session.resume now (Session.handleFrame frame now faults session)).course.Follows
      (some message) party := by
  have lasts := Lasts.refl represents.invariant
  cases meaning with
  | hello => exact represents.raises lasts _ now _
  | getBlocks decoded rooted =>
      rw [Session.handleFrame]
      dsimp only
      rw [bind_apply, lift_apply, decoded]
      exact represents.sendBlocks rooted reading now
  | block decoded stored =>
      rw [Session.handleFrame]
      dsimp only
      rw [bind_apply, lift_apply, decoded]
      dsimp only
      rw [then_none]
      exact represents.handleBlock refines apart stored reading now faults
  | @summary _ summary _ decoded _ _ _ =>
      rw [Session.handleFrame]
      dsimp only
      rw [bind_apply, lift_apply, decoded]
      dsimp only
      rw [then_none]
      exact represents.handleSyncComplete summary reading now
  | ping encoded =>
      rw [Session.handleFrame]
      dsimp only
      rw [bind_apply, lift_apply, decodePing_encodePing encoded]
      exact represents.answerPing _ reading now
  | pong encoded =>
      rw [Session.handleFrame]
      dsimp only
      rw [bind_apply, lift_apply, decodePing_encodePing encoded]
      dsimp only
      rw [then_none]
      exact represents.handlePong _ reading now
  | @transaction payload =>
      rw [Session.handleFrame]
      dsimp only
      rw [bind_apply, lift_apply]
      cases Transaction.fromBytes payload with
      | error e => exact represents.raises lasts e now _
      | ok tx =>
          dsimp only
          rw [then_none]
          exact represents.handleTransaction tx reading now

/-- A rejection changes nothing. -/
theorem Represents.handleReject (represents : session.course.Represents party) {frame : Frame}
    (isReject : frame.messageType = .reject) (reading : session.connection.task = .reading)
    (now : Time) (faults : List Transactions.Fault) :
    (Session.resume now (Session.handleFrame frame now faults session)).course.Follows none party := by
  have lasts := Lasts.refl represents.invariant
  have phase : party.phase = .reading := represents.phase_eq.trans (congrArg Task.phase reading)
  have samePhase : { party with phase := .reading } = party := by rw [← phase]
  rw [Session.handleFrame, isReject]
  dsimp only
  rw [bind_apply, lift_apply]
  cases Reject.fromBytes frame.payload with
  | error e => exact represents.raises lasts e now _
  | ok rejection =>
      refine represents.resumes (fun _ => lasts) (fun _ => ⟨party, ?_, represents⟩) now
      rw [samePhase]
      exact .idle

/-- The rate limiter lets a frame pass, or ends the task. -/
theorem Represents.receive (represents : session.course.Represents party) {frame : Frame}
    {received : Option (Message Int)} (now : Time) (faults : List Transactions.Fault)
    (handles : ∀ passed : Session, passed.course = session.course →
      (Session.resume now (Session.handleFrame frame now faults passed)).course.Follows received
        party) :
    (Session.resume now (Session.receive frame now faults session)).course.Follows received
      party := by
  have lasts := Lasts.refl represents.invariant
  rcases Session.receive_cases frame now faults session with ⟨e, after, raised, judged⟩ |
    ⟨passed, judged, same⟩
  · rw [raised]
    refine represents.raises ?_ e now _
    rw [judged]
    exact lasts
  · rw [same]
    exact handles passed judged

/-- **The next frame** that another honest node wrote. -/
theorem Represents.deliver (represents : session.course.Represents party)
    (idle : party.phase = .handshaking → party.outstanding = false) (refines : other.Refines)
    (apart : ¬ session.node.localNode.chain.Collide other) {frame : Frame} {message : Message Int}
    (meaning : Shows other frame message) (awaits : session.Awaits) (now : Time)
    (faults : List Transactions.Fault) :
    (session.deliver frame now faults).course.Follows (some message) party := by
  have lasts := Lasts.refl represents.invariant
  rcases awaits with greeting | reading
  · have phase := represents.phase_eq.trans (congrArg Task.phase greeting)
    rw [Session.deliver, greeting]
    dsimp only
    cases meaning with
    | hello decoded => exact represents.handshake decoded greeting (idle phase) now
    | _ => exact represents.raises lasts _ now _
  · rw [Session.deliver, reading]
    refine represents.receive now faults fun passed same => ?_
    have sameTask : passed.connection.task = .reading := (congrArg Course.task same).trans reading
    have sameNode : passed.node.localNode = session.node.localNode := congrArg Course.localNode same
    rw [← same] at represents
    rw [← sameNode] at apart
    exact represents.handleFrame refines apart meaning sameTask now faults

/-- A rejection ends a handshake, or changes nothing. -/
theorem Represents.deliverReject (represents : session.course.Represents party) {frame : Frame}
    (isReject : frame.messageType = .reject) (awaits : session.Awaits) (now : Time)
    (faults : List Transactions.Fault) :
    (session.deliver frame now faults).course.Follows none party := by
  have lasts := Lasts.refl represents.invariant
  rcases awaits with greeting | reading
  · rw [Session.deliver, greeting]
    dsimp only
    rw [Session.handshake, if_pos (by simp [isReject])]
    exact represents.raises lasts _ now _
  · rw [Session.deliver, reading]
    refine represents.receive now faults fun passed same => ?_
    have sameTask : passed.connection.task = .reading := (congrArg Course.task same).trans reading
    rw [← same] at represents
    exact represents.handleReject isReject sameTask now faults

end Course

end OurCoin
