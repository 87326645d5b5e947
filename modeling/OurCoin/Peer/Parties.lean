import OurCoin.Exchange.Orderly
import OurCoin.Peer.Punishment

/-!
# A session as a party

What the course of a session stands for in the exchange of two parties: chains stand for their
work, and frames for messages with the work of the block or the claim they carry.

* `Shows` says which message a frame of an honest node is, with what its payload decodes to.
* `Represents` is the relation between courses and parties.
* `Represents.step`: whatever a session does without receiving a frame, its party can do.
-/

set_option autoImplicit false

namespace OurCoin

open Raising Stateful Exchange

/-! ## Frames -/

/-- A frame that a node with this chain can have written, and its message. -/
inductive Shows [Platform] (chain : Chain) : Frame → Message Int → Prop
  | hello {payload : Bytes} {hello : Hello} : Hello.fromBytes payload = .ok hello →
      hello.chainId = testnet.chainId → hello.genesisHash = genesisHash →
      Shows chain ⟨.hello, payload⟩ (.hello hello.cumulativeWork)
  | getBlocks {payload : Bytes} {locator : BlockLocator} :
      BlockLocator.fromBytes payload = .ok locator → genesisHash ∈ locator.hashes →
      Shows chain ⟨.getBlocks, payload⟩ .getBlocks
  | block {payload hash : Bytes} {entry : ChainEntry} : decodeBlock payload = .ok entry.block →
      chain.entries.get? hash = some entry →
      Shows chain ⟨.block, payload⟩ (.block entry.record.cumulativeWork)
  | summary {payload : Bytes} {summary : ChainSummary} {entry : ChainEntry} :
      ChainSummary.fromBytes payload = .ok summary →
      chain.entries.get? summary.tipHash = some entry → entry.record.height = summary.height →
      entry.record.cumulativeWork = summary.cumulativeWork →
      Shows chain ⟨.syncComplete, payload⟩ (.summary summary.cumulativeWork)
  | ping {payload : Bytes} {nonce : Int} : encodePing nonce = .ok payload →
      Shows chain ⟨.ping, payload⟩ (.ping nonce)
  | pong {payload : Bytes} {nonce : Int} : encodePing nonce = .ok payload →
      Shows chain ⟨.pong, payload⟩ (.pong nonce)
  | transaction {payload : Bytes} : Shows chain ⟨.transaction, payload⟩ .other

/-- What was written stays true of a chain that grows. -/
theorem Shows.mono [Platform] {chain after : Chain} (grows : chain.Grows after) {frame : Frame}
    {message : Message Int} (meaning : Shows chain frame message) : Shows after frame message := by
  cases meaning with
  | hello decoded chainId genesis => exact .hello decoded chainId genesis
  | getBlocks decoded rooted => exact .getBlocks decoded rooted
  | block decoded stored => exact .block decoded (grows _ _ stored)
  | summary decoded stored height work => exact .summary decoded (grows _ _ stored) height work
  | ping encoded => exact .ping encoded
  | pong encoded => exact .pong encoded
  | transaction => exact .transaction

theorem Shows.notReject [Platform] {chain : Chain} {frame : Frame} {message : Message Int}
    (meaning : Shows chain frame message) : frame.messageType ≠ .reject := by
  cases meaning <;> simp

/-- The envelope of a stored block decodes to it. -/
theorem Chain.Refines.decodes [Platform] {chain : Chain} (refines : chain.Refines) {hash payload : Bytes}
    {entry : ChainEntry} (stored : chain.entries.get? hash = some entry)
    (encoded : encodeBlock entry.block = .ok payload) : decodeBlock payload = .ok entry.block := by
  obtain ⟨payload', encoded', -, decoded⟩ := (refines.inRange stored).relayable.envelope
  rw [encoded] at encoded'
  cases encoded'
  exact decoded

/-- A stored block has no more work than the chain. -/
theorem Chain.Reachable.work_le [Platform] {chain : Chain} (reachable : chain.Reachable)
    {hash : Bytes} {entry : ChainEntry} (stored : chain.entries.get? hash = some entry) :
    entry.record.cumulativeWork ≤ chain.cumulativeWork := by
  obtain ⟨accepted, run⟩ := reachable.exists_run
  exact run.tip_firstMax.le (Dict.get?_eq_some.mp stored)

/-- What a node has after it accepted a block. -/
theorem LocalNode.Invariant.accepted [Platform] {node after : LocalNode} (inv : node.Invariant)
    {block : Block} {faults : List Transactions.Fault} {update : ChainUpdate}
    (outcome : node.submitBlock block faults = (.ok update, after)) :
    ∃ entry payload, after.Invariant ∧ node.chain.Grows after.chain ∧
      after.chain.entries.get? entry.record.blockHash = some entry ∧ entry.block = block ∧
      after.chain.cumulativeWork = max node.chain.cumulativeWork entry.record.cumulativeWork ∧
      node.chain.newEntry block = .ok entry ∧
      encodeBlock block = .ok payload ∧ decodeBlock payload = .ok block := by
  have added := inv.submitBlock_ok outcome
  have refines := inv.chain_reachable.refines
  have grows := (refines.addBlock_grows block).1
  obtain ⟨entry, newOk, stored, work⟩ := refines.addBlock_work (congrArg Prod.fst added)
  have invariant := inv.submitBlock block faults
  rw [added] at grows stored work
  rw [outcome] at invariant
  obtain ⟨hash, parent, path, branch, next, -, -, -, extended, isEntry⟩ :=
    refines.newEntry_eq_ok.mp newOk
  have isBlock : entry.block = block := isEntry ▸ extended.tip_eq
  subst isBlock
  obtain ⟨payload, encoded, -, decoded⟩ :=
    (invariant.chain_reachable.refines.inRange stored).relayable.envelope
  exact ⟨entry, payload, invariant, grows, stored, rfl, work, newOk, encoded, decoded⟩

/-! ## Courses -/

/-- The phase that a task is in. -/
def Task.phase : Task → Phase
  | .starting => .starting
  | .handshaking => .handshaking
  | .reading => .reading
  | .answering _ => .answering
  | .ended => .ended

namespace Course

/-- The party of a course whose frames are these messages. -/
def party (course : Course) (queue sent : List (Message Int)) : Party Int where
  phase := course.task.phase
  closed := course.closed
  work := course.localNode.chain.cumulativeWork
  peerWork := course.hello.map Hello.cumulativeWork
  outstanding := course.outstanding
  pendingPing := course.pendingPing
  queue
  sent

/-- The blocks that are still to be sent are stored. -/
def AnswersStored (course : Course) : Prop :=
  ∀ blocks, course.task = .answering blocks → ∀ block ∈ blocks, ∃ hash entry,
    course.localNode.chain.entries.get? hash = some entry ∧ entry.block = block

variable [Platform]

/-- A course stands for a party. -/
inductive Represents (course : Course) : Party Int → Prop
  | intro {queue sent : List (Message Int)} : course.localNode.Invariant → course.AnswersStored →
      List.Forall₂ (Shows course.localNode.chain) course.pendingSends queue →
      List.Forall₂ (Shows course.localNode.chain) course.written sent →
      Represents course (course.party queue sent)

/-- Nothing is sent, and the chain at most grows. -/
structure Lasts (before after : Course) : Prop where
  invariant : after.localNode.Invariant
  grows : before.localNode.chain.Grows after.localNode.chain
  work_le : before.localNode.chain.cumulativeWork ≤ after.localNode.chain.cumulativeWork
  pendingSends_eq : after.pendingSends = before.pendingSends
  written_eq : after.written = before.written

/-- A course that goes on as the party does. -/
def Follows (received : Option (Message Int)) (party : Party Int) (course : Course) : Prop :=
  ∃ after, Moves received party after ∧ Represents course after

variable {course after : Course} {party : Party Int}

omit [Platform] in
theorem answersStored_of_task (quiet : ∀ blocks, course.task ≠ .answering blocks) :
    course.AnswersStored :=
  fun blocks answering => absurd answering (quiet blocks)

namespace Represents

theorem invariant (represents : course.Represents party) : course.localNode.Invariant := by
  cases represents with
  | intro invariant => exact invariant

theorem phase_eq (represents : course.Represents party) : party.phase = course.task.phase := by
  cases represents with
  | intro => rfl

theorem closed_eq (represents : course.Represents party) : party.closed = course.closed := by
  cases represents with
  | intro => rfl

theorem work_eq (represents : course.Represents party) :
    party.work = course.localNode.chain.cumulativeWork := by
  cases represents with
  | intro => rfl

theorem peerWork_eq (represents : course.Represents party) :
    party.peerWork = course.hello.map Hello.cumulativeWork := by
  cases represents with
  | intro => rfl

theorem outstanding_eq (represents : course.Represents party) :
    party.outstanding = course.outstanding := by
  cases represents with
  | intro => rfl

theorem pendingPing_eq (represents : course.Represents party) :
    party.pendingPing = course.pendingPing := by
  cases represents with
  | intro => rfl

end Represents

theorem Represents.of_eq {queue sent : List (Message Int)} (same : party = course.party queue sent)
    (invariant : course.localNode.Invariant) (answers : course.AnswersStored)
    (queued : List.Forall₂ (Shows course.localNode.chain) course.pendingSends queue)
    (wrote : List.Forall₂ (Shows course.localNode.chain) course.written sent) :
    course.Represents party :=
  same ▸ .intro invariant answers queued wrote

/-- The counters of a request are no part of the party. -/
theorem Represents.counting (represents : course.Represents party) (acceptedBlocks startWork : Int) :
    { course with acceptedBlocks, startWork }.Represents party := by
  cases represents with
  | intro invariant answers queued wrote => exact .of_eq rfl invariant answers queued wrote

/-- **A task that ends** without sending anything. -/
theorem Represents.fails (represents : course.Represents party) (lasts : course.Lasts after)
    (ended : after.task = .ended) (closed : after.closed = true)
    (received : Option (Message Int)) : after.Follows received party := by
  obtain ⟨invariant, grows, work, pending, written⟩ := lasts
  cases represents with
  | @intro queue sent _ _ queued wrote =>
      refine ⟨after.party queue sent, .fail ?_ closed rfl rfl work, .intro invariant ?_ ?_ ?_⟩
      · rw [party, ended]
        rfl
      · exact answersStored_of_task fun _ => by simp [ended]
      · rw [pending]
        exact queued.imp fun _ _ => .mono grows
      · rw [written]
        exact wrote.imp fun _ _ => .mono grows

/-! ## What is written -/

section

variable {chain : Chain} {frames : List Frame} {messages : List (Message Int)} {frame : Frame}
  {message : Message Int}

theorem forall₂_concat (all : List.Forall₂ (Shows chain) frames messages)
    (last : Shows chain frame message) :
    List.Forall₂ (Shows chain) (frames ++ [frame]) (messages ++ [message]) :=
  List.rel_append all (.cons last .nil)

theorem forall₂_eraseIdx (all : List.Forall₂ (Shows chain) frames messages) (index : Nat) :
    List.Forall₂ (Shows chain) (frames.eraseIdx index) (messages.eraseIdx index) := by
  induction all generalizing index with
  | nil => exact .nil
  | cons first _ ih =>
      cases index with
      | zero => assumption
      | succ index => exact .cons first (ih index)

theorem exists_getElem? (all : List.Forall₂ (Shows chain) frames messages) {index : Nat}
    (here : frames[index]? = some frame) :
    ∃ message, messages[index]? = some message ∧ Shows chain frame message := by
  induction all generalizing index with
  | nil => cases here
  | cons first _ ih =>
      cases index with
      | zero =>
          cases here
          exact ⟨_, rfl, first⟩
      | succ index => exact ih here

end

/-! ## Moves without a message -/

section

variable {session : Session} {queue sent : List (Message Int)}

/-- A stretch that raises sends nothing. -/
theorem Represents.raises {party : Party Int} (represents : session.course.Represents party)
    {raised : Session} (lasts : session.course.Lasts raised.course) (e : Raised) (now : Time)
    (received : Option (Message Int)) : (raised.fail e now).course.Follows received party := by
  have ends : session.course.Lasts { raised.course with closed := true, task := .ended } :=
    ⟨lasts.invariant, lasts.grows, lasts.work_le, lasts.pendingSends_eq, lasts.written_eq⟩
  rw [Session.course_fail]
  exact represents.fails ends rfl rfl received

theorem Lasts.refl {course : Course} (invariant : course.localNode.Invariant) : course.Lasts course :=
  ⟨invariant, .refl _, le_rfl, rfl, rfl⟩

/-- The HELLO claims the work of the chain. -/
theorem Represents.start {party : Party Int} (represents : session.course.Represents party)
    (now : Time) : (session.start now).course.Follows none party := by
  have lasts := Lasts.refl represents.invariant
  rw [Session.start]
  split
  · rename_i starting
    rcases Session.greet_cases session with ⟨e, raised⟩ | ⟨hello, payload, made, encoded, isOpen, written⟩
    · rw [raised]
      exact represents.raises lasts e now none
    · rw [written]
      dsimp only
      rw [Session.course_setTask, Session.course_wrote (by simp)]
      cases represents with
      | @intro queue sent invariant _ queued wrote =>
          rw [Session.hello_ok invariant] at made
          cases made
          have meaning : Shows session.course.localNode.chain ⟨.hello, payload⟩ _ :=
            .hello (Hello.fromBytes_toBytes .chainId encoded) rfl rfl
          refine ⟨_, .greet (by simp [party, Session.course, starting, Task.phase]) isOpen,
            .intro invariant ?_ queued (forall₂_concat wrote meaning)⟩
          exact answersStored_of_task fun _ => by simp
  · exact ⟨party, .idle, represents⟩

/-- One more block of an answer is sent, or the summary of the chain as it is now. -/
theorem Represents.answer {party : Party Int} (represents : session.course.Represents party)
    (now : Time) : (session.answer now).course.Follows none party := by
  have lasts := Lasts.refl represents.invariant
  rw [Session.answer]
  split
  · rename_i blocks answering
    rcases Session.sendNext_cases blocks session with ⟨e, raised⟩ |
      ⟨isOpen, block, rest, payload, rfl, encoded, written⟩ | ⟨isOpen, rfl, payload, encoded, written⟩
    · rw [raised]
      exact represents.raises lasts e now none
    · rw [written, Session.course_resume_ok, Session.course_wrote (by simp)]
      cases represents with
      | @intro queue sent invariant answers queued wrote =>
          obtain ⟨hash, entry, stored, rfl⟩ := answers _ answering block List.mem_cons_self
          have meaning : Shows session.course.localNode.chain ⟨.block, payload⟩ _ :=
            .block (invariant.chain_reachable.refines.decodes stored encoded) stored
          have position : session.course.task.phase = .answering := congrArg Task.phase answering
          refine ⟨_, .answer position isOpen (invariant.chain_reachable.work_le stored),
            .of_eq ?_ invariant ?_ queued (forall₂_concat wrote meaning)⟩
          · simp only [party, Party.sends, position]
            rfl
          intro blocks same other member
          cases same
          exact answers _ answering other (List.mem_cons_of_mem _ member)
    · rw [written, Session.course_resume_ok, Session.course_wrote (by simp)]
      cases represents with
      | @intro queue sent invariant answers queued wrote =>
          have meaning : Shows session.course.localNode.chain ⟨.syncComplete, payload⟩
              (.summary session.course.localNode.chain.cumulativeWork) :=
            .summary (ChainSummary.fromBytes_toBytes encoded) (Chain.tipEntry_stored _) rfl rfl
          have position : session.course.task.phase = .answering := congrArg Task.phase answering
          have goesOn : (session.wrote ⟨.syncComplete, payload⟩).nextTask none = .reading :=
            if_neg (by simp [Session.wrote, isOpen])
          refine ⟨_, .summarize position isOpen,
            .of_eq ?_ invariant ?_ queued (forall₂_concat wrote meaning)⟩
          · simp only [party, Party.sends, goesOn]
            rfl
          · exact answersStored_of_task fun _ => by simp [goesOn]
  · exact ⟨party, .idle, represents⟩

/-- A peer that says nothing is asked for a PONG, once. -/
theorem Represents.timeout {party : Party Int} (represents : session.course.Represents party)
    (nonce : UInt64) (now : Time) : (session.timeout nonce now).course.Follows none party := by
  have lasts := Lasts.refl represents.invariant
  rw [Session.timeout]
  split
  · exact represents.raises lasts _ now none
  · rename_i reading
    rcases Session.idle_cases nonce session with ⟨e, raised⟩ | ⟨-, e, raised⟩ |
      ⟨answered, isOpen, payload, encoded, written⟩
    · rw [raised]
      exact represents.raises lasts e now none
    · have lasts' : session.course.Lasts (session.pinged nonce).course :=
        ⟨lasts.invariant, .refl _, le_rfl, rfl, rfl⟩
      rw [raised]
      exact represents.raises lasts' e now none
    · rw [written, Session.course_resume_ok, Session.course_wrote (by simp)]
      cases represents with
      | @intro queue sent invariant answers queued wrote =>
          have position : session.course.task.phase = .reading := congrArg Task.phase reading
          have goesOn : ((session.pinged nonce).wrote ⟨.ping, payload⟩).nextTask none = .reading :=
            if_neg (by simp [Session.wrote, Session.pinged, isOpen])
          have meaning : Shows session.course.localNode.chain ⟨.ping, payload⟩ (.ping nonce.toNat) :=
            .ping encoded
          refine ⟨_, @Moves.ping _ _ _ nonce.toNat position isOpen answered,
            .of_eq ?_ invariant ?_ queued (forall₂_concat wrote meaning)⟩
          · simp only [party, Party.sends, goesOn, position]
            rfl
          · exact answersStored_of_task fun _ => by simp [goesOn]
  · exact ⟨party, .idle, represents⟩

/-- A frame of a broadcast is sent, or the connection is closed. -/
theorem Represents.flush {party : Party Int} (represents : session.course.Represents party)
    (index : Nat) : (session.flush index).course.Follows none party := by
  rcases Session.flush_cases index session with ⟨-, same⟩ | ⟨frame, here, outcome⟩
  · rw [same]
    exact ⟨party, .idle, represents⟩
  · cases represents with
    | @intro queue sent invariant answers queued wrote =>
        obtain ⟨message, there, meaning⟩ := exists_getElem? queued here
        have left := forall₂_eraseIdx queued index
        rcases outcome with closing | ⟨isOpen, written⟩
        · rw [closing, Session.course_close]
          exact ⟨_, @Moves.drop _ _ _ index, .of_eq rfl invariant answers left wrote⟩
        · rw [written, Session.course_wrote meaning.notReject]
          exact ⟨_, .flush isOpen there,
            .of_eq rfl invariant answers left (forall₂_concat wrote meaning)⟩

/-- A broadcast is queued for a peer that was met. -/
theorem Represents.offer {course : Course} {party : Party Int} (represents : course.Represents party)
    {frame : Frame} {message : Message Int} (meaning : Shows course.localNode.chain frame message) :
    { course with pendingSends :=
        if course.hello.isSome = true ∧ course.closed = false then course.pendingSends ++ [frame]
        else course.pendingSends : Course }.Represents (party.offers message) := by
  cases represents with
  | @intro queue sent invariant answers queued wrote =>
      by_cases met : course.hello.isSome = true ∧ course.closed = false
      · rw [if_pos met, Party.offers, if_pos (by simpa [Course.party] using met)]
        exact .of_eq rfl invariant answers (forall₂_concat queued meaning) wrote
      · rw [if_neg met, Party.offers, if_neg (by simpa [Course.party] using met)]
        exact .of_eq rfl invariant answers queued wrote

/-- A chain that grew stands for more work. -/
theorem Represents.grow {course : Course} {party : Party Int} (represents : course.Represents party)
    {localNode : LocalNode} (invariant : localNode.Invariant)
    (grows : course.localNode.chain.Grows localNode.chain) :
    { course with localNode }.Represents { party with work := localNode.chain.cumulativeWork } := by
  cases represents with
  | intro _ answers queued wrote =>
      refine .of_eq rfl invariant ?_ (queued.imp fun _ _ => .mono grows)
        (wrote.imp fun _ _ => .mono grows)
      intro blocks answering block member
      obtain ⟨hash, entry, stored, isBlock⟩ := answers blocks answering block member
      exact ⟨hash, entry, grows hash entry stored, isBlock⟩

/-- **A block that the node accepts elsewhere** is announced to a peer that was met. -/
theorem Represents.acceptBlock {party : Party Int} (represents : session.course.Represents party)
    (block : Block) (faults : List Transactions.Fault) :
    (session.acceptBlock block faults).course.Follows none party := by
  rw [Session.acceptBlock, Session.submitBlock]
  cases outcome : session.node.localNode.submitBlock block faults with
  | mk result localNode =>
      have inv : session.node.localNode.Invariant := represents.invariant
      cases result with
      | error e =>
          have same := inv.submitBlock_error (congrArg Prod.fst outcome)
          rw [outcome] at same
          dsimp only at same ⊢
          subst same
          exact ⟨party, .idle, represents⟩
      | ok update =>
          have accepted := inv.accepted outcome
          obtain ⟨entry, payload, invariant, grows, stored, rfl, work, -, encoded, decoded⟩ := accepted
          dsimp only
          rw [encoded]
          dsimp only
          rw [Session.course_broadcastAll]
          refine ⟨_, .grow, .offer ?_ (.block decoded stored)⟩
          have grown := represents.grow invariant grows
          rw [work] at grown
          cases represents with
          | intro => exact grown

/-- A transaction that the node accepts elsewhere is announced to a peer that was met. -/
theorem Represents.acceptTransaction {party : Party Int}
    (represents : session.course.Represents party) (tx : Transaction) :
    (session.acceptTransaction tx).course.Follows none party := by
  have invariant := represents.invariant.submitTransaction tx
  have sameChain := session.node.localNode.chain_submitTransaction tx
  rw [Session.acceptTransaction, Session.submitTransaction]
  cases outcome : session.node.localNode.submitTransaction tx with
  | mk result localNode =>
      have invariant := represents.invariant.submitTransaction tx
      have sameWork : localNode.chain = session.course.localNode.chain := by
        rw [outcome] at sameChain
        exact sameChain
      rw [show session.course.localNode.submitTransaction tx = _ from outcome] at invariant
      have grown := represents.grow invariant (by rw [sameWork]; exact .refl _)
      have same : { party with work := localNode.chain.cumulativeWork } = party := by
        cases represents with
        | intro => rw [sameWork]; rfl
      rw [same] at grown
      cases result with
      | error e => exact ⟨party, .idle, grown⟩
      | ok txid =>
          dsimp only
          cases tx.toBytes with
          | error e => exact ⟨party, .idle, grown⟩
          | ok payload =>
              dsimp only
              rw [Session.course_broadcastAll]
              exact ⟨_, .enqueue, .offer grown .transaction⟩

/-- **Whatever a session does without receiving a frame**, its party can do. -/
theorem Represents.step {party : Party Int} (represents : session.course.Represents party)
    (event : Session.Event) (noFrame : ∀ frame now faults, event ≠ .deliver frame now faults) :
    (session.step event).course.Follows none party := by
  cases event with
  | start now => exact represents.start now
  | deliver frame now faults => exact absurd rfl (noFrame frame now faults)
  | answer now => exact represents.answer now
  | timeout nonce now => exact represents.timeout nonce now
  | flush index => exact represents.flush index
  | accept block faults => exact represents.acceptBlock block faults
  | transact tx => exact represents.acceptTransaction tx
  | close =>
      rw [Session.step, Session.course_close]
      cases represents with
      | intro invariant answers queued wrote =>
          exact ⟨_, .close, .of_eq rfl invariant answers queued wrote⟩
  | elsewhere => exact ⟨party, .idle, represents⟩

end

end Course

end OurCoin
