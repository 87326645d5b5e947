import OurCoin.Peer.Locators
import OurCoin.Peer.Traffic

/-!
# Copying a chain

A node whose tip is on the active chain of its peer reads what the peer answers.

* `Chain.Copied` says that a chain has the first blocks of a path, and no other one of them.
* `Chain.Copied.blocksAfter_eq`: its locator is answered with what follows, at most 128 blocks.
* `Session.deliver_next`: the next block is accepted and becomes the tip, or the task ends.
* `Session.deliver_mark`: the summary of the peer starts the next request unless the chains are
  equal.
-/

set_option autoImplicit false

namespace OurCoin

open Raising Stateful

variable [Platform]

/-! ## Positions on a branch -/

/-- The items of a path from one position up to another. -/
def slice {α : Type} (path : List α) (start stop : Nat) : List α := (path.drop start).take (stop - start)

omit [Platform] in
theorem slice_self {α : Type} (path : List α) (position : Nat) : slice path position position = [] := by
  rw [slice, Nat.sub_self, List.take_zero]

omit [Platform] in
theorem slice_cons {α : Type} {path : List α} {start stop : Nat} (less : start < stop) {item : α}
    (here : path[start]? = some item) : slice path start stop = item :: slice path (start + 1) stop := by
  obtain ⟨inside, rfl⟩ := List.getElem?_eq_some_iff.mp here
  rw [slice, slice, List.drop_eq_getElem_cons inside, show stop - start = stop - (start + 1) + 1 by omega,
    List.take_succ_cons]

omit [Platform] in
theorem slice_concat {α : Type} {path : List α} {start stop : Nat} (ordered : start ≤ stop) {item : α}
    (here : path[stop]? = some item) : slice path start (stop + 1) = slice path start stop ++ [item] := by
  rw [slice, slice, show stop + 1 - start = stop - start + 1 by omega, List.take_add_one,
    List.getElem?_drop, Nat.add_sub_cancel' ordered, here]
  rfl

omit [Platform] in
/-- A slice with a first block begins before its end. -/
theorem slice_eq_cons {path : List (Bytes × ChainEntry)} {start stop : Nat} (inside : stop ≤ path.length)
    {block : Block} {rest : List Block} (split : pathBlocks (slice path start stop) = block :: rest) :
    start < stop ∧ ∃ item, path[start]? = some item ∧ item.2.block = block ∧
      pathBlocks (slice path (start + 1) stop) = rest := by
  have less : start < stop := by
    by_contra all
    rw [slice, show stop - start = 0 by omega, List.take_zero] at split
    cases split
  have here : path[start]? = some path[start] := List.getElem?_eq_getElem (by omega)
  rw [slice_cons less here] at split
  obtain ⟨isBlock, isRest⟩ : path[start].2.block = block ∧
      pathBlocks (slice path (start + 1) stop) = rest := List.cons.inj split
  exact ⟨less, _, here, isBlock, isRest⟩

omit [Platform] in
theorem slice_eq_nil {path : List (Bytes × ChainEntry)} {start stop : Nat} (ordered : start ≤ stop)
    (inside : stop ≤ path.length) (empty : pathBlocks (slice path start stop) = []) : start = stop := by
  by_contra less
  have here : path[start]? = some path[start] := List.getElem?_eq_getElem (by omega)
  rw [slice_cons (by omega) here] at empty
  cases empty

namespace Chain

variable {chain other : Chain} {path : List (Bytes × ChainEntry)} {branch : BranchState}

/-- An item of a branch names the one before it, and has more work. -/
theorem Refines.consecutive (refines : chain.Refines) {tip : Bytes} (lineage : chain.Lineage tip path)
    {position : Nat} {hash next : Bytes} {entry nextEntry : ChainEntry}
    (here : path[position]? = some (hash, entry))
    (there : path[position + 1]? = some (next, nextEntry)) :
    nextEntry.block.header.previousBlockHash = hash ∧
      entry.record.cumulativeWork < nextEntry.record.cumulativeWork := by
  obtain ⟨inside, isItem⟩ := List.getElem?_eq_some_iff.mp here
  obtain ⟨inside', isNext⟩ := List.getElem?_eq_some_iff.mp there
  have split : path = (path.take position ++ [(hash, entry)]) ++ (next, nextEntry) ::
      path.drop (position + 1 + 1) := by
    rw [← isItem, ← isNext, List.append_assoc, List.singleton_append, List.cons_getElem_drop_succ,
      List.cons_getElem_drop_succ, List.take_append_drop]
  obtain ⟨branch, ends⟩ := refines.of_prefix lineage split
  rcases ends.exists_parent refines with ⟨isRoot, -⟩ | ⟨front, parent, earlier, split', -, parentEnds⟩
  · have alone := congrArg List.length isRoot
    simp at alone
  · obtain ⟨same, -⟩ := List.append_inj' split' rfl
    subst same
    obtain ⟨before, isFront⟩ := parentEnds.exists_last
    obtain ⟨-, last⟩ := List.append_inj' isFront rfl
    simp only [List.cons.injEq, Prod.mk.injEq, and_true] at last
    obtain ⟨rfl, rfl⟩ := last
    obtain ⟨work, workOk, workEq⟩ := (ends.extends_parent parentEnds).exists_work
    have positive := workForTarget_pos workOk
    rw [ends.work_eq, parentEnds.work_eq, workEq]
    exact ⟨rfl, by omega⟩

/-- Later items have more work. -/
theorem Refines.work_lt (refines : chain.Refines) {tip : Bytes} (lineage : chain.Lineage tip path)
    {position : Nat} {hash : Bytes} {entry : ChainEntry} (here : path[position]? = some (hash, entry)) :
    ∀ {gap : Nat} {last : Bytes} {lastEntry : ChainEntry},
      path[position + (gap + 1)]? = some (last, lastEntry) →
        entry.record.cumulativeWork < lastEntry.record.cumulativeWork := by
  intro gap
  induction gap with
  | zero => exact fun there => (refines.consecutive lineage here there).2
  | succ gap ih =>
      intro last lastEntry there
      obtain ⟨inside, -⟩ := List.getElem?_eq_some_iff.mp there
      have between : path[position + (gap + 1)]? = some path[position + (gap + 1)] :=
        List.getElem?_eq_getElem _
      exact (ih between).trans (refines.consecutive lineage between there).2

/-- The chain has the first `count` blocks of the path, and ends in the last of them. -/
def Copied (path : List (Bytes × ChainEntry)) (count : Nat) (copy : Chain) : Prop :=
  ∃ position entry, count = position + 1 ∧ path[position]? = some (copy.activeTipHash, entry)

variable {copy : Chain} {count : Nat}

namespace Copied

omit [Platform] in
theorem count_le (copied : copy.Copied path count) : count ≤ path.length := by
  obtain ⟨position, entry, rfl, here⟩ := copied
  obtain ⟨inside, -⟩ := List.getElem?_eq_some_iff.mp here
  exact inside

section

variable (copied : copy.Copied path count)
  (ends : chain.BranchTo chain.activeTipHash chain.tipEntry path branch)

include copied ends

/-- A complete copy has the same tip. -/
theorem tip_eq (complete : count = path.length) : copy.activeTipHash = chain.activeTipHash := by
  obtain ⟨position, entry, isCount, here⟩ := copied
  obtain ⟨front, isPath⟩ := ends.exists_last
  have last : path[position]? = some (chain.activeTipHash, chain.tipEntry) := by
    rw [complete, isPath, List.length_append, List.length_singleton] at isCount
    rw [isPath, show position = front.length by omega, List.getElem?_concat_length]
  exact congrArg Prod.fst (Option.some.inj (here.symm.trans last))

variable (refines : chain.Refines) (reachable : copy.Reachable) (apart : ¬ copy.Collide chain)

include refines reachable apart

/-- The tip of the copy has the entry of the path. -/
theorem exists_tip : ∃ position entry, count = position + 1 ∧
    path[position]? = some (copy.activeTipHash, entry) ∧ copy.tipEntry = entry := by
  obtain ⟨position, entry, isCount, here⟩ := copied
  have stored := ends.lineage.find_of_mem (List.mem_of_getElem? here)
  exact ⟨position, entry, isCount, here,
    reachable.refines.entry_eq_of_shared refines apart copy.tipEntry_stored stored⟩

/-- A copy with as much work is complete. -/
theorem complete_of_le (heavy : chain.cumulativeWork ≤ copy.cumulativeWork) :
    count = path.length := by
  obtain ⟨position, entry, isCount, here, isTip⟩ := copied.exists_tip ends refines reachable apart
  obtain ⟨front, isPath⟩ := ends.exists_last
  have inside := (List.getElem?_eq_some_iff.mp here).1
  by_contra incomplete
  have last : path[position + ((front.length - position - 1) + 1)]? =
      some (chain.activeTipHash, chain.tipEntry) := by
    rw [isPath, List.length_append, List.length_singleton] at incomplete inside
    rw [isPath, show position + ((front.length - position - 1) + 1) = front.length by omega,
      List.getElem?_concat_length]
  have lighter := refines.work_lt ends.lineage here last
  rw [← isTip] at lighter
  exact absurd heavy (not_le.mpr lighter)

/-- A copy has no more work. -/
theorem work_le : copy.cumulativeWork ≤ chain.cumulativeWork := by
  by_contra heavier
  have complete := copied.complete_of_le ends refines reachable apart (not_le.mp heavier).le
  have sameTip := copied.tip_eq ends complete
  have same := reachable.refines.entry_eq_of_shared refines apart copy.tipEntry_stored
    (sameTip ▸ chain.tipEntry_stored)
  rw [cumulativeWork, cumulativeWork, same] at heavier
  exact heavier le_rfl

variable {hash : Bytes} {entry : ChainEntry} (next : path[count]? = some (hash, entry))

include next

/-- The next block of the path is missing, and its parent is the tip. -/
theorem next_missing : copy.contains hash = false ∧
    entry.block.header.previousBlockHash = copy.activeTipHash ∧
    copy.newEntry entry.block = .ok entry := by
  obtain ⟨position, tipEntry, rfl, here, isTip⟩ := copied.exists_tip ends refines reachable apart
  obtain ⟨parent, heavier⟩ := refines.consecutive ends.lineage here next
  have stored := ends.lineage.find_of_mem (List.mem_of_getElem? next)
  have missing : copy.contains hash = false := by
    rw [Bool.eq_false_iff]
    intro known
    obtain ⟨entry', stored'⟩ := contains_eq_true.mp known
    have same := reachable.refines.entry_eq_of_shared refines apart stored' stored
    subst same
    have light := reachable.work_le stored'
    rw [cumulativeWork, isTip] at light
    omega
  refine ⟨missing, parent, refines.newEntry_of_shared reachable.refines
    (fun collide => apart collide.symm) stored missing ?_⟩
  rw [parent]
  exact contains_eq_true.mpr ⟨_, copy.tipEntry_stored⟩

/-- **The next block extends the copy.** -/
theorem addBlock {update : ChainUpdate} {grown : Chain}
    (added : copy.addBlock entry.block = (.ok update, grown)) : grown.Copied path (count + 1) := by
  obtain ⟨-, parent, -⟩ := copied.next_missing ends refines reachable apart next
  obtain ⟨-, isTip, -⟩ := reachable.exists_grown_branch parent added
  have stored := ends.lineage.find_of_mem (List.mem_of_getElem? next)
  have named := refines.blockHash_ok stored
  rw [isTip] at named
  cases named
  exact ⟨count, entry, rfl, next⟩

end

/-- **The locator of a copy** is answered with the blocks that follow it. -/
theorem blocksAfter_eq (copied : copy.Copied path count)
    (ends : chain.BranchTo chain.activeTipHash chain.tipEntry path branch)
    (refines : chain.Refines) (refines' : copy.Refines)
    {locator : BlockLocator} (located : blockLocator copy = .ok locator) :
    blocksAfter chain locator = .ok (some (pathBlocks
      (slice path count (min (count + maxBlocksPerResponse) path.length)))) := by
  obtain ⟨position, entry, rfl, here⟩ := copied
  obtain ⟨path', branch', ends'⟩ := refines'.exists_branch copy.tipEntry_stored
  obtain ⟨hashes, positions, located', locates, rooted⟩ := refines'.blockLocator_ok ends'
  rw [located] at located'
  cases located'
  -- The first hash of the locator is the tip of the copy, which is active.
  have first : hashes.head? = some copy.activeTipHash := by
    obtain ⟨front, isPath⟩ := ends'.exists_last
    rw [locates.head?_eq, isPath, List.map_append, List.map_singleton, List.getLast?_concat]
  obtain ⟨before, hash, after, common, split, active, missed, answer⟩ :=
    refines.blocksAfter_ok ends rooted
  have tipActive : (path.map Prod.fst)[position]? = some copy.activeTipHash := by
    rw [List.getElem?_map, here]
    rfl
  have none_before : before = [] := by
    cases before with
    | nil => rfl
    | cons earlier rest =>
        rw [split] at first
        cases first
        exact absurd (List.mem_of_getElem? tipActive) (missed _ List.mem_cons_self)
  subst none_before
  rw [split] at first
  cases first
  have same : common = position := by
    obtain ⟨inside, isCommon⟩ := List.getElem?_eq_some_iff.mp active
    obtain ⟨inside', isPosition⟩ := List.getElem?_eq_some_iff.mp tipActive
    exact (ends.lineage.nodup.getElem_inj_iff).mp (isCommon.trans isPosition.symm)
  rw [answer, same, slice, pathBlocks, pathBlocks, List.map_take, List.map_drop]
  congr 2
  have lengths : ((path.map fun item => item.2.block).drop (position + 1)).length =
      path.length - (position + 1) := by
    rw [List.length_drop, List.length_map]
  by_cases short : position + 1 + maxBlocksPerResponse ≤ path.length
  · rw [min_eq_left short, Nat.add_sub_cancel_left]
  · rw [min_eq_right (by omega), List.take_of_length_le (by omega), List.take_of_length_le (by omega)]

end Copied

end Chain

/-! ## What the two ends read -/

namespace Session

variable {session : Session} {chain : Chain} {path : List (Bytes × ChainEntry)} {branch : BranchState}
  {count : Nat}

/-- A frame is handled once the rate limiter let it pass, or the task ends. -/
theorem deliver_reading (reading : session.connection.task = .reading) (frame : Frame) (now : Time)
    (faults : List Transactions.Fault) :
    (session.deliver frame now faults).connection.task = .ended ∨
      ∃ passed, passed.course = session.course ∧
        session.deliver frame now faults = resume now (handleFrame frame now faults passed) := by
  rw [deliver, reading]
  dsimp only
  rcases receive_cases frame now faults session with ⟨e, after, raised, judged⟩ |
    ⟨passed, judged, same⟩
  · rw [raised]
    exact .inl (task_fail e now after)
  · rw [same]
    exact .inr ⟨passed, judged, rfl⟩

omit [Platform] in
/-- A task that goes on waits for the next frame. -/
theorem resume_none (now : Time) (after : Session) :
    (resume now (.ok none, after)).connection.task = .ended ∨
      (resume now (.ok none, after)).course = { after.course with task := .reading } := by
  rw [course_resume_ok]
  by_cases closed : after.connection.closed = true
  · exact .inl ((congrArg Course.task (course_resume_ok now none after)).trans (if_pos closed))
  · right
    rw [show after.nextTask none = .reading from if_neg closed]

/-- **The next block of the peer** becomes the tip. -/
theorem deliver_next (inv : session.node.localNode.Invariant)
    (reading : session.connection.task = .reading)
    (copied : session.node.localNode.chain.Copied path count)
    (ends : chain.BranchTo chain.activeTipHash chain.tipEntry path branch) (refines : chain.Refines)
    (apart : ¬ session.node.localNode.chain.Collide chain) {hash payload : Bytes} {entry : ChainEntry}
    (next : path[count]? = some (hash, entry)) (encoded : encodeBlock entry.block = .ok payload)
    (now : Time) (faults : List Transactions.Fault) :
    (session.deliver ⟨.block, payload⟩ now faults).connection.task = .ended ∨
      ∃ localNode, localNode.chain.Copied path (count + 1) ∧
        (session.deliver ⟨.block, payload⟩ now faults).course = { session.course with
          localNode
          acceptedBlocks :=
            if session.course.outstanding = true then session.course.acceptedBlocks + 1
            else session.course.acceptedBlocks
          task := .reading } := by
  have reachable := inv.chain_reachable
  obtain ⟨missing, -, newOk⟩ := copied.next_missing ends refines reachable apart next
  have stored := ends.lineage.find_of_mem (List.mem_of_getElem? next)
  have hashOk := refines.blockHash_ok stored
  have blamed : ∀ {e : Raised}, (session.node.localNode.submitBlock entry.block faults).1 = .error e →
      e.cls ≠ .chainError := by
    intro e refused isChainError
    have spares := inv.submitBlock_spares newOk refused
    rw [Spares, isChainError] at spares
    cases spares
  rcases deliver_reading reading ⟨.block, payload⟩ now faults with ended | ⟨passed, same, delivered⟩
  · exact .inl ended
  have sameNode : passed.node.localNode = session.node.localNode := congrArg Course.localNode same
  have inv' : passed.node.localNode.Invariant := sameNode ▸ inv
  rw [delivered, handleFrame]
  dsimp only
  rw [bind_apply, lift_apply, refines.decodes stored encoded]
  dsimp only
  rw [Course.then_none]
  have handled := handleBlock_handled inv' entry.block now faults
  generalize handleBlock entry.block now faults passed = outcome at handled ⊢
  cases handled with
  | unhashed _ => exact .inl (task_fail _ now _)
  | known hashOk' known =>
      rw [hashOk] at hashOk'
      cases hashOk'
      rw [sameNode, missing] at known
      cases known
  | failed _ _ => exact .inl (task_fail _ now _)
  | orphaned _ _ refused isChainError =>
      rw [sameNode] at refused
      exact absurd isChainError (blamed refused)
  | refused _ _ refused isChainError =>
      rw [sameNode] at refused
      exact absurd isChainError (blamed refused)
  | @accepted _ update localNode result after _ _ accepted sameCourse =>
      rw [sameNode] at accepted
      cases result with
      | error e => exact .inl (task_fail e now after)
      | ok _ =>
          rcases resume_none now after with ended | goesOn
          · exact .inl ended
          · refine .inr ⟨localNode, copied.addBlock ends refines reachable apart next
              (inv.submitBlock_ok accepted), ?_⟩
            have after_eq : (resume now ((Except.ok () : Except Raised Unit).map fun _ => none,
                after)).course = { after.course with task := .reading } := goesOn
            rw [after_eq, sameCourse, same]

end Session

/-- Nothing is left to ask for. -/
structure Course.Satisfied (before after : Course) : Prop where
  node_eq : after.localNode = before.localNode
  met : after.hello ≠ none
  idle : after.outstanding = false
  pendingSends_eq : after.pendingSends = before.pendingSends
  written_eq : after.written = before.written
  task_eq : after.task = .reading

/-- A request is written. -/
structure Course.Asks (before after : Course) : Prop where
  node_eq : after.localNode = before.localNode
  met : after.hello ≠ none
  busy : after.outstanding = true
  acceptedBlocks_eq : after.acceptedBlocks = 0
  pendingSends_eq : after.pendingSends = before.pendingSends
  exists_written : ∃ locator payload, blockLocator before.localNode.chain = .ok locator ∧
    locator.toBytes = .ok payload ∧ after.written = before.written ++ [⟨.getBlocks, payload⟩]
  task_eq : after.task = .reading

namespace Session

variable {session : Session} {chain : Chain} {path : List (Bytes × ChainEntry)} {branch : BranchState}
  {count : Nat}

/-- The peer is asked after a HELLO or a summary that claims more work. -/
theorem resume_requestBlocks {before : Course} (node_eq : session.course.localNode = before.localNode)
    (met : session.course.hello ≠ none) (pendingSends_eq : session.course.pendingSends = before.pendingSends)
    (written_eq : session.course.written = before.written) (idle : session.course.outstanding = false)
    {result : Except Raised Bool} {after : Session}
    (request : requestBlocks session = (result, after)) (now : Time) :
    (resume now (result.map fun _ => none, after)).connection.task = .ended ∨
      before.Asks (resume now (result.map fun _ => none, after)).course := by
  rcases requestBlocks_cases session with ⟨busy, -⟩ | ⟨-, e, outcome⟩ |
    ⟨-, -, locator, payload, located, encoded, outcome⟩
  · exact absurd (idle.symm.trans busy) (by simp)
  · rw [request] at outcome
    cases outcome
    exact .inl (task_fail e now _)
  · rw [request] at outcome
    cases outcome
    rcases resume_none now (session.requested payload) with ended | goesOn
    · exact .inl ended
    · right
      have after_eq : (resume now ((Except.ok true : Except Raised Bool).map fun _ => none,
          session.requested payload)).course =
            { (session.requested payload).course with task := .reading } := goesOn
      have written : (session.requested payload).course.written =
          session.course.written ++ [⟨.getBlocks, payload⟩] := by
        simp [course, requested, withoutRejects, PeerConnection.beginBlockRequest]
      have located' : blockLocator session.course.localNode.chain = .ok locator := located
      rw [after_eq]
      rw [node_eq] at located'
      exact ⟨node_eq, met, rfl, rfl, pendingSends_eq,
        ⟨locator, payload, located', encoded, written.trans (by rw [written_eq])⟩, rfl⟩

/-- **The HELLO of the peer** starts a request if it claims more work. -/
theorem deliver_greeting (waiting : session.connection.task = .handshaking)
    (idle : session.course.outstanding = false) {payload : Bytes} {hello : Hello}
    (decoded : Hello.fromBytes payload = .ok hello) (now : Time) (faults : List Transactions.Fault) :
    (session.deliver ⟨.hello, payload⟩ now faults).connection.task = .ended ∨
      (hello.cumulativeWork ≤ session.node.localNode.chain.cumulativeWork ∧
        session.course.Satisfied (session.deliver ⟨.hello, payload⟩ now faults).course) ∨
      session.node.localNode.chain.cumulativeWork < hello.cumulativeWork ∧
        session.course.Asks (session.deliver ⟨.hello, payload⟩ now faults).course := by
  rw [deliver, waiting]
  dsimp only
  have handled := handshake_handled session ⟨.hello, payload⟩
  generalize handshake ⟨.hello, payload⟩ session = outcome at handled ⊢
  cases handled with
  | refused => exact .inl (task_fail _ now _)
  | light _ decoded' _ _ lighter =>
      rw [decoded] at decoded'
      cases decoded'
      rcases resume_none now (session.greeted hello) with ended | goesOn
      · exact .inl ended
      · rw [goesOn]
        exact .inr (.inl ⟨lighter, rfl, Option.some_ne_none _, idle, rfl, rfl, rfl⟩)
  | heavy _ decoded' _ _ heavier request =>
      rw [decoded] at decoded'
      cases decoded'
      rcases @resume_requestBlocks _ (session.greeted hello) session.course rfl
        (Option.some_ne_none _) rfl rfl idle _ _ request now with ended | asks
      · exact .inl ended
      · exact .inr (.inr ⟨heavier, asks⟩)

/-- A HELLO that claims no more work asks for nothing. -/
theorem deliver_welcome (waiting : session.connection.task = .handshaking) {payload : Bytes}
    {hello : Hello} (decoded : Hello.fromBytes payload = .ok hello)
    (light : hello.cumulativeWork ≤ session.node.localNode.chain.cumulativeWork) (now : Time)
    (faults : List Transactions.Fault) :
    ∃ met closed task, (session.deliver ⟨.hello, payload⟩ now faults).course =
        { session.course with hello := met, closed, task } ∧ task.answers = none := by
  rw [deliver, waiting]
  dsimp only
  have handled := handshake_handled session ⟨.hello, payload⟩
  generalize handshake ⟨.hello, payload⟩ session = outcome at handled ⊢
  cases handled with
  | refused =>
      rw [course_resume_error]
      exact ⟨_, _, _, rfl, rfl⟩
  | light _ decoded' _ _ _ =>
      rw [course_resume_ok]
      refine ⟨_, _, _, rfl, ?_⟩
      rw [nextTask]
      split <;> rfl
  | heavy _ decoded' _ _ heavier _ =>
      rw [decoded] at decoded'
      cases decoded'
      exact absurd light (not_le.mpr heavier)

/-- **The summary of the peer** starts another request if it claims more work. -/
theorem deliver_mark (reading : session.connection.task = .reading) {payload : Bytes}
    {summary : ChainSummary} (decoded : ChainSummary.fromBytes payload = .ok summary) (now : Time)
    (faults : List Transactions.Fault) :
    (session.deliver ⟨.syncComplete, payload⟩ now faults).connection.task = .ended ∨
      (summary.cumulativeWork ≤ session.node.localNode.chain.cumulativeWork ∧
        session.course.Satisfied (session.deliver ⟨.syncComplete, payload⟩ now faults).course) ∨
      session.node.localNode.chain.cumulativeWork < summary.cumulativeWork ∧
        session.course.Asks (session.deliver ⟨.syncComplete, payload⟩ now faults).course := by
  rcases deliver_reading reading ⟨.syncComplete, payload⟩ now faults with ended |
    ⟨passed, same, delivered⟩
  · exact .inl ended
  have sameNode : passed.node.localNode = session.node.localNode := congrArg Course.localNode same
  have samePending := congrArg Course.pendingSends same
  have sameWritten := congrArg Course.written same
  rw [delivered, handleFrame]
  dsimp only
  rw [bind_apply, lift_apply, decoded]
  dsimp only
  rw [Course.then_none, ← sameNode]
  have handled := handleSyncComplete_handled passed summary now
  generalize handleSyncComplete summary now passed = outcome at handled ⊢
  cases handled with
  | refused _ => exact .inl (task_fail _ now _)
  | @light hello _ _ lighter =>
      rcases resume_none now (passed.synced summary hello) with ended | goesOn
      · exact .inl ended
      · have after_eq : (resume now ((Except.ok () : Except Raised Unit).map fun _ => none,
            passed.synced summary hello)).course =
              { (passed.synced summary hello).course with task := .reading } := goesOn
        rw [after_eq]
        exact .inr (.inl ⟨lighter, sameNode, Option.some_ne_none _, rfl, samePending, sameWritten, rfl⟩)
  | stuck _ _ _ _ _ => exact .inl (task_fail _ now _)
  | @heavy hello result after _ _ heavier _ request =>
      have asking := @resume_requestBlocks _ (passed.synced summary hello) session.course sameNode
        (Option.some_ne_none _) samePending sameWritten rfl _ _ request now
      have again : (resume now ((result.map fun _ => ()).map fun _ => none, after)) =
          resume now (result.map fun _ => none, after) := by
        cases result with
        | error e => rfl
        | ok _ => rfl
      rw [again]
      rcases asking with ended | asks
      · exact .inl ended
      · exact .inr (.inr ⟨heavier, asks⟩)

/-- **A request of a copy** is answered with what follows. -/
theorem deliver_request (reading : session.connection.task = .reading)
    (isChain : session.node.localNode.chain = chain) (refines : chain.Refines)
    (ends : chain.BranchTo chain.activeTipHash chain.tipEntry path branch) {copy : Chain}
    (copied : copy.Copied path count) (refines' : copy.Refines) {locator : BlockLocator}
    {payload : Bytes} (located : blockLocator copy = .ok locator)
    (encoded : locator.toBytes = .ok payload) (now : Time) (faults : List Transactions.Fault) :
    ∃ closed task, (session.deliver ⟨.getBlocks, payload⟩ now faults).course =
        { session.course with closed, task } ∧
      (task = .ended ∨ task = .answering (pathBlocks
        (slice path count (min (count + maxBlocksPerResponse) path.length)))) := by
  rw [deliver, reading]
  dsimp only
  rcases receive_cases ⟨.getBlocks, payload⟩ now faults session with ⟨e, after, raised, judged⟩ |
    ⟨passed, judged, same⟩
  · rw [raised, course_resume_error, judged.course_eq]
    exact ⟨_, _, rfl, .inl rfl⟩
  · have sameNode : passed.node.localNode = session.node.localNode :=
      congrArg Course.localNode judged.course_eq
    have answers := copied.blocksAfter_eq ends refines refines' located
    have sends : sendBlocks locator now passed = (.ok (some (pathBlocks
        (slice path count (min (count + maxBlocksPerResponse) path.length)))), passed) := by
      rw [sendBlocks, bind_of_ok (read_apply _ _), sameNode, isChain, bind_apply, lift_apply, answers]
      rfl
    rw [same, handleFrame]
    dsimp only
    rw [bind_apply, lift_apply, BlockLocator.fromBytes_toBytes encoded]
    dsimp only
    rw [sends, course_resume_ok, judged.course_eq]
    exact ⟨_, _, rfl, .inr rfl⟩

/-- **The next step of an answer**: the connection was closed, or another block is written, or the
end mark. -/
theorem answer_cases {blocks : List Block} (answering : session.connection.task = .answering blocks)
    (now : Time) :
    (session.answer now).course = { session.course with closed := true, task := .ended } ∨
    (∃ block rest payload, blocks = block :: rest ∧ encodeBlock block = .ok payload ∧
      (session.answer now).course = { session.course with
        task := .answering rest, written := session.course.written ++ [⟨.block, payload⟩] }) ∨
    (blocks = [] ∧ ∃ payload closed task,
      (ChainSummary.ofChain session.node.localNode.chain).toBytes = .ok payload ∧
      task.answers = none ∧ (session.answer now).course = { session.course with
        closed, task, written := session.course.written ++ [⟨.syncComplete, payload⟩] }) := by
  have same : session.answer now = resume now (sendNext blocks session) := by
    rw [answer, answering]
  rw [same]
  rcases sendNext_cases blocks session with ⟨e, raised⟩ |
    ⟨-, block, rest, payload, isBlocks, encoded, written⟩ | ⟨-, isBlocks, payload, encoded, written⟩
  · rw [raised]
    exact .inl (course_resume_error now e session)
  · rw [written, course_resume_ok, course_wrote (by simp)]
    exact .inr (.inl ⟨block, rest, payload, isBlocks, encoded, rfl⟩)
  · rw [written, course_resume_ok, course_wrote (by simp)]
    refine .inr (.inr ⟨isBlocks, payload, _, _, encoded, ?_, rfl⟩)
    rw [nextTask]
    split
    · rfl
    · rfl

end Session

end OurCoin
