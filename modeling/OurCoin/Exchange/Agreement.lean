import OurCoin.Exchange.Orderly

/-!
# Agreement of two parties

A party with more work than the other one informs it: by its HELLO, by a broadcast, or by
the answer to a request (`Informs`). A request that is outstanding is on its way, being
answered, or answered (`Awaited`).

* `Turns.informed`: on an open connection every move preserves both facts, but for work that is
  lost in a move that is unannounced. Unannounced is a block that a party accepts after its own
  HELLO and before that of the other one is handled: its HELLO was sent too early for it, and a
  broadcast would be too early.
* `Pair.Informed.compare`: when nothing is under way, both parties have the same work, or that of
  the heavier one was lost.
-/

set_option autoImplicit false

namespace OurCoin.Exchange

variable {W : Type} [LinearOrder W]

/-- The second party has the work of the first one, or is about to learn of it. -/
inductive Informs (first second : Party W) : Prop
  | knows : first.work ≤ second.work → Informs first second
  | starts : first.phase = .starting → Informs first second
  | greets : .hello first.work ∈ first.sent → Informs first second
  | queues : .block first.work ∈ first.queue → Informs first second
  | announces : .block first.work ∈ first.sent → Informs first second
  /-- The second party has asked. -/
  | requested : .getBlocks ∈ second.sent → Informs first second
  | answers : first.phase = .answering → Informs first second
  | summarizes : .summary first.work ∈ first.sent → Informs first second

/-- A request of the second party that is outstanding will be answered by the first one. -/
def Awaited (first second : Party W) : Prop :=
  second.outstanding = true →
    .getBlocks ∈ second.sent ∨ first.phase = .answering ∨ ∃ claim, .summary claim ∈ first.sent

/-- The left party accepts a block that makes it the heavier one, after its HELLO was sent
and before that of the other party is handled, while the other party waits for no answer. -/
def Pair.LeftUnannounced (pair after : Pair W) : Prop :=
  pair.left.phase = .handshaking ∧ pair.left.work < after.left.work ∧
    pair.right.work < after.left.work ∧ pair.right.outstanding = false

/-- A connection does not open again. -/
theorem Moves.open_before {received : Option (Message W)} {party after : Party W}
    (moves : Moves received party after) (isOpen : after.closed = false) : party.closed = false := by
  cases moves with
  | close => cases isOpen
  | drop => cases isOpen
  | fail _ closes => exact absurd (closes.symm.trans isOpen) (by simp)
  | grow =>
      rw [Party.offers] at isOpen
      split at isOpen
      · exact isOpen
      · exact isOpen
  | enqueue =>
      rw [Party.offers] at isOpen
      split at isOpen
      · exact isOpen
      · exact isOpen
  | _ => exact isOpen

omit [LinearOrder W] in
/-- A message that is taken out of a list is the one at the index. -/
theorem mem_eraseIdx_or {messages : List (Message W)} {message : Message W} (index : Nat)
    (member : message ∈ messages) :
    message ∈ messages.eraseIdx index ∨ messages[index]? = some message := by
  obtain ⟨position, found⟩ := List.mem_iff_getElem?.mp member
  by_cases same : position = index
  · exact .inr (same ▸ found)
  · left
    rw [List.mem_iff_getElem?]
    by_cases before : position < index
    · exact ⟨position, by rw [List.getElem?_eraseIdx_of_lt before, found]⟩
    · obtain ⟨previous, rfl⟩ : ∃ previous, position = previous + 1 := ⟨position - 1, by omega⟩
      exact ⟨previous, by rw [List.getElem?_eraseIdx_of_ge (by omega), found]⟩

/-- A party that keeps its work goes on informing the other one if nothing under way is
lost. -/
theorem Informs.mono {first after second : Party W} (informs : Informs first second)
    (sameWork : after.work = first.work) (sameStart : first.phase = .starting → after.phase = .starting)
    (answering : first.phase = .answering →
      after.phase = .answering ∨ .summary first.work ∈ after.sent)
    (sent : ∀ message ∈ first.sent, message ∈ after.sent)
    (queue : ∀ message ∈ first.queue, message ∈ after.queue ∨ message ∈ after.sent) :
    Informs after second := by
  cases informs with
  | knows less => exact .knows (sameWork ▸ less)
  | starts starting => exact .starts (sameStart starting)
  | greets hello => exact .greets (sameWork ▸ sent _ hello)
  | queues queued =>
      rcases queue _ queued with kept | now
      · exact .queues (sameWork ▸ kept)
      · exact .announces (sameWork ▸ now)
  | announces block => exact .announces (sameWork ▸ sent _ block)
  | requested request => exact .requested request
  | answers answers =>
      rcases answering answers with answers | summary
      · exact .answers answers
      · exact .summarizes (sameWork ▸ summary)
  | summarizes summary => exact .summarizes (sameWork ▸ sent _ summary)

omit [LinearOrder W] in
theorem Awaited.mono {first after second : Party W} (awaited : Awaited first second)
    (answering : first.phase = .answering →
      after.phase = .answering ∨ ∃ claim, .summary claim ∈ after.sent)
    (sent : ∀ message ∈ first.sent, message ∈ after.sent) : Awaited after second := by
  intro outstanding
  rcases awaited outstanding with request | answers | ⟨claim, summary⟩
  · exact .inl request
  · exact .inr (answering answers)
  · exact .inr (.inr ⟨claim, sent _ summary⟩)

omit [LinearOrder W] in
theorem Awaited.of_request {first second : Party W} (request : .getBlocks ∈ second.sent) :
    Awaited first second :=
  fun _ => .inl request

/-- A block that makes a party the heavier one is broadcast, unless its HELLO comes too early for
it. Then only a request of the other party makes up for that. -/
theorem informs_grown {party other : Party W} {work : W} (orderly : Orderly party other)
    (isOpen : party.closed = false)
    (announced : ¬ (party.phase = .handshaking ∧ other.work < work ∧ other.outstanding = false))
    (awaited : Awaited party other) :
    Informs (Party.offers { party with work } (.block work)) other := by
  obtain ⟨-, ⟨-, met, ended, -, handshaking, -, -⟩, -, -⟩ := orderly
  rw [Party.offers_eq]
  cases position : party.phase with
  | starting => exact .starts rfl
  | handshaking =>
      by_cases less : work ≤ other.work
      · exact .knows less
      · have outstanding : other.outstanding = true := by
          by_contra idle
          exact announced ⟨position, not_le.mp less, by simpa using idle⟩
        rcases awaited outstanding with request | answering | ⟨claim, summary⟩
        · exact .requested request
        · rw [position] at answering
          cases answering
        · obtain ⟨_, isHello⟩ := handshaking position _ summary
          cases isHello
  | reading =>
      apply Informs.queues
      apply Party.mem_queue_offers_self
      · exact met (.inl position)
      · exact isOpen
  | answering => exact .answers rfl
  | ended => exact absurd ((ended position).symm.trans isOpen) (by simp)

/-- **A party that moves informs the other one**, if it did so before or has more work now, unless
the move is unannounced. -/
theorem Moves.informs {party after other : Party W} (moves : Moves none party after)
    (orderly : Orderly party other) (isOpen : after.closed = false)
    (announced : ¬ (party.phase = .handshaking ∧ party.work < after.work ∧
      other.work < after.work ∧ other.outstanding = false))
    (informs : after.work = party.work → Informs party other) (awaited : Awaited party other) :
    Informs after other := by
  cases moves with
  | idle => exact informs rfl
  | close => cases isOpen
  | fail _ closes => exact absurd (closes.symm.trans isOpen) (by simp)
  | greet => exact .greets (List.mem_append_right _ (List.mem_singleton_self _))
  | answer =>
      exact (informs rfl).mono rfl id .inl (fun _ => List.mem_append_left _) fun _ => .inl
  | summarize answering =>
      have summary : .summary party.work ∈ (party.sends (.summary party.work)).sent :=
        List.mem_append_right _ (List.mem_singleton_self _)
      exact (informs rfl).mono rfl (by simp [answering]) (fun _ => .inr summary)
        (fun _ => List.mem_append_left _) fun _ => .inl
  | ping =>
      exact (informs rfl).mono rfl id .inl (fun _ => List.mem_append_left _) fun _ => .inl
  | @flush _ index message _ found =>
      refine (informs rfl).mono rfl id .inl (fun _ => List.mem_append_left _) ?_
      intro queued member
      rcases mem_eraseIdx_or index member with kept | taken
      · exact .inl kept
      · rw [found] at taken
        cases taken
        exact .inr (List.mem_append_right _ (List.mem_singleton_self _))
  | drop => cases isOpen
  | @grow _ work =>
      by_cases heavier : party.work < work
      · rw [Party.offers_eq] at isOpen announced
        rw [max_eq_right heavier.le] at announced ⊢
        exact informs_grown orderly isOpen
          (fun early => announced ⟨early.1, heavier, early.2⟩) awaited
      · rw [max_eq_left (not_lt.mp heavier)] at informs ⊢
        rw [Party.offers_eq] at informs ⊢
        refine (informs rfl).mono rfl id .inl (fun _ => id) ?_
        exact fun message member => .inl (Party.mem_queue_offers member _)
  | enqueue =>
      rw [Party.offers_eq] at informs ⊢
      refine (informs rfl).mono rfl id .inl (fun _ => id) ?_
      exact fun message member => .inl (Party.mem_queue_offers member _)

theorem Moves.awaited {party after other : Party W} (moves : Moves none party after)
    (isOpen : after.closed = false) (awaited : Awaited party other) : Awaited after other := by
  cases moves with
  | idle => exact awaited
  | close => cases isOpen
  | fail _ closes => exact absurd (closes.symm.trans isOpen) (by simp)
  | greet starts => exact awaited.mono (by simp [starts]) fun _ => List.mem_append_left _
  | answer => exact awaited.mono .inl fun _ => List.mem_append_left _
  | summarize =>
      exact awaited.mono (fun _ => .inr ⟨_, List.mem_append_right _ (List.mem_singleton_self _)⟩)
        fun _ => List.mem_append_left _
  | ping => exact awaited.mono .inl fun _ => List.mem_append_left _
  | flush => exact awaited.mono .inl fun _ => List.mem_append_left _
  | drop => cases isOpen
  | grow =>
      rw [Party.offers_eq]
      exact awaited.mono .inl fun _ => id
  | enqueue =>
      rw [Party.offers_eq]
      exact awaited.mono .inl fun _ => id

/-- A party that moves takes nothing back. -/
structure Party.Keeps (party after : Party W) : Prop where
  work_le : party.work ≤ after.work
  sent : ∀ message ∈ party.sent, message ∈ after.sent
  outstanding_eq : after.outstanding = party.outstanding

theorem Moves.keeps {party after : Party W} (moves : Moves none party after)
    (isOpen : after.closed = false) : party.Keeps after := by
  cases moves with
  | fail _ closes => exact absurd (closes.symm.trans isOpen) (by simp)
  | drop => cases isOpen
  | greet | answer | summarize | ping | flush =>
      exact ⟨le_rfl, fun _ => List.mem_append_left _, rfl⟩
  | grow =>
      rw [Party.offers_eq]
      exact ⟨le_max_left _ _, fun _ => id, rfl⟩
  | enqueue =>
      rw [Party.offers_eq]
      exact ⟨le_rfl, fun _ => id, rfl⟩
  | _ => exact ⟨le_rfl, fun _ => id, rfl⟩

/-- A party that moves is still informed. -/
theorem Party.Keeps.informed {party after other : Party W} (keeps : party.Keeps after)
    (informs : Informs other party) : Informs other after := by
  obtain ⟨work, sent, -⟩ := keeps
  cases informs with
  | knows less => exact .knows (less.trans work)
  | starts starting => exact .starts starting
  | greets hello => exact .greets hello
  | queues queued => exact .queues queued
  | announces block => exact .announces block
  | requested request => exact .requested (sent _ request)
  | answers answers => exact .answers answers
  | summarizes summary => exact .summarizes summary

theorem Party.Keeps.awaited {party after other : Party W} (keeps : party.Keeps after)
    (awaited : Awaited other party) : Awaited other after := by
  intro waits
  rcases awaited (keeps.outstanding_eq ▸ waits) with request | answered
  · exact .inl (keeps.sent _ request)
  · exact .inr answered

/-! ## Messages that are handled -/

section Handled

variable {first second after : Party W} {message : Message W} {rest : List (Message W)}

/-- The second party still informs the first one when a message of the first is handled that is no
request. -/
theorem Informs.receives (informs : Informs first second) (arrives : second.sent = message :: rest)
    (noRequest : message ≠ .getBlocks) : Informs first { second with sent := rest } := by
  cases informs with
  | knows less => exact .knows less
  | starts starting => exact .starts starting
  | greets hello => exact .greets hello
  | queues queued => exact .queues queued
  | announces block => exact .announces block
  | requested request =>
      rw [arrives] at request
      exact .requested ((List.mem_cons.mp request).resolve_left (Ne.symm noRequest))
  | answers answers => exact .answers answers
  | summarizes summary => exact .summarizes summary

omit [LinearOrder W] in
theorem Awaited.receives (awaited : Awaited first second) (arrives : second.sent = message :: rest)
    (noRequest : message ≠ .getBlocks) : Awaited first { second with sent := rest } := by
  intro waits
  rcases awaited waits with request | answered
  · rw [arrives] at request
    exact .inl ((List.mem_cons.mp request).resolve_left (Ne.symm noRequest))
  · exact .inr answered

/-- The first party informs the second one still when a message is handled, or the message is the
one that did. -/
theorem Informs.handled (informs : Informs first second) (arrives : first.sent = message :: rest)
    (work_le : second.work ≤ after.work) (sent : ∀ own ∈ second.sent, own ∈ after.sent)
    (told : message.work? = some first.work → Informs { first with sent := rest } after) :
    Informs { first with sent := rest } after := by
  have head : ∀ {own : Message W}, own ∈ first.sent → own.work? = some first.work →
      Informs { first with sent := rest } after ∨ own ∈ rest := by
    intro own member stands
    rw [arrives] at member
    rcases List.mem_cons.mp member with rfl | later
    · exact .inl (told stands)
    · exact .inr later
  cases informs with
  | knows less => exact .knows (less.trans work_le)
  | starts starting => exact .starts starting
  | greets hello => exact (head hello rfl).elim id fun later => .greets later
  | queues queued => exact .queues queued
  | announces block => exact (head block rfl).elim id fun later => .announces later
  | requested request => exact .requested (sent _ request)
  | answers answers => exact .answers answers
  | summarizes summary => exact (head summary rfl).elim id fun later => .summarizes later

omit [LinearOrder W] in
theorem Awaited.handled (awaited : Awaited first second) (arrives : first.sent = message :: rest)
    (noSummary : ∀ claim, message ≠ .summary claim)
    (sent : ∀ own ∈ second.sent, own ∈ after.sent) (same : after.outstanding = second.outstanding) :
    Awaited { first with sent := rest } after := by
  intro waits
  rcases awaited (same ▸ waits) with request | answering | ⟨claim, summary⟩
  · exact .inl (sent _ request)
  · exact .inr (.inl answering)
  · rw [arrives] at summary
    exact .inr (.inr ⟨claim, (List.mem_cons.mp summary).resolve_left (noSummary claim).symm⟩)

end Handled

/-- A party that receives a message informs the sender, if it did so before or has more work now. -/
theorem Moves.informs_receive {party after other : Party W} {message : Message W}
    {rest : List (Message W)} (arrives : other.sent = message :: rest)
    (moves : Moves (some message) party after) (isOpen : after.closed = false)
    (claimed : Claims other party) (informs : after.work = party.work → Informs party other) :
    Informs after { other with sent := rest } := by
  cases moves with
  | fail _ closes => exact absurd (closes.symm.trans isOpen) (by simp)
  | meet waits =>
      exact ((informs rfl).receives arrives (by simp)).mono rfl (by simp [waits]) (by simp [waits])
        (fun _ => id) fun _ => .inl
  | meetHeavier waits =>
      exact ((informs rfl).receives arrives (by simp)).mono rfl (by simp [waits]) (by simp [waits])
        (fun _ => List.mem_append_left _) fun _ => .inl
  | @absorb _ work =>
      by_cases heavier : party.work < work
      · -- What comes from the other party, the other party has.
        have theirs : work ≤ other.work :=
          claimed.sent_le (.block work) (by simp [arrives]) work rfl
        apply Informs.knows
        dsimp only
        rw [max_eq_right heavier.le]
        exact theirs
      · have same := max_eq_left (not_lt.mp heavier)
        exact ((informs same).receives arrives (by simp)).mono same id .inl (fun _ => id) fun _ => .inl
  | orphan =>
      exact ((informs rfl).receives arrives (by simp)).mono rfl id .inl
        (fun _ => List.mem_append_left _) fun _ => .inl
  | orphanBusy => exact (informs rfl).receives arrives (by simp)
  | asked => exact .answers rfl
  | summaryLight =>
      exact ((informs rfl).receives arrives (by simp)).mono rfl id .inl (fun _ => id) fun _ => .inl
  | summaryHeavier =>
      exact ((informs rfl).receives arrives (by simp)).mono rfl id .inl
        (fun _ => List.mem_append_left _) fun _ => .inl
  | answerPing =>
      exact ((informs rfl).receives arrives (by simp)).mono rfl id .inl
        (fun _ => List.mem_append_left _) fun _ => .inl
  | pong =>
      exact ((informs rfl).receives arrives (by simp)).mono rfl id .inl (fun _ => id) fun _ => .inl
  | other => exact (informs rfl).receives arrives (by simp)

theorem Moves.awaited_receive {party after other : Party W} {message : Message W}
    {rest : List (Message W)} (arrives : other.sent = message :: rest)
    (moves : Moves (some message) party after) (isOpen : after.closed = false)
    (awaited : Awaited party other) : Awaited after { other with sent := rest } := by
  cases moves with
  | fail _ closes => exact absurd (closes.symm.trans isOpen) (by simp)
  | meet waits => exact (awaited.receives arrives (by simp)).mono (by simp [waits]) fun _ => id
  | meetHeavier waits =>
      exact (awaited.receives arrives (by simp)).mono (by simp [waits]) fun _ => List.mem_append_left _
  | absorb => exact (awaited.receives arrives (by simp)).mono .inl fun _ => id
  | orphan => exact (awaited.receives arrives (by simp)).mono .inl fun _ => List.mem_append_left _
  | orphanBusy => exact awaited.receives arrives (by simp)
  | asked => exact fun _ => .inr (.inl rfl)
  | summaryLight => exact (awaited.receives arrives (by simp)).mono .inl fun _ => id
  | summaryHeavier =>
      exact (awaited.receives arrives (by simp)).mono .inl fun _ => List.mem_append_left _
  | answerPing => exact (awaited.receives arrives (by simp)).mono .inl fun _ => List.mem_append_left _
  | pong => exact (awaited.receives arrives (by simp)).mono .inl fun _ => id
  | other => exact awaited.receives arrives (by simp)

/-- **A message that is handled informs its receiver**, or something else under way still
does. -/
theorem Moves.informed_receive {party after other : Party W} {message : Message W}
    {rest : List (Message W)} (arrives : other.sent = message :: rest)
    (moves : Moves (some message) party after) (isOpen : after.closed = false)
    (claimed : Claims other party) (informs : Informs other party) (awaited : Awaited other party) :
    Informs { other with sent := rest } after := by
  have asks : .getBlocks ∈ party.asks.sent := List.mem_append_right _ (List.mem_singleton_self _)
  cases moves with
  | fail _ closes => exact absurd (closes.symm.trans isOpen) (by simp)
  | meet _ _ light =>
      refine informs.handled arrives le_rfl (fun _ => id) fun stands => .knows ?_
      cases stands
      exact light
  | meetHeavier => exact .requested asks
  | absorb =>
      refine informs.handled arrives (le_max_left _ _) (fun _ => id) fun stands => .knows ?_
      cases stands
      exact le_max_right _ _
  | orphan => exact .requested asks
  | @orphanBusy _ work _ _ outstanding =>
      refine informs.handled arrives le_rfl (fun _ => id) fun stands => ?_
      cases stands
      rcases awaited outstanding with request | answering | ⟨claim, summary⟩
      · exact .requested request
      · exact .answers answering
      · -- The summary was written after the block, and claims no less.
        have later : .summary claim ∈ rest := by
          rw [arrives] at summary
          exact (List.mem_cons.mp summary).resolve_left (by simp)
        have atLeast := (claimed.le_summary arrives rfl).2 claim later
        have atMost : claim ≤ other.work := claimed.sent_le _ summary claim rfl
        have whole : claim = other.work := le_antisymm atMost atLeast
        exact .summarizes (whole ▸ later)
  | summaryLight _ _ light =>
      refine informs.handled arrives le_rfl (fun _ => id) fun stands => .knows ?_
      cases stands
      exact light
  | summaryHeavier => exact .requested asks
  | asked => exact informs.handled arrives le_rfl (fun _ => id) (by simp [Message.work?])
  | answerPing =>
      exact informs.handled arrives le_rfl (fun _ => List.mem_append_left _) (by simp [Message.work?])
  | pong => exact informs.handled arrives le_rfl (fun _ => id) (by simp [Message.work?])
  | other => exact informs.handled arrives le_rfl (fun _ => id) (by simp [Message.work?])

theorem Moves.awaiting_receive {party after other : Party W} {message : Message W}
    {rest : List (Message W)} (arrives : other.sent = message :: rest)
    (moves : Moves (some message) party after) (isOpen : after.closed = false)
    (awaited : Awaited other party) : Awaited { other with sent := rest } after := by
  have asks : .getBlocks ∈ party.asks.sent := List.mem_append_right _ (List.mem_singleton_self _)
  cases moves with
  | fail _ closes => exact absurd (closes.symm.trans isOpen) (by simp)
  | meetHeavier | orphan | summaryHeavier => exact .of_request asks
  | summaryLight => exact fun outstanding => by cases outstanding
  | answerPing => exact awaited.handled arrives (by simp) (fun _ => List.mem_append_left _) rfl
  | _ => exact awaited.handled arrives (by simp) (fun _ => id) rfl

/-! ## Every reachable state -/

/-- Both parties inform each other, but for work that was lost. -/
def Pair.Informed (lostLeft lostRight : Prop) (pair : Pair W) : Prop :=
  pair.left.closed = false → pair.right.closed = false →
    ((Informs pair.left pair.right ∨ lostLeft) ∧ Awaited pair.left pair.right) ∧
      (Informs pair.right pair.left ∨ lostRight) ∧ Awaited pair.right pair.left

variable {lostLeft lostRight lostLeft' lostRight' : Prop}

/-- Work is lost by an unannounced move of the left party, and as long as it keeps that work. -/
theorem Acts.informed {pair after : Pair W} (acts : Acts pair after) (orderly : pair.Orderly)
    (lose : pair.LeftUnannounced after → lostLeft')
    (stayLost : lostLeft → after.left.work = pair.left.work → lostLeft')
    (otherLost : lostRight → after.right.work = pair.right.work → lostRight')
    (informed : pair.Informed lostLeft lostRight) :
    after.Informed lostLeft' lostRight' := by
  obtain ⟨left, right⟩ := orderly
  intro leftOpen rightOpen
  cases acts with
  | act moves =>
      obtain ⟨⟨informs, awaited⟩, ⟨informs', awaited'⟩⟩ :=
        informed (moves.open_before leftOpen) rightOpen
      have keeps := moves.keeps leftOpen
      refine ⟨⟨?_, moves.awaited leftOpen awaited⟩,
        informs'.imp keeps.informed fun lost => otherLost lost rfl, keeps.awaited awaited'⟩
      rw [or_iff_not_imp_right]
      intro found
      refine moves.informs left leftOpen (fun early => found (lose early)) (fun same => ?_) awaited
      exact informs.resolve_right fun lost => found (stayLost lost same)
  | receive arrives _ moves =>
      obtain ⟨⟨informs, awaited⟩, ⟨informs', awaited'⟩⟩ :=
        informed (moves.open_before leftOpen) rightOpen
      refine ⟨⟨?_, moves.awaited_receive arrives leftOpen awaited⟩, ?_,
        moves.awaiting_receive arrives leftOpen awaited'⟩
      · rw [or_iff_not_imp_right]
        intro found
        refine moves.informs_receive arrives leftOpen right.claims fun same => ?_
        exact informs.resolve_right fun lost => found (stayLost lost same)
      · exact informs'.imp
          (fun informs' => moves.informed_receive arrives leftOpen right.claims informs' awaited')
          fun lost => otherLost lost rfl

/-- **Every move keeps both parties informed**, but for work that is lost in an unannounced one. -/
theorem Turns.informed {pair after : Pair W} (turns : Turns pair after) (orderly : pair.Orderly)
    (loseLeft : pair.LeftUnannounced after → lostLeft')
    (loseRight : pair.swap.LeftUnannounced after.swap → lostRight')
    (stayLeft : lostLeft → after.left.work = pair.left.work → lostLeft')
    (stayRight : lostRight → after.right.work = pair.right.work → lostRight')
    (informed : pair.Informed lostLeft lostRight) :
    after.Informed lostLeft' lostRight' := by
  rcases turns with acts | acts
  · exact acts.informed orderly loseLeft stayLeft stayRight informed
  · have swapped : pair.swap.Informed lostRight lostLeft := fun leftOpen rightOpen =>
      (informed rightOpen leftOpen).symm
    have kept := acts.informed orderly.symm loseRight stayRight stayLeft swapped
    exact fun leftOpen rightOpen => (kept rightOpen leftOpen).symm

theorem Pair.Informed.of_fresh {pair : Pair W} (left : pair.left.Fresh) (right : pair.right.Fresh) :
    pair.Informed lostLeft lostRight := by
  intro _ _
  refine ⟨⟨.inl (.starts left.starting), ?_⟩, .inl (.starts right.starting), ?_⟩
  · intro outstanding
    rw [right.idle] at outstanding
    cases outstanding
  · intro outstanding
    rw [left.idle] at outstanding
    cases outstanding

/-- Nothing is under way, and both parties wait for messages on an open connection. -/
structure Pair.Quiet (pair : Pair W) : Prop where
  left_reading : pair.left.phase = .reading
  right_reading : pair.right.phase = .reading
  left_open : pair.left.closed = false
  right_open : pair.right.closed = false
  left_sent : pair.left.sent = []
  right_sent : pair.right.sent = []
  left_queue : pair.left.queue = []
  right_queue : pair.right.queue = []

/-- When nothing is under way, a party informs the other one only of what that one has. -/
theorem Informs.work_le {first second : Party W} (informs : Informs first second)
    (reading : first.phase = .reading) (unsent : first.sent = []) (unqueued : first.queue = [])
    (unasked : second.sent = []) : first.work ≤ second.work := by
  cases informs with
  | knows less => exact less
  | starts position | answers position =>
      rw [reading] at position
      cases position
  | greets sent | announces sent | summarizes sent =>
      rw [unsent] at sent
      cases sent
  | queues queued =>
      rw [unqueued] at queued
      cases queued
  | requested request =>
      rw [unasked] at request
      cases request

/-- **When nothing is under way**, the parties agree, or the heavier one is the one whose work was
lost. -/
theorem Pair.Informed.compare {pair : Pair W} (informed : pair.Informed lostLeft lostRight)
    (quiet : pair.Quiet) : pair.left.work = pair.right.work ∨
      (pair.right.work < pair.left.work ∧ lostLeft) ∨ pair.left.work < pair.right.work ∧ lostRight := by
  obtain ⟨⟨informs, -⟩, ⟨informs', -⟩⟩ := informed quiet.left_open quiet.right_open
  rcases lt_trichotomy pair.left.work pair.right.work with lighter | same | heavier
  · refine .inr (.inr ⟨lighter, informs'.resolve_left fun told => ?_⟩)
    exact (told.work_le quiet.right_reading quiet.right_sent quiet.right_queue
      quiet.left_sent).not_gt lighter
  · exact .inl same
  · refine .inr (.inl ⟨heavier, informs.resolve_left fun told => ?_⟩)
    exact (told.work_le quiet.left_reading quiet.left_sent quiet.left_queue
      quiet.right_sent).not_gt heavier

end OurCoin.Exchange
