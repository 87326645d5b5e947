import Mathlib

/-!
# Two parties that exchange blocks

What a connection between two peers is for, without chains, bytes and tasks: each party has
an amount of work, claims it, sends what it accepted, and asks for what it misses. Blocks
and claims appear as the work they stand for, in any linear order.

* `Moves` is everything one party can do, with the message that it receives, if any.
* `Turns` is one move of one of two parties that are joined by first-in first-out channels.
  The channel of a party are the messages it sent that the other one has not received.
* `Greets`: a HELLO comes first and once. What a move does to it depends on its kind only: the party
  rests, ends, sends its HELLO, or goes on after its handshake (`Moves.greets`).
-/

set_option autoImplicit false

namespace OurCoin.Exchange

/-- A message, with the work it stands for. -/
inductive Message (W : Type) where
  | hello (work : W)
  | getBlocks
  | block (work : W)
  | summary (work : W)
  | ping (nonce : Int)
  | pong (nonce : Int)
  | other
  deriving DecidableEq

/-- What a party does next. -/
inductive Phase where
  | starting
  | handshaking
  | reading
  | answering
  | ended
  deriving DecidableEq

/-- One end of a connection. -/
structure Party (W : Type) where
  phase : Phase
  closed : Bool
  work : W
  /-- The last claim of the other party. -/
  peerWork : Option W
  outstanding : Bool
  pendingPing : Option Int
  /-- Messages of broadcasts that are not sent yet. -/
  queue : List (Message W)
  /-- Messages that the other party has not received. -/
  sent : List (Message W)

variable {W : Type} [LinearOrder W]

namespace Party

/-- The party after it sent a message. -/
def sends (party : Party W) (message : Message W) : Party W :=
  { party with sent := party.sent ++ [message] }

/-- The party after it asked for blocks. -/
def asks (party : Party W) : Party W :=
  { party with outstanding := true, sent := party.sent ++ [.getBlocks] }

/-- A broadcast reaches the other party if its HELLO was handled. -/
def offers (party : Party W) (message : Message W) : Party W :=
  if party.peerWork.isSome = true ∧ party.closed = false then
    { party with queue := party.queue ++ [message] }
  else party

omit [LinearOrder W] in
/-- A broadcast changes nothing but the queue. -/
theorem offers_eq (party : Party W) (message : Message W) :
    party.offers message = { party with queue := (party.offers message).queue } := by
  rw [offers]
  split
  · rfl
  · rfl

omit [LinearOrder W] in
theorem mem_queue_offers {party : Party W} {queued : Message W} (member : queued ∈ party.queue)
    (message : Message W) : queued ∈ (party.offers message).queue := by
  rw [offers]
  split
  · exact List.mem_append_left _ member
  · exact member

omit [LinearOrder W] in
theorem mem_queue_offers_self {party : Party W} (met : party.peerWork ≠ none)
    (isOpen : party.closed = false) (message : Message W) :
    message ∈ (party.offers message).queue := by
  rw [offers, if_pos ⟨Option.isSome_iff_ne_none.mpr met, isOpen⟩]
  exact List.mem_append_right _ (List.mem_singleton_self _)

end Party

/-- What a party can do, with the message that it receives. -/
inductive Moves : Option (Message W) → Party W → Party W → Prop
  | idle {party : Party W} : Moves none party party
  | close {party : Party W} : Moves none party { party with closed := true }
  /-- The task ends. -/
  | fail {received : Option (Message W)} {party after : Party W} : after.phase = .ended →
      after.closed = true → after.sent = party.sent → after.queue = party.queue →
      party.work ≤ after.work → Moves received party after
  | greet {party : Party W} : party.phase = .starting → party.closed = false →
      Moves none party { party.sends (.hello party.work) with phase := .handshaking }
  | meet {party : Party W} {work : W} : party.phase = .handshaking → party.closed = false →
      work ≤ party.work →
      Moves (some (.hello work)) party { party with phase := .reading, peerWork := some work }
  | meetHeavier {party : Party W} {work : W} : party.phase = .handshaking → party.closed = false →
      party.work < work →
      Moves (some (.hello work)) party { party.asks with phase := .reading, peerWork := some work }
  /-- The block is known or accepted. -/
  | absorb {party : Party W} {work : W} : party.phase = .reading → party.closed = false →
      Moves (some (.block work)) party { party with work := max party.work work }
  /-- The parent of the block is unknown. -/
  | orphan {party : Party W} {work : W} : party.phase = .reading → party.closed = false →
      party.outstanding = false → Moves (some (.block work)) party party.asks
  | orphanBusy {party : Party W} {work : W} : party.phase = .reading → party.closed = false →
      party.outstanding = true → Moves (some (.block work)) party party
  | asked {party : Party W} : party.phase = .reading →
      Moves (some .getBlocks) party { party with phase := .answering }
  | answer {party : Party W} {work : W} : party.phase = .answering → party.closed = false →
      work ≤ party.work → Moves none party (party.sends (.block work))
  | summarize {party : Party W} : party.phase = .answering → party.closed = false →
      Moves none party { party.sends (.summary party.work) with phase := .reading }
  | summaryLight {party : Party W} {work : W} : party.phase = .reading → party.closed = false →
      work ≤ party.work → Moves (some (.summary work)) party
        { party with outstanding := false, peerWork := some work }
  | summaryHeavier {party : Party W} {work : W} : party.phase = .reading → party.closed = false →
      party.work < work → Moves (some (.summary work)) party { party.asks with peerWork := some work }
  | ping {party : Party W} {nonce : Int} : party.phase = .reading → party.closed = false →
      party.pendingPing = none →
      Moves none party { party.sends (.ping nonce) with pendingPing := some nonce }
  | answerPing {party : Party W} {nonce : Int} : party.phase = .reading → party.closed = false →
      Moves (some (.ping nonce)) party (party.sends (.pong nonce))
  | pong {party : Party W} {nonce : Int} : party.phase = .reading → party.closed = false →
      party.pendingPing = some nonce →
      Moves (some (.pong nonce)) party { party with pendingPing := none }
  | other {party : Party W} : party.phase = .reading → Moves (some .other) party party
  | flush {party : Party W} {index : Nat} {message : Message W} : party.closed = false →
      party.queue[index]? = some message →
      Moves none party { party.sends message with queue := party.queue.eraseIdx index }
  | drop {party : Party W} {index : Nat} :
      Moves none party { party with queue := party.queue.eraseIdx index, closed := true }
  /-- A block is accepted that does not come from the other party. -/
  | grow {party : Party W} {work : W} :
      Moves none party (Party.offers { party with work := max party.work work } (.block work))
  | enqueue {party : Party W} : Moves none party (party.offers .other)

/-- The two ends of a connection. -/
structure Pair (W : Type) where
  left : Party W
  right : Party W

/-- The pair seen from the other end. -/
def Pair.swap (pair : Pair W) : Pair W := ⟨pair.right, pair.left⟩

/-- The left party moves. It receives messages in the order in which they were sent, while it
waits for them. -/
inductive Acts : Pair W → Pair W → Prop
  | act {party after other : Party W} : Moves none party after → Acts ⟨party, other⟩ ⟨after, other⟩
  | receive {party after other : Party W} {message : Message W} {rest : List (Message W)} :
      other.sent = message :: rest → party.phase = .handshaking ∨ party.phase = .reading →
      Moves (some message) party after → Acts ⟨party, other⟩ ⟨after, { other with sent := rest }⟩

/-- One of the parties moves. -/
def Turns (pair after : Pair W) : Prop := Acts pair after ∨ Acts pair.swap after.swap

attribute [grind] Party.sends Party.asks Party.offers

attribute [grind →] List.mem_of_mem_eraseIdx List.mem_of_getElem?

/-! ## The queue -/

/-- Nothing but blocks of the party and other messages is queued. -/
def Party.Queues (party : Party W) : Prop :=
  ∀ message ∈ party.queue, message = .other ∨ ∃ work, work ≤ party.work ∧ message = .block work

attribute [grind] Party.Queues

theorem Moves.queues {received : Option (Message W)} {party after : Party W}
    (moves : Moves received party after) (queues : party.Queues) : after.Queues := by
  cases moves with
  | fail _ _ _ sameQueue grows =>
      intro message queued
      rw [sameQueue] at queued
      rcases queues message queued with other | ⟨work, bounded, block⟩
      · exact .inl other
      · exact .inr ⟨work, bounded.trans grows, block⟩
  | absorb => grind
  | flush => grind
  | drop => grind
  | grow => grind
  | enqueue => grind
  | _ => exact queues

/-! ## The greeting -/

/-- The party has not handled a HELLO yet. -/
def Party.Unmet (party : Party W) : Prop := party.phase = .starting ∨ party.phase = .handshaking

/-- The party has handled a HELLO. -/
def Party.Met (party : Party W) : Prop := party.phase = .reading ∨ party.phase = .answering

/-- The message is a greeting. -/
def Message.IsHello (message : Message W) : Prop := ∃ work, message = .hello work

/-- The first party greets the second one first and once. -/
structure Greets (first second : Party W) : Prop where
  unmet : first.Unmet → first.queue = [] ∧ first.peerWork = none ∧ first.outstanding = false
  met : first.Met → first.peerWork ≠ none
  ended : first.phase = .ended → first.closed = true
  starting : first.phase = .starting → first.sent = [] ∧ ¬ second.Met
  handshaking : first.phase = .handshaking → ∀ message ∈ first.sent, message.IsHello
  /-- A party that was not greeted is greeted next, if at all. -/
  next : second.Unmet → first.sent = [] ∧ (first.phase = .starting ∨ first.closed = true) ∨
    ∃ work rest, first.sent = .hello work :: rest ∧ ∀ message ∈ rest, ¬ message.IsHello
  once : second.Met → ∀ message ∈ first.sent, ¬ message.IsHello

attribute [grind] Party.Unmet Party.Met Message.IsHello

/-! ## What moves have in common -/

/-- The party writes nothing, and only its work, its queue and the closing change. -/
structure Party.Rests (party after : Party W) : Prop where
  phase_eq : after.phase = party.phase
  sent_eq : after.sent = party.sent
  peerWork_eq : after.peerWork = party.peerWork
  outstanding_eq : after.outstanding = party.outstanding
  pendingPing_eq : after.pendingPing = party.pendingPing
  work_le : party.work ≤ after.work
  closes : party.closed = true → after.closed = true
  queue_nil : party.peerWork = none → party.queue = [] → after.queue = []

/-- The task of the party is over. -/
structure Party.Ends (party after : Party W) : Prop where
  ended : after.phase = .ended
  closed : after.closed = true
  sent_eq : after.sent = party.sent
  work_le : party.work ≤ after.work

theorem Party.rests_close (party : Party W) : party.Rests { party with closed := true } :=
  ⟨rfl, rfl, rfl, rfl, rfl, le_rfl, fun _ => rfl, fun _ => id⟩

theorem Party.rests_drop (party : Party W) (index : Nat) :
    party.Rests { party with queue := party.queue.eraseIdx index, closed := true } := by
  refine ⟨rfl, rfl, rfl, rfl, rfl, le_rfl, fun _ => rfl, fun _ empty => ?_⟩
  dsimp only
  rw [empty, List.eraseIdx_nil]

theorem Party.rests_absorb (party : Party W) (work : W) :
    party.Rests { party with work := max party.work work } :=
  ⟨rfl, rfl, rfl, rfl, rfl, le_max_left _ _, id, fun _ => id⟩

/-- A broadcast waits in the queue, and only when the other party was met. -/
theorem Party.rests_offers {party grown : Party W} (rests : party.Rests grown) (message : Message W) :
    party.Rests (grown.offers message) := by
  obtain ⟨phase, sent, peerWork, outstanding, pendingPing, work, closes, queue⟩ := rests
  rw [Party.offers]
  split
  · rename_i offered
    refine ⟨phase, sent, peerWork, outstanding, pendingPing, work, closes, fun unknown => ?_⟩
    rw [peerWork, unknown] at offered
    cases offered.1
  · exact ⟨phase, sent, peerWork, outstanding, pendingPing, work, closes, queue⟩

theorem Party.rests_enqueue (party : Party W) : party.Rests (party.offers .other) :=
  Party.rests_offers ⟨rfl, rfl, rfl, rfl, rfl, le_rfl, id, fun _ => id⟩ _

theorem Party.rests_grow (party : Party W) (work : W) :
    party.Rests (Party.offers { party with work := max party.work work } (.block work)) :=
  Party.rests_offers (party.rests_absorb work) _

omit [LinearOrder W] in
theorem Party.not_unmet {party : Party W} (met : party.Met) : ¬ party.Unmet := by
  rcases met with reading | answering
  · simp [Party.Unmet, reading]
  · simp [Party.Unmet, answering]

omit [LinearOrder W] in
theorem Party.Met.not_starting {party : Party W} (met : party.Met) : party.phase ≠ .starting := by
  rcases met with reading | answering
  · simp [reading]
  · simp [answering]

theorem Party.Ends.not_unmet {party after : Party W} (ends : party.Ends after) : ¬ after.Unmet := by
  simp [Party.Unmet, ends.ended]

theorem Party.Ends.not_met {party after : Party W} (ends : party.Ends after) : ¬ after.Met := by
  simp [Party.Met, ends.ended]

/-! ## Greetings -/

namespace Greets

variable {first second after : Party W} {message : Message W} {rest : List (Message W)}

theorem rests (greets : Greets first second) (rests : first.Rests after) : Greets after second := by
  obtain ⟨unmet, met, ended, starting, handshaking, next, once⟩ := greets
  obtain ⟨phase, sent, peerWork, outstanding, -, -, closes, queue⟩ := rests
  refine ⟨?_, ?_, ?_, ?_, ?_, ?_, ?_⟩
  · intro still
    rw [Party.Unmet, phase] at still
    obtain ⟨empty, unknown, idle⟩ := unmet still
    exact ⟨queue unknown empty, peerWork.trans unknown, outstanding.trans idle⟩
  · rw [Party.Met, phase, peerWork]
    exact met
  · rw [phase]
    exact fun isEnded => closes (ended isEnded)
  · rw [phase, sent]
    exact starting
  · rw [phase, sent]
    exact handshaking
  · rw [phase, sent]
    exact fun ungreeted => (next ungreeted).imp (And.imp_right (Or.imp_right closes)) id
  · rw [sent]
    exact once

theorem ends (greets : Greets first second) (ends : first.Ends after) : Greets after second := by
  obtain ⟨ended, closed, sent, -⟩ := ends
  refine ⟨?_, ?_, fun _ => closed, ?_, ?_, ?_, ?_⟩
  · simp [Party.Unmet, ended]
  · simp [Party.Met, ended]
  · simp [ended]
  · simp [ended]
  · rw [sent]
    exact fun ungreeted => (greets.next ungreeted).imp (fun silent => ⟨silent.1, .inr closed⟩) id
  · rw [sent]
    exact greets.once

omit [LinearOrder W]

/-- The HELLO is sent. -/
theorem greets (greets : Greets first second) (starts : first.phase = .starting) :
    Greets { first.sends (.hello first.work) with phase := .handshaking } second := by
  obtain ⟨silent, notMet⟩ := greets.starting starts
  have only : first.sent ++ [Message.hello first.work] = [Message.hello first.work] := by
    rw [silent, List.nil_append]
  refine ⟨fun _ => greets.unmet (.inl starts), ?_, ?_, ?_, ?_, ?_, fun met => absurd met notMet⟩
  · simp [Party.Met]
  · simp
  · simp
  · intro _ message sent
    rw [Party.sends, only] at sent
    exact ⟨first.work, List.mem_singleton.mp sent⟩
  · exact fun _ => .inr ⟨first.work, [], only, by simp⟩

/-- Once it sent its HELLO and handled that of the other party, a party sends no other one. -/
theorem goesOn (greets : Greets first second) (started : first.phase ≠ .starting)
    (met : after.Met) (known : after.peerWork ≠ none) {said : List (Message W)}
    (sent : after.sent = first.sent ++ said) (noHello : ∀ message ∈ said, ¬ message.IsHello)
    (isOpen : said ≠ [] → first.closed = false) (closes : first.closed = true → after.closed = true) :
    Greets after second := by
  refine ⟨?_, fun _ => known, ?_, ?_, ?_, ?_, ?_⟩
  · rcases met with reading | answering
    · simp [Party.Unmet, reading]
    · simp [Party.Unmet, answering]
  · rcases met with reading | answering
    · simp [reading]
    · simp [answering]
  · rcases met with reading | answering
    · simp [reading]
    · simp [answering]
  · rcases met with reading | answering
    · simp [reading]
    · simp [answering]
  · intro ungreeted
    rw [sent]
    rcases greets.next ungreeted with ⟨silent, starting | closed⟩ | ⟨work, rest, hello, others⟩
    · exact absurd starting started
    · left
      have nothing : said = [] := by
        by_contra something
        rw [isOpen something] at closed
        cases closed
      exact ⟨by rw [silent, nothing, List.append_nil], .inr (closes closed)⟩
    · right
      refine ⟨work, rest ++ said, by rw [hello, List.cons_append], fun message member => ?_⟩
      exact (List.mem_append.mp member).elim (others message) (noHello message)
  · intro greeted message member
    rw [sent] at member
    exact (List.mem_append.mp member).elim (greets.once greeted message) (noHello message)

theorem listens (greets : Greets first second) (started : first.phase ≠ .starting) (met : after.Met)
    (known : after.peerWork ≠ none) (sent : after.sent = first.sent)
    (closes : first.closed = true → after.closed = true) : Greets after second :=
  greets.goesOn started met known (sent.trans (List.append_nil _).symm) (by simp)
    (fun something => absurd rfl something) closes

/-- Nothing changes for the greeting party while the other one stays where it is. -/
theorem greeted (greets : Greets first second) (unmet : after.Unmet → second.Unmet)
    (met : after.Met → second.Met) : Greets first after :=
  ⟨greets.unmet, greets.met, greets.ended,
    fun starts => ⟨(greets.starting starts).1, fun isMet => (greets.starting starts).2 (met isMet)⟩,
    greets.handshaking, fun still => greets.next (unmet still), fun isMet => greets.once (met isMet)⟩

/-- The next message is handled, and its receiver does not wait for a HELLO any more. -/
theorem takes (greets : Greets first second) (arrives : first.sent = message :: rest)
    (greeted : ¬ after.Unmet) (once : after.Met → ∀ message ∈ rest, ¬ message.IsHello) :
    Greets { first with sent := rest } after := by
  refine ⟨greets.unmet, greets.met, greets.ended, fun starts => ?_, fun waits later member => ?_,
    fun still => absurd still greeted, once⟩
  · rw [(greets.starting starts).1] at arrives
    cases arrives
  · exact greets.handshaking waits later (by rw [arrives]; exact List.mem_cons_of_mem _ member)

/-- No HELLO follows the first one. -/
theorem none_follows (greets : Greets first second) (arrives : first.sent = message :: rest)
    (waits : second.Unmet ∨ second.Met) : ∀ later ∈ rest, ¬ later.IsHello := by
  rcases waits with waits | met
  · rcases greets.next waits with ⟨silent, -⟩ | ⟨work, others, hello, none⟩
    · rw [silent] at arrives
      cases arrives
    · rw [hello] at arrives
      cases arrives
      exact none
  · intro later member
    exact greets.once met later (by rw [arrives]; exact List.mem_cons_of_mem _ member)

/-- A party with something in its queue was met and is not over. -/
theorem met_of_queued (greets : Greets first second) (isOpen : first.closed = false)
    (queued : first.queue ≠ []) : first.Met := by
  cases position : first.phase with
  | starting => exact absurd (greets.unmet (.inl position)).1 queued
  | handshaking => exact absurd (greets.unmet (.inr position)).1 queued
  | reading => exact .inl position
  | answering => exact .inr position
  | ended =>
      rw [greets.ended position] at isOpen
      cases isOpen

/-- After its handshake a party says something else than HELLO. -/
theorem speaks (greets : Greets first second) (greeted : Greets second first) (met : first.Met)
    (met' : after.Met) (same : after.peerWork = first.peerWork) (isOpen : first.closed = false)
    (sent : after.sent = first.sent ++ [message]) (noHello : ¬ message.IsHello) :
    Greets after second ∧ Greets second after := by
  have known : after.peerWork ≠ none := same ▸ greets.met met
  refine ⟨greets.goesOn met.not_starting met' known sent ?_ (fun _ => isOpen) ?_,
    greeted.greeted (absurd · (Party.not_unmet met')) fun _ => met⟩
  · intro said member
    cases List.mem_singleton.mp member
    exact noHello
  · rw [isOpen]
    simp

end Greets


theorem Moves.greets {party after other : Party W} (moves : Moves none party after)
    (queues : party.Queues) (greets : Greets party other) (greeted : Greets other party) :
    Greets after other ∧ Greets other after := by
  have resting : party.Rests after → Greets after other ∧ Greets other after := fun rests =>
    ⟨greets.rests rests, greeted.greeted (by rw [Party.Unmet, rests.phase_eq]; exact id)
      (by rw [Party.Met, rests.phase_eq]; exact id)⟩
  cases moves with
  | idle => exact ⟨greets, greeted⟩
  | close => exact resting party.rests_close
  | drop => exact resting (party.rests_drop _)
  | grow => exact resting (party.rests_grow _)
  | enqueue => exact resting party.rests_enqueue
  | fail ended closed sent _ grows =>
      have gone : party.Ends after := ⟨ended, closed, sent, grows⟩
      exact ⟨greets.ends gone, greeted.greeted (absurd · gone.not_unmet) (absurd · gone.not_met)⟩
  | greet starts => exact ⟨greets.greets starts, greeted.greeted (fun _ => .inl starts) (by simp [Party.Met])⟩
  | answer answering isOpen =>
      exact greets.speaks greeted (.inr answering) (.inr answering) rfl isOpen rfl (by simp [Message.IsHello])
  | summarize answering isOpen =>
      exact greets.speaks greeted (.inr answering) (.inl rfl) rfl isOpen rfl (by simp [Message.IsHello])
  | ping reading isOpen =>
      exact greets.speaks greeted (.inl reading) (.inl reading) rfl isOpen rfl (by simp [Message.IsHello])
  | @flush _ _ message isOpen found =>
      have queued := List.mem_of_getElem? found
      have met := greets.met_of_queued isOpen (List.ne_nil_of_mem queued)
      have noHello : ¬ message.IsHello := by
        rintro ⟨work, rfl⟩
        rcases queues _ queued with other | ⟨_, -, block⟩
        · cases other
        · cases block
      exact greets.speaks greeted met met rfl isOpen rfl noHello

theorem Moves.greets_receive {party after other : Party W} {message : Message W}
    {rest : List (Message W)} (arrives : other.sent = message :: rest)
    (moves : Moves (some message) party after) (greets : Greets party other)
    (greeted : Greets other party) :
    Greets after { other with sent := rest } ∧ Greets { other with sent := rest } after := by
  have greets' : Greets party { other with sent := rest } := greets.greeted id id
  have handled : party.Unmet ∨ party.Met → ∀ {after : Party W}, after.Met →
      Greets { other with sent := rest } after := fun waits _ met =>
    greeted.takes arrives (Party.not_unmet met) fun _ => greeted.none_follows arrives waits
  cases moves with
  | fail ended closed sent _ grows =>
      have gone : party.Ends after := ⟨ended, closed, sent, grows⟩
      exact ⟨greets'.ends gone, greeted.takes arrives gone.not_unmet (absurd · gone.not_met)⟩
  | meet waits =>
      exact ⟨greets'.listens (by simp [waits]) (.inl rfl) (Option.some_ne_none _) rfl id,
        handled (.inl (.inr waits)) (.inl rfl)⟩
  | meetHeavier waits isOpen =>
      exact ⟨greets'.goesOn (by simp [waits]) (.inl rfl) (Option.some_ne_none _) rfl
        (by simp [Message.IsHello]) (fun _ => isOpen) id, handled (.inl (.inr waits)) (.inl rfl)⟩
  | absorb reading =>
      exact ⟨greets'.rests (party.rests_absorb _), handled (.inr (.inl reading)) (.inl reading)⟩
  | orphan reading isOpen =>
      exact greets'.speaks (handled (.inr (.inl reading)) (.inl reading)) (.inl reading) (.inl reading)
        rfl isOpen rfl (by simp [Message.IsHello])
  | orphanBusy reading => exact ⟨greets', handled (.inr (.inl reading)) (.inl reading)⟩
  | asked reading =>
      exact ⟨greets'.listens (by simp [reading]) (.inr rfl) (greets.met (.inl reading)) rfl id,
        handled (.inr (.inl reading)) (.inr rfl)⟩
  | summaryLight reading =>
      exact ⟨greets'.listens (by simp [reading]) (.inl reading) (Option.some_ne_none _) rfl id,
        handled (.inr (.inl reading)) (.inl reading)⟩
  | summaryHeavier reading isOpen =>
      exact ⟨greets'.goesOn (by simp [reading]) (.inl reading) (Option.some_ne_none _) rfl
        (by simp [Message.IsHello]) (fun _ => isOpen) id, handled (.inr (.inl reading)) (.inl reading)⟩
  | answerPing reading isOpen =>
      exact greets'.speaks (handled (.inr (.inl reading)) (.inl reading)) (.inl reading) (.inl reading)
        rfl isOpen rfl (by simp [Message.IsHello])
  | pong reading =>
      exact ⟨greets'.listens (by simp [reading]) (.inl reading) (greets.met (.inl reading)) rfl id,
        handled (.inr (.inl reading)) (.inl reading)⟩
  | other reading => exact ⟨greets', handled (.inr (.inl reading)) (.inl reading)⟩

end OurCoin.Exchange
