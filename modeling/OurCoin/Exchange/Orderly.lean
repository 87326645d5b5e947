import OurCoin.Exchange.Parties

/-!
# Orderly connections

What holds between two parties at any time, beside their greetings.

* `Claims`: no message stands for more work than its sender has, and claims never decrease.
* `Pings`: a PONG answers the PING that is outstanding.
* `Pair.Orderly` puts them together. It holds in every reachable state (`Turns.orderly`), and says
  what a party can receive (`Pair.Orderly.expects`).
-/

set_option autoImplicit false

namespace OurCoin.Exchange

variable {W : Type} [LinearOrder W]

/-! ## Claims -/

/-- The work that a message stands for. -/
def Message.work? : Message W → Option W
  | .hello work => some work
  | .block work => some work
  | .summary work => some work
  | _ => none

/-- What the first party sends stands for no more work than it has, and no later summary
claims less. -/
structure Claims (first second : Party W) : Prop where
  sent_le : ∀ message ∈ first.sent, ∀ work, message.work? = some work → work ≤ first.work
  ordered : first.sent.Pairwise fun earlier later => ∀ work claim, earlier.work? = some work →
    later = .summary claim → work ≤ claim
  advertised : second.phase ≠ .ended → ∀ work, second.peerWork = some work →
    work ≤ first.work ∧ ∀ claim, .summary claim ∈ first.sent → work ≤ claim

/-- A summary claims at least what any message before it stands for. -/
theorem Claims.le_summary {first second : Party W} (claims : Claims first second)
    {message : Message W} {rest : List (Message W)} (arrives : first.sent = message :: rest) {work : W}
    (stands : message.work? = some work) :
    work ≤ first.work ∧ ∀ claim, .summary claim ∈ rest → work ≤ claim := by
  have ordered := claims.ordered
  rw [arrives, List.pairwise_cons] at ordered
  refine ⟨claims.sent_le message (by simp [arrives]) work stands, ?_⟩
  intro claim later
  exact ordered.1 _ later work claim stands rfl

namespace Claims

variable {first second after : Party W} {message : Message W} {rest : List (Message W)}

/-- A party that writes nothing claims what it claimed. -/
theorem silent (claims : Claims first second) (sent : after.sent = first.sent)
    (grows : first.work ≤ after.work) : Claims after second := by
  refine ⟨fun message member work stands => ?_, ?_, fun going work known => ?_⟩
  · rw [sent] at member
    exact (claims.sent_le message member work stands).trans grows
  · rw [sent]
    exact claims.ordered
  · rw [sent]
    exact (claims.advertised going work known).imp (fun bounded => bounded.trans grows) id

/-- A message stands for no more than the work of its sender, and a summary for all of it. -/
theorem speaks (claims : Claims first second) (sent : after.sent = first.sent ++ [message])
    (same : after.work = first.work) (honest : ∀ work, message.work? = some work → work ≤ first.work)
    (whole : ∀ claim, message = .summary claim → claim = first.work) : Claims after second := by
  refine ⟨fun said member work stands => ?_, ?_, fun going work known => ?_⟩
  · rw [sent, List.mem_append, List.mem_singleton] at member
    rw [same]
    rcases member with before | rfl
    · exact claims.sent_le said before work stands
    · exact honest work stands
  · rw [sent, List.pairwise_append]
    refine ⟨claims.ordered, List.pairwise_singleton _ _, ?_⟩
    intro earlier before later isLast work claim stands isSummary
    cases List.mem_singleton.mp isLast
    rw [whole claim isSummary]
    exact claims.sent_le earlier before work stands
  · obtain ⟨bounded, ordered⟩ := claims.advertised going work known
    refine ⟨same.symm ▸ bounded, fun claim member => ?_⟩
    rw [sent, List.mem_append, List.mem_singleton] at member
    rcases member with before | isLast
    · exact ordered claim before
    · rw [whole claim isLast.symm]
      exact bounded

/-- The other party believes what it believed. -/
theorem believed (claims : Claims first second) (going : after.phase ≠ .ended → second.phase ≠ .ended)
    (same : after.peerWork = second.peerWork) : Claims first after :=
  ⟨claims.sent_le, claims.ordered, fun running work known =>
    claims.advertised (going running) work (same.symm.trans known)⟩

/-- The other party is over. -/
theorem unheard (claims : Claims first second) (ended : after.phase = .ended) : Claims first after :=
  ⟨claims.sent_le, claims.ordered, fun running => absurd ended running⟩

/-- The next message is handled. -/
theorem takes (claims : Claims first second) (arrives : first.sent = message :: rest) :
    Claims { first with sent := rest } second := by
  have kept : rest.Sublist first.sent := arrives ▸ List.sublist_cons_self _ _
  refine ⟨fun later member => claims.sent_le later (kept.subset member),
    claims.ordered.sublist kept, fun going work known => ?_⟩
  exact (claims.advertised going work known).imp id fun ordered claim member =>
    ordered claim (kept.subset member)

/-- The other party believes the message that it handled. -/
theorem learns (claims : Claims first second) (arrives : first.sent = message :: rest) {work : W}
    (stands : message.work? = some work) (known : after.peerWork = some work) :
    Claims { first with sent := rest } after := by
  have kept := claims.takes arrives
  refine ⟨kept.sent_le, kept.ordered, fun _ work' known' => ?_⟩
  cases known.symm.trans known'
  exact claims.le_summary arrives stands

end Claims

theorem Moves.claims {party after other : Party W} (moves : Moves none party after)
    (queues : party.Queues) (claims : Claims party other) (claimed : Claims other party) :
    Claims after other ∧ Claims other after := by
  have resting : party.Rests after → Claims after other ∧ Claims other after := fun rests =>
    ⟨claims.silent rests.sent_eq rests.work_le,
      claimed.believed (rests.phase_eq ▸ id) rests.peerWork_eq⟩
  cases moves with
  | idle => exact ⟨claims, claimed⟩
  | close => exact resting party.rests_close
  | drop => exact resting (party.rests_drop _)
  | grow => exact resting (party.rests_grow _)
  | enqueue => exact resting party.rests_enqueue
  | fail ended _ sent _ grows => exact ⟨claims.silent sent grows, claimed.unheard ended⟩
  | greet starts =>
      exact ⟨claims.speaks rfl rfl (by simp [Message.work?]) (by simp),
        claimed.believed (fun _ => by simp [starts]) rfl⟩
  | answer _ _ bounded =>
      refine ⟨claims.speaks rfl rfl (fun claim stands => ?_) (by simp), claimed.believed id rfl⟩
      cases stands
      exact bounded
  | summarize answering =>
      exact ⟨claims.speaks rfl rfl (by simp [Message.work?]) (by simp),
        claimed.believed (fun _ => by simp [answering]) rfl⟩
  | ping => exact ⟨claims.speaks rfl rfl (by simp [Message.work?]) (by simp), claimed.believed id rfl⟩
  | flush _ found =>
      refine ⟨claims.speaks rfl rfl (fun claim stands => ?_) (fun claim isSummary => ?_),
        claimed.believed id rfl⟩
      · rcases queues _ (List.mem_of_getElem? found) with rfl | ⟨work, bounded, rfl⟩
        · cases stands
        · cases stands
          exact bounded
      · rcases queues _ (List.mem_of_getElem? found) with rfl | ⟨work, -, rfl⟩
        · cases isSummary
        · cases isSummary

theorem Moves.claims_receive {party after other : Party W} {message : Message W}
    {rest : List (Message W)} (arrives : other.sent = message :: rest)
    (moves : Moves (some message) party after) (claims : Claims party other)
    (claimed : Claims other party) :
    Claims after { other with sent := rest } ∧ Claims { other with sent := rest } after := by
  have claims' : Claims party { other with sent := rest } := claims.believed id rfl
  have claimed' : Claims { other with sent := rest } party := claimed.takes arrives
  cases moves with
  | fail ended _ sent _ grows => exact ⟨claims'.silent sent grows, claimed'.unheard ended⟩
  | meet => exact ⟨claims'.silent rfl le_rfl, claimed.learns arrives rfl rfl⟩
  | meetHeavier =>
      exact ⟨claims'.speaks rfl rfl (by simp [Message.work?]) (by simp), claimed.learns arrives rfl rfl⟩
  | absorb => exact ⟨claims'.silent rfl (le_max_left _ _), claimed'.believed id rfl⟩
  | orphan =>
      exact ⟨claims'.speaks rfl rfl (by simp [Message.work?]) (by simp), claimed'.believed id rfl⟩
  | orphanBusy => exact ⟨claims', claimed'⟩
  | asked reading =>
      exact ⟨claims'.silent rfl le_rfl, claimed'.believed (fun _ => by simp [reading]) rfl⟩
  | summaryLight => exact ⟨claims'.silent rfl le_rfl, claimed.learns arrives rfl rfl⟩
  | summaryHeavier =>
      exact ⟨claims'.speaks rfl rfl (by simp [Message.work?]) (by simp), claimed.learns arrives rfl rfl⟩
  | answerPing =>
      exact ⟨claims'.speaks rfl rfl (by simp [Message.work?]) (by simp), claimed'.believed id rfl⟩
  | pong => exact ⟨claims'.silent rfl le_rfl, claimed'.believed id rfl⟩
  | other => exact ⟨claims', claimed'⟩

/-! ## Pings -/

/-- The message is a PING. -/
def Message.isPing : Message W → Bool
  | .ping _ => true
  | _ => false

/-- The message is a PONG. -/
def Message.isPong : Message W → Bool
  | .pong _ => true
  | _ => false

/-- The PING of the first party that is unanswered is the only one under way, and so is its
PONG. -/
structure Pings (first second : Party W) : Prop where
  ping : first.phase ≠ .ended → ∀ nonce, .ping nonce ∈ first.sent → first.pendingPing = some nonce
  pong : first.phase ≠ .ended → ∀ nonce, .pong nonce ∈ second.sent → first.pendingPing = some nonce
  once : first.phase ≠ .ended →
    first.sent.countP Message.isPing + second.sent.countP Message.isPong ≤ 1

omit [LinearOrder W] in
theorem countP_isPing_eq_zero {messages : List (Message W)} :
    messages.countP Message.isPing = 0 ↔ ∀ nonce, .ping nonce ∉ messages := by
  rw [List.countP_eq_zero]
  constructor
  · intro none_is nonce member
    exact none_is _ member rfl
  · intro none_is message member isPing
    cases message with
    | ping nonce => exact none_is nonce member
    | _ => cases isPing

omit [LinearOrder W] in
theorem countP_isPong_eq_zero {messages : List (Message W)} :
    messages.countP Message.isPong = 0 ↔ ∀ nonce, .pong nonce ∉ messages := by
  rw [List.countP_eq_zero]
  constructor
  · intro none_is nonce member
    exact none_is _ member rfl
  · intro none_is message member isPong
    cases message with
    | pong nonce => exact none_is nonce member
    | _ => cases isPong

namespace Pings

variable {first second after : Party W} {message : Message W} {rest : List (Message W)}

omit [LinearOrder W]

/-- A party that writes nothing waits for what it waited for. -/
theorem silent (pings : Pings first second) (going : after.phase ≠ .ended → first.phase ≠ .ended)
    (sent : after.sent = first.sent) (pending : after.pendingPing = first.pendingPing) :
    Pings after second := by
  refine ⟨fun running => ?_, fun running => ?_, fun running => ?_⟩
  · rw [sent, pending]
    exact pings.ping (going running)
  · rw [pending]
    exact pings.pong (going running)
  · rw [sent]
    exact pings.once (going running)

theorem of_ended (ended : after.phase = .ended) : Pings after second :=
  ⟨fun running => absurd ended running, fun running => absurd ended running,
    fun running => absurd ended running⟩

/-- A message that is no PING. -/
theorem speaks (pings : Pings first second) (going : after.phase ≠ .ended → first.phase ≠ .ended)
    (sent : after.sent = first.sent ++ [message]) (pending : after.pendingPing = first.pendingPing)
    (noPing : message.isPing = false) : Pings after second := by
  refine ⟨fun running nonce member => ?_, fun running => ?_, fun running => ?_⟩
  · rw [sent, List.mem_append, List.mem_singleton] at member
    rcases member with before | rfl
    · rw [pending]
      exact pings.ping (going running) nonce before
    · cases noPing
  · rw [pending]
    exact pings.pong (going running)
  · rw [sent, List.countP_append, List.countP_cons_of_neg (by rw [noPing]; decide), List.countP_nil,
      add_zero]
    exact pings.once (going running)

theorem of_sent_eq (pings : Pings first second) (sent : after.sent = second.sent) :
    Pings first after := by
  refine ⟨pings.ping, ?_, ?_⟩
  · rw [sent]
    exact pings.pong
  · rw [sent]
    exact pings.once

/-- A message of the other party that is no PONG. -/
theorem hears (pings : Pings first second) (sent : after.sent = second.sent ++ [message])
    (noPong : message.isPong = false) : Pings first after := by
  refine ⟨pings.ping, fun running nonce member => ?_, fun running => ?_⟩
  · rw [sent, List.mem_append, List.mem_singleton] at member
    rcases member with before | rfl
    · exact pings.pong running nonce before
    · cases noPong
  · rw [sent, List.countP_append, List.countP_cons_of_neg (by rw [noPong]; decide), List.countP_nil,
      add_zero]
    exact pings.once running

/-- The next message of the party is handled. -/
theorem takes (pings : Pings first second) (arrives : first.sent = message :: rest) :
    Pings { first with sent := rest } second := by
  have kept : rest.Sublist first.sent := arrives ▸ List.sublist_cons_self _ _
  refine ⟨fun running nonce member => pings.ping running nonce (kept.subset member), pings.pong,
    fun running => ?_⟩
  exact (Nat.add_le_add_right kept.countP_le _).trans (pings.once running)

/-- The next message of the other party is handled. -/
theorem receives (pings : Pings first second) (arrives : second.sent = message :: rest) :
    Pings first { second with sent := rest } := by
  have kept : rest.Sublist second.sent := arrives ▸ List.sublist_cons_self _ _
  refine ⟨pings.ping, fun running nonce member => pings.pong running nonce (kept.subset member),
    fun running => ?_⟩
  exact (Nat.add_le_add_left kept.countP_le _).trans (pings.once running)

/-- A PING is sent when none is unanswered. -/
theorem asks (pings : Pings first second) (going : first.phase ≠ .ended)
    (answered : first.pendingPing = none) (nonce : Int) :
    Pings { first.sends (.ping nonce) with pendingPing := some nonce } second := by
  have noPing : first.sent.countP Message.isPing = 0 :=
    countP_isPing_eq_zero.mpr fun nonce' member => by
      have pending := pings.ping going nonce' member
      rw [answered] at pending
      cases pending
  have noPong : second.sent.countP Message.isPong = 0 :=
    countP_isPong_eq_zero.mpr fun nonce' member => by
      have pending := pings.pong going nonce' member
      rw [answered] at pending
      cases pending
  refine ⟨fun _ nonce' member => ?_, fun _ nonce' member => ?_, fun _ => ?_⟩
  · rw [Party.sends, List.mem_append, List.mem_singleton] at member
    rcases member with before | isLast
    · exact absurd before (countP_isPing_eq_zero.mp noPing nonce')
    · cases isLast
      rfl
  · exact absurd member (countP_isPong_eq_zero.mp noPong nonce')
  · rw [Party.sends, List.countP_append, noPing, noPong]
    exact le_rfl

/-- The PING of the party is answered. -/
theorem answers (pings : Pings first second) {nonce : Int} (arrives : first.sent = .ping nonce :: rest)
    (sent : after.sent = second.sent ++ [.pong nonce]) : Pings { first with sent := rest } after := by
  refine ⟨(pings.takes arrives).ping, fun running nonce' member => ?_, fun running => ?_⟩
  · rw [sent, List.mem_append, List.mem_singleton] at member
    rcases member with before | isLast
    · exact pings.pong running nonce' before
    · cases isLast
      exact pings.ping running nonce (by rw [arrives]; exact List.mem_cons_self)
  · have only := pings.once running
    rw [arrives, List.countP_cons_of_pos rfl] at only
    rw [sent, List.countP_append, List.countP_cons_of_pos rfl, List.countP_nil]
    dsimp only
    omega

/-- The PONG that the party waits for was the only one under way. -/
theorem answered (pings : Pings first second) (going : first.phase ≠ .ended) {nonce : Int}
    (arrives : second.sent = .pong nonce :: rest) :
    Pings { first with pendingPing := none } { second with sent := rest } := by
  have only := pings.once going
  rw [arrives, List.countP_cons_of_pos rfl] at only
  have noPing := countP_isPing_eq_zero.mp (by omega : first.sent.countP Message.isPing = 0)
  have noPong := countP_isPong_eq_zero.mp (by omega : rest.countP Message.isPong = 0)
  refine ⟨fun _ nonce' member => absurd member (noPing nonce'),
    fun _ nonce' member => absurd member (noPong nonce'), fun _ => ?_⟩
  dsimp only
  omega

end Pings

theorem Moves.pings {party after other : Party W} (moves : Moves none party after)
    (queues : party.Queues) (pings : Pings party other) (pinged : Pings other party) :
    Pings after other ∧ Pings other after := by
  have resting : party.Rests after → Pings after other ∧ Pings other after := fun rests =>
    ⟨pings.silent (rests.phase_eq ▸ id) rests.sent_eq rests.pendingPing_eq,
      pinged.of_sent_eq rests.sent_eq⟩
  cases moves with
  | idle => exact ⟨pings, pinged⟩
  | close => exact resting party.rests_close
  | drop => exact resting (party.rests_drop _)
  | grow => exact resting (party.rests_grow _)
  | enqueue => exact resting party.rests_enqueue
  | fail ended _ sent => exact ⟨.of_ended ended, pinged.of_sent_eq sent⟩
  | greet starts => exact ⟨pings.speaks (fun _ => by simp [starts]) rfl rfl rfl, pinged.hears rfl rfl⟩
  | answer => exact ⟨pings.speaks id rfl rfl rfl, pinged.hears rfl rfl⟩
  | summarize answering =>
      exact ⟨pings.speaks (fun _ => by simp [answering]) rfl rfl rfl, pinged.hears rfl rfl⟩
  | ping reading _ answered =>
      exact ⟨pings.asks (by simp [reading]) answered _, pinged.hears rfl rfl⟩
  | flush _ found =>
      rcases queues _ (List.mem_of_getElem? found) with rfl | ⟨work, -, rfl⟩
      · exact ⟨pings.speaks id rfl rfl rfl, pinged.hears rfl rfl⟩
      · exact ⟨pings.speaks id rfl rfl rfl, pinged.hears rfl rfl⟩

theorem Moves.pings_receive {party after other : Party W} {message : Message W}
    {rest : List (Message W)} (arrives : other.sent = message :: rest)
    (moves : Moves (some message) party after) (pings : Pings party other)
    (pinged : Pings other party) :
    Pings after { other with sent := rest } ∧ Pings { other with sent := rest } after := by
  have pings' : Pings party { other with sent := rest } := pings.receives arrives
  have pinged' : Pings { other with sent := rest } party := pinged.takes arrives
  cases moves with
  | fail ended _ sent => exact ⟨.of_ended ended, pinged'.of_sent_eq sent⟩
  | meet waits =>
      exact ⟨pings'.silent (fun _ => by simp [waits]) rfl rfl, pinged'.of_sent_eq rfl⟩
  | meetHeavier waits =>
      exact ⟨pings'.speaks (fun _ => by simp [waits]) rfl rfl rfl, pinged'.hears rfl rfl⟩
  | absorb => exact ⟨pings'.silent id rfl rfl, pinged'.of_sent_eq rfl⟩
  | orphan => exact ⟨pings'.speaks id rfl rfl rfl, pinged'.hears rfl rfl⟩
  | orphanBusy => exact ⟨pings', pinged'⟩
  | asked reading =>
      exact ⟨pings'.silent (fun _ => by simp [reading]) rfl rfl, pinged'.of_sent_eq rfl⟩
  | summaryLight => exact ⟨pings'.silent id rfl rfl, pinged'.of_sent_eq rfl⟩
  | summaryHeavier => exact ⟨pings'.speaks id rfl rfl rfl, pinged'.hears rfl rfl⟩
  | answerPing => exact ⟨pings'.speaks id rfl rfl rfl, pinged.answers arrives rfl⟩
  | pong reading => exact ⟨pings.answered (by simp [reading]) arrives, pinged'.of_sent_eq rfl⟩
  | other => exact ⟨pings', pinged'⟩

/-! ## Every reachable state -/

/-- What holds between the parties of a connection at any time. -/
structure Orderly (first second : Party W) : Prop where
  queues : first.Queues
  greets : Greets first second
  claims : Claims first second
  pings : Pings first second

/-- Both directions are in order. -/
def Pair.Orderly (pair : Pair W) : Prop :=
  Exchange.Orderly pair.left pair.right ∧ Exchange.Orderly pair.right pair.left

/-- A party before its connection does anything. -/
structure Party.Fresh (party : Party W) : Prop where
  starting : party.phase = .starting
  sent_nil : party.sent = []
  queue_nil : party.queue = []
  peerWork_none : party.peerWork = none
  idle : party.outstanding = false
  noPing : party.pendingPing = none

theorem Orderly.of_fresh {first second : Party W} (fresh : first.Fresh) (fresh' : second.Fresh) :
    Orderly first second := by
  obtain ⟨starting, sent, queue, peerWork, idle, noPing⟩ := fresh
  obtain ⟨starting', sent', queue', peerWork', idle', noPing'⟩ := fresh'
  constructor
  · grind
  · constructor <;> grind
  · constructor <;> grind
  · constructor <;> grind

theorem Acts.orderly {pair after : Pair W} (acts : Acts pair after) (orderly : pair.Orderly) :
    after.Orderly := by
  obtain ⟨left, right⟩ := orderly
  cases acts with
  | act moves =>
      obtain ⟨greets, greeted⟩ := moves.greets left.queues left.greets right.greets
      obtain ⟨claims, claimed⟩ := moves.claims left.queues left.claims right.claims
      obtain ⟨pings, pinged⟩ := moves.pings left.queues left.pings right.pings
      exact ⟨⟨moves.queues left.queues, greets, claims, pings⟩,
        ⟨right.queues, greeted, claimed, pinged⟩⟩
  | receive arrives waits moves =>
      obtain ⟨greets, greeted⟩ := moves.greets_receive arrives left.greets right.greets
      obtain ⟨claims, claimed⟩ := moves.claims_receive arrives left.claims right.claims
      obtain ⟨pings, pinged⟩ := moves.pings_receive arrives left.pings right.pings
      exact ⟨⟨moves.queues left.queues, greets, claims, pings⟩,
        ⟨right.queues, greeted, claimed, pinged⟩⟩

/-- **Every move keeps the connection orderly.** -/
theorem Turns.orderly {pair after : Pair W} (turns : Turns pair after) (orderly : pair.Orderly) :
    after.Orderly := by
  rcases turns with acts | acts
  · exact acts.orderly orderly
  · exact (acts.orderly orderly.symm).symm

/-- What a party can receive: a HELLO exactly when it waits for one, a summary that claims
no less than the claims before it, and the PONG that it waits for. -/
structure Expects (party : Party W) (message : Message W) : Prop where
  hello : party.phase = .handshaking ↔ message.IsHello
  summary : ∀ claim, message = .summary claim →
    ∃ work, party.peerWork = some work ∧ work ≤ claim
  pong : ∀ nonce, message = .pong nonce → party.pendingPing = some nonce

/-- **What arrives is expected.** -/
theorem Pair.Orderly.expects {pair : Pair W} (orderly : pair.Orderly) {message : Message W}
    {rest : List (Message W)} (arrives : pair.right.sent = message :: rest)
    (waits : pair.left.phase = .handshaking ∨ pair.left.phase = .reading) :
    Expects pair.left message := by
  obtain ⟨⟨-, greets, -, pings⟩, ⟨-, greeted, claimed, -⟩⟩ := orderly
  obtain ⟨-, met, -, -, -, -, -⟩ := greets
  obtain ⟨-, -, -, -, -, next, once⟩ := greeted
  obtain ⟨-, -, advertised⟩ := claimed
  obtain ⟨-, pong, -⟩ := pings
  constructor
  · grind
  · intro claim isSummary
    subst isSummary
    rcases waits with waits | waits
    · grind
    · obtain ⟨work, known⟩ := Option.ne_none_iff_exists'.mp (met (.inl waits))
      refine ⟨work, known, ?_⟩
      exact (advertised (by simp [waits]) work known).2 claim (by simp [arrives])
  · grind

end OurCoin.Exchange
