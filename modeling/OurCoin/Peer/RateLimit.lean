import Mathlib.Algebra.Order.Ring.Rat
import OurCoin.Library.SlidingWindow
import OurCoin.Model.Peer

/-!
# The rate limiter is exact

`_RateLimiter` keeps a queue of the messages that it accepted and the sum of their sizes, and
drops what has expired from the front of the queue. It answers as if it remembered every
accepted message and counted those of the last 60 seconds.

* `expire_eq`: the loop over the queue, on a queue whose sum is right.
* `Tracks`: what a limiter holds of the accepted messages, kept by one call (`Tracks.allow`).
* `answers_eq`: the answers to a run of calls are those of the rule over the whole history.
* `exactLimit` draws the conclusions.
-/

set_option autoImplicit false

namespace OurCoin.RateLimiter

open SlidingWindow

/-- What the limits allow in one window. -/
def budget (limits : PeerLimits) : Budget :=
  ⟨limits.maxMessagesPerMinute, limits.maxBytesPerMinute⟩

/-- The answers to calls `allow(size, now=now)`, one after the other. -/
def answers (limits : PeerLimits) : RateLimiter → List (Time × Nat) → List Bool
  | _, [] => []
  | limiter, call :: calls =>
    (allow limits limiter call.2 call.1).1 ::
      answers limits (allow limits limiter call.2 call.1).2 calls

/-! ## One call -/

/-- The loop that drops expired messages keeps the sum right. -/
theorem expire_eq (cutoff : Time) : ∀ {events : List (Time × Nat)} {bytes : Nat},
    bytes = total events → expire cutoff events bytes =
      ⟨events.dropWhile fun event => event.1 ≤ cutoff,
        total (events.dropWhile fun event => event.1 ≤ cutoff)⟩
  | [], bytes, sum => by
      rw [expire, sum]
      rfl
  | event :: events, bytes, sum => by
      rw [expire]
      split
      · rename_i expired
        have less : bytes - event.2 = total events := by
          rw [sum, total_cons, Nat.add_sub_cancel_left]
        rw [expire_eq cutoff less, List.dropWhile_cons, decide_eq_true expired, if_pos rfl]
      · rename_i recent
        rw [List.dropWhile_cons, decide_eq_false recent, if_neg Bool.false_ne_true, sum]

/-- What a limiter holds of the messages that were accepted up to the time `latest`: those
that are later than some time that is out of the window. -/
structure Tracks (limiter : RateLimiter) (history : List (Time × Nat)) (latest : Time) : Prop where
  ordered : history.Pairwise fun earlier later => earlier.1 ≤ later.1
  past : ∀ event ∈ history, event.1 ≤ latest
  exists_cutoff : ∃ cutoff, cutoff ≤ latest - 60 ∧
    limiter.events = history.filter fun event => cutoff < event.1
  sum : limiter.bytes = total limiter.events

theorem Tracks.empty (latest : Time) : Tracks .empty [] latest :=
  ⟨.nil, nofun, ⟨latest - 60, le_rfl, rfl⟩, rfl⟩

/-- What has not expired is what the rule counts. -/
theorem Tracks.expire_eq {limiter : RateLimiter} {history : List (Time × Nat)} {latest now : Time}
    (tracks : Tracks limiter history latest) (later : latest ≤ now) :
    expire (now - 60) limiter.events limiter.bytes =
      ⟨within 60 now history, total (within 60 now history)⟩ := by
  obtain ⟨ordered, past, ⟨cutoff, before, eventsEq⟩, sum⟩ := tracks
  have orderedEvents : limiter.events.Pairwise fun earlier later => earlier.1 ≤ later.1 :=
    eventsEq ▸ ordered.filter _
  have recent : (limiter.events.dropWhile fun event => event.1 ≤ now - 60) =
      within 60 now history := by
    rw [dropWhile_eq_filter _ orderedEvents, eventsEq, List.filter_filter,
      within_eq_filter fun event member => (past event member).trans later]
    apply List.filter_congr
    intro event _
    rw [← Bool.decide_and, decide_eq_decide]
    exact ⟨And.left, fun inside => ⟨inside, by linarith⟩⟩
  rw [RateLimiter.expire_eq _ sum, recent]

/-- A refused message is not remembered. -/
theorem Tracks.refuse {limiter : RateLimiter} {history : List (Time × Nat)} {latest now : Time}
    (tracks : Tracks limiter history latest) (later : latest ≤ now) :
    Tracks ⟨within 60 now history, total (within 60 now history)⟩ history now := by
  have past := fun event member => (tracks.past event member).trans later
  exact ⟨tracks.ordered, past, ⟨now - 60, le_rfl, within_eq_filter past⟩, rfl⟩

/-- An accepted message is the last one of the window. -/
theorem Tracks.accept {limiter : RateLimiter} {history : List (Time × Nat)} {latest now : Time}
    (tracks : Tracks limiter history latest) (later : latest ≤ now) (size : Nat) :
    Tracks ⟨within 60 now history ++ [(now, size)], total (within 60 now history) + size⟩
      (history ++ [(now, size)]) now := by
  obtain ⟨ordered, past, -, -⟩ := tracks.refuse later
  have past' : ∀ event ∈ history ++ [(now, size)], event.1 ≤ now := by
    intro event member
    rcases List.mem_append.mp member with old | isNew
    · exact past event old
    · rw [List.mem_singleton.mp isNew]
  refine ⟨?_, past', ⟨now - 60, le_rfl, ?_⟩, ?_⟩
  · refine List.pairwise_append.mpr ⟨ordered, List.pairwise_singleton _ _, ?_⟩
    intro event member other isNew
    rw [List.mem_singleton.mp isNew]
    exact past event member
  · have kept : ([(now, size)].filter fun event => now - 60 < event.1) = [(now, size)] := by
      refine List.filter_eq_self.mpr ?_
      intro event isNew
      rw [List.mem_singleton.mp isNew]
      exact decide_eq_true (by linarith)
    rw [List.filter_append, within_eq_filter past, kept]
  · rw [total_append, total_cons, total_nil, Nat.add_zero]

/-- **One call** answers by the rule, and keeps track. -/
theorem Tracks.allow {limiter : RateLimiter} {history : List (Time × Nat)} {latest now : Time}
    (tracks : Tracks limiter history latest) (later : latest ≤ now) (limits : PeerLimits)
    (size : Nat) :
    (allow limits limiter size now).1 = judge (budget limits) 60 history (now, size) ∧
      Tracks (allow limits limiter size now).2
        (extend history (now, size) (judge (budget limits) 60 history (now, size))) now := by
  rw [RateLimiter.allow, tracks.expire_eq later]
  dsimp only
  split
  · rename_i tooMany
    have refused : judge (budget limits) 60 history (now, size) = false :=
      decide_eq_false fun allowed => Nat.not_lt_of_le allowed.1 tooMany
    rw [refused]
    exact ⟨rfl, tracks.refuse later⟩
  · rename_i few
    split
    · rename_i tooLarge
      have refused : judge (budget limits) 60 history (now, size) = false :=
        decide_eq_false fun allowed => Nat.not_lt_of_le allowed.2 tooLarge
      rw [refused]
      exact ⟨rfl, tracks.refuse later⟩
    · rename_i small
      have allowed : judge (budget limits) 60 history (now, size) = true :=
        decide_eq_true ⟨Nat.le_of_not_lt few, Nat.le_of_not_lt small⟩
      rw [allowed]
      exact ⟨rfl, tracks.accept later size⟩

/-! ## A run of calls -/

/-- **The answers to a run of calls are those of the rule**, if the times do not decrease. -/
theorem answers_eq (limits : PeerLimits) : ∀ {calls : List (Time × Nat)} {limiter : RateLimiter}
    {history : List (Time × Nat)} {latest : Time}, Tracks limiter history latest →
      (∀ call ∈ calls, latest ≤ call.1) →
      (calls.Pairwise fun earlier later => earlier.1 ≤ later.1) →
        answers limits limiter calls = judgeAll (budget limits) 60 history calls
  | [], _, _, _, _, _, _ => rfl
  | call :: calls, limiter, history, latest, tracks, later, ordered => by
      obtain ⟨next, rest⟩ := List.pairwise_cons.mp ordered
      obtain ⟨answer, tracks'⟩ := tracks.allow (later call List.mem_cons_self) limits call.2
      rw [answers, judgeAll, answer, answers_eq limits tracks' next rest]

/-- What the answers to a run of calls say. -/
structure ExactLimit (limits : PeerLimits) (calls : List (Time × Nat)) (given : List Bool) :
    Prop where
  /-- Every call is answered. -/
  length_eq : given.length = calls.length
  /-- A call returns `True` exactly when the messages accepted before it in the last 60 seconds
  leave room for it. -/
  exact : ∀ before now size after, calls = before ++ (now, size) :: after →
    (given[before.length]? = some true ↔
      (within 60 now (accepted before given)).length + 1 ≤ limits.maxMessagesPerMinute ∧
      total (within 60 now (accepted before given)) + size ≤ limits.maxBytesPerMinute)
  /-- No window of 60 seconds exceeds the limits, whichever of its ends belongs to it. -/
  window : ∀ start : Time,
    ((accepted calls given).filter fun call => start < call.1 ∧ call.1 ≤ start + 60).length ≤
        limits.maxMessagesPerMinute ∧
      total ((accepted calls given).filter fun call => start < call.1 ∧ call.1 ≤ start + 60) ≤
        limits.maxBytesPerMinute
  window' : ∀ start : Time,
    ((accepted calls given).filter fun call => start ≤ call.1 ∧ call.1 < start + 60).length ≤
        limits.maxMessagesPerMinute ∧
      total ((accepted calls given).filter fun call => start ≤ call.1 ∧ call.1 < start + 60) ≤
        limits.maxBytesPerMinute
  /-- Without a refused call all others are answered as before. -/
  refused : ∀ before call after, calls = before ++ call :: after →
    given[before.length]? = some false →
      answers limits .empty (before ++ after) = given.eraseIdx before.length

/-- **The sliding window is exact.** -/
theorem exactLimit (limits : PeerLimits) {calls : List (Time × Nat)}
    (ordered : (calls.map Prod.fst).Pairwise (· ≤ ·)) :
    ExactLimit limits calls (answers limits .empty calls) := by
  have ordered' := List.pairwise_map.mp ordered
  -- The answers of a new limiter, to any calls in order of time.
  have run : ∀ {calls : List (Time × Nat)},
      (calls.Pairwise fun earlier later => earlier.1 ≤ later.1) →
        answers limits .empty calls = judgeAll (budget limits) 60 [] calls := by
    intro calls ordered
    cases calls with
    | nil => rfl
    | cons call calls =>
        refine answers_eq limits (Tracks.empty call.1) ?_ ordered
        intro other member
        rcases List.mem_cons.mp member with rfl | behind
        · exact le_rfl
        · exact (List.pairwise_cons.mp ordered).1 other behind
  have start : Sound (budget limits) (60 : Time) [] := Sound.nil
  have sound := start.judgeAll calls
  have orderedAccepted := ordered'.sublist
    (accepted_sublist calls (judgeAll (budget limits) 60 [] calls))
  rw [List.nil_append] at sound
  rw [run ordered']
  refine ⟨length_judgeAll _ _ _ _, ?_, ?_, ?_, ?_⟩
  · rintro before now size after rfl
    rw [getElem?_judgeAll, Option.some.injEq, judge, decide_eq_true_eq]
    rfl
  · intro start
    refine sound.filter_le orderedAccepted (fun time => start < time ∧ time ≤ start + 60) ?_
    rintro s t ⟨above, -⟩ ⟨-, below⟩
    linarith
  · intro start
    refine sound.filter_le orderedAccepted (fun time => start ≤ time ∧ time < start + 60) ?_
    rintro s t ⟨above, -⟩ ⟨-, below⟩
    linarith
  · rintro before call after rfl refused
    have shorter : (before ++ after).Sublist (before ++ call :: after) :=
      (List.sublist_cons_self call after).append_left before
    rw [run (ordered'.sublist shorter)]
    exact judgeAll_refused refused

/-- `PeerLimits(max_messages_per_minute=1)`. -/
def oneMessage : PeerLimits :=
  { PeerLimits.default with
    maxMessagesPerMinute := 1
    positive := by decide }

/-- The second call comes within a minute of the first one, and the third one does not. -/
theorem exactLimit_oneMessage :
    ExactLimit oneMessage [(0, 30), (59, 30), (60, 30)] [true, false, true] := by
  have exact := @exactLimit oneMessage [(0, 30), (59, 30), (60, 30)] (by decide)
  have given : answers oneMessage .empty [(0, 30), (59, 30), (60, 30)] = [true, false, true] := by
    decide +kernel
  rwa [given] at exact

end OurCoin.RateLimiter
