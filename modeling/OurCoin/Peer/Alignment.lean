import OurCoin.Model.Reception
import OurCoin.Peer.Requests
import OurCoin.Wire.Frames

/-!
# The receive loop and the boundaries of frames

`read_frame` reads a frame in two timed steps, and after a timeout the loop reads on. When
the timeout strikes between a prefix and its payload, the loop takes the payload for the
prefix of the next frame.

* `Reception.Whole` says that this does not happen: no prefix is read after a read that
  timed out behind its own prefix.
* `Reception.stays_on_boundaries`: in such a run the frames that are handed over are the
  first frames of the stream, and `read_frame` raises nothing but timeouts and disconnections.
  Where no payload begins like a frame, the loop stays on the boundaries in no other run.
* `Reception.torn_frame`: two PING frames, the first of which is interrupted.
-/

set_option autoImplicit false

namespace OurCoin

open Raising Stateful

/-- The bytes of a sequence of frames. -/
def encodeFrames (frames : List Frame) : Except Raised Bytes := do
  let pieces ← frames.mapM fun frame => encodeFrame frame.messageType frame.payload protocolVersion
  return pieces.flatten

theorem encodeFrames_nil_eq_ok {stream : Bytes} : encodeFrames [] = .ok stream ↔ stream = [] := by
  simp [encodeFrames, eq_comm, pure, Except.pure, bind, Except.bind]

theorem encodeFrames_cons_eq_ok {frame : Frame} {frames : List Frame} {stream : Bytes} :
    encodeFrames (frame :: frames) = .ok stream ↔
      ∃ encoded rest, encodeFrame frame.messageType frame.payload protocolVersion = .ok encoded ∧
        encodeFrames frames = .ok rest ∧ stream = encoded ++ rest := by
  simp only [encodeFrames, List.mapM_cons, bind_eq_ok, pure_eq_ok]
  constructor
  · rintro ⟨pieces, ⟨encoded, encodes, others, rest, rfl⟩, rfl⟩
    exact ⟨encoded, others.flatten, encodes, ⟨others, rest, rfl⟩, rfl⟩
  · rintro ⟨encoded, rest, encodes, ⟨others, encodesRest, rfl⟩, rfl⟩
    exact ⟨encoded :: others, ⟨encoded, encodes, others, encodesRest, rfl⟩, rfl⟩

namespace Reception

/-- The exception is about the framing: magic, version, length, checksum or type. -/
def IsFraming (e : Raised) : Prop :=
  e.cls = .protocolError ∨ e.cls = .unsupportedProtocolVersionError

/-- The frames handed over are the first of the stream, and the framing was never at fault. -/
structure OnBoundaries (frames : List Frame) (reception : Reception) : Prop where
  handed : reception.handed <+: frames
  raised : ∀ e ∈ reception.raised, ¬ IsFraming e

/-- The event reads the prefix of a frame in time. -/
def TakesPrefix (reception : Reception) : Event → Prop
  | .read prefixLate _ _ _ _ => reception.session.connection.task = .reading ∧ prefixLate = false ∧
      framePrefixSize ≤ reception.stream.length
  | .meanwhile _ => False

/-- The event reads the prefix of a frame, and then the payload comes late. -/
def Tears (reception : Reception) : Event → Prop
  | .read prefixLate payloadLate nonce now faults =>
      reception.TakesPrefix (.read prefixLate payloadLate nonce now faults) ∧ payloadLate = true ∧
        (unpackPrefix (reception.stream.take framePrefixSize)).payloadLength ≠ 0
  | .meanwhile _ => False

variable [Platform]

/-- No prefix is read after a read that timed out between a prefix and its payload. -/
def Whole (reception : Reception) (events : List Event) : Prop :=
  ∀ first later event next, first < later → events[first]? = some event →
    events[later]? = some next → (reception.after events first).Tears event →
    ¬ (reception.after events later).TakesPrefix next

/-! ## One turn of the loop -/

variable {reception : Reception} {frames : List Frame}

/-- A frame that the rate limiter refuses is not handed over, and the loop ends. -/
theorem deliver_refused {session : Session} {frame : Frame} {now : Time}
    {faults : List Transactions.Fault} (reading : session.connection.task = .reading) {e : Raised}
    (refused : (Session.limitRate (framePrefixSize + frame.payload.length) now session).1 = .error e) :
    (session.deliver frame now faults).Over := by
  have delivered : session.deliver frame now faults =
      Session.resume now (Session.receive frame now faults session) :=
    Session.step_deliver reading
  rw [delivered, Session.receive]
  cases limited : Session.limitRate (framePrefixSize + frame.payload.length) now session with
  | mk result after =>
      rw [limited] at refused
      dsimp only at refused
      subst refused
      rw [bind_of_error limited]
      have ending := Session.course_resume_error now e after
      exact ⟨congrArg Course.closed ending, congrArg Course.task ending⟩

omit [Platform] in
theorem fail_over (e : Raised) (now : Time) (session : Session) : (session.fail e now).Over := by
  have ending := Session.course_fail e now session
  exact ⟨congrArg Course.closed ending, congrArg Course.task ending⟩

/-- The loop is over, or what is left of the stream are the frames that were not handed
over. -/
def Aligned (frames : List Frame) (reception : Reception) : Prop :=
  reception.session.Over ∨
    ∃ rest, frames = reception.handed ++ rest ∧ encodeFrames rest = .ok reception.stream

omit [Platform] in
theorem not_isFraming_timeout : ¬ IsFraming peerFrameTimeout := by
  simp [IsFraming, peerFrameTimeout]

omit [Platform] in
theorem not_isFraming_disconnected (message : String) : ¬ IsFraming (peerDisconnectedError message) := by
  simp [IsFraming, peerDisconnectedError]

omit [Platform] in
/-- One more exception that is not about the framing. -/
theorem raised_concat {raised : List Raised} {e : Raised} (fine : ∀ e ∈ raised, ¬ IsFraming e)
    (other : ¬ IsFraming e) : ∀ e' ∈ raised ++ [e], ¬ IsFraming e' := by
  intro e' member
  rcases List.mem_append.mp member with old | new
  · exact fine e' old
  · rw [List.mem_singleton.mp new]
    exact other

/-- A read that takes no prefix hands nothing over, and leaves the stream or ends the loop. -/
theorem read_nothing (on : OnBoundaries frames reception) {prefixLate payloadLate : Bool}
    (nothing : prefixLate = true ∨ reception.stream.length < framePrefixSize) (nonce : UInt64)
    (now : Time) (faults : List Transactions.Fault) :
    OnBoundaries frames (reception.read prefixLate payloadLate nonce now faults) ∧
      (Aligned frames reception →
        reception.session.connection.task = .reading →
        Aligned frames (reception.read prefixLate payloadLate nonce now faults)) := by
  cases prefixLate with
  | true =>
      rw [read, readFrame_prefixLate]
      refine ⟨⟨on.handed, raised_concat on.raised not_isFraming_timeout⟩, ?_⟩
      rintro (ended | ⟨rest, split, encodes⟩) reading
      · rw [ended.ended] at reading
        cases reading
      · exact .inr ⟨rest, split, encodes⟩
  | false =>
      have short : reception.stream.length < framePrefixSize := by simpa using nothing
      rw [read, readFrame_of_short short]
      refine ⟨⟨on.handed, raised_concat on.raised (not_isFraming_disconnected _)⟩, ?_⟩
      intro _ _
      left
      dsimp only
      rw [if_neg (by simp [peerDisconnectedError])]
      exact fail_over _ now reception.session

/-- **A read on a boundary ends on a boundary**, unless it tears a frame. -/
theorem read_aligned (on : OnBoundaries frames reception) (aligned : Aligned frames reception)
    (reading : reception.session.connection.task = .reading) (prefixLate payloadLate : Bool)
    (nonce : UInt64) (now : Time) (faults : List Transactions.Fault) :
    OnBoundaries frames (reception.read prefixLate payloadLate nonce now faults) ∧
      (reception.Tears (.read prefixLate payloadLate nonce now faults) ∨
        Aligned frames (reception.read prefixLate payloadLate nonce now faults)) := by
  by_cases nothing : prefixLate = true ∨ reception.stream.length < framePrefixSize
  · obtain ⟨kept, idle⟩ := @read_nothing _ _ _ on _ payloadLate nothing nonce now faults
    exact ⟨kept, .inr (idle aligned reading)⟩
  · obtain ⟨notLate, long⟩ := not_or.mp nothing
    have inTime : prefixLate = false := by simpa using notLate
    subst inTime
    rcases aligned with ended | ⟨rest, split, encodes⟩
    · rw [ended.ended] at reading
      cases reading
    · cases rest with
      | nil =>
          rw [encodeFrames_nil_eq_ok.mp encodes] at long
          exact absurd (by decide) long
      | cons frame rest =>
          obtain ⟨encoded, later, encodesFrame, encodesRest, stream⟩ :=
            encodeFrames_cons_eq_ok.mp encodes
          have outcome := readFrame_encodeFrame encodesFrame payloadLate later
          rw [← stream] at outcome
          rw [read, outcome]
          by_cases late : payloadLate = true ∧ frame.payload ≠ []
          · rw [if_pos late]
            refine ⟨⟨on.handed, raised_concat on.raised not_isFraming_timeout⟩, .inl ?_⟩
            obtain ⟨short, rfl⟩ := encodeFrame_eq_ok.mp encodesFrame
            refine ⟨⟨reading, rfl, not_lt.mp long⟩, late.1, ?_⟩
            rw [stream, List.append_assoc, List.take_left' (length_framePrefix frame),
              unpackPrefix_framePrefix short]
            exact fun empty => late.2 (List.length_eq_zero_iff.mp empty)
          · rw [if_neg late]
            dsimp only
            rcases limited : Session.limitRate (framePrefixSize + frame.payload.length) now
              reception.session with ⟨e | u, limiter⟩
            · have refused := congrArg Prod.fst limited
              exact ⟨⟨on.handed, on.raised⟩, .inr (.inl (deliver_refused reading refused))⟩
            · have next : frames = (reception.handed ++ [frame]) ++ rest := by simp [split]
              exact ⟨⟨⟨rest, next.symm⟩, on.raised⟩, .inr (.inr ⟨rest, next, encodesRest⟩)⟩

/-- What happens meanwhile hands nothing over and reads nothing. -/
theorem step_meanwhile (event : Session.Event) :
    (reception.step (.meanwhile event)).handed = reception.handed ∧
    (reception.step (.meanwhile event)).stream = reception.stream ∧
    (reception.step (.meanwhile event)).raised = reception.raised ∧
    (reception.session.Over → (reception.step (.meanwhile event)).session.Over) := by
  rw [step]
  split
  · exact ⟨rfl, rfl, rfl, id⟩
  · exact ⟨rfl, rfl, rfl, fun ended => Session.step_over ended event⟩

/-- **One event**: a loop on a boundary stays there unless the event tears a frame. -/
theorem step_aligned (on : OnBoundaries frames reception) (aligned : Aligned frames reception)
    (event : Event) : OnBoundaries frames (reception.step event) ∧
      (reception.Tears event ∨ Aligned frames (reception.step event)) := by
  cases event with
  | meanwhile event =>
      obtain ⟨handed, stream, raised, over_kept⟩ := @step_meanwhile _ reception event
      refine ⟨⟨handed ▸ on.handed, raised ▸ on.raised⟩, .inr ?_⟩
      rcases aligned with ended | ⟨rest, split, encodes⟩
      · exact .inl (over_kept ended)
      · exact .inr ⟨rest, handed ▸ split, stream ▸ encodes⟩
  | read prefixLate payloadLate nonce now faults =>
      cases reading : reception.session.connection.task with
      | reading =>
          rw [step, reading]
          exact read_aligned on aligned reading prefixLate payloadLate nonce now faults
      | _ =>
          rw [step, reading]
          exact ⟨on, .inr aligned⟩

/-- A loop that takes no prefix hands nothing over. -/
theorem step_nothing (on : OnBoundaries frames reception) {event : Event}
    (nothing : ¬ reception.TakesPrefix event) : OnBoundaries frames (reception.step event) := by
  cases event with
  | meanwhile event =>
      obtain ⟨handed, -, raised, -⟩ := @step_meanwhile _ reception event
      exact ⟨handed ▸ on.handed, raised ▸ on.raised⟩
  | read prefixLate payloadLate nonce now faults =>
      cases reading : reception.session.connection.task with
      | reading =>
          rw [step, reading]
          refine (read_nothing on ?_ nonce now faults).1
          by_contra taken
          obtain ⟨notLate, long⟩ := not_or.mp taken
          exact nothing ⟨reading, by simpa using notLate, not_lt.mp long⟩
      | _ =>
          rw [step, reading]
          exact on

/-! ## Torn frames -/

/-- The loop is over, or what it reads next does not begin like a frame. -/
def Torn (reception : Reception) : Prop :=
  reception.session.Over ∨ ¬ networkMagic <+: reception.stream

omit [Platform] in
/-- The magic of a frame cannot begin within a payload and go on in the next frame. -/
theorem not_magic_append {payload later : Bytes} {rest : List Frame}
    (some_bytes : payload ≠ []) (unlike : ¬ networkMagic <+: payload)
    (encodes : encodeFrames rest = .ok later) : ¬ networkMagic <+: payload ++ later := by
  intro begins
  have magic : networkMagic = [0x4F, 0x55, 0x52, 0x50] := by decide
  have next : later = [] ∨ ∃ more, later = 0x4F :: more := by
    cases rest with
    | nil => exact .inl (encodeFrames_nil_eq_ok.mp encodes)
    | cons frame rest =>
        obtain ⟨encoded, others, encodesFrame, -, rfl⟩ := encodeFrames_cons_eq_ok.mp encodes
        obtain ⟨-, rfl⟩ := encodeFrame_eq_ok.mp encodesFrame
        rw [framePrefix, magic]
        exact .inr ⟨_, rfl⟩
  rw [magic] at begins unlike
  -- Payloads of up to three bytes end within the magic.
  rcases payload with _ | ⟨a, _ | ⟨b, _ | ⟨c, _ | ⟨d, more⟩⟩⟩⟩
  · exact some_bytes rfl
  · rcases next with rfl | ⟨more, rfl⟩
    · simp at begins
    · simp [List.cons_prefix_cons] at begins
  · rcases next with rfl | ⟨more, rfl⟩
    · simp at begins
    · simp [List.cons_prefix_cons] at begins
  · rcases next with rfl | ⟨more, rfl⟩
    · simp at begins
    · simp [List.cons_prefix_cons] at begins
  · simp only [List.cons_append, List.cons_prefix_cons, List.nil_prefix] at begins unlike
    exact unlike begins

/-- A torn frame leaves its payload on the stream. -/
theorem step_tears (aligned : Aligned frames reception)
    (unlike : ∀ frame ∈ frames, ¬ networkMagic <+: frame.payload) {event : Event}
    (tears : reception.Tears event) : (reception.step event).Torn := by
  cases event with
  | meanwhile event => exact absurd tears id
  | read prefixLate payloadLate nonce now faults =>
      obtain ⟨⟨reading, inTime, long⟩, late, nonempty⟩ := tears
      subst inTime late
      rw [step, reading]
      rcases aligned with ended | ⟨rest, split, encodes⟩
      · rw [ended.ended] at reading
        cases reading
      · cases rest with
        | nil =>
            rw [encodeFrames_nil_eq_ok.mp encodes] at long
            exact absurd long (by decide)
        | cons frame rest =>
            obtain ⟨encoded, later, encodesFrame, encodesRest, stream⟩ :=
              encodeFrames_cons_eq_ok.mp encodes
            have outcome := readFrame_encodeFrame encodesFrame true later
            obtain ⟨short, rfl⟩ := encodeFrame_eq_ok.mp encodesFrame
            rw [stream, List.append_assoc, List.take_left' (length_framePrefix frame),
              unpackPrefix_framePrefix short] at nonempty
            have some_bytes : frame.payload ≠ [] := fun empty => nonempty (by simp [empty])
            rw [← stream, if_pos ⟨rfl, some_bytes⟩] at outcome
            dsimp only
            rw [read, outcome]
            right
            apply not_magic_append some_bytes _ encodesRest
            exact unlike frame (by rw [split]; simp)

/-- Until a prefix is read, a torn frame stays torn. -/
theorem step_torn (torn : reception.Torn) {event : Event} (nothing : ¬ reception.TakesPrefix event) :
    (reception.step event).Torn := by
  cases event with
  | meanwhile event =>
      obtain ⟨-, stream, -, over_kept⟩ := @step_meanwhile _ reception event
      rcases torn with ended | unlike
      · exact .inl (over_kept ended)
      · exact .inr (stream ▸ unlike)
  | read prefixLate payloadLate nonce now faults =>
      cases reading : reception.session.connection.task with
      | reading =>
          rw [step, reading]
          dsimp only
          cases prefixLate with
          | true =>
              rw [read, readFrame_prefixLate]
              rcases torn with ended | unlike
              · rw [ended.ended] at reading
                cases reading
              · exact .inr unlike
          | false =>
              have short : reception.stream.length < framePrefixSize := by
                by_contra long
                exact nothing ⟨reading, rfl, not_lt.mp long⟩
              rw [read, readFrame_of_short short]
              left
              dsimp only
              rw [if_neg (by simp [peerDisconnectedError])]
              exact fail_over _ now reception.session
      | _ =>
          rw [step, reading]
          exact torn

/-- **A prefix that is read from a torn frame is refused.** -/
theorem step_torn_prefix (torn : reception.Torn) {event : Event}
    (takes : reception.TakesPrefix event) : ¬ OnBoundaries frames (reception.step event) := by
  cases event with
  | meanwhile event => exact absurd takes id
  | read prefixLate payloadLate nonce now faults =>
      obtain ⟨reading, inTime, long⟩ := takes
      subst inTime
      rcases torn with ended | unlike
      · rw [ended.ended] at reading
        cases reading
      · intro on
        have other : (unpackPrefix (reception.stream.take framePrefixSize)).magic ≠ networkMagic := by
          intro same
          rw [unpackPrefix, List.take_take] at same
          exact unlike (same ▸ List.take_prefix _ _)
        have refused : checkPrefix (unpackPrefix (reception.stream.take framePrefixSize)) =
            .error (protocolError "frame uses another network magic") := by
          rw [checkPrefix, raiseIf, if_pos other]
          rfl
        have outcome : readFrame false payloadLate reception.stream =
            (.error (protocolError "frame uses another network magic"),
              reception.stream.drop framePrefixSize) := by
          rw [readFrame, readExactly, if_neg (by decide), if_neg (by simp), if_neg (not_lt.mpr long)]
          dsimp only
          rw [refused]
        have raised := on.raised (protocolError "frame uses another network magic")
        rw [step, reading] at raised
        dsimp only at raised
        rw [read, outcome] at raised
        exact raised (by simp) (.inl rfl)

/-! ## Whole runs -/

/-- What a loop reads from the start of a stream. -/
theorem after_aligned (encodes : encodeFrames frames = .ok reception.stream)
    (handed : reception.handed = []) (raised : reception.raised = []) (events : List Event)
    {count : Nat} (whole : ∀ first later event next, first < later → later < count →
      events[first]? = some event → events[later]? = some next →
      (reception.after events first).Tears event → ¬ (reception.after events later).TakesPrefix next) :
    OnBoundaries frames (reception.after events count) ∧
      ((∃ first event, first < count ∧ events[first]? = some event ∧
          (reception.after events first).Tears event) ∨
        Aligned frames (reception.after events count)) := by
  have all : ∀ index, 0 ≤ index → index ≤ count →
      OnBoundaries frames (reception.after events index) ∧
      ((∃ first event, first < index ∧ events[first]? = some event ∧
          (reception.after events first).Tears event) ∨
        Aligned frames (reception.after events index)) := by
    apply Steps.after_induction (P := fun index state => index ≤ count → OnBoundaries frames state ∧
      ((∃ first event, first < index ∧ events[first]? = some event ∧
          (reception.after events first).Tears event) ∨ Aligned frames state))
    · intro _
      refine ⟨⟨?_, ?_⟩, .inr (.inr ⟨frames, ?_, encodes⟩)⟩
      · rw [Steps.after_zero, handed]
        exact List.nil_prefix
      · rw [Steps.after_zero, raised]
        simp
      · rw [Steps.after_zero, handed, List.nil_append]
    · intro index event _ next ih earlier
      obtain ⟨on, torn | aligned⟩ := ih (by omega)
      · obtain ⟨first, tearing, before, found, tears⟩ := torn
        have nothing := whole first index tearing event before (by omega) found next tears
        exact ⟨step_nothing on nothing, .inl ⟨first, tearing, by omega, found, tears⟩⟩
      · obtain ⟨on', tears | aligned'⟩ := step_aligned on aligned event
        · exact ⟨on', .inl ⟨index, event, by omega, next, tears⟩⟩
        · exact ⟨on', .inr aligned'⟩
    · intro index state _ ih earlier
      obtain ⟨on, torn | aligned⟩ := ih (by omega)
      · obtain ⟨first, tearing, before, rest⟩ := torn
        exact ⟨on, .inl ⟨first, tearing, by omega, rest⟩⟩
      · exact ⟨on, .inr aligned⟩
  exact all count (Nat.zero_le count) le_rfl

/-- Where no payload begins like a frame, no prefix is read behind the first torn frame. -/
theorem whole_of_onBoundaries (encodes : encodeFrames frames = .ok reception.stream)
    (handed : reception.handed = []) (raised : reception.raised = []) {events : List Event}
    (unlike : ∀ frame ∈ frames, ¬ networkMagic <+: frame.payload)
    (on : ∀ count, OnBoundaries frames (reception.after events count)) : reception.Whole events := by
  intro some_first later some_event next before
  induction later using Nat.strong_induction_on generalizing some_first some_event next with
  | _ later earlier =>
      intro some_found foundNext some_tears takes
      -- The first torn frame of the run.
      have exists_torn : ∃ first, ∃ event, events[first]? = some event ∧
          (reception.after events first).Tears event := ⟨some_first, some_event, some_found, some_tears⟩
      classical
      let first := Nat.find exists_torn
      obtain ⟨event, found, tears⟩ := Nat.find_spec exists_torn
      have first_le : first ≤ some_first :=
        Nat.find_min' exists_torn ⟨some_event, some_found, some_tears⟩
      have least : ∀ index event, index < first → events[index]? = some event →
          ¬ (reception.after events index).Tears event :=
        fun index event smaller found tears => Nat.find_min exists_torn smaller ⟨event, found, tears⟩
      have aligned : Aligned frames (reception.after events first) := by
        rcases (@after_aligned _ _ _ encodes handed raised events first (by
          intro index _ event _ _ smaller found _ tears
          exact absurd tears (least index event (by omega) found))).2 with
          ⟨index, event, smaller, found, tears⟩ | aligned
        · exact absurd tears (least index event smaller found)
        · exact aligned
      have torn : ∀ index, first + 1 ≤ index → index ≤ later → (reception.after events index).Torn := by
        apply Steps.after_induction (P := fun index state => index ≤ later → Torn state)
        · intro _
          have grown : reception.after events (first + 1) = (reception.after events first).step event :=
            Steps.after_succ found
          have tornNext := step_tears aligned unlike tears
          rw [← grown] at tornNext
          exact tornNext
        · intro index event' _ found' ih bound
          apply step_torn (ih (by omega))
          exact earlier index (by omega) first event event' (by omega) found found' tears
        · intro index state _ ih bound
          exact ih (by omega)
      apply step_torn_prefix (torn later (by omega) le_rfl) takes
      have reached := on (later + 1)
      rw [after, Steps.after_succ foundNext] at reached
      exact reached

/-- **The receive loop stays on the boundaries of frames** in every run in which no prefix
is read after a read that timed out behind its own prefix. Where no payload begins like a
frame, it does so in no other run. -/
theorem stays_on_boundaries (encodes : encodeFrames frames = .ok reception.stream)
    (handed : reception.handed = []) (raised : reception.raised = []) (events : List Event) :
    (reception.Whole events → ∀ count, OnBoundaries frames (reception.after events count)) ∧
    ((∀ frame ∈ frames, ¬ networkMagic <+: frame.payload) →
      (∀ count, OnBoundaries frames (reception.after events count)) → reception.Whole events) := by
  refine ⟨?_, ?_⟩
  · intro whole count
    refine (after_aligned encodes handed raised events ?_).1
    intro first later event next before _ found foundNext
    exact whole first later event next before found foundNext
  · intro unlike on
    exact whole_of_onBoundaries encodes handed raised unlike on

/-! ## Two pings -/

/-- A PING with the nonce zero. -/
def pingFrame : Frame := ⟨.ping, List.replicate 8 0⟩

/-- A connection after the handshake, with two PING frames on its stream. -/
def twoPings : Reception where
  session := @Session.run asciiPlatform Session.freshSession
    [.start 0, .deliver Session.peerHello 0 []]
  stream := (encodeFrames [pingFrame, pingFrame]).toOption.getD []
  handed := []
  raised := []

omit [Platform] in
theorem twoPings_encodes : encodeFrames [pingFrame, pingFrame] = .ok twoPings.stream := by
  decide +kernel

omit [Platform] in
theorem stays_on_boundaries_pings :
    (@Whole asciiPlatform twoPings [.read false false 0 0 [], .read false false 0 0 []] →
      ∀ count, OnBoundaries [pingFrame, pingFrame] (@after asciiPlatform twoPings
        [.read false false 0 0 [], .read false false 0 0 []] count)) ∧
    ((∀ frame ∈ [pingFrame, pingFrame], ¬ networkMagic <+: frame.payload) →
      (∀ count, OnBoundaries [pingFrame, pingFrame] (@after asciiPlatform twoPings
        [.read false false 0 0 [], .read false false 0 0 []] count)) →
      @Whole asciiPlatform twoPings [.read false false 0 0 [], .read false false 0 0 []]) :=
  @stays_on_boundaries asciiPlatform twoPings [pingFrame, pingFrame] twoPings_encodes rfl rfl
    [.read false false 0 0 [], .read false false 0 0 []]

omit [Platform] in
/-- **A torn frame**: the payload of the first PING comes late, and its bytes are taken for
the prefix of a frame of another network. -/
theorem torn_frame :
    encodeFrames [pingFrame, pingFrame] = .ok twoPings.stream ∧
    (@after asciiPlatform twoPings [.read false true 0 0 [], .read false false 0 0 []] 2).raised =
      [peerFrameTimeout, protocolError "frame uses another network magic"] ∧
    ¬ OnBoundaries [pingFrame, pingFrame]
      (@after asciiPlatform twoPings [.read false true 0 0 [], .read false false 0 0 []] 2) := by
  have raised : (@after asciiPlatform twoPings [.read false true 0 0 [], .read false false 0 0 []]
      2).raised = [peerFrameTimeout, protocolError "frame uses another network magic"] := by
    decide +kernel
  refine ⟨twoPings_encodes, raised, ?_⟩
  intro on
  apply on.raised (protocolError "frame uses another network magic")
  · rw [raised]
    simp
  · exact .inl rfl

end Reception

end OurCoin
