import OurCoin.Wire.Frames

/-!
# The two readers of frames

`decode_frame` reads a frame from a buffer and `read_frame` from a stream, with the same
checks in another order. Neither accepts anything but what `encode_frame` writes.

* `framePrefix_of_accepted`: a prefix that passes the checks is the prefix of the frame
  that is returned.
* `decodeFrame_eq_ok`, `readFrame_eq_ok`: what each reader accepts.
* `framing_exact`: frames that are written one after the other are read as they were
  written, and the two readers accept the same byte strings, as the same frames.
-/

set_option autoImplicit false

namespace OurCoin

open Raising

/-! ## A prefix that passes the checks -/

/-- A number that is read from a slice is written back as this slice. -/
theorem toBytes_ofBytes_slice {start : Bytes} {offset width : Nat}
    (inside : offset + width ≤ start.length) :
    BigEndian.toBytes width (BigEndian.ofBytes ((start.drop offset).take width)) =
      (start.drop offset).take width := by
  have whole : ((start.drop offset).take width).length = width := by
    rw [List.length_take, List.length_drop]
    omega
  calc
    BigEndian.toBytes width (BigEndian.ofBytes ((start.drop offset).take width))
        = BigEndian.toBytes ((start.drop offset).take width).length
            (BigEndian.ofBytes ((start.drop offset).take width)) := by rw [whole]
    _ = (start.drop offset).take width := BigEndian.toBytes_ofBytes _

/-- `FRAME_PREFIX.pack` is the inverse of `FRAME_PREFIX.unpack`. -/
theorem pack_unpackPrefix {start : Bytes} (whole : start.length = framePrefixSize) :
    (unpackPrefix start).magic ++ BigEndian.toBytes 2 (unpackPrefix start).version ++
      BigEndian.toBytes 1 (unpackPrefix start).rawType ++
      BigEndian.toBytes 4 (unpackPrefix start).payloadLength ++
      (unpackPrefix start).checksum = start := by
  have fifteen : start.length = 15 := whole
  simp only [unpackPrefix]
  rw [toBytes_ofBytes_slice (by omega), toBytes_ofBytes_slice (by omega),
    toBytes_ofBytes_slice (by omega)]
  -- five slices, each of which starts where the one before it ends
  have last : (start.drop 11).take 4 = start.drop 11 :=
    List.take_of_length_le (by rw [List.length_drop]; omega)
  rw [last, List.append_assoc, List.append_assoc, List.append_assoc,
    show start.drop 11 = (start.drop 7).drop 4 by rw [List.drop_drop], List.take_append_drop,
    show start.drop 7 = (start.drop 6).drop 1 by rw [List.drop_drop], List.take_append_drop,
    show start.drop 6 = (start.drop 4).drop 2 by rw [List.drop_drop], List.take_append_drop,
    List.take_append_drop]

theorem code_of_ofCode {rawType : Nat} {messageType : MessageType}
    (known : MessageType.ofCode rawType = some messageType) : messageType.code = rawType := by
  unfold MessageType.ofCode at known
  split at known
  all_goals cases known
  all_goals rfl

theorem checkPrefix_eq_ok {unpacked : FramePrefix} :
    checkPrefix unpacked = .ok () ↔
      unpacked.magic = networkMagic ∧ (unpacked.version : Int) = protocolVersion ∧
        unpacked.payloadLength ≤ maxFramePayload := by
  simp only [checkPrefix, bind_eq_ok, raiseIf_eq_ok, exists_const, not_not, not_lt, gt_iff_lt]

theorem openFrame_eq_ok {unpacked : FramePrefix} {payload : Bytes} {frame : Frame} :
    openFrame unpacked payload = .ok frame ↔
      frameChecksum payload = unpacked.checksum ∧ frame.payload = payload ∧
        MessageType.ofCode unpacked.rawType = some frame.messageType := by
  simp only [openFrame, bind_eq_ok, raiseIf_eq_ok, exists_const, not_not]
  apply and_congr_right
  intro _
  cases MessageType.ofCode unpacked.rawType with
  | none => simp
  | some messageType =>
      rw [pure_eq_ok]
      constructor
      · rintro rfl
        exact ⟨rfl, rfl⟩
      · rintro ⟨rfl, known⟩
        cases known
        rfl

/-- **A prefix that passes the checks is the prefix of the frame that is returned**: no
byte of it is left open. -/
theorem framePrefix_of_accepted {start payload : Bytes} {frame : Frame}
    (whole : start.length = framePrefixSize)
    (checks : checkPrefix (unpackPrefix start) = .ok ())
    (sized : payload.length = (unpackPrefix start).payloadLength)
    (opens : openFrame (unpackPrefix start) payload = .ok frame) :
    start = framePrefix frame ∧ frame.payload = payload ∧
      frame.payload.length ≤ maxFramePayload := by
  obtain ⟨magic, version, short⟩ := checkPrefix_eq_ok.mp checks
  obtain ⟨checksum, rfl, known⟩ := openFrame_eq_ok.mp opens
  refine ⟨?_, rfl, by omega⟩
  have code : frame.messageType.code = (unpackPrefix start).rawType := code_of_ofCode known
  have one : protocolVersion.toNat = (unpackPrefix start).version := by
    rw [← version, Int.toNat_natCast]
  rw [framePrefix, checksum, code, sized, one, ← magic]
  exact (pack_unpackPrefix whole).symm

/-! ## What each reader accepts -/

/-- **`decode_frame` accepts exactly what `encode_frame` writes.** -/
theorem decodeFrame_eq_ok {encoded : Bytes} {frame : Frame} :
    decodeFrame encoded = .ok frame ↔
      encodeFrame frame.messageType frame.payload protocolVersion = .ok encoded := by
  constructor
  · intro decodes
    simp only [decodeFrame, bind_eq_ok, raiseIf_eq_ok, exists_const, not_not, not_lt] at decodes
    obtain ⟨long, checked, checks, sized, opens⟩ := decodes
    cases checked
    obtain ⟨start, body, short⟩ := framePrefix_of_accepted
      (List.length_take_of_le long) checks sized opens
    apply encodeFrame_eq_ok.mpr
    refine ⟨short, ?_⟩
    rw [← start, body, List.take_append_drop]
  · exact decodeFrame_encodeFrame

/-- What `readexactly` returns without a timeout. -/
theorem readExactly_eq_ok {length : Nat} {stream taken rest : Bytes} :
    readExactly false length stream = (.ok taken, rest) ↔
      taken.length = length ∧ stream = taken ++ rest := by
  constructor
  · intro reads
    rw [readExactly] at reads
    split at reads
    · rename_i none_asked
      cases reads
      exact ⟨none_asked.symm, rfl⟩
    · rw [if_neg Bool.false_ne_true] at reads
      split at reads
      · cases reads
      · rename_i enough
        cases reads
        exact ⟨List.length_take_of_le (not_lt.mp enough), (List.take_append_drop _ _).symm⟩
  · rintro ⟨sized, rfl⟩
    exact readExactly_append sized rest

/-- **`read_frame` accepts exactly the streams that start with what `encode_frame`
writes**, and leaves what follows it. -/
theorem readFrame_eq_ok {stream rest : Bytes} {frame : Frame} :
    readFrame false false stream = (.ok frame, rest) ↔
      ∃ encoded, encodeFrame frame.messageType frame.payload protocolVersion = .ok encoded ∧
        stream = encoded ++ rest := by
  constructor
  · intro reads
    rw [readFrame] at reads
    split at reads
    · cases reads
    · rename_i start afterPrefix startRead
      obtain ⟨whole, rfl⟩ := readExactly_eq_ok.mp startRead
      dsimp only at reads
      split at reads
      · cases reads
      · rename_i checks
        split at reads
        · cases reads
        · rename_i payload afterPayload payloadRead
          obtain ⟨sized, rfl⟩ := readExactly_eq_ok.mp payloadRead
          obtain ⟨opens, rfl⟩ := Prod.mk.inj reads
          obtain ⟨start, body, short⟩ := framePrefix_of_accepted whole checks sized opens
          refine ⟨_, encodeFrame_eq_ok.mpr ⟨short, rfl⟩, ?_⟩
          rw [← start, body, List.append_assoc]
  · rintro ⟨encoded, encodes, rfl⟩
    rw [readFrame_encodeFrame encodes false rest, if_neg (by simp)]

/-! ## One frame after the other -/

/-- `read_frame(reader, timeout=timeout)`, as often as it is called, with nothing late. -/
def readFrames : Nat → Bytes → Outcome Raised Bytes (List Frame)
  | 0, stream => (.ok [], stream)
  | count + 1, stream =>
    match readFrame false false stream with
    | (.error e, stream) => (.error e, stream)
    | (.ok frame, stream) =>
      match readFrames count stream with
      | (.error e, stream) => (.error e, stream)
      | (.ok frames, stream) => (.ok (frame :: frames), stream)

/-- `encode_frame` on every frame of a list. -/
def encodeEachFrame (frames : List Frame) : Except Raised (List Bytes) :=
  frames.mapM fun frame => encodeFrame frame.messageType frame.payload protocolVersion

/-- **Frames that are written one after the other are read as they were written**, and
what follows them is left. -/
theorem readFrames_encodeEachFrame {frames : List Frame} {encoded : List Bytes}
    (encodes : encodeEachFrame frames = .ok encoded) (rest : Bytes) :
    readFrames frames.length (encoded.flatten ++ rest) = (.ok frames, rest) := by
  induction frames generalizing encoded with
  | nil =>
      cases encodes
      rfl
  | cons frame frames ih =>
      rw [encodeEachFrame, List.mapM_cons, bind_eq_ok] at encodes
      obtain ⟨first, firstEncodes, encodes⟩ := encodes
      obtain ⟨others, othersEncode, encodes⟩ := bind_eq_ok.mp encodes
      cases encodes
      have head : readFrame false false (first ++ (others.flatten ++ rest)) =
          (.ok frame, others.flatten ++ rest) :=
        readFrame_eq_ok.mpr ⟨first, firstEncodes, rfl⟩
      have tail : readFrames frames.length (others.flatten ++ rest) = (.ok frames, rest) :=
        ih othersEncode
      rw [List.length_cons, readFrames, List.flatten_cons, List.append_assoc, head]
      dsimp only
      rw [tail]

theorem exists_encodeEachFrame {frames : List Frame}
    (short : ∀ frame ∈ frames, frame.payload.length ≤ maxFramePayload) :
    ∃ encoded, encodeEachFrame frames = .ok encoded := by
  induction frames with
  | nil => exact ⟨[], rfl⟩
  | cons frame frames ih =>
      obtain ⟨others, othersEncode⟩ := ih fun other member => short other (.tail _ member)
      have first := encodeFrame_eq_ok.mpr ⟨short frame (.head _), rfl⟩
      refine ⟨(framePrefix frame ++ frame.payload) :: others, ?_⟩
      rw [encodeEachFrame, List.mapM_cons, bind_eq_ok]
      exact ⟨_, first, bind_eq_ok.mpr ⟨_, othersEncode, rfl⟩⟩

/-- **Framing is exact, and the two readers agree.** -/
theorem framing_exact :
    (∀ frames : List Frame, (∀ frame ∈ frames, frame.payload.length ≤ maxFramePayload) →
      ∃ encoded, encodeEachFrame frames = .ok encoded ∧
        readFrames frames.length encoded.flatten = (.ok frames, [])) ∧
    ∀ (encoded : Bytes) (frame : Frame),
      (decodeFrame encoded = .ok frame ↔ readFrame false false encoded = (.ok frame, [])) ∧
      (readFrame false false encoded = (.ok frame, []) ↔
        encodeFrame frame.messageType frame.payload protocolVersion = .ok encoded) := by
  constructor
  · intro frames short
    obtain ⟨encoded, encodes⟩ := exists_encodeEachFrame short
    refine ⟨encoded, encodes, ?_⟩
    have reads := readFrames_encodeEachFrame encodes []
    rwa [List.append_nil] at reads
  · intro encoded frame
    have alone : readFrame false false encoded = (.ok frame, []) ↔
        encodeFrame frame.messageType frame.payload protocolVersion = .ok encoded := by
      rw [readFrame_eq_ok]
      simp only [List.append_nil, exists_eq_right']
    exact ⟨decodeFrame_eq_ok.trans alone.symm, alone⟩

end OurCoin
