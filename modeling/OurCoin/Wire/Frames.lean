import OurCoin.Model.Protocol
import OurCoin.Library.BigEndian

/-!
# Frames on a stream

A frame is a prefix of 15 bytes and its payload.

* `decodeFrame_encodeFrame`: what is encoded is decoded again.
* `readFrame_encodeFrame`: at the start of a frame, `read_frame` returns this frame, or
  times out before it consumed anything, or times out between the prefix and the payload.
* `readFrame_of_short`: on fewer bytes than a prefix has, the stream ends inside a frame.
-/

set_option autoImplicit false

namespace OurCoin

open Raising

/-! ## The prefix of a frame -/

/-- The first bytes of a frame. -/
def framePrefix (frame : Frame) : Bytes :=
  networkMagic ++ BigEndian.toBytes 2 protocolVersion.toNat ++
    BigEndian.toBytes 1 frame.messageType.code ++ BigEndian.toBytes 4 frame.payload.length ++
    frameChecksum frame.payload

theorem encodeFrame_eq_ok {frame : Frame} {encoded : Bytes} :
    encodeFrame frame.messageType frame.payload protocolVersion = .ok encoded ↔
      frame.payload.length ≤ maxFramePayload ∧ encoded = framePrefix frame ++ frame.payload := by
  simp only [encodeFrame, bind_eq_ok, raiseIf_eq_ok, exists_const, pure_eq_ok, not_lt, gt_iff_lt,
    framePrefix]
  constructor
  · rintro ⟨short, -, rfl⟩
    exact ⟨short, rfl⟩
  · rintro ⟨short, rfl⟩
    exact ⟨short, by decide, rfl⟩

theorem length_frameChecksum (payload : Bytes) : (frameChecksum payload).length = 4 := by
  rw [frameChecksum, List.length_take, show (sha256Digest payload).length = 32 from
    Sha256.length_digest payload]
  rfl

@[simp] theorem length_framePrefix (frame : Frame) : (framePrefix frame).length = framePrefixSize := by
  simp only [framePrefix, List.length_append, BigEndian.length_toBytes, length_frameChecksum]
  rfl

theorem code_lt (messageType : MessageType) : messageType.code < 256 ^ 1 := by
  cases messageType
  all_goals decide

theorem ofCode_code (messageType : MessageType) :
    MessageType.ofCode messageType.code = some messageType := by
  cases messageType
  all_goals rfl

/-- A field of a record is found at its offset. -/
theorem take_drop_field {start field rest : Bytes} {offset length : Nat}
    (before : start.length = offset) (whole : field.length = length) :
    ((start ++ field ++ rest).drop offset).take length = field := by
  rw [List.append_assoc, List.drop_left' before, List.take_left' whole]

/-- `FRAME_PREFIX.unpack` is the inverse of `FRAME_PREFIX.pack`. -/
theorem unpackPrefix_framePrefix {frame : Frame} (short : frame.payload.length ≤ maxFramePayload) :
    unpackPrefix (framePrefix frame) =
      ⟨networkMagic, protocolVersion.toNat, frame.messageType.code, frame.payload.length,
        frameChecksum frame.payload⟩ := by
  have lengthFits : frame.payload.length < 256 ^ 4 := by
    rw [maxFramePayload] at short
    omega
  have magic : networkMagic.length = 4 := rfl
  simp only [unpackPrefix, framePrefix, FramePrefix.mk.injEq]
  refine ⟨?_, ?_, ?_, ?_, ?_⟩
  · rw [List.append_assoc, List.append_assoc, List.append_assoc, List.take_left' magic]
  · rw [List.append_assoc, List.append_assoc, take_drop_field magic (BigEndian.length_toBytes _ _)]
    exact BigEndian.ofBytes_toBytes (by decide)
  · rw [List.append_assoc, take_drop_field (by simp [magic]) (BigEndian.length_toBytes _ _)]
    exact BigEndian.ofBytes_toBytes (code_lt frame.messageType)
  · rw [take_drop_field (by simp [magic]) (BigEndian.length_toBytes _ _)]
    exact BigEndian.ofBytes_toBytes lengthFits
  · rw [List.drop_left' (by simp [magic])]
    exact List.take_of_length_le (length_frameChecksum _).le

theorem checkPrefix_framePrefix {frame : Frame} (short : frame.payload.length ≤ maxFramePayload) :
    checkPrefix (unpackPrefix (framePrefix frame)) = .ok () := by
  rw [unpackPrefix_framePrefix short]
  simp only [checkPrefix, bind_eq_ok, raiseIf_eq_ok, exists_const, not_not, not_lt, gt_iff_lt]
  exact ⟨trivial, rfl, short⟩

theorem openFrame_framePrefix {frame : Frame} (short : frame.payload.length ≤ maxFramePayload) :
    openFrame (unpackPrefix (framePrefix frame)) frame.payload = .ok frame := by
  rw [unpackPrefix_framePrefix short]
  simp only [openFrame, bind_eq_ok, raiseIf_eq_ok, exists_const, not_not, ofCode_code]
  exact ⟨trivial, rfl⟩

/-- **What is encoded is decoded again.** -/
theorem decodeFrame_encodeFrame {frame : Frame} {encoded : Bytes}
    (encodes : encodeFrame frame.messageType frame.payload protocolVersion = .ok encoded) :
    decodeFrame encoded = .ok frame := by
  obtain ⟨short, rfl⟩ := encodeFrame_eq_ok.mp encodes
  have whole := length_framePrefix frame
  simp only [decodeFrame, List.take_left' whole, List.drop_left' whole, bind_eq_ok, raiseIf_eq_ok,
    exists_const, not_not, not_lt]
  refine ⟨by simp, (), checkPrefix_framePrefix short, ?_, openFrame_framePrefix short⟩
  rw [unpackPrefix_framePrefix short]

/-! ## Reading from a stream -/

theorem readExactly_late {length : Nat} (some_bytes : length ≠ 0) (stream : Bytes) :
    readExactly true length stream = (.error peerFrameTimeout, stream) := by
  rw [readExactly, if_neg some_bytes, if_pos rfl]

/-- The bytes that were asked for are consumed, and the rest is left. -/
theorem readExactly_append {first : Bytes} {length : Nat} (exact : first.length = length)
    (rest : Bytes) : readExactly false length (first ++ rest) = (.ok first, rest) := by
  rw [readExactly]
  split
  · rename_i none_asked
    rw [none_asked, List.length_eq_zero_iff] at exact
    rw [exact, List.nil_append]
  · rw [if_neg (by simp), if_neg (by rw [List.length_append]; omega), List.take_left' exact,
      List.drop_left' exact]

theorem readFrame_prefixLate (payloadLate : Bool) (stream : Bytes) :
    readFrame true payloadLate stream = (.error peerFrameTimeout, stream) := by
  rw [readFrame, readExactly_late (by decide)]

/-- **At the start of a frame, `read_frame` returns this frame**, unless its payload comes
late: then it raises after it consumed the prefix. -/
theorem readFrame_encodeFrame {frame : Frame} {encoded : Bytes}
    (encodes : encodeFrame frame.messageType frame.payload protocolVersion = .ok encoded)
    (payloadLate : Bool) (rest : Bytes) :
    readFrame false payloadLate (encoded ++ rest) =
      if payloadLate = true ∧ frame.payload ≠ [] then
        (.error peerFrameTimeout, frame.payload ++ rest)
      else (.ok frame, rest) := by
  obtain ⟨short, rfl⟩ := encodeFrame_eq_ok.mp encodes
  have length : (unpackPrefix (framePrefix frame)).payloadLength = frame.payload.length := by
    rw [unpackPrefix_framePrefix short]
  rw [readFrame, List.append_assoc, readExactly_append (length_framePrefix frame)]
  dsimp only
  rw [checkPrefix_framePrefix short]
  dsimp only
  rw [length]
  by_cases late : payloadLate = true ∧ frame.payload ≠ []
  · rw [if_pos late, late.1, readExactly_late (by simpa using late.2)]
  · have consumed : readExactly payloadLate frame.payload.length (frame.payload ++ rest) =
        (.ok frame.payload, rest) := by
      cases payloadLate with
      | false => exact readExactly_append rfl rest
      | true =>
          have empty : frame.payload = [] := by simpa using late
          rw [empty]
          rfl
    rw [if_neg late, consumed]
    dsimp only
    rw [openFrame_framePrefix short]

/-- The end of the stream. -/
theorem readFrame_of_short {stream : Bytes} (short : stream.length < framePrefixSize)
    (payloadLate : Bool) :
    readFrame false payloadLate stream =
      (.error (peerDisconnectedError "peer disconnected during a frame"), []) := by
  rw [readFrame, readExactly, if_neg (by decide), if_neg (by simp), if_pos short]

end OurCoin
