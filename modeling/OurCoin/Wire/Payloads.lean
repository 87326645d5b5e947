import OurCoin.Wire.Acceptance
import OurCoin.Wire.Faults

/-!
# The payloads of the peer protocol are canonical

A `PayloadCodec` accepts exactly what it writes, and whatever it does not accept it refuses
with a `ProtocolError`. HELLOs, locators, summaries, rejections and pings are such codecs
(`payloads_canonical`).

The decoders check lengths after the reading and the encoders before the writing. What was
read passes the checks of the encoder because the decoder made the same ones.
-/

set_option autoImplicit false

namespace OurCoin

open Raising Reader

/-- An encoder and a decoder of payloads. Texts of a value are `normal` when they are in NFC. -/
structure PayloadCodec {α : Type} (encode : α → Except Raised Bytes)
    (decode : Bytes → Except Raised α) (normal : α → Prop) : Prop where
  accepted : ∀ {payload : Bytes} {value : α}, decode payload = .ok value →
    encode value = .ok payload
  readBack : ∀ {value : α} {payload : Bytes}, normal value → encode value = .ok payload →
    decode payload = .ok value
  refused : ∀ {payload : Bytes} {e : Raised}, decode payload = .error e → e.cls = .protocolError

/-! ## What the readers raise -/

/-- A fault of the data, before the decoder names it. -/
abbrev DataFault : Raised → Prop := RecordFault .protocolError

theorem decodeWireWork_raises (value : Bytes) :
    Raising.RaisesOnly DataFault (decodeWireWork value) := by
  rw [decodeWireWork]
  refine .bind (.raiseIf (.inr rfl)) fun _ _ => ?_
  exact .bind (.raiseIf (.inr rfl)) fun _ _ => .pure _

theorem exactBytes_raises (value : Bytes) (length : Nat) (name : String) :
    Raising.RaisesOnly (fun e => e.cls = .protocolError) (exactBytes value length name) := by
  rw [exactBytes]
  exact .bind (.raiseIf rfl) fun _ _ => .pure _

/-! ## Cumulative work -/

theorem encodeWireWork_decodeWireWork {value : Bytes} {work : Int}
    (decoded : decodeWireWork value = .ok work) : encodeWireWork work = .ok value := by
  simp only [decodeWireWork, bind_eq_ok, raiseIf_eq_ok, exists_const, pure_eq_ok, not_not] at decoded
  obtain ⟨length, positive, rfl⟩ := decoded
  have bounded := BigEndian.ofBytes_lt value
  rw [length] at bounded
  rw [encodeWireWork_eq_ok, Int.toNat_natCast, ← length, BigEndian.toBytes_ofBytes]
  refine ⟨⟨by omega, ?_⟩, rfl⟩
  rw [length, workLength]
  rw [workLength] at bounded
  omega

/-! ## Pings -/

theorem encodePing_of_decodePing {payload : Bytes} {nonce : Int}
    (accepted : decodePing payload = .ok nonce) : encodePing nonce = .ok payload := by
  rw [decodePing, rethrow_eq_ok] at accepted
  have encoded := readAll_finish_eq_ok consumes_u64 accepted
  obtain ⟨range, -⟩ := encodeUnsigned_eq_ok.mp encoded
  simp only [encodePing, bind_eq_ok, raiseIf_eq_ok, exists_const, not_not]
  exact ⟨range, encoded⟩

theorem ping_payloadCodec : PayloadCodec encodePing decodePing fun _ => True where
  accepted := encodePing_of_decodePing
  readBack := fun _ encoded => decodePing_encodePing encoded
  refused := fun {_ _} raised =>
    RecordFault.reraised (readAll_raises .encoding (readUnsigned_raises .encoding 8) _) _ raised

/-! ## Locators -/

theorem BlockLocator.consumes_reader :
    Consumes BlockLocator.reader fun consumed hashes => hashes.length ≤ maxBlockLocatorHashes ∧
      ∃ domain body, encodeBytes locatorDomain = .ok domain ∧ encodeSequence hashes = .ok body ∧
        consumed = domain ++ body := by
  rw [BlockLocator.reader]
  apply (consumes_bytes _).bind
  rintro domain value ⟨domainOk, -⟩
  apply Consumes.bind_check
  intro known
  rw [not_not] at known
  subst known
  apply (consumes_sequence _ _).mono
  rintro body hashes ⟨bodyOk, few⟩
  exact ⟨few, domain, body, domainOk, bodyOk, rfl⟩

theorem BlockLocator.toBytes_of_fromBytes {payload : Bytes} {locator : BlockLocator}
    (accepted : BlockLocator.fromBytes payload = .ok locator) : locator.toBytes = .ok payload := by
  simp only [fromBytes, bind_eq_ok, rethrow_eq_ok, raiseIf_eq_ok, exists_const, pure_eq_ok] at accepted
  obtain ⟨hashes, readOk, nonempty, checked, checkedOk, rfl⟩ := accepted
  obtain ⟨few, domain, body, domainOk, bodyOk, rfl⟩ :=
    readAll_finish_eq_ok BlockLocator.consumes_reader readOk
  have same : checked = hashes := by
    have lengths := mapM_eq_ok.mp checkedOk
    have equal : List.Forall₂ (· = ·) hashes checked := lengths.imp fun _ _ one =>
      (exactBytes_eq_ok.mp one).2
    exact (List.forall₂_eq_eq_eq ▸ equal : hashes = checked).symm
  subst same
  have positive : 0 < checked.length := List.length_pos_iff.mpr nonempty
  simp only [toBytes, bind_eq_ok, raiseIf_eq_ok, exists_const, not_not, pure_eq_ok]
  exact ⟨⟨positive, few⟩, domain, domainOk, checked, checkedOk, body, bodyOk, rfl⟩

theorem BlockLocator.reader_raises : RaisesOnly DataFault BlockLocator.reader := by
  rw [BlockLocator.reader]
  refine .bind (readBytes_raises .encoding _) fun domain => ?_
  exact .bind (.check (.inr rfl)) fun _ => readSequence_raises .encoding _ _

theorem BlockLocator.fromBytes_raises (payload : Bytes) :
    Raising.RaisesOnly (fun e => e.cls = .protocolError) (BlockLocator.fromBytes payload) := by
  rw [fromBytes]
  refine .bind (RecordFault.reraised (readAll_raises .encoding BlockLocator.reader_raises _))
    fun hashes _ => ?_
  refine .bind (.raiseIf rfl) fun _ _ => ?_
  exact .bind (.mapM fun value _ => exactBytes_raises value _ _) fun _ _ => .pure _

theorem BlockLocator.payloadCodec :
    PayloadCodec BlockLocator.toBytes BlockLocator.fromBytes fun _ => True where
  accepted := BlockLocator.toBytes_of_fromBytes
  readBack := fun _ encoded => BlockLocator.fromBytes_toBytes encoded
  refused := fun {payload e} raised => BlockLocator.fromBytes_raises payload e raised

/-! ## Summaries -/

/-- The bytes of a summary that was read, once its lengths are checked. -/
theorem ChainSummary.consumes_reader :
    Consumes ChainSummary.reader fun consumed summary =>
      summary.tipHash.length = hashLength → summary.toBytes = .ok consumed := by
  rw [ChainSummary.reader]
  apply (consumes_bytes _).bind
  rintro domain value ⟨domainOk, -⟩
  apply Consumes.bind_check
  intro known
  rw [not_not] at known
  subst known
  apply (consumes_bytes _).bind
  rintro tip tip' ⟨tipOk, -⟩
  apply consumes_u64.bind
  intro height height' heightOk
  apply (consumes_bytes _).bind
  rintro field field' ⟨fieldOk, -⟩
  apply Consumes.bind_lift
  intro work decoded
  apply Consumes.pure
  intro tipLength
  simp only [toBytes, domainOk, exactBytes_eq_ok.mpr ⟨tipLength, rfl⟩, tipOk, heightOk,
    encodeWireWork_decodeWireWork decoded, fieldOk, ok_bind, List.append_assoc, List.append_nil]
  rfl

theorem ChainSummary.toBytes_of_fromBytes {payload : Bytes} {summary : ChainSummary}
    (accepted : ChainSummary.fromBytes payload = .ok summary) : summary.toBytes = .ok payload := by
  simp only [fromBytes, bind_eq_ok, rethrow_eq_ok, exactBytes_eq_ok, pure_eq_ok] at accepted
  obtain ⟨_, readOk, _, ⟨tipLength, -⟩, rfl⟩ := accepted
  exact readAll_finish_eq_ok ChainSummary.consumes_reader readOk tipLength

theorem ChainSummary.reader_raises : RaisesOnly DataFault ChainSummary.reader := by
  rw [ChainSummary.reader]
  refine .bind (readBytes_raises .encoding _) fun domain => ?_
  refine .bind (.check (.inr rfl)) fun _ => ?_
  refine .bind (readBytes_raises .encoding _) fun tipHash => ?_
  refine .bind (readUnsigned_raises .encoding 8) fun height => ?_
  refine .bind (readBytes_raises .encoding _) fun field => ?_
  exact .bind (.lift (decodeWireWork_raises field)) fun _ => .pure _

theorem ChainSummary.fromBytes_raises (payload : Bytes) :
    Raising.RaisesOnly (fun e => e.cls = .protocolError) (ChainSummary.fromBytes payload) := by
  rw [fromBytes]
  refine .bind (RecordFault.reraised (readAll_raises .encoding ChainSummary.reader_raises _))
    fun summary _ => ?_
  exact .bind (exactBytes_raises _ _ _) fun _ _ => .pure _

theorem ChainSummary.payloadCodec :
    PayloadCodec ChainSummary.toBytes ChainSummary.fromBytes fun _ => True where
  accepted := ChainSummary.toBytes_of_fromBytes
  readBack := fun _ encoded => ChainSummary.fromBytes_toBytes encoded
  refused := fun {payload e} raised => ChainSummary.fromBytes_raises payload e raised

variable [Platform]

omit [Platform] in
/-- A text that passes the check of an encoder is within the limit of its field. -/
theorem short_of_encodeUtf8 {value : Text} {encoded : Bytes} {maxLength : Nat}
    (encodedOk : encodeUtf8 value = .ok encoded) (short : encoded.length ≤ maxLength) :
    ∀ encoded', encodeUtf8 value = .ok encoded' → encoded'.length ≤ maxLength := by
  intro encoded' encodedOk'
  rw [encodedOk] at encodedOk'
  cases encodedOk'
  exact short

/-- The text that was read has the UTF-8 encoding that its field holds. -/
theorem exists_encodeUtf8 {value : Text} {written : Bytes} {maxLength : Nat}
    (encoded : encodeText value = .ok written) (canonical : Canonical value maxLength) :
    ∃ utf8, encodeUtf8 value = .ok utf8 ∧ utf8.length ≤ maxLength := by
  rw [encodeText, canonical.normal, bind_eq_ok] at encoded
  obtain ⟨utf8, utf8Ok, -⟩ := encoded
  exact ⟨utf8, utf8Ok, canonical.short utf8 utf8Ok⟩

/-! ## Rejections -/

theorem Reject.consumes_reader :
    Consumes Reject.reader fun consumed rejection => rejection.toBytes = .ok consumed := by
  rw [Reject.reader]
  apply (consumes_bytes _).bind
  rintro domain value ⟨domainOk, -⟩
  apply Consumes.bind_check
  intro known
  rw [not_not] at known
  subst known
  apply consumes_u16.bind
  intro code code' codeOk
  apply (consumes_text _).bind
  rintro reason reason' ⟨reasonOk, canonical⟩
  apply Consumes.pure
  obtain ⟨utf8, utf8Ok, short⟩ := exists_encodeUtf8 reasonOk canonical
  have limit : raiseIf (utf8.length > 256)
      (protocolError "reject reason exceeds the wire resource limit") = .ok () :=
    raiseIf_eq_ok.mpr (by omega)
  simp only [toBytes, utf8Ok, limit, domainOk, codeOk, reasonOk, ok_bind, List.append_assoc,
    List.append_nil]
  rfl

theorem Reject.toBytes_of_fromBytes {payload : Bytes} {rejection : Reject}
    (accepted : Reject.fromBytes payload = .ok rejection) : rejection.toBytes = .ok payload := by
  rw [fromBytes, rethrow_eq_ok] at accepted
  exact readAll_finish_eq_ok Reject.consumes_reader accepted

theorem Reject.reader_raises : RaisesOnly DataFault Reject.reader := by
  rw [Reject.reader]
  refine .bind (readBytes_raises .encoding _) fun domain => ?_
  refine .bind (.check (.inr rfl)) fun _ => ?_
  refine .bind (readUnsigned_raises .encoding 2) fun code => ?_
  exact .bind (readText_raises .encoding _) fun _ => .pure _

theorem Reject.payloadCodec : PayloadCodec Reject.toBytes Reject.fromBytes
    fun rejection => Platform.normalizeNfc rejection.reason = rejection.reason where
  accepted := Reject.toBytes_of_fromBytes
  readBack := by
    intro rejection payload normal encoded
    have canonical : Canonical rejection.reason 256 := by
      have checked := encoded
      simp only [toBytes, bind_eq_ok, raiseIf_eq_ok, exists_const, not_lt] at checked
      obtain ⟨utf8, utf8Ok, short, -⟩ := checked
      exact ⟨normal, short_of_encodeUtf8 utf8Ok short⟩
    exact Reject.fromBytes_toBytes canonical encoded
  refused := fun {_ _} raised =>
    RecordFault.reraised (readAll_raises .encoding Reject.reader_raises _) _ raised

/-! ## HELLOs -/

/-- The bytes of a HELLO that was read, once its lengths are checked. -/
theorem Hello.consumes_reader :
    Consumes Hello.reader fun consumed hello =>
      hello.checkLengths = .ok () → hello.toBytes = .ok consumed := by
  rw [Hello.reader]
  apply (consumes_bytes _).bind
  rintro domain value ⟨domainOk, -⟩
  apply Consumes.bind_check
  intro known
  rw [not_not] at known
  subst known
  apply (consumes_bytes _).bind
  rintro nodeId nodeId' ⟨nodeIdOk, -⟩
  apply (consumes_text _).bind
  rintro chainId chainId' ⟨chainIdOk, canonical⟩
  apply (consumes_bytes _).bind
  rintro genesis genesis' ⟨genesisOk, -⟩
  apply (consumes_bytes _).bind
  rintro tip tip' ⟨tipOk, -⟩
  apply consumes_u64.bind
  intro height height' heightOk
  apply (consumes_bytes _).bind
  rintro field field' ⟨fieldOk, -⟩
  apply Consumes.bind_lift
  intro work decoded
  apply consumes_u16.bind
  intro port port' portOk
  apply Consumes.pure
  intro checked
  simp only [checkLengths, bind_eq_ok, exactBytes_eq_ok] at checked
  obtain ⟨_, ⟨idLength, -⟩, _, ⟨genesisLength, -⟩, _, ⟨tipLength, -⟩, -⟩ := checked
  obtain ⟨utf8, utf8Ok, short⟩ := exists_encodeUtf8 chainIdOk canonical
  have limit : raiseIf (utf8.length > maxChainIdBytes)
      (protocolError "chain ID exceeds the wire resource limit") = .ok () :=
    raiseIf_eq_ok.mpr (by omega)
  simp only [toBytes, utf8Ok, limit, domainOk, exactBytes_eq_ok.mpr ⟨idLength, rfl⟩, nodeIdOk,
    chainIdOk, exactBytes_eq_ok.mpr ⟨genesisLength, rfl⟩, genesisOk,
    exactBytes_eq_ok.mpr ⟨tipLength, rfl⟩, tipOk, heightOk, encodeWireWork_decodeWireWork decoded,
    fieldOk, portOk, ok_bind, List.append_assoc, List.append_nil]
  rfl

theorem Hello.toBytes_of_fromBytes {payload : Bytes} {hello : Hello}
    (accepted : Hello.fromBytes payload = .ok hello) : hello.toBytes = .ok payload := by
  simp only [fromBytes, bind_eq_ok, rethrow_eq_ok, pure_eq_ok] at accepted
  obtain ⟨_, readOk, _, checked, rfl⟩ := accepted
  exact readAll_finish_eq_ok Hello.consumes_reader readOk checked

theorem Hello.reader_raises : RaisesOnly DataFault Hello.reader := by
  rw [Hello.reader]
  refine .bind (readBytes_raises .encoding _) fun domain => ?_
  refine .bind (.check (.inr rfl)) fun _ => ?_
  refine .bind (readBytes_raises .encoding _) fun nodeId => ?_
  refine .bind (readText_raises .encoding _) fun chainId => ?_
  refine .bind (readBytes_raises .encoding _) fun genesisHash => ?_
  refine .bind (readBytes_raises .encoding _) fun tipHash => ?_
  refine .bind (readUnsigned_raises .encoding 8) fun height => ?_
  refine .bind (readBytes_raises .encoding _) fun field => ?_
  refine .bind (.lift (decodeWireWork_raises field)) fun work => ?_
  exact .bind (readUnsigned_raises .encoding 2) fun _ => .pure _

theorem Hello.fromBytes_raises (payload : Bytes) :
    Raising.RaisesOnly (fun e => e.cls = .protocolError) (Hello.fromBytes payload) := by
  rw [fromBytes]
  refine .bind (RecordFault.reraised (readAll_raises .encoding Hello.reader_raises _))
    fun hello _ => ?_
  refine .bind ?_ fun _ _ => .pure _
  rw [checkLengths]
  refine .bind (exactBytes_raises _ _ _) fun _ _ => ?_
  refine .bind (exactBytes_raises _ _ _) fun _ _ => ?_
  exact .bind (exactBytes_raises _ _ _) fun _ _ => .pure _

theorem Hello.payloadCodec : PayloadCodec Hello.toBytes Hello.fromBytes
    fun hello => Platform.normalizeNfc hello.chainId = hello.chainId where
  accepted := Hello.toBytes_of_fromBytes
  readBack := by
    intro hello payload normal encoded
    have canonical : Canonical hello.chainId maxChainIdBytes := by
      have checked := encoded
      simp only [toBytes, bind_eq_ok, raiseIf_eq_ok, exists_const, not_lt] at checked
      obtain ⟨utf8, utf8Ok, short, -⟩ := checked
      exact ⟨normal, short_of_encodeUtf8 utf8Ok short⟩
    exact Hello.fromBytes_toBytes canonical encoded
  refused := fun {payload e} raised => Hello.fromBytes_raises payload e raised

/-! ## All payloads -/

/-- **The payload codecs are canonical both ways, and what they do not accept is refused with
a `ProtocolError`.** -/
theorem payloads_canonical :
    PayloadCodec Hello.toBytes Hello.fromBytes
      (fun hello => Platform.normalizeNfc hello.chainId = hello.chainId) ∧
    PayloadCodec BlockLocator.toBytes BlockLocator.fromBytes (fun _ => True) ∧
    PayloadCodec ChainSummary.toBytes ChainSummary.fromBytes (fun _ => True) ∧
    PayloadCodec Reject.toBytes Reject.fromBytes
      (fun rejection => Platform.normalizeNfc rejection.reason = rejection.reason) ∧
    PayloadCodec encodePing decodePing (fun _ => True) :=
  ⟨Hello.payloadCodec, BlockLocator.payloadCodec, ChainSummary.payloadCodec, Reject.payloadCodec,
    ping_payloadCodec⟩

end OurCoin
