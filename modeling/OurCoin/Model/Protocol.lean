import OurCoin.Model.Block

/-!
# Wire messages

`p2p_protocol.py`: frames, the canonical payloads of the peer protocol and the block
envelope. A stream is read in two timed steps, so what `read_frame` consumes depends on
which of them comes late.
-/

set_option autoImplicit false

namespace OurCoin

open Raising

def networkMagic : Bytes := (text "OURP").map UInt8.ofNat
def protocolVersion : Int := 1
/-- `FRAME_PREFIX.size`. -/
def framePrefixSize : Nat := 15
def maxFramePayload : Nat := 8 * 1024 * 1024
def maxBlockTransactionsWire : Nat := 10000
def maxTransactionBytes : Nat := 4096
def maxBlockLocatorHashes : Nat := 64
def nodeIdLength : Nat := 16
def workLength : Nat := 40

def helloDomain : Bytes := (text "OURCOIN:P2P:HELLO:V1").map UInt8.ofNat
def locatorDomain : Bytes := (text "OURCOIN:P2P:LOCATOR:V1").map UInt8.ofNat
def summaryDomain : Bytes := (text "OURCOIN:P2P:SUMMARY:V1").map UInt8.ofNat
def blockBodyDomain : Bytes := (text "OURCOIN:P2P:BLOCK:V1").map UInt8.ofNat
def rejectDomain : Bytes := (text "OURCOIN:P2P:REJECT:V1").map UInt8.ofNat

/-- `ProtocolError(message)`. -/
def protocolError (message : String) : Raised := ⟨.protocolError, message⟩

/-- `PeerDisconnectedError(message)`. -/
def peerDisconnectedError (message : String) : Raised := ⟨.peerDisconnectedError, message⟩

/-- `PeerFrameTimeoutError("peer frame timed out")`. -/
def peerFrameTimeout : Raised := ⟨.peerFrameTimeoutError, "peer frame timed out"⟩

/-- The message types of the protocol. -/
inductive MessageType where
  | hello
  | getBlocks
  | block
  | transaction
  | syncComplete
  | ping
  | pong
  | reject
  deriving DecidableEq

namespace MessageType

/-- `int(message_type)`. -/
def code : MessageType → Nat
  | hello => 1
  | getBlocks => 2
  | block => 3
  | transaction => 4
  | syncComplete => 5
  | ping => 6
  | pong => 7
  | reject => 8

/-- `MessageType(raw_type)`. -/
def ofCode : Nat → Option MessageType
  | 1 => some hello
  | 2 => some getBlocks
  | 3 => some block
  | 4 => some transaction
  | 5 => some syncComplete
  | 6 => some ping
  | 7 => some pong
  | 8 => some reject
  | _ => none

end MessageType

/-- A frame that was read. -/
structure Frame where
  messageType : MessageType
  payload : Bytes
  deriving DecidableEq

/-- `_encode_work(work)` of this module. -/
def encodeWireWork (work : Int) : Except Raised Bytes := do
  raiseIf (¬ (0 < work ∧ work < 2 ^ (workLength * 8)))
    (protocolError "cumulative work is outside the wire range")
  return BigEndian.toBytes workLength work.toNat

/-- `_decode_work(value)` of this module. -/
def decodeWireWork (value : Bytes) : Except Raised Int := do
  raiseIf (value.length ≠ workLength) (protocolError "cumulative work must be exactly 40 bytes")
  let work : Int := BigEndian.ofBytes value
  raiseIf (work ≤ 0) (protocolError "cumulative work must be positive")
  return work

/-- Refuse a value of another length. -/
def exactBytes (value : Bytes) (length : Nat) (name : String) : Except Raised Bytes := do
  raiseIf (value.length ≠ length) (protocolError s!"{name} must be exactly {length} bytes")
  return value

/-! ## Frames -/

/-- `sha256_digest(payload)[:4]`. -/
def frameChecksum (payload : Bytes) : Bytes := (sha256Digest payload).take 4

/-- Prefix a payload with magic, version, type, length and checksum. -/
def encodeFrame (messageType : MessageType) (payload : Bytes) (version : Int) :
    Except Raised Bytes := do
  raiseIf (payload.length > maxFramePayload)
    (protocolError "frame payload exceeds the resource limit")
  raiseIf (¬ (0 ≤ version ∧ version ≤ 0xFFFF))
    (protocolError "protocol version must be an unsigned 16-bit integer")
  return networkMagic ++ BigEndian.toBytes 2 version.toNat ++
    BigEndian.toBytes 1 messageType.code ++ BigEndian.toBytes 4 payload.length ++
    frameChecksum payload ++ payload

/-- What `FRAME_PREFIX.unpack` returns. -/
structure FramePrefix where
  magic : Bytes
  version : Nat
  rawType : Nat
  payloadLength : Nat
  checksum : Bytes
  deriving DecidableEq

/-- `FRAME_PREFIX.unpack(encoded[:FRAME_PREFIX.size])`. -/
def unpackPrefix (encoded : Bytes) : FramePrefix where
  magic := encoded.take 4
  version := BigEndian.ofBytes ((encoded.drop 4).take 2)
  rawType := BigEndian.ofBytes ((encoded.drop 6).take 1)
  payloadLength := BigEndian.ofBytes ((encoded.drop 7).take 4)
  checksum := (encoded.drop 11).take 4

/-- The checks on a frame that need its first bytes only. -/
def checkPrefix (unpacked : FramePrefix) : Except Raised Unit := do
  raiseIf (unpacked.magic ≠ networkMagic) (protocolError "frame uses another network magic")
  raiseIf ((unpacked.version : Int) ≠ protocolVersion)
    ⟨.unsupportedProtocolVersionError,
      s!"unsupported P2P protocol version {unpacked.version}"⟩
  raiseIf (unpacked.payloadLength > maxFramePayload)
    (protocolError "frame payload exceeds the resource limit")

/-- The checks on a frame that need its payload. -/
def openFrame (unpacked : FramePrefix) (payload : Bytes) : Except Raised Frame := do
  raiseIf (frameChecksum payload ≠ unpacked.checksum) (protocolError "frame checksum is invalid")
  match MessageType.ofCode unpacked.rawType with
  | some messageType => return ⟨messageType, payload⟩
  | none => throw (protocolError "frame contains an unknown message type")

/-- Read one whole frame from its bytes. -/
def decodeFrame (encoded : Bytes) : Except Raised Frame := do
  raiseIf (encoded.length < framePrefixSize) (protocolError "frame is truncated")
  let unpacked := unpackPrefix (encoded.take framePrefixSize)
  checkPrefix unpacked
  let payload := encoded.drop framePrefixSize
  raiseIf (payload.length ≠ unpacked.payloadLength)
    (protocolError "frame payload length does not match its prefix")
  openFrame unpacked payload

/-- `await asyncio.wait_for(reader.readexactly(length), timeout)` on the bytes that are
still to be read, all of them up to the end of the stream. Bytes that come late are not
consumed. Nothing is waited for when `length` is 0. -/
def readExactly (late : Bool) (length : Nat) (stream : Bytes) : Outcome Raised Bytes Bytes :=
  if length = 0 then (.ok [], stream)
  else if late = true then (.error peerFrameTimeout, stream)
  else if stream.length < length then
    (.error (peerDisconnectedError "peer disconnected during a frame"), [])
  else (.ok (stream.take length), stream.drop length)

/-- `read_frame(reader, timeout=timeout)`, with the steps that come late. -/
def readFrame (prefixLate payloadLate : Bool) (stream : Bytes) : Outcome Raised Bytes Frame :=
  match readExactly prefixLate framePrefixSize stream with
  | (.error e, stream) => (.error e, stream)
  | (.ok start, stream) =>
    let unpacked := unpackPrefix start
    match checkPrefix unpacked with
    | .error e => (.error e, stream)
    | .ok () =>
      match readExactly payloadLate unpacked.payloadLength stream with
      | (.error e, stream) => (.error e, stream)
      | (.ok payload, stream) => (openFrame unpacked payload, stream)

/-! ## Payloads -/

/-- The first message of each side. -/
structure Hello where
  nodeId : Bytes
  chainId : Text
  genesisHash : Bytes
  tipHash : Bytes
  height : Int
  cumulativeWork : Int
  listenPort : Int
  deriving DecidableEq

namespace Hello

/-- The payload of a HELLO. -/
def toBytes [Platform] (hello : Hello) : Except Raised Bytes := do
  raiseIf ((← encodeUtf8 hello.chainId).length > maxChainIdBytes)
    (protocolError "chain ID exceeds the wire resource limit")
  return (← encodeBytes helloDomain) ++
    (← encodeBytes (← exactBytes hello.nodeId nodeIdLength "node ID")) ++
    (← encodeText hello.chainId) ++
    (← encodeBytes (← exactBytes hello.genesisHash hashLength "genesis hash")) ++
    (← encodeBytes (← exactBytes hello.tipHash hashLength "tip hash")) ++
    (← encodeU64 hello.height) ++
    (← encodeBytes (← encodeWireWork hello.cumulativeWork)) ++
    (← encodeU16 hello.listenPort)

/-- The fields of `from_bytes`, in their order. -/
def reader [Platform] : Reader Raised Hello := do
  let domain ← readBytes helloDomain.length
  Reader.check (domain ≠ helloDomain) (protocolError "unknown hello domain")
  return {
    nodeId := ← readBytes nodeIdLength
    chainId := ← readText maxChainIdBytes
    genesisHash := ← readBytes hashLength
    tipHash := ← readBytes hashLength
    height := ← readU64
    cumulativeWork := ← decodeWireWork (← readBytes workLength)
    listenPort := ← readU16 }

/-- The length checks that follow the reading of a payload. -/
def checkLengths (hello : Hello) : Except Raised Unit := do
  let _ ← exactBytes hello.nodeId nodeIdLength "node ID"
  let _ ← exactBytes hello.genesisHash hashLength "genesis hash"
  let _ ← exactBytes hello.tipHash hashLength "tip hash"

/-- Read a HELLO; what cannot be read is a `ProtocolError`. -/
def fromBytes [Platform] (encoded : Bytes) : Except Raised Hello := do
  let hello ← rethrow (reraiseAs (· == .encodingError) .protocolError
    "invalid canonical hello payload")
    (Reader.readAll (do let hello ← reader; ensureFinished; return hello) encoded)
  hello.checkLengths
  return hello

end Hello

/-- Hashes of the chain of the asking node, from its tip down. -/
structure BlockLocator where
  hashes : List Bytes
  deriving DecidableEq

/-- `read_sequence(max_items=maxItems, max_item_length=maxItemLength)`. -/
def readSequence (maxItems maxItemLength : Nat) : Reader Raised (List Bytes) := do
  let itemCount ← readU32
  Reader.check (itemCount > maxItems)
    (encodingError "sequence exceeds its allowed item count")
  (List.replicate itemCount.toNat ()).mapM fun _ => readBytes maxItemLength

namespace BlockLocator

/-- The payload of a GET_BLOCKS. -/
def toBytes (locator : BlockLocator) : Except Raised Bytes := do
  raiseIf (¬ (0 < locator.hashes.length ∧ locator.hashes.length ≤ maxBlockLocatorHashes))
    (protocolError "block locator has an invalid item count")
  return (← encodeBytes locatorDomain) ++
    (← encodeSequence (← locator.hashes.mapM fun value =>
      exactBytes value hashLength "locator hash"))

/-- The fields of `from_bytes`, in their order. -/
def reader : Reader Raised (List Bytes) := do
  let domain ← readBytes locatorDomain.length
  Reader.check (domain ≠ locatorDomain) (protocolError "unknown block locator domain")
  readSequence maxBlockLocatorHashes hashLength

/-- Read a locator of at least one and at most 64 hashes. -/
def fromBytes (encoded : Bytes) : Except Raised BlockLocator := do
  let hashes ← rethrow (reraiseAs (· == .encodingError) .protocolError
    "invalid canonical block locator")
    (Reader.readAll (do let hashes ← reader; ensureFinished; return hashes) encoded)
  raiseIf (hashes = []) (protocolError "block locator must not be empty")
  let _ ← hashes.mapM fun value => exactBytes value hashLength "locator hash"
  return ⟨hashes⟩

end BlockLocator

/-- The tip, the height and the work of a chain. -/
structure ChainSummary where
  tipHash : Bytes
  height : Int
  cumulativeWork : Int
  deriving DecidableEq

namespace ChainSummary

/-- The payload of a SYNC_COMPLETE. -/
def toBytes (summary : ChainSummary) : Except Raised Bytes := do
  return (← encodeBytes summaryDomain) ++
    (← encodeBytes (← exactBytes summary.tipHash hashLength "tip hash")) ++
    (← encodeU64 summary.height) ++
    (← encodeBytes (← encodeWireWork summary.cumulativeWork))

/-- The fields of `from_bytes`, in their order. -/
def reader : Reader Raised ChainSummary := do
  let domain ← readBytes summaryDomain.length
  Reader.check (domain ≠ summaryDomain) (protocolError "unknown chain summary domain")
  return {
    tipHash := ← readBytes hashLength
    height := ← readU64
    cumulativeWork := ← decodeWireWork (← readBytes workLength) }

/-- Read a summary; what cannot be read is a `ProtocolError`. -/
def fromBytes (encoded : Bytes) : Except Raised ChainSummary := do
  let summary ← rethrow (reraiseAs (· == .encodingError) .protocolError
    "invalid canonical chain summary")
    (Reader.readAll (do let summary ← reader; ensureFinished; return summary) encoded)
  let _ ← exactBytes summary.tipHash hashLength "tip hash"
  return summary

end ChainSummary

/-! ## The block envelope -/

/-- The payload of a BLOCK. -/
def encodeBlock [Platform] (block : Block) : Except Raised Bytes := do
  return (← encodeBytes blockBodyDomain) ++
    (← encodeBytes (← block.header.toBytes)) ++
    (← encodeBytes (← block.rewardTransaction.toBytes)) ++
    (← encodeSequence (← block.transactions.mapM Transaction.toBytes))

/-- The reader of the components of an envelope. The transactions are decoded after the
end of the data was checked. -/
def blockReader [Platform] : Reader Raised (BlockHeader × RewardTransaction × List Bytes) := do
  let domain ← readBytes blockBodyDomain.length
  Reader.check (domain ≠ blockBodyDomain) (protocolError "unknown network block domain")
  let header ← BlockHeader.fromBytes (← readBytes 4096)
  let reward ← RewardTransaction.fromBytes (← readBytes 2048)
  let transactionValues ← readSequence maxBlockTransactionsWire maxTransactionBytes
  return (header, reward, transactionValues)

/-- Read a block, with the transactions that its count promises. -/
def decodeBlock [Platform] (encoded : Bytes) : Except Raised Block :=
  rethrow (reraiseAs
    (fun cls => cls == .blockEncodingError || cls == .encodingError || cls == .transactionError)
    .protocolError "invalid canonical network block") (do
      let (header, reward, transactionValues) ←
        Reader.readAll (do let read ← blockReader; ensureFinished; return read) encoded
      let transactions ← transactionValues.mapM Transaction.fromBytes
      return ⟨header, reward, transactions⟩)

/-! ## Small payloads -/

/-- The payload of a PING or a PONG. -/
def encodePing (nonce : Int) : Except Raised Bytes := do
  raiseIf (¬ (0 ≤ nonce ∧ nonce ≤ u64Max))
    (protocolError "ping nonce must be an unsigned 64-bit integer")
  encodeU64 nonce

/-- Read the nonce of a PING or a PONG. -/
def decodePing (encoded : Bytes) : Except Raised Int :=
  rethrow (reraiseAs (· == .encodingError) .protocolError "invalid ping payload")
    (Reader.readAll (do let nonce ← readU64; ensureFinished; return nonce) encoded)

/-- Why a connection is refused. -/
structure Reject where
  code : Int
  reason : Text
  deriving DecidableEq

namespace Reject

/-- The payload of a REJECT. -/
def toBytes [Platform] (rejection : Reject) : Except Raised Bytes := do
  raiseIf ((← encodeUtf8 rejection.reason).length > 256)
    (protocolError "reject reason exceeds the wire resource limit")
  return (← encodeBytes rejectDomain) ++ (← encodeU16 rejection.code) ++
    (← encodeText rejection.reason)

/-- The fields of `from_bytes`, in their order. -/
def reader [Platform] : Reader Raised Reject := do
  let domain ← readBytes rejectDomain.length
  Reader.check (domain ≠ rejectDomain) (protocolError "unknown reject domain")
  return { code := ← readU16, reason := ← readText 256 }

/-- Read a REJECT; what cannot be read is a `ProtocolError`. -/
def fromBytes [Platform] (encoded : Bytes) : Except Raised Reject :=
  rethrow (reraiseAs (· == .encodingError) .protocolError "invalid reject payload")
    (Reader.readAll (do let rejection ← reader; ensureFinished; return rejection) encoded)

end Reject

end OurCoin
