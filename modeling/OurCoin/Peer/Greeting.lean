import OurCoin.Peer.Locators
import OurCoin.Peer.Registry
import OurCoin.Storage.Work

/-!
# What a handshake does

The handshake between two nodes of the same chain. A node can always send its HELLO
(`Session.greet_ok`) and its locator (`Session.requestBlocks_ok`), so the first frame of a
peer is handled in one of two ways.

* `Session.handshake_free`: no other connection is registered under the ID of the peer, and
  this one is.
* `Session.handshake_claimed`: another open connection is registered under it, and this one
  is refused.
-/

set_option autoImplicit false

namespace OurCoin

open Raising Stateful

variable [Platform]

/-! ## What a node can always send -/

theorem Hello.length_toBytes {hello : Hello} {payload : Bytes}
    (canonical : Canonical hello.chainId maxChainIdBytes) (encoded : hello.toBytes = .ok payload) :
    payload.length ≤ maxFramePayload := by
  simp only [toBytes, bind_eq_ok, raiseIf_eq_ok, exists_const, pure_eq_ok, exactBytes_eq_ok]
    at encoded
  obtain ⟨-, -, -, domain, domainOk, _, ⟨idLength, rfl⟩, nodeId, nodeIdOk, chainId, chainIdOk, _,
    ⟨genesisLength, rfl⟩, genesis, genesisOk, _, ⟨tipLength, rfl⟩, tip, tipOk, height, heightOk, work,
    workOk, field, fieldOk, port, portOk, rfl⟩ := encoded
  obtain ⟨-, rfl⟩ := encodeWireWork_eq_ok.mp workOk
  have domainLength := length_encodeBytes domainOk
  have nodeIdLength' := length_encodeBytes nodeIdOk
  have chainIdLength := length_encodeText canonical chainIdOk
  have genesisLength' := length_encodeBytes genesisOk
  have tipLength' := length_encodeBytes tipOk
  have heightLength := length_encodeUnsigned heightOk
  have fieldLength := length_encodeBytes fieldOk
  have portLength := length_encodeUnsigned portOk
  rw [BigEndian.length_toBytes] at fieldLength
  simp only [List.length_append, domainLength, nodeIdLength', genesisLength', tipLength', heightLength,
    fieldLength, portLength, idLength, genesisLength, tipLength]
  have domainSize : helloDomain.length = 20 := by decide
  rw [maxChainIdBytes] at chainIdLength
  simp only [domainSize, nodeIdLength, hashLength, workLength, maxFramePayload]
  omega

omit [Platform] in
theorem BlockLocator.length_toBytes {hashes : List Bytes} {payload : Bytes}
    (few : hashes.length ≤ maxBlockLocatorHashes)
    (lengths : ∀ hash ∈ hashes, hash.length = hashLength)
    (encoded : BlockLocator.toBytes ⟨hashes⟩ = .ok payload) : payload.length ≤ maxFramePayload := by
  simp only [toBytes, bind_eq_ok, raiseIf_eq_ok, exists_const, pure_eq_ok] at encoded
  obtain ⟨-, domain, domainOk, hashes', hashesOk, body, bodyOk, rfl⟩ := encoded
  have same : hashes' = hashes.map id :=
    eq_map_of_mapM_eq_ok hashesOk fun _ _ one => (exactBytes_eq_ok.mp one).2.symm
  rw [List.map_id] at same
  subst same
  have domainLength := length_encodeBytes domainOk
  have bodyLength := length_encodeSequence (fun hash member => (lengths hash member).le) bodyOk
  have domainSize : locatorDomain.length = 22 := by decide
  rw [List.length_append, domainLength, domainSize]
  simp only [maxBlockLocatorHashes, hashLength, maxFramePayload] at few bodyLength ⊢
  omega

/-- The HELLO of a node has an encoding, which its peer decodes. -/
theorem P2PNode.exists_hello {node : P2PNode} (inv : node.localNode.Invariant) :
    ∃ hello payload, node.hello = .ok hello ∧ hello.toBytes = .ok payload ∧
      Hello.fromBytes payload = .ok hello ∧ payload.length ≤ maxFramePayload ∧
      hello.nodeId = node.nodeId ∧ hello.chainId = testnet.chainId ∧
      hello.genesisHash = genesisHash := by
  have refines := inv.chain_reachable.refines
  have stored := node.localNode.chain.tipEntry_stored
  obtain ⟨path, branch, ends⟩ := refines.exists_branch stored
  obtain ⟨height, lower, upper⟩ := refines.work_bounds stored
  have positive : 0 < node.localNode.chain.tipEntry.record.cumulativeWork := by omega
  have tipLength : node.localNode.chain.activeTipHash.length = hashLength :=
    BlockHeader.length_blockHash ends.hash_ok
  obtain ⟨utf8, utf8Ok⟩ : ∃ utf8, encodeUtf8 testnet.chainId = .ok utf8 :=
    ⟨_, encodeUtf8_ascii (by decide)⟩
  obtain ⟨domain, domainOk⟩ : ∃ written, encodeBytes helloDomain = .ok written :=
    exists_encodeBytes (by decide)
  obtain ⟨nodeId, nodeIdOk⟩ : ∃ written, encodeBytes node.nodeId = .ok written :=
    exists_encodeBytes (by rw [node.nodeId_length]; decide)
  obtain ⟨chainId, chainIdOk⟩ : ∃ written, encodeText testnet.chainId = .ok written :=
    exists_encodeText_ascii (by decide) (by decide)
  obtain ⟨genesis, genesisOk⟩ : ∃ written, encodeBytes genesisHash = .ok written :=
    exists_encodeBytes (by decide)
  obtain ⟨tip, tipOk⟩ : ∃ written, encodeBytes node.localNode.chain.activeTipHash = .ok written :=
    exists_encodeBytes (by rw [tipLength]; decide)
  obtain ⟨heightBytes, heightOk⟩ : ∃ written, encodeU64 node.localNode.chain.height = .ok written :=
    IsU64.exists_encodeU64 height
  have workOk : encodeWireWork node.localNode.chain.cumulativeWork = .ok _ :=
    encodeWireWork_eq_ok.mpr ⟨⟨positive, upper⟩, rfl⟩
  obtain ⟨work, fieldOk⟩ : ∃ written, encodeBytes (BigEndian.toBytes workLength
      node.localNode.chain.cumulativeWork.toNat) = .ok written :=
    exists_encodeBytes (by rw [BigEndian.length_toBytes]; decide)
  obtain ⟨port, portOk⟩ : ∃ written, encodeU16 node.port = .ok written :=
    IsU16.exists_encodeU16 node.port_range
  obtain ⟨payload, payloadOk⟩ : ∃ payload, Hello.toBytes {
      nodeId := node.nodeId
      chainId := testnet.chainId
      genesisHash := genesisHash
      tipHash := node.localNode.chain.activeTipHash
      height := node.localNode.chain.height
      cumulativeWork := node.localNode.chain.cumulativeWork
      listenPort := node.port } = .ok payload := by
    simp only [Hello.toBytes, bind_eq_ok, raiseIf_eq_ok, exists_const, pure_eq_ok, exactBytes_eq_ok]
    exact ⟨_, utf8, utf8Ok, not_lt.mpr (Canonical.chainId.short _ utf8Ok), domain, domainOk, _,
      ⟨node.nodeId_length, rfl⟩, nodeId, nodeIdOk, chainId, chainIdOk, _, ⟨by decide, rfl⟩, genesis,
      genesisOk, _, ⟨tipLength, rfl⟩, tip, tipOk, heightBytes, heightOk, _, workOk, work, fieldOk, port,
      portOk, rfl⟩
  exact ⟨_, payload, Session.hello_ok inv, payloadOk, Hello.fromBytes_toBytes .chainId payloadOk,
    Hello.length_toBytes .chainId payloadOk, rfl, rfl, rfl⟩

omit [Platform] in
theorem ChainSummary.length_toBytes {summary : ChainSummary} {payload : Bytes}
    (encoded : summary.toBytes = .ok payload) : payload.length ≤ maxFramePayload := by
  simp only [toBytes, bind_eq_ok, pure_eq_ok, exactBytes_eq_ok] at encoded
  obtain ⟨domain, domainOk, _, ⟨tipLength, rfl⟩, tip, tipOk, height, heightOk, work, workOk, field,
    fieldOk, rfl⟩ := encoded
  obtain ⟨-, rfl⟩ := encodeWireWork_eq_ok.mp workOk
  have domainLength := length_encodeBytes domainOk
  have tipLength' := length_encodeBytes tipOk
  have heightLength := length_encodeUnsigned heightOk
  have fieldLength := length_encodeBytes fieldOk
  rw [BigEndian.length_toBytes] at fieldLength
  have domainSize : summaryDomain.length = 22 := by decide
  simp only [List.length_append, domainLength, tipLength', heightLength, fieldLength, tipLength,
    domainSize, hashLength, workLength, maxFramePayload]
  omega

/-- The summary of a node has an encoding. -/
theorem LocalNode.Invariant.exists_summary {localNode : LocalNode} (inv : localNode.Invariant) :
    ∃ payload, (ChainSummary.ofChain localNode.chain).toBytes = .ok payload := by
  have refines := inv.chain_reachable.refines
  have stored := localNode.chain.tipEntry_stored
  obtain ⟨path, branch, ends⟩ := refines.exists_branch stored
  obtain ⟨height, lower, upper⟩ := refines.work_bounds stored
  have positive : 0 < localNode.chain.tipEntry.record.cumulativeWork := by omega
  have tipLength : localNode.chain.activeTipHash.length = hashLength :=
    BlockHeader.length_blockHash ends.hash_ok
  obtain ⟨domain, domainOk⟩ : ∃ written, encodeBytes summaryDomain = .ok written :=
    exists_encodeBytes (by decide)
  obtain ⟨tip, tipOk⟩ : ∃ written, encodeBytes localNode.chain.activeTipHash = .ok written :=
    exists_encodeBytes (by rw [tipLength]; decide)
  obtain ⟨heightBytes, heightOk⟩ : ∃ written, encodeU64 localNode.chain.height = .ok written :=
    IsU64.exists_encodeU64 height
  have workOk : encodeWireWork localNode.chain.cumulativeWork = .ok _ :=
    encodeWireWork_eq_ok.mpr ⟨⟨positive, upper⟩, rfl⟩
  obtain ⟨work, fieldOk⟩ : ∃ written, encodeBytes (BigEndian.toBytes workLength
      localNode.chain.cumulativeWork.toNat) = .ok written :=
    exists_encodeBytes (by rw [BigEndian.length_toBytes]; decide)
  simp only [ChainSummary.toBytes, ChainSummary.ofChain, bind_eq_ok, pure_eq_ok, exactBytes_eq_ok]
  exact ⟨_, domain, domainOk, _, ⟨tipLength, rfl⟩, tip, tipOk, heightBytes, heightOk, _, workOk, work,
    fieldOk, rfl⟩

namespace Session

variable {session : Session}

theorem greet_ok (inv : session.node.localNode.Invariant) (isOpen : session.connection.closed = false) :
    ∃ hello payload, session.node.hello = .ok hello ∧ hello.toBytes = .ok payload ∧
      greet session = (.ok (), session.wrote ⟨.hello, payload⟩) := by
  obtain ⟨hello, payload, made, encoded, -, short, -⟩ := P2PNode.exists_hello inv
  refine ⟨hello, payload, made, encoded, ?_⟩
  rw [greet, bind_of_ok (read_apply _ _), bind_apply, lift_apply, made, ok_bind, encoded]
  exact send_of_open isOpen short

/-- A request is written unless one is outstanding. -/
theorem requestBlocks_ok (inv : session.node.localNode.Invariant)
    (isOpen : session.connection.closed = false)
    (idle : session.connection.blockRequestOutstanding = false) :
    ∃ payload, requestBlocks session = (.ok true, session.requested payload) := by
  have refines := inv.chain_reachable.refines
  obtain ⟨path, branch, ends⟩ := refines.exists_branch session.node.localNode.chain.tipEntry_stored
  obtain ⟨hashes, positions, located, ⟨descends, few, -⟩, rooted⟩ := refines.blockLocator_ok ends
  have lengths : ∀ hash ∈ hashes, hash.length = hashLength := fun hash member =>
    refines.length_of_mem ends.lineage (descends.mem_of_mem member)
  obtain ⟨payload, encoded⟩ := BlockLocator.exists_toBytes (List.ne_nil_of_mem rooted) few lengths
  have short := BlockLocator.length_toBytes few lengths encoded
  refine ⟨payload, ?_⟩
  have sent := @send_of_open ⟨session.node, session.connection.beginBlockRequest
    session.node.localNode.chain.cumulativeWork⟩ isOpen .getBlocks payload short
  rw [requestBlocks, bind_of_ok (read_apply _ _), if_neg (by simp [idle]),
    bind_of_ok (update_apply _ _), bind_apply, onError, bind_of_ok (read_apply _ _), bind_apply,
    lift_apply, located, ok_bind, encoded]
  dsimp only
  rw [sent]
  rfl

/-- A request is written, or one is outstanding already. -/
theorem requestBlocks_succeeds (inv : session.node.localNode.Invariant)
    (isOpen : session.connection.closed = false) :
    ∃ sent after, requestBlocks session = (.ok sent, after) ∧
      (after = session ∨ ∃ locator, after = session.requested locator) := by
  cases outstanding : session.connection.blockRequestOutstanding with
  | true =>
      refine ⟨false, session, ?_, .inl rfl⟩
      rw [requestBlocks, bind_of_ok (read_apply _ _), if_pos outstanding]
      rfl
  | false =>
      obtain ⟨locator, sent⟩ := requestBlocks_ok inv isOpen outstanding
      exact ⟨true, _, sent, .inr ⟨locator, rfl⟩⟩

/-! ## The handshake -/

/-- A HELLO of another node of the same chain. -/
structure Meets (session : Session) (hello : Hello) : Prop where
  chain_eq : hello.chainId = testnet.chainId
  genesis_eq : hello.genesisHash = genesisHash
  notSelf : hello.nodeId ≠ session.node.nodeId

/-- Between nodes of one chain, only the registry decides. -/
theorem completeHandshake_eq {hello : Hello} (inv : session.node.localNode.Invariant)
    (meets : session.Meets hello) :
    completeHandshake hello session =
      if ((session.node.byNodeId.get? hello.nodeId).any fun existing =>
          existing ≠ session.connection.key ∧
            (session.node.peers.get? existing).any fun other => other.closed = false) = true then
        (.error (protocolError "duplicate peer node ID"), session)
      else (.ok (), { session with node := { session.node with
        byNodeId := session.node.byNodeId.set hello.nodeId session.connection.key } }) := by
  obtain ⟨own, made, ownChain, ownGenesis⟩ := hello_eq inv
  have checked : (do
      raiseIf (hello.chainId ≠ own.chainId) (protocolError "peer belongs to another chain_id")
      raiseIf (hello.genesisHash ≠ own.genesisHash)
        (protocolError "peer uses another genesis block")
      raiseIf (hello.nodeId = session.node.nodeId)
        (protocolError "self-connections are not allowed") : Except Raised Unit) = .ok () := by
    simp only [bind_eq_ok, raiseIf_eq_ok, exists_const, not_not]
    exact ⟨meets.chain_eq.trans ownChain.symm, meets.genesis_eq.trans ownGenesis.symm, meets.notSelf⟩
  rw [completeHandshake, bind_of_ok (read_apply _ _), bind_apply, lift_apply, made]
  dsimp only
  rw [bind_apply, lift_apply, checked]
  dsimp only
  rw [bind_of_ok (read_apply _ _)]
  split
  · rfl
  · rfl

/-- **A handshake under a free ID** registers the connection, and may be followed by a
request. -/
theorem handshake_free {hello : Hello} {payload : Bytes} (inv : session.node.localNode.Invariant)
    (isOpen : session.connection.closed = false) (decoded : Hello.fromBytes payload = .ok hello)
    (meets : session.Meets hello) (free : session.Unclaimed hello.nodeId) :
    ∃ after, handshake ⟨.hello, payload⟩ session = (.ok none, after) ∧
      (after = session.greeted hello ∨ ∃ locator, after = (session.greeted hello).requested locator) := by
  have registered := completeHandshake_eq inv meets
  rw [if_neg] at registered
  · have noted : (update fun session => { session with connection := { session.connection with
        hello := some hello
        score := (session.node.scores.get? hello.nodeId).getD 0 } } : Action Unit)
        { session with node := { session.node with
          byNodeId := session.node.byNodeId.set hello.nodeId session.connection.key } } =
        (.ok (), session.greeted hello) := rfl
    rw [handshake, if_neg (by simp), bind_apply, lift_apply, decoded]
    dsimp only
    rw [bind_of_ok registered, bind_of_ok noted, bind_of_ok (read_apply _ _)]
    split
    · obtain ⟨sent, after, requested, written⟩ :=
        @requestBlocks_succeeds _ (session.greeted hello) inv isOpen
      rw [bind_of_ok requested]
      exact ⟨after, rfl, written⟩
    · exact ⟨_, rfl, .inl rfl⟩
  · intro claimed
    simp only [Option.any_eq_true, decide_eq_true_eq] at claimed
    obtain ⟨key, stored, different, other, known, otherOpen⟩ := claimed
    rw [free key other stored different known] at otherOpen
    cases otherOpen

/-- **A handshake under the ID of another open connection** is refused. -/
theorem handshake_claimed {hello : Hello} {payload : Bytes} {key : Nat} {other : PeerConnection}
    (inv : session.node.localNode.Invariant) (decoded : Hello.fromBytes payload = .ok hello)
    (meets : session.Meets hello) (registered : session.node.byNodeId.get? hello.nodeId = some key)
    (different : key ≠ session.connection.key) (stored : session.node.peers.get? key = some other)
    (otherOpen : other.closed = false) :
    handshake ⟨.hello, payload⟩ session =
      (.error (protocolError "duplicate peer node ID"), session) := by
  have raised := completeHandshake_eq inv meets
  rw [if_pos] at raised
  · rw [handshake, if_neg (by simp), bind_apply, lift_apply, decoded]
    exact bind_of_error raised
  · simp [registered, stored, different, otherOpen]

end Session

end OurCoin
