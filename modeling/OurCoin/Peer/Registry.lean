import OurCoin.Library.Registry
import OurCoin.Model.Service
import OurCoin.Peer.Steps

/-!
# The registry of a node

A node is a registry of connections: what it keeps in `_connections` and `_by_node_id`, and
what a connection knows of its peer, changes only by admissions, handshakes and closings.

* `Session.View` is the registry as one session sees it. Most stretches of a task do not change
  it (`Session.OnlySends`), and `Session.step_leads` says that every step is a run of changes of
  the registry.
* `P2PNode.Turn.runs` says so of every turn of the node, and `P2PNode.Reachable.sound` concludes
  that the registry is sound in every reachable node.
* `P2PNode.Reachable.registry_invariant` states this about the connections themselves.
-/

set_option autoImplicit false

namespace OurCoin

open Raising Stateful

/-! ## Views -/

/-- What a registry keeps of a connection. -/
def PeerConnection.Identity.entry (identity : PeerConnection.Identity) :
    Registry.Entry Text (Bytes × Text × Bytes) where
  host := identity.host
  closed := identity.closed
  peer := identity.peer

/-- What a connection has to know of its peer. -/
def FitsPeer (nodeId : Bytes) (peer : Bytes × Text × Bytes) : Prop :=
  peer.1 ≠ nodeId ∧ peer.2.1 = testnet.chainId ∧ peer.2.2 = genesisHash

/-- The registry of a node. -/
def P2PNode.registry (node : P2PNode) : Registry Nat Text (Bytes × Text × Bytes) Bytes where
  capacity := node.limits.maxPeers
  hostCapacity := node.limits.maxPeersPerIp
  connections := node.connections
  byId := node.byNodeId.get?
  entry key := (node.peers.get? key).map fun connection => connection.identity.entry

theorem P2PNode.registry_entry (node : P2PNode) (key : Nat) : node.registry.entry key =
    (node.peers.get? key).map fun connection => connection.identity.entry := rfl

/-- A change of the registry of a node. -/
abbrev RegistryMoves (nodeId : Bytes) :
    Registry Nat Text (Bytes × Text × Bytes) Bytes →
      Registry Nat Text (Bytes × Text × Bytes) Bytes → Prop :=
  Registry.Moves Prod.fst (FitsPeer nodeId)

/-- The registry as a session sees it: its own connection and the other ones. -/
structure Session.View where
  nodeId : Bytes
  limits : PeerLimits
  connections : List Nat
  byNodeId : Dict Bytes Nat
  own : PeerConnection.Identity
  others : Nat → Option PeerConnection.Identity

namespace Session

variable {session after : Session}

/-- What the registry of the node is read from. -/
def view (session : Session) : View where
  nodeId := session.node.nodeId
  limits := session.node.limits
  connections := session.node.connections
  byNodeId := session.node.byNodeId
  own := session.connection.identity
  others key := (session.node.peers.get? key).map PeerConnection.identity

/-- The registry of the node once the connection is put back. -/
def View.registry (view : View) : Registry Nat Text (Bytes × Text × Bytes) Bytes where
  capacity := view.limits.maxPeers
  hostCapacity := view.limits.maxPeersPerIp
  connections := view.connections
  byId := view.byNodeId.get?
  entry := Function.update (fun key => (view.others key).map PeerConnection.Identity.entry)
    view.own.key (some view.own.entry)

theorem registry_store (session : Session) : session.store.registry = session.view.registry := by
  have entries : session.store.registry.entry = session.view.registry.entry := by
    funext key
    rw [P2PNode.registry, store, View.registry]
    dsimp only
    rw [Dict.get?_set]
    by_cases own : session.connection.key = key
    · subst own
      simp [view, PeerConnection.identity]
    · have other : key ≠ session.view.own.key := fun same => own same.symm
      rw [if_neg own, Function.update_of_ne other]
      simp [view, Option.map_map, Function.comp_def]
  exact congrArg (fun entry => ({ session.view.registry with entry } :
    Registry Nat Text (Bytes × Text × Bytes) Bytes)) entries

/-! ## Stretches that leave the registry alone -/

/-- The registry did not change. -/
def Leaves (before after : Session) : Prop := after.view = before.view

/-- A stretch that leaves the registry alone. -/
def OnlySends {α : Type} (action : Action α) : Prop := Keeps Leaves action

theorem Leaves.refl (session : Session) : Leaves session session := rfl

theorem Leaves.trans (first second third : Session) (one : Leaves first second)
    (two : Leaves second third) : Leaves first third := Eq.trans two one

namespace OnlySends

variable {α β : Type}

theorem bind {action : Action α} {next : α → Action β} (first : OnlySends action)
    (rest : ∀ a, OnlySends (next a)) : OnlySends (action >>= next) :=
  Keeps.bind Leaves.trans first rest

theorem pure (a : α) : OnlySends (Pure.pure a : Action α) := Keeps.pure Leaves.refl a

theorem throw (e : Raised) : OnlySends (throw e : Action α) := Keeps.throw Leaves.refl e

theorem lift (x : Except Raised α) : OnlySends (Stateful.lift x : Action α) :=
  Keeps.lift Leaves.refl x

theorem read (f : Session → α) : OnlySends (Stateful.read f : Action α) :=
  Keeps.read Leaves.refl f

theorem update {f : Session → Session} (kept : ∀ session, (f session).view = session.view) :
    OnlySends (Stateful.update f) :=
  kept

theorem trying {action : Action α} {caught : Raised → Bool} {handler : Raised → Action β}
    {next : α → Action β} (body : OnlySends action) (handled : ∀ e, OnlySends (handler e))
    (rest : ∀ a, OnlySends (next a)) : OnlySends (action.trying caught handler next) :=
  Keeps.trying Leaves.trans body handled rest

end OnlySends

theorem onlySends_send (messageType : MessageType) (payload : Bytes) :
    OnlySends (send messageType payload) := by
  intro session
  rcases send_cases messageType payload session with ⟨e, raised⟩ | ⟨-, written⟩
  · rw [raised]
    rfl
  · rw [written]
    rfl

theorem onlySends_penalize (points : Int) (now : Time) : OnlySends (penalize points now) := by
  apply OnlySends.bind
  · exact .update fun _ => rfl
  · intro _
    apply OnlySends.bind (.read _)
    rintro ⟨score, hostScore, threshold⟩
    dsimp only
    split
    · exact .throw _
    · exact .pure _

theorem onlySends_limitRate (size : Nat) (now : Time) : OnlySends (limitRate size now) := by
  apply OnlySends.bind (.read _)
  rintro ⟨allowed, rateLimiter⟩
  apply OnlySends.bind
  · exact .update fun _ => rfl
  · intro _
    split
    · exact .pure _
    · apply OnlySends.bind (.read _)
      intro threshold
      exact onlySends_penalize threshold now

theorem onlySends_finishBlockRequest : OnlySends finishBlockRequest := by
  apply OnlySends.bind (.read _)
  intro progress
  apply OnlySends.bind
  · apply OnlySends.update
    intro session
    rw [PeerConnection.finishBlockRequest]
    split <;> rfl
  · intro _
    exact .pure _

/-- A summary changes nothing that a peer is known by. -/
theorem onlySends_updateAdvertisedSummary (summary : ChainSummary) :
    OnlySends (updateAdvertisedSummary summary) := by
  intro session
  rw [updateAdvertisedSummary, bind_of_ok (read_apply _ _)]
  cases greeted : session.connection.hello with
  | none => rfl
  | some hello =>
      dsimp only
      split
      · rfl
      · rw [onConnection_apply]
        simp [Leaves, view, PeerConnection.identity, greeted]

theorem identity_offer (connection : PeerConnection) (frame : Frame) :
    (connection.offer frame).identity = connection.identity := by
  rw [PeerConnection.offer]
  split <;> rfl

/-- A broadcast queues frames, and leaves every connection known as it was. -/
theorem identity_broadcast (node : P2PNode) (frame : Frame) (exclude key : Nat) :
    ((node.broadcast frame exclude).peers.get? key).map PeerConnection.identity =
      (node.peers.get? key).map PeerConnection.identity := by
  -- What one round of the loop leaves alone, all rounds do.
  refine List.foldlRecOn (motive := fun peers : Dict Nat PeerConnection =>
    (peers.get? key).map PeerConnection.identity =
      (node.peers.get? key).map PeerConnection.identity) _ _ rfl ?_
  intro peers kept first _
  rw [← kept]
  split
  · rename_i connection found
    split
    · rw [Dict.get?_set]
      split
      · rename_i same
        subst same
        rw [found, Option.map_some, Option.map_some, identity_offer]
      · rfl
    · rfl
  · rfl

theorem view_broadcast (frame : Frame) (session : Session) :
    ({ session with node := session.node.broadcast frame session.connection.key } : Session).view =
      session.view := by
  have others := identity_broadcast session.node frame session.connection.key
  simp only [view]
  congr 1
  funext key
  exact others key

theorem onlySends_broadcast (messageType : MessageType) (payload : Bytes) :
    OnlySends (broadcast messageType payload) :=
  .update (view_broadcast ⟨messageType, payload⟩)

theorem view_broadcastAll (frame : Frame) (session : Session) :
    (session.broadcastAll frame).view = session.view := by
  have kept := view_broadcast frame session
  simp only [broadcastAll, view, identity_offer] at kept ⊢
  exact kept

section

variable [Platform]

theorem onlySends_reject (code : Int) (reason : String) : OnlySends (reject code reason) := by
  apply Keeps.suppress
  apply OnlySends.bind (.lift _)
  intro payload
  exact onlySends_send _ _

theorem onlySends_requestBlocks : OnlySends requestBlocks := by
  intro session
  rcases requestBlocks_cases session with ⟨-, same⟩ | ⟨-, e, raised⟩ | ⟨-, -, _, payload, -, -, sent⟩
  · rw [same]
    rfl
  · rw [raised]
    rfl
  · rw [sent]
    rfl

theorem onlySends_sendBlocks (locator : BlockLocator) (now : Time) :
    OnlySends (sendBlocks locator now) := by
  apply OnlySends.bind (.read _)
  intro chain
  apply OnlySends.bind (.lift _)
  intro found
  cases found with
  | some blocks => exact .pure _
  | none =>
      apply OnlySends.bind (onlySends_penalize 10 now)
      intro _
      apply OnlySends.bind (onlySends_reject _ _)
      intro _
      exact .pure _

theorem onlySends_sendNext (blocks : List Block) : OnlySends (sendNext blocks) := by
  intro session
  rcases sendNext_cases blocks session with ⟨e, raised⟩ | ⟨-, block, rest, payload, -, -, written⟩ |
    ⟨-, -, payload, -, written⟩
  · rw [raised]
    rfl
  · rw [written]
    rfl
  · rw [written]
    rfl

theorem onlySends_submitBlock (block : Block) (faults : List Transactions.Fault) :
    OnlySends (submitBlock block faults) := fun _ => rfl

theorem onlySends_submitTransaction (tx : Transaction) : OnlySends (submitTransaction tx) :=
  fun _ => rfl

theorem onlySends_handleBlock (block : Block) (now : Time) (faults : List Transactions.Fault) :
    OnlySends (handleBlock block now faults) := by
  apply OnlySends.bind (.lift _)
  intro blockHash
  apply OnlySends.bind (.read _)
  intro known
  split
  · exact .pure _
  · apply OnlySends.trying (onlySends_submitBlock block faults)
    · intro e
      rw [refusedBlock]
      split
      · apply OnlySends.bind onlySends_requestBlocks
        intro _
        exact .pure _
      · split
        · exact .pure _
        · apply OnlySends.bind (onlySends_penalize 20 now)
          intro _
          exact onlySends_reject _ _
    · intro _
      apply OnlySends.bind
      · apply OnlySends.update
        intro session
        rw [noteAcceptedBlock_eq]
        rfl
      · intro _
        apply OnlySends.bind (.lift _)
        intro payload
        exact onlySends_broadcast _ _

theorem onlySends_handleSyncComplete (summary : ChainSummary) (now : Time) :
    OnlySends (handleSyncComplete summary now) := by
  apply OnlySends.bind (.read _)
  intro chain
  apply OnlySends.bind (.lift _)
  intro _
  apply OnlySends.bind (onlySends_updateAdvertisedSummary summary)
  intro _
  apply OnlySends.bind onlySends_finishBlockRequest
  intro progress
  split
  · exact .pure _
  · split
    · apply OnlySends.bind (onlySends_penalize 20 now)
      intro _
      apply OnlySends.bind (onlySends_reject _ _)
      intro _
      exact .throw _
    · apply OnlySends.bind onlySends_requestBlocks
      intro _
      exact .pure _

theorem onlySends_handleTransaction (tx : Transaction) (now : Time) :
    OnlySends (handleTransaction tx now) := by
  apply OnlySends.bind (.lift _)
  intro txid
  apply OnlySends.bind (.read _)
  intro pending
  split
  · exact .pure _
  · apply OnlySends.bind (.read _)
    intro chain
    apply OnlySends.bind (.lift _)
    intro state
    split
    · exact .pure _
    · apply OnlySends.trying (onlySends_submitTransaction tx)
      · intro e
        rw [refusedTransaction]
        split
        · exact .pure _
        · apply OnlySends.bind (onlySends_penalize 10 now)
          intro _
          exact onlySends_reject _ _
      · intro _
        apply OnlySends.bind (.lift _)
        intro payload
        exact onlySends_broadcast _ _

/-- **Handling a frame leaves the registry alone.** -/
theorem onlySends_handleFrame (frame : Frame) (now : Time) (faults : List Transactions.Fault) :
    OnlySends (handleFrame frame now faults) := by
  rw [handleFrame]
  split
  · exact .throw _
  · apply OnlySends.bind (.lift _)
    intro locator
    exact onlySends_sendBlocks locator now
  · apply OnlySends.bind (.lift _)
    intro block
    apply OnlySends.bind (onlySends_handleBlock block now faults)
    intro _
    exact .pure _
  · apply OnlySends.bind (.lift _)
    intro tx
    apply OnlySends.bind (onlySends_handleTransaction tx now)
    intro _
    exact .pure _
  · apply OnlySends.bind (.lift _)
    intro summary
    apply OnlySends.bind (onlySends_handleSyncComplete summary now)
    intro _
    exact .pure _
  · apply OnlySends.bind (.lift _)
    intro nonce
    apply OnlySends.bind (.lift _)
    intro payload
    apply OnlySends.bind (onlySends_send _ _)
    intro _
    exact .pure _
  · apply OnlySends.bind (.lift _)
    intro nonce
    apply OnlySends.bind _ fun _ => .pure _
    apply OnlySends.bind (.read _)
    intro pendingPing
    split
    · exact .throw _
    · exact .update fun _ => rfl
  · apply OnlySends.bind (.lift _)
    intro _
    exact .pure _

theorem onlySends_receive (frame : Frame) (now : Time) (faults : List Transactions.Fault) :
    OnlySends (receive frame now faults) := by
  apply OnlySends.bind (onlySends_limitRate _ _)
  intro _
  exact onlySends_handleFrame frame now faults

end

/-! ## Steps -/

/-- What one step of a session does to the registry. -/
structure View.Leads (before after : View) : Prop where
  nodeId_eq : after.nodeId = before.nodeId
  key_eq : after.own.key = before.own.key
  others_eq : after.others = before.others
  runs : Relation.ReflTransGen (RegistryMoves before.nodeId) before.registry after.registry

namespace View.Leads

variable {first second third : View}

theorem refl (view : View) : Leads view view := ⟨rfl, rfl, rfl, .refl⟩

theorem of_eq (same : second = first) : Leads first second := same ▸ refl first

theorem trans (one : Leads first second) (two : Leads second third) : Leads first third where
  nodeId_eq := two.nodeId_eq.trans one.nodeId_eq
  key_eq := two.key_eq.trans one.key_eq
  others_eq := two.others_eq.trans one.others_eq
  runs := one.runs.trans (one.nodeId_eq ▸ two.runs)

end View.Leads

/-- The entry of the own connection. -/
theorem entry_own (view : View) : view.registry.entry view.own.key = some view.own.entry := by
  simp [View.registry]

/-- Closing is the closing of the registry. -/
theorem registry_removed (session : Session) :
    ({ node := session.node.removeConnection session.connection
       connection := { session.connection with closed := true } } : Session).view.registry =
      session.view.registry.close Prod.fst session.connection.key
        session.connection.identity.entry := by
  simp only [View.registry, Registry.close, view, P2PNode.removeConnection,
    Registry.mk.injEq, true_and, PeerConnection.identity, PeerConnection.Identity.entry,
    Function.update_idem]
  refine ⟨?_, trivial⟩
  cases session.connection.hello with
  | none => simp [Registry.forget]
  | some hello =>
      simp only [Option.map_some, Registry.forget]
      split
      · funext id
        rw [Dict.get?_pop]
        by_cases same : hello.nodeId = id
        · subst same
          simp
        · rw [if_neg same, Function.update_of_ne fun other => same other.symm]
      · rfl

/-- A handshake is the greeting of the registry. -/
theorem registry_greeted (session : Session) (hello : Hello) :
    (session.greeted hello).view.registry =
      session.view.registry.greet Prod.fst session.connection.key session.connection.identity.entry
        (hello.nodeId, hello.chainId, hello.genesisHash) := by
  have names : (session.node.byNodeId.set hello.nodeId session.connection.key).get? =
      Function.update session.node.byNodeId.get? hello.nodeId (some session.connection.key) := by
    funext id
    rw [Dict.get?_set]
    by_cases same : hello.nodeId = id
    · subst same
      simp
    · rw [if_neg same, Function.update_of_ne fun other => same other.symm]
  simp only [View.registry, Registry.greet, view, greeted, Registry.mk.injEq, true_and,
    PeerConnection.identity, PeerConnection.Identity.entry, Function.update_idem, Option.map_some]
  exact ⟨names, trivial⟩

/-- **Closing a connection** is a change of the registry. -/
theorem leads_close (session : Session) : session.view.Leads session.close.view := by
  rw [close]
  split
  · exact .refl _
  · rename_i isOpen
    refine ⟨rfl, rfl, rfl, .single ?_⟩
    rw [registry_removed]
    apply Registry.Moves.close (entry_own session.view)
    change session.connection.closed = false
    simpa using isOpen

theorem leads_fail (e : Raised) (now : Time) (session : Session) :
    session.view.Leads (session.fail e now).view := by
  rw [fail]
  split
  · exact leads_close session
  · rename_i points _
    exact leads_close (penalized points now session)

theorem leads_resume (now : Time) (outcome : Except Raised (Option (List Block)) × Session) :
    outcome.2.view.Leads (resume now outcome).view := by
  obtain ⟨result, session⟩ := outcome
  cases result with
  | error e => exact leads_fail e now session
  | ok answer =>
      cases answer with
      | none => exact .refl _
      | some blocks => exact .refl _

/-- A stretch that leaves the registry alone, and what follows it. -/
theorem OnlySends.leads_resume {action : Action (Option (List Block))} (only : OnlySends action)
    (now : Time) (session : Session) : session.view.Leads (resume now (action session)).view := by
  have kept : (action session).2.view = session.view := only session
  rw [← kept]
  exact Session.leads_resume now _

/-- An ID that no other open connection is registered under is free in the registry. -/
theorem known_closed (session : Session) {nodeId : Bytes} (free : session.Unclaimed nodeId) :
    ∀ other known, session.view.registry.byId nodeId = some other → other ≠ session.view.own.key →
      session.view.registry.entry other = some known → known.closed = true := by
  intro other known registered different found
  rw [View.registry] at found
  dsimp only at found
  rw [Function.update_of_ne different, view, Option.map_map, Option.map_eq_some_iff] at found
  obtain ⟨connection, stored, rfl⟩ := found
  exact free other connection registered different stored

section

variable [Platform]

/-- The HELLO that a node sends. -/
theorem hello_ok {node : P2PNode} (inv : node.localNode.Invariant) :
    node.hello = .ok {
      nodeId := node.nodeId
      chainId := testnet.chainId
      genesisHash := genesisHash
      tipHash := node.localNode.chain.activeTipHash
      height := node.localNode.chain.height
      cumulativeWork := node.localNode.chain.cumulativeWork
      listenPort := node.port } := by
  have refines := inv.chain_reachable.refines
  obtain ⟨path, branch, ends⟩ := refines.exists_branch node.localNode.chain.tipEntry_stored
  obtain ⟨genesis, defined, head⟩ := ends.replays.head_eq
  rw [genesisBlock_testnet] at defined
  cases defined
  rw [P2PNode.hello, Chain.Reachable.activeChain_eq ends]
  simp only [ok_bind, head, genesis_blockHash, refines.network_eq]
  rfl

/-- It names the chain of the node. -/
theorem hello_eq {node : P2PNode} (inv : node.localNode.Invariant) :
    ∃ own, node.hello = .ok own ∧ own.chainId = testnet.chainId ∧ own.genesisHash = genesisHash :=
  ⟨_, hello_ok inv, rfl, rfl⟩

/-- **A handshake** is a change of the registry, unless it changes nothing. -/
theorem leads_handshake (inv : session.node.localNode.Invariant) (frame : Frame) :
    session.view.Leads (handshake frame session).2.view := by
  rw [handshake]
  split
  · exact .refl _
  · rw [bind_apply, lift_apply]
    cases decoded : Hello.fromBytes frame.payload with
    | error e => exact .refl _
    | ok hello =>
        dsimp only
        rcases completeHandshake_cases hello session with ⟨e, raised⟩ |
          ⟨own, made, sameChain, sameGenesis, notSelf, free, registered⟩
        · rw [bind_of_error raised]
          exact .refl _
        · obtain ⟨own', made', ownChain, ownGenesis⟩ := hello_eq inv
          rw [made] at made'
          cases made'
          have greets : session.view.Leads (session.greeted hello).view := by
            refine ⟨rfl, rfl, rfl, .single ?_⟩
            rw [registry_greeted]
            apply Registry.Moves.greet (entry_own session.view)
            · exact ⟨notSelf, sameChain.trans ownChain, sameGenesis.trans ownGenesis⟩
            · exact session.known_closed free
          have only : OnlySends (do
              let localWork ← Stateful.read fun session => session.node.localNode.chain.cumulativeWork
              if hello.cumulativeWork > localWork then do
                let _ ← requestBlocks
                return none
              else return none : Action (Option (List Block))) := by
            apply OnlySends.bind (.read _)
            intro localWork
            split
            · apply OnlySends.bind onlySends_requestBlocks
              intro _
              exact .pure _
            · exact .pure _
          rw [bind_of_ok registered]
          exact greets.trans (.of_eq (only (session.greeted hello)))

/-- **Every step of a session** is a run of changes of the registry. -/
theorem step_leads (inv : session.node.localNode.Invariant) {event : Event} (own : event.Own) :
    session.view.Leads (session.step event).view := by
  cases event with
  | start now =>
      rw [step, start]
      split
      · rcases greet_cases session with ⟨e, raised⟩ | ⟨hello, payload, -, -, -, written⟩
        · rw [raised]
          exact leads_fail e now session
        · rw [written]
          exact .refl _
      · exact .refl _
  | deliver frame now faults =>
      rw [step, deliver]
      split
      · exact (leads_handshake inv frame).trans (leads_resume now _)
      · exact (onlySends_receive frame now faults).leads_resume now session
      · exact .refl _
  | answer now =>
      rw [step, answer]
      split
      · exact (onlySends_sendNext _).leads_resume now session
      · exact .refl _
  | timeout nonce now =>
      rw [step, timeout]
      split
      · exact leads_fail _ now session
      · rcases idle_cases nonce session with ⟨e, raised⟩ | ⟨-, e, raised⟩ |
          ⟨-, -, payload, -, written⟩
        · rw [raised]
          exact leads_fail e now session
        · rw [raised]
          exact leads_resume now (.error e, session.pinged nonce)
        · rw [written]
          exact leads_resume now (.ok none, (session.pinged nonce).wrote ⟨.ping, payload⟩)
      · exact .refl _
  | flush index =>
      rcases flush_cases index session with ⟨-, same⟩ | ⟨frame, -, closing | ⟨-, written⟩⟩
      · rw [step, same]
        exact .refl _
      · rw [step, closing]
        exact leads_close (session.unqueued index)
      · rw [step, written]
        exact .refl _
  | accept block faults =>
      apply View.Leads.of_eq
      rw [step, acceptBlock, submitBlock]
      cases session.node.localNode.submitBlock block faults with
      | mk result localNode =>
          cases result with
          | error e => rfl
          | ok update =>
              dsimp only
              cases encodeBlock block with
              | error e => rfl
              | ok payload => exact view_broadcastAll _ _
  | transact tx =>
      apply View.Leads.of_eq
      rw [step, acceptTransaction, submitTransaction]
      cases session.node.localNode.submitTransaction tx with
      | mk result localNode =>
          cases result with
          | error e => rfl
          | ok txid =>
              dsimp only
              cases tx.toBytes with
              | error e => rfl
              | ok payload => exact view_broadcastAll _ _
  | close => exact leads_close session
  | elsewhere => exact absurd own (by simp [Event.Own])

end

end Session

/-! ## Turns -/

namespace P2PNode

variable {node after : P2PNode}

/-- Every connection object is kept under its own key. -/
def Keyed (node : P2PNode) : Prop :=
  ∀ key connection, node.peers.get? key = some connection → connection.key = key

/-- Nodes whose connections are known by the same have the same keys. -/
theorem Keyed.of_identity (keyed : node.Keyed)
    (same : ∀ key, (after.peers.get? key).map PeerConnection.identity =
      (node.peers.get? key).map PeerConnection.identity) : after.Keyed := by
  intro key connection stored
  have known := same key
  rw [stored, Option.map_some] at known
  obtain ⟨before, stored', identity⟩ := Option.map_eq_some_iff.mp known.symm
  have sameKey : before.key = connection.key := congrArg PeerConnection.Identity.key identity
  rw [← sameKey]
  exact keyed key before stored'

theorem countAt_registry (node : P2PNode) (host : Text) :
    node.registry.countAt host = node.hostConnectionCount host := by
  rw [Registry.countAt, hostConnectionCount]
  apply List.countP_congr
  intro key _
  rw [Registry.atHost, registry_entry, Option.any_map]
  rfl

/-- What the admission check does: at most, it forgets an expired ban. -/
structure Checked (node after : P2PNode) : Prop where
  localNode_eq : after.localNode = node.localNode
  nodeId_eq : after.nodeId = node.nodeId
  peers_eq : after.peers = node.peers
  registry_eq : after.registry = node.registry

theorem Checked.refl (node : P2PNode) : Checked node node := ⟨rfl, rfl, rfl, rfl⟩

theorem canAccept_checked (node : P2PNode) (host : Text) (current : Time) :
    Checked node (node.canAccept host current).2 := by
  rw [canAccept]
  dsimp only
  split
  · exact ⟨rfl, rfl, rfl, rfl⟩
  · exact .refl node

/-- A connection is accepted only when there is room for it. -/
theorem room_of_canAccept {host : Text} {current : Time}
    (accepted : node.canAccept host current = (true, after)) :
    after.registry.connections.length < after.registry.capacity ∧
      after.registry.countAt host < after.registry.hostCapacity := by
  rw [countAt_registry]
  rw [canAccept] at accepted
  obtain ⟨room, rfl⟩ := Prod.mk.inj accepted
  exact (of_decide_eq_true room).2

theorem registry_opened (node : P2PNode) (key : Nat) (host : Text) (outbound : Bool) :
    (node.opened key host outbound).registry = node.registry.enlist key host := by
  have entries : (node.opened key host outbound).registry.entry =
      (node.registry.enlist key host).entry := by
    funext other
    rw [Registry.enlist_entry, registry, opened]
    dsimp only
    rw [Dict.get?_set]
    by_cases same : key = other
    · subst same
      rw [if_pos rfl, Function.update_self]
      rfl
    · rw [if_neg same, Function.update_of_ne fun equal => same equal.symm]
      rfl
  exact congrArg (fun entry => ({ node.registry.enlist key host with entry } :
    Registry Nat Text (Bytes × Text × Bytes) Bytes)) entries

variable [Platform]

/-- What holds of a node between turns, beside its registry. -/
structure Proper (node : P2PNode) : Prop where
  invariant : node.localNode.Invariant
  keyed : node.Keyed

/-- What a turn does. -/
structure Runs (node after : P2PNode) : Prop where
  proper : after.Proper
  nodeId_eq : after.nodeId = node.nodeId
  runs : Relation.ReflTransGen (RegistryMoves node.nodeId) node.registry after.registry

theorem Runs.of_checked (proper : node.Proper) (checked : Checked node after) : Runs node after where
  proper := by
    refine ⟨checked.localNode_eq ▸ proper.invariant, ?_⟩
    intro key connection stored
    rw [checked.peers_eq] at stored
    exact proper.keyed key connection stored
  nodeId_eq := checked.nodeId_eq
  runs := by rw [checked.registry_eq]

/-- **An admission** is a change of the registry. -/
theorem Runs.of_opened (proper : node.Proper) {key : Nat} (fresh : node.peers.get? key = none)
    {host : Text} {current : Time} (accepted : node.canAccept host current = (true, after))
    (outbound : Bool) : Runs node (after.opened key host outbound) := by
  have checked := canAccept_checked node host current
  rw [accepted] at checked
  have before := Runs.of_checked proper checked
  have unknown : after.registry.entry key = none := by
    rw [checked.registry_eq, registry_entry, fresh]
    rfl
  obtain ⟨room, hostRoom⟩ := room_of_canAccept accepted
  refine ⟨⟨before.proper.invariant, ?_⟩, before.nodeId_eq, ?_⟩
  · intro other connection stored
    rw [opened, Dict.get?_set] at stored
    split at stored
    · rename_i same
      cases stored
      exact same
    · exact before.proper.keyed other connection stored
  · apply before.runs.tail
    rw [registry_opened]
    exact .enlist unknown room hostRoom

/-- **A step of one connection** is a run of changes of the registry. -/
theorem Runs.of_step (proper : node.Proper) {key : Nat} {connection : PeerConnection}
    (stored : node.peers.get? key = some connection) {event : Session.Event} (own : event.Own) :
    Runs node (Session.step ⟨node, connection⟩ event).store := by
  have keyEq := proper.keyed key connection stored
  subst keyEq
  have leads := @Session.step_leads ⟨node, connection⟩ _ proper.invariant event own
  have others : (Session.step ⟨node, connection⟩ event).view.others =
      fun key => (node.peers.get? key).map PeerConnection.identity := leads.others_eq
  refine ⟨⟨@Session.step_invariant ⟨node, connection⟩ _ proper.invariant event, ?_⟩,
    leads.nodeId_eq, ?_⟩
  · intro other found storedAfter
    rw [Session.store, Dict.get?_set] at storedAfter
    split at storedAfter
    · rename_i same
      cases storedAfter
      exact same
    · have known := congrFun others other
      rw [Session.view] at known
      dsimp only at known
      rw [storedAfter, Option.map_some] at known
      obtain ⟨earlier, stored', identity⟩ := Option.map_eq_some_iff.mp known.symm
      have sameKey : earlier.key = found.key := congrArg PeerConnection.Identity.key identity
      rw [← sameKey]
      exact proper.keyed other earlier stored'
  · -- The connection is among those of the node, so the session sees the registry of the node.
    have before : node.registry = (Session.view ⟨node, connection⟩).registry := by
      have entries : node.registry.entry = (Session.view ⟨node, connection⟩).registry.entry := by
        funext other
        by_cases same : other = connection.key
        · subst same
          rw [registry_entry, stored, Option.map_some]
          exact (Session.entry_own (Session.view ⟨node, connection⟩)).symm
        · have different : other ≠ (Session.view ⟨node, connection⟩).own.key := same
          rw [registry_entry, Session.View.registry]
          dsimp only
          rw [Function.update_of_ne different, Session.view, Option.map_map]
          rfl
      exact congrArg (fun entry => ({ node.registry with entry } :
        Registry Nat Text (Bytes × Text × Bytes) Bytes)) entries
    rw [Session.registry_store, before]
    exact leads.runs

/-- **Every turn** is a run of changes of the registry. -/
theorem Turn.runs {isLoopbackAddress : Text → Bool} (proper : node.Proper)
    (turn : Turn isLoopbackAddress node after) : Runs node after := by
  cases turn with
  | accept key endpoint current fresh =>
      unfold P2PNode.accept
      split
      · exact .of_checked proper (.refl node)
      · split
        · exact .of_checked proper (.refl node)
        · rename_i host _
          cases accepted : node.canAccept host current with
          | mk room checked =>
              have isChecked := canAccept_checked node host current
              rw [accepted] at isChecked
              cases room with
              | false => exact .of_checked proper isChecked
              | true => exact .of_opened proper fresh accepted false
  | dial host port current =>
      rw [P2PNode.dial]
      split
      · exact .of_checked proper (.refl node)
      · split
        · exact .of_checked proper (.refl node)
        · have isChecked := canAccept_checked node host current
          split
          · rename_i outcome
            rw [outcome] at isChecked
            exact .of_checked proper isChecked
          · rename_i outcome
            rw [outcome] at isChecked
            exact .of_checked proper isChecked
  | dialled key endpoint current fresh =>
      unfold P2PNode.dialled
      split
      · exact .of_checked proper (.refl node)
      · split
        · exact .of_checked proper (.refl node)
        · rename_i host _
          cases accepted : node.canAccept host current with
          | mk room checked =>
              have isChecked := canAccept_checked node host current
              rw [accepted] at isChecked
              cases room with
              | false => exact .of_checked proper isChecked
              | true => exact .of_opened proper fresh accepted true
  | act event stored own => exact .of_step proper stored own
  | submitBlock block faults =>
      exact ⟨⟨proper.invariant.submitBlock block faults, proper.keyed⟩, rfl, .refl⟩
  | submitTransaction tx =>
      exact ⟨⟨proper.invariant.submitTransaction tx, proper.keyed⟩, rfl, .refl⟩
  | meanwhile same =>
      refine ⟨⟨same.localNode_eq ▸ proper.invariant, proper.keyed.of_identity same.identity_eq⟩,
        same.nodeId_eq, ?_⟩
      have entries : after.registry.entry = node.registry.entry := by
        funext key
        have known := congrArg (Option.map PeerConnection.Identity.entry) (same.identity_eq key)
        rwa [Option.map_map, Option.map_map] at known
      have registries : after.registry = node.registry := by
        rw [registry, same.limits_eq, same.connections_eq, same.byNodeId_eq]
        exact congrArg (fun entry => ({ node.registry with entry } :
          Registry Nat Text (Bytes × Text × Bytes) Bytes)) entries
      rw [registries]

/-! ## Reachable nodes -/

/-- The nodes that turns lead to from a new node around a reachable local node. -/
inductive Reachable (isLoopbackAddress : Text → Bool) : P2PNode → Prop
  | new {localNode : LocalNode} {port : Int} {limits : PeerLimits} {nodeId : Bytes}
      (nodeId_length : nodeId.length = nodeIdLength) (port_range : 0 ≤ port ∧ port ≤ 0xFFFF) :
      localNode.Reachable →
      Reachable isLoopbackAddress (.new localNode port limits nodeId nodeId_length port_range)
  | turn {node after : P2PNode} : Reachable isLoopbackAddress node →
      Turn isLoopbackAddress node after → Reachable isLoopbackAddress after

/-- **The registry of every reachable node is sound.** -/
theorem Reachable.sound {isLoopbackAddress : Text → Bool} (reachable : node.Reachable isLoopbackAddress) :
    node.Proper ∧ node.registry.Sound Prod.fst (FitsPeer node.nodeId) := by
  induction reachable with
  | new nodeId_length port_range localReachable =>
      refine ⟨⟨localReachable.invariant, ?_⟩, .of_empty rfl fun _ => rfl⟩
      intro key connection stored
      cases stored
  | turn _ turn ih =>
      obtain ⟨proper, sound⟩ := ih
      have runs := turn.runs proper
      exact ⟨runs.proper, runs.nodeId_eq ▸ sound.runs runs.runs⟩

/-- The open connections, with their keys. -/
def openItems (node : P2PNode) : List (Nat × PeerConnection) :=
  node.peers.items.filter fun item => item.2.closed = false

omit [Platform] in
theorem openConnections_eq (node : P2PNode) :
    node.openConnections = node.openItems.map Prod.snd := by
  rw [openConnections, openItems, Dict.values, List.filter_map]
  rfl

omit [Platform] in
theorem mem_openItems {item : Nat × PeerConnection} :
    item ∈ node.openItems ↔ node.peers.get? item.1 = some item.2 ∧ item.2.closed = false := by
  rw [openItems, List.mem_filter, Dict.get?_eq_some, decide_eq_true_eq]

omit [Platform] in
/-- A sound registry lists the open connections of the node. -/
theorem connections_perm (sound : node.registry.Sound Prod.fst (FitsPeer node.nodeId)) :
    node.connections.Perm (node.openItems.map Prod.fst) := by
  have nodup : (node.openItems.map Prod.fst).Nodup :=
    node.peers.nodupKeys.sublist (List.filter_sublist.map Prod.fst)
  apply (List.perm_ext_iff_of_nodup sound.nodup nodup).mpr
  intro key
  rw [sound.mem_iff key, registry_entry, List.mem_map]
  constructor
  · rintro ⟨entry, found, isOpen⟩
    obtain ⟨connection, stored, rfl⟩ := Option.map_eq_some_iff.mp found
    exact ⟨(key, connection), mem_openItems.mpr ⟨stored, isOpen⟩, rfl⟩
  · rintro ⟨⟨_, connection⟩, member, rfl⟩
    obtain ⟨stored, isOpen⟩ := mem_openItems.mp member
    exact ⟨connection.identity.entry, by rw [stored, Option.map_some], isOpen⟩

omit [Platform] in
/-- The connections to a host are counted among the open ones. -/
theorem countAt_eq (sound : node.registry.Sound Prod.fst (FitsPeer node.nodeId)) (host : Text) :
    node.registry.countAt host =
      (node.openConnections.filter fun connection => connection.host = host).length := by
  rw [Registry.countAt, show node.registry.connections = node.connections from rfl,
    (connections_perm sound).countP_eq, List.countP_map, openConnections_eq, List.filter_map,
    List.length_map, ← List.countP_eq_length_filter]
  apply List.countP_congr
  rintro ⟨key, connection⟩ member
  simp [Registry.atHost, registry_entry, (mem_openItems.mp member).1, PeerConnection.identity,
    PeerConnection.Identity.entry]

/-- What holds of the connections of a node at all times. -/
structure RegistryInvariant (node : P2PNode) : Prop where
  total : node.openConnections.length ≤ node.limits.maxPeers
  perHost : ∀ host, (node.openConnections.filter fun connection => connection.host = host).length ≤
    node.limits.maxPeersPerIp
  /-- An open connection that completed its handshake has a peer of the same chain with another
  node ID, under which it is registered. -/
  met : ∀ key connection hello, node.peers.get? key = some connection → connection.closed = false →
    connection.hello = some hello →
    (∃ own, node.hello = .ok own ∧ hello.chainId = own.chainId ∧
      hello.genesisHash = own.genesisHash) ∧
    hello.nodeId ≠ node.nodeId ∧ node.byNodeId.get? hello.nodeId = some key
  distinct : ∀ key key' connection connection' hello hello',
    node.peers.get? key = some connection → node.peers.get? key' = some connection' →
    connection.closed = false → connection'.closed = false →
    connection.hello = some hello → connection'.hello = some hello' →
    hello.nodeId = hello'.nodeId → key = key'

/-- **The registry holds at all times.** -/
theorem Reachable.registry_invariant {isLoopbackAddress : Text → Bool}
    (reachable : node.Reachable isLoopbackAddress) : node.RegistryInvariant := by
  obtain ⟨proper, sound⟩ := reachable.sound
  have known : ∀ {key : Nat} {connection : PeerConnection} {hello : Hello},
      node.peers.get? key = some connection → connection.hello = some hello →
      node.registry.entry key = some connection.identity.entry ∧
        connection.identity.entry.peer = some (hello.nodeId, hello.chainId, hello.genesisHash) := by
    intro key connection hello stored greeted
    refine ⟨by rw [registry_entry, stored, Option.map_some], ?_⟩
    simp [PeerConnection.Identity.entry, PeerConnection.identity, greeted]
  refine ⟨?_, ?_, ?_, ?_⟩
  · rw [openConnections_eq, List.length_map, ← List.length_map Prod.fst,
      ← (connections_perm sound).length_eq]
    exact sound.total
  · intro host
    rw [← countAt_eq sound]
    exact sound.perHost host
  · intro key connection hello stored isOpen greeted
    obtain ⟨found, peer⟩ := known stored greeted
    obtain ⟨⟨notSelf, sameChain, sameGenesis⟩, named⟩ := sound.met key _ _ found isOpen peer
    obtain ⟨own, made, ownChain, ownGenesis⟩ := Session.hello_eq proper.invariant
    exact ⟨⟨own, made, sameChain.trans ownChain.symm, sameGenesis.trans ownGenesis.symm⟩, notSelf,
      named⟩
  · intro key key' connection connection' hello hello' stored stored' isOpen isOpen' greeted greeted'
      same
    obtain ⟨found, peer⟩ := known stored greeted
    obtain ⟨found', peer'⟩ := known stored' greeted'
    exact sound.peer_unique found found' isOpen isOpen' peer peer' same

/-- A new node around a new local node. -/
def emptyNode : P2PNode :=
  .new ⟨genesisChain, Mempool.empty, none⟩ 19733 .default ownNodeId length_ownNodeId (by decide)

omit [Platform] in
theorem emptyNode_reachable : @Reachable asciiPlatform (fun _ => true) emptyNode := by
  apply @Reachable.new asciiPlatform
  apply @LocalNode.Reachable.inMemory asciiPlatform
  unfold LocalNode.new
  dsimp only
  rw [@Chain.init_testnet asciiPlatform]
  rfl

/-- A turn at one of the connections. -/
def actAt (node : P2PNode) (key : Nat) (event : Session.Event) : P2PNode :=
  match node.peers.get? key with
  | some connection => (Session.step ⟨node, connection⟩ event).store
  | none => node

theorem Reachable.actAt {isLoopbackAddress : Text → Bool} (reachable : node.Reachable isLoopbackAddress)
    (key : Nat) {event : Session.Event} (own : event.Own) :
    (node.actAt key event).Reachable isLoopbackAddress := by
  rw [P2PNode.actAt]
  cases stored : node.peers.get? key with
  | none => exact reachable
  | some connection => exact reachable.turn (.act event stored own)

/-- The HELLO of a new node with another ID. -/
def helloFrame (digit : UInt8) : Frame :=
  let peer : P2PNode := .new ⟨genesisChain, Mempool.empty, none⟩ 19733 .default
    (List.replicate 16 digit) (by simp [nodeIdLength]) (by decide)
  ⟨.hello, ((@hello asciiPlatform peer).toOption.bind fun hello =>
    (@Hello.toBytes asciiPlatform hello).toOption).getD []⟩

/-- The node accepted two connections, and exchanged HELLOs on both. -/
def metNode : P2PNode :=
  let host := text "127.0.0.1"
  let accepted := (emptyNode.accept (fun _ => true) 0 (some host) 0).accept (fun _ => true) 1 (some host) 0
  let greeting := @actAt asciiPlatform (@actAt asciiPlatform accepted 0 (.start 0)) 1 (.start 0)
  @actAt asciiPlatform (@actAt asciiPlatform greeting 0 (.deliver (helloFrame 2) 0 []))
    1 (.deliver (helloFrame 3) 0 [])

omit [Platform] in
theorem metNode_reachable : @Reachable asciiPlatform (fun _ => true) metNode := by
  have first := @Reachable.turn asciiPlatform _ _ _ emptyNode_reachable
    (@Turn.accept asciiPlatform (fun _ => true) _ 0 (some (text "127.0.0.1")) 0 rfl)
  have accepted := @Reachable.turn asciiPlatform _ _ _ first
    (@Turn.accept asciiPlatform (fun _ => true) _ 1 (some (text "127.0.0.1")) 0 rfl)
  have starts := @Reachable.actAt _ asciiPlatform _ accepted 0 (.start 0) trivial
  have greeting := @Reachable.actAt _ asciiPlatform _ starts 1 (.start 0) trivial
  exact @Reachable.actAt _ asciiPlatform _ (@Reachable.actAt _ asciiPlatform _ greeting 0
    (.deliver (helloFrame 2) 0 []) trivial)
      1 (.deliver (helloFrame 3) 0 []) trivial

omit [Platform] in
/-- Both connections are open, and their peers have different IDs. -/
theorem registry_invariant_met :
    (metNode.peers.get? 0).map (fun connection => (connection.closed, connection.hello.map Hello.nodeId)) =
      some (false, some (List.replicate 16 2)) ∧
    (metNode.peers.get? 1).map (fun connection => (connection.closed, connection.hello.map Hello.nodeId)) =
      some (false, some (List.replicate 16 3)) ∧
    @RegistryInvariant asciiPlatform metNode :=
  ⟨by decide +kernel, by decide +kernel, @Reachable.registry_invariant _ asciiPlatform _ metNode_reachable⟩

end P2PNode

end OurCoin
