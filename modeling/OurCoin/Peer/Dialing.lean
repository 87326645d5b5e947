import OurCoin.Model.Dialing
import OurCoin.Peer.Greeting

/-!
# What simultaneous dialing leaves

Two nodes that dialled each other run as two parties of `Crossing`: an end keeps its
connection when it reads the HELLO of its peer while the other connection is not registered,
and refuses it as a duplicate otherwise.

* `Dialing.Stands` relates the connection objects of both nodes to what the parties did.
  `Dialing.Stands.simulates` says that every step of the nodes is one of the parties, and
  `Dialing.Stands.exists_step` that every step of the parties is one of the nodes.
* `Dialing.leaves_at_most_one` says what is left when everything was read: a connection is open
  at both ends exactly when neither end refused it. An end that refuses one read the HELLO of the
  other one before, and penalizes the host of its peer.
* `Dialing.not_leaves_one`: both connections may be refused, each at another end.
-/

set_option autoImplicit false

namespace OurCoin

open Raising Stateful
open Crossing (Side Link Status)

/-! ## What one step does to one node -/

/-- One connection object of a node is replaced. -/
structure P2PNode.Replaces (node after : P2PNode) (before connection : PeerConnection) : Prop where
  localNode_eq : after.localNode = node.localNode
  nodeId_eq : after.nodeId = node.nodeId
  peers_eq : after.peers = node.peers.set before.key connection
  key_eq : connection.key = before.key
  host_eq : connection.host = before.host
  written_prefix : before.written <+: connection.written

namespace Session

variable {session : Session}

/-- The end of the stream closes the connection without a penalty. -/
theorem fail_peerDisconnected {message : String} (now : Time)
    (isOpen : session.connection.closed = false) :
    session.fail (peerDisconnectedError message) now =
      { node := session.node.removeConnection session.connection
        connection := { session.connection with closed := true, task := .ended } } := by
  have points : session.pointsFor (peerDisconnectedError message).cls = none := if_pos rfl
  simp only [fail, points, close, isOpen]
  rfl

variable [Platform]

/-- A HELLO under a free ID is read. -/
theorem deliver_free {hello : Hello} {payload : Bytes} (now : Time)
    (inv : session.node.localNode.Invariant) (waiting : session.connection.task = .handshaking)
    (isOpen : session.connection.closed = false) (decoded : Hello.fromBytes payload = .ok hello)
    (meets : session.Meets hello) (free : session.Unclaimed hello.nodeId) :
    ∃ connection, session.deliver ⟨.hello, payload⟩ now [] =
        { node := { session.node with
            byNodeId := session.node.byNodeId.set hello.nodeId session.connection.key }
          connection := connection } ∧
      connection.key = session.connection.key ∧ connection.host = session.connection.host ∧
      connection.closed = false ∧ connection.hello = some hello ∧ connection.task = .reading ∧
      session.connection.written <+: connection.written ∧
      connection.score = (session.node.scores.get? hello.nodeId).getD 0 ∧
      connection.rateLimiter = session.connection.rateLimiter := by
  obtain ⟨after, handled, shape⟩ := handshake_free inv isOpen decoded meets free
  simp only [deliver, waiting, handled, resume]
  rcases shape with rfl | ⟨locator, rfl⟩
  · rw [if_neg (by simp [greeted, isOpen])]
    exact ⟨_, rfl, rfl, rfl, isOpen, rfl, rfl, List.prefix_rfl, rfl, rfl⟩
  · rw [if_neg (by simp [requested, greeted, PeerConnection.beginBlockRequest, isOpen])]
    exact ⟨_, rfl, rfl, rfl, isOpen, rfl, rfl, List.prefix_append _ _, rfl, rfl⟩

/-- A HELLO under the ID of another open connection is read: the connection is closed, and its
host is penalized. -/
theorem deliver_claimed {hello : Hello} {payload : Bytes} {key : Nat} {other : PeerConnection}
    (now : Time) (inv : session.node.localNode.Invariant)
    (waiting : session.connection.task = .handshaking) (isOpen : session.connection.closed = false)
    (unmet : session.connection.hello = none) (decoded : Hello.fromBytes payload = .ok hello)
    (meets : session.Meets hello) (registered : session.node.byNodeId.get? hello.nodeId = some key)
    (different : key ≠ session.connection.key) (stored : session.node.peers.get? key = some other)
    (otherOpen : other.closed = false) :
    session.deliver ⟨.hello, payload⟩ now [] =
      { node := (penalized 20 now session).node.removeConnection session.connection
        connection := { session.connection with
          score := session.connection.score + 20
          closed := true
          task := .ended } } := by
  have raised := handshake_claimed inv decoded meets registered different stored otherOpen
  have points : session.pointsFor (protocolError "duplicate peer node ID").cls = some 20 := rfl
  simp only [deliver, waiting, raised, resume, fail, points, close, penalized, isOpen,
    P2PNode.removeConnection, unmet, setTask]
  rfl

end Session

namespace Dialing

variable {start dialing after : Dialing} {side : Side} {link : Link}

/-! ## The nodes and the parties -/

/-- The host of a connection. -/
def hostOf (dialing : Dialing) (side : Side) (link : Link) : Option Text :=
  (dialing.connection side link).map PeerConnection.host

/-- How a connection object shows where its end stands. -/
def Shows (peerId : Bytes) (connection : PeerConnection) : Status → Prop
  | .waiting => connection.task = .handshaking ∧ connection.closed = false ∧ connection.hello = none
  | .kept => connection.task = .reading ∧ connection.closed = false ∧
      ∃ hello, connection.hello = some hello ∧ hello.nodeId = peerId
  | .refused => connection.task = .ended ∧ connection.closed = true ∧ connection.hello = none
  | .lost => connection.task = .ended ∧ connection.closed = true ∧ connection.hello.isSome = true

namespace Shows

variable {peerId : Bytes} {connection : PeerConnection} {status : Status}

theorem waiting_of_task (shows : Shows peerId connection status)
    (task : connection.task = .handshaking) : status = .waiting := by
  cases status with
  | waiting => rfl
  | kept => cases task.symm.trans shows.1
  | refused => cases task.symm.trans shows.1
  | lost => cases task.symm.trans shows.1

theorem kept_of_task (shows : Shows peerId connection status) (task : connection.task = .reading) :
    status = .kept := by
  cases status with
  | waiting => cases task.symm.trans shows.1
  | kept => rfl
  | refused => cases task.symm.trans shows.1
  | lost => cases task.symm.trans shows.1

theorem waiting_iff (shows : Shows peerId connection status) :
    connection.task = .handshaking ↔ status = .waiting := by
  constructor
  · exact shows.waiting_of_task
  · rintro rfl
    exact shows.1

theorem closed_iff (shows : Shows peerId connection status) :
    connection.closed = true ↔ status.Closed := by
  cases status with
  | waiting => simp [Status.Closed, shows.2.1]
  | kept => simp [Status.Closed, shows.2.1]
  | refused => simp [Status.Closed, shows.2.1]
  | lost => simp [Status.Closed, shows.2.1]

theorem open_iff (shows : Shows peerId connection status) :
    (connection.closed = false ∧ connection.hello.isSome = true) ↔ status = .kept := by
  cases status with
  | waiting => simp [shows.2.2]
  | kept =>
      obtain ⟨-, isOpen, hello, greeted, -⟩ := shows
      simp [isOpen, greeted]
  | refused => simp [shows.2.1]
  | lost => simp [shows.2.1]

theorem refused_iff (shows : Shows peerId connection status) :
    (connection.closed = true ∧ connection.hello = none) ↔ status = .refused := by
  cases status with
  | waiting => simp [shows.2.1]
  | kept => simp [shows.2.1]
  | refused => simp [shows.2.1, shows.2.2]
  | lost =>
      obtain ⟨-, -, met⟩ := shows
      simp only [reduceCtorEq, iff_false]
      rintro ⟨-, unmet⟩
      rw [unmet] at met
      cases met

end Shows

/-- The penalty of a host for one connection. -/
def penaltyFor (start : Dialing) (state : Crossing.State) (side : Side) (host : Text) (link : Link) :
    Int :=
  if state side link = .refused ∧ start.hostOf side link = some host then 20 else 0

variable [Platform]

/-- The first frame on a connection is the HELLO of one of the nodes. -/
def Sends (node : P2PNode) (connection : PeerConnection) : Prop :=
  ∃ payload hello, connection.written.head? = some ⟨.hello, payload⟩ ∧
    Hello.fromBytes payload = .ok hello ∧ hello.nodeId = node.nodeId ∧
    hello.chainId = testnet.chainId ∧ hello.genesisHash = genesisHash

/-- What the parties did is what the nodes did since the start. -/
structure Stands (start dialing : Dialing) (state : Crossing.State) : Prop where
  key_eq : dialing.key = start.key
  nodeId_eq : ∀ side, (dialing.node side).nodeId = (start.node side).nodeId
  invariant : ∀ side, (dialing.node side).localNode.Invariant
  ends : ∀ side link, ∃ connection, dialing.connection side link = some connection ∧
    connection.key = start.key side link ∧ start.hostOf side link = some connection.host ∧
    Sends (start.node side) connection ∧ Shows (start.peerId side) connection (state side link)
  registered : ∀ side key, (dialing.node side).byNodeId.get? (start.peerId side) = some key ↔
    ∃ link, key = start.key side link ∧ state side link = .kept
  scored : ∀ side host, dialing.hostScore side host = start.hostScore side host +
    (penaltyFor start state side host .first + penaltyFor start state side host .second)

/-- Both nodes dialled each other once, are not connected otherwise, and sent their HELLO on
both connections. -/
structure Begun (isLoopbackAddress : Text → Bool) (dialing : Dialing) : Prop where
  reachable : ∀ side, (dialing.node side).Reachable isLoopbackAddress
  strangers : (dialing.node .left).nodeId ≠ (dialing.node .right).nodeId
  twoConnections : ∀ side, dialing.key side .first ≠ dialing.key side .second
  unregistered : ∀ side, (dialing.node side).byNodeId.get? (dialing.peerId side) = none
  greets : ∀ side link, ∃ connection, dialing.connection side link = some connection ∧
    Greets (dialing.node side) connection

namespace Begun

variable {isLoopbackAddress : Text → Bool}

theorem peerId_ne (begun : Begun isLoopbackAddress start) (side : Side) :
    start.peerId side ≠ (start.node side).nodeId := by
  cases side with
  | left => exact begun.strangers.symm
  | right => exact begun.strangers

theorem key_ne (begun : Begun isLoopbackAddress start) (side : Side) (link : Link) :
    start.key side link.other ≠ start.key side link := by
  cases link with
  | first => exact (begun.twoConnections side).symm
  | second => exact begun.twoConnections side

/-- Nothing was read at the start. -/
theorem stands (begun : Begun isLoopbackAddress start) : Stands start start Crossing.waiting where
  key_eq := rfl
  nodeId_eq _ := rfl
  invariant side := (begun.reachable side).sound.1.invariant
  ends side link := by
    obtain ⟨connection, stored, greets⟩ := begun.greets side link
    have proper := (begun.reachable side).sound.1
    obtain ⟨sent, payload, made, encoded, written⟩ := greets.wrote
    obtain ⟨hello, payload', made', encoded', decoded, -, fromNode, sameChain, sameGenesis⟩ :=
      P2PNode.exists_hello proper.invariant
    rw [made] at made'
    cases made'
    rw [encoded] at encoded'
    cases encoded'
    refine ⟨connection, stored, proper.keyed _ _ stored, ?_, ?_, ?_⟩
    · rw [hostOf, stored, Option.map_some]
    · exact ⟨payload, sent, by rw [written, List.head?_cons], decoded, fromNode, sameChain, sameGenesis⟩
    · exact ⟨greets.task_eq, greets.isOpen, greets.unmet⟩
  registered side key := by
    rw [begun.unregistered side]
    constructor
    · intro wrong
      cases wrong
    · rintro ⟨link, -, wrong⟩
      cases wrong
  scored side host := by
    simp [penaltyFor, Crossing.waiting]

end Begun

/-! ## Steps -/

namespace Stands

variable {isLoopbackAddress : Text → Bool} {state state' : Crossing.State} {status : Status}
  {connection connection' sender : PeerConnection} {node : P2PNode}

theorem peerId_eq (stands : Stands start dialing state) (side : Side) :
    dialing.peerId side = start.peerId side :=
  stands.nodeId_eq side.other

/-- The connection object of an end. -/
theorem end_of_stored (stands : Stands start dialing state)
    (stored : dialing.connection side link = some connection) :
    connection.key = start.key side link ∧ start.hostOf side link = some connection.host ∧
      Sends (start.node side) connection ∧
      Shows (start.peerId side) connection (state side link) := by
  obtain ⟨found, stored', known⟩ := stands.ends side link
  rw [stored] at stored'
  cases stored'
  exact known

omit [Platform] in
/-- A penalty is due for a connection when it is refused. -/
theorem penaltyFor_set (notRefused : state side link ≠ .refused) (side' : Side) (host : Text) :
    penaltyFor start (state.set side link status) side' host .first +
        penaltyFor start (state.set side link status) side' host .second =
      penaltyFor start state side' host .first + penaltyFor start state side' host .second +
        if side' = side ∧ status = .refused ∧ start.hostOf side link = some host then 20 else 0 := by
  have here : penaltyFor start (state.set side link status) side host link =
      if status = .refused ∧ start.hostOf side link = some host then 20 else 0 := by
    rw [penaltyFor, Crossing.State.set_self]
  have before : penaltyFor start state side host link = 0 := if_neg fun wrong => notRefused wrong.1
  have elsewhere : ∀ link', ¬ (side' = side ∧ link' = link) →
      penaltyFor start (state.set side link status) side' host link' =
        penaltyFor start state side' host link' := by
    intro link' apart
    rw [penaltyFor, penaltyFor, Crossing.State.set_of_ne apart]
  by_cases same : side' = side
  · subst same
    simp only [true_and]
    cases link with
    | first => rw [here, before, elsewhere .second (by simp)]; omega
    | second => rw [here, before, elsewhere .first (by simp)]; omega
  · rw [elsewhere .first fun both => same both.1, elsewhere .second fun both => same both.1,
      if_neg fun all => same all.1, add_zero]

/-- **One end goes on**: what has to be known of its node afterwards. -/
theorem put (begun : Begun isLoopbackAddress start) (stands : Stands start dialing state)
    (stored : dialing.connection side link = some connection)
    (notRefused : state side link ≠ .refused)
    (replaces : (dialing.node side).Replaces node connection connection')
    (shows' : Shows (start.peerId side) connection' status)
    (registered : ∀ key, node.byNodeId.get? (start.peerId side) = some key ↔
      ∃ link', key = start.key side link' ∧ state.set side link status side link' = .kept)
    (scored : ∀ host, (node.hostScores.get? host).getD 0 = dialing.hostScore side host +
      if status = .refused ∧ start.hostOf side link = some host then 20 else 0) :
    Stands start (dialing.put side node) (state.set side link status) := by
  obtain ⟨keyEq, hostEq, ⟨payload, hello, first, decoded⟩, -⟩ := stands.end_of_stored stored
  have other : ∀ {side'}, side' ≠ side → (dialing.put side node).node side' = dialing.node side' :=
    fun apart => Function.update_of_ne apart _ _
  have own : (dialing.put side node).node side = node := Function.update_self _ _ _
  refine ⟨stands.key_eq, ?_, ?_, ?_, ?_, ?_⟩
  · intro side'
    by_cases same : side' = side
    · subst same
      rw [own, replaces.nodeId_eq, stands.nodeId_eq]
    · rw [other same, stands.nodeId_eq]
  · intro side'
    by_cases same : side' = side
    · subst same
      rw [own, replaces.localNode_eq]
      exact stands.invariant side'
    · rw [other same]
      exact stands.invariant side'
  · intro side' link'
    by_cases same : side' = side
    · subst same
      rcases Link.eq_or_eq_other link link' with rfl | rfl
      · refine ⟨connection', ?_, ?_, ?_, ⟨payload, hello, ?_, decoded⟩, ?_⟩
        · rw [Dialing.connection, own, replaces.peers_eq, keyEq]
          exact (congrArg _ (congrFun (congrFun stands.key_eq side') link')).trans
            (Dict.get?_set_self _ _ _)
        · exact replaces.key_eq.trans keyEq
        · rw [hostEq, replaces.host_eq]
        · obtain ⟨rest, written⟩ := replaces.written_prefix
          rw [← written, List.head?_append, first, Option.some_or]
        · rw [Crossing.State.set_self]
          exact shows'
      · obtain ⟨found, stored', known⟩ := stands.ends side' link.other
        have apart : ¬ (side' = side' ∧ link.other = link) := by simp
        refine ⟨found, ?_, ?_⟩
        · have different : connection.key ≠ dialing.key side' link.other := by
            rw [keyEq, stands.key_eq]
            exact (begun.key_ne side' link).symm
          rw [Dialing.connection, own, replaces.peers_eq]
          exact (Dict.get?_set_of_ne different _).trans stored'
        · rw [Crossing.State.set_of_ne apart]
          exact known
    · obtain ⟨found, stored', known⟩ := stands.ends side' link'
      refine ⟨found, ?_, ?_⟩
      · rw [Dialing.connection, other same]
        exact stored'
      · rw [Crossing.State.set_of_ne fun both => same both.1]
        exact known
  · intro side' key
    by_cases same : side' = side
    · subst same
      rw [own]
      exact registered key
    · rw [other same, stands.registered side' key]
      simp only [Crossing.State.set_of_ne fun both : side' = side ∧ _ => same both.1]
  · intro side' host
    rw [penaltyFor_set notRefused, ← add_assoc, ← stands.scored]
    by_cases same : side' = side
    · subst same
      rw [hostScore, own, scored]
      simp
    · rw [hostScore, other same, if_neg fun all => same all.1, add_zero]
      rfl

/-- The HELLO that an end reads is that of its peer. -/
theorem meets (begun : Begun isLoopbackAddress start) (stands : Stands start dialing state)
    {hello : Hello} (fromNode : hello.nodeId = (start.node side.other).nodeId)
    (sameChain : hello.chainId = testnet.chainId) (sameGenesis : hello.genesisHash = genesisHash) :
    Session.Meets ⟨dialing.node side, connection⟩ hello where
  chain_eq := sameChain
  genesis_eq := sameGenesis
  notSelf := by
    rw [fromNode, stands.nodeId_eq]
    exact begun.peerId_ne side

/-- **An end keeps its connection** when it reads the HELLO while the other connection is not
kept. -/
theorem keep (begun : Begun isLoopbackAddress start) (stands : Stands start dialing state)
    (now : Time) {frame : Frame} (waiting : state side link = .waiting)
    (free : state side link.other ≠ .kept)
    (stored : dialing.connection side link = some connection)
    (peer : dialing.connection side.other link = some sender)
    (first : sender.written.head? = some frame) :
    Stands start (dialing.put side
      (Session.deliver frame now [] ⟨dialing.node side, connection⟩).store)
      (state.set side link .kept) := by
  obtain ⟨keyEq, hostEq, -, shows⟩ := stands.end_of_stored stored
  obtain ⟨-, -, ⟨payload, hello, first', decoded, fromNode, sameChain, sameGenesis⟩, -⟩ :=
    stands.end_of_stored peer
  rw [first] at first'
  cases first'
  rw [waiting] at shows
  obtain ⟨task, isOpen, unmet⟩ := shows
  have meets : Session.Meets ⟨dialing.node side, connection⟩ hello :=
    stands.meets begun fromNode sameChain sameGenesis
  have noneKept : ∀ link', state side link' ≠ .kept := by
    intro link' kept
    rcases Link.eq_or_eq_other link link' with rfl | rfl
    · rw [waiting] at kept
      cases kept
    · exact free kept
  have unclaimed : Session.Unclaimed ⟨dialing.node side, connection⟩ hello.nodeId := by
    intro key other registered
    rw [fromNode] at registered
    obtain ⟨link', -, kept⟩ := (stands.registered side key).mp registered
    exact absurd kept (noneKept link')
  obtain ⟨connection', delivered, keyEq', hostEq', open', greeted, task', written, -⟩ :=
    @Session.deliver_free ⟨dialing.node side, connection⟩ _ _ _ now (stands.invariant side) task
      isOpen decoded meets unclaimed
  rw [delivered]
  refine stands.put begun stored (by rw [waiting]; decide) ⟨rfl, rfl, ?_, keyEq', hostEq', written⟩
    ⟨task', open', hello, greeted, fromNode⟩ ?_ ?_
  · rw [Session.store]
    exact congrArg (fun key => (dialing.node side).peers.set key connection') keyEq'
  · intro key
    have registered : ((dialing.node side).byNodeId.set hello.nodeId connection.key).get?
        (start.peerId side) = some (start.key side link) := by
      rw [fromNode, keyEq]
      exact Dict.get?_set_self _ _ _
    rw [Session.store]
    dsimp only
    rw [registered]
    constructor
    · rintro ⟨⟩
      exact ⟨link, rfl, Crossing.State.set_self⟩
    · rintro ⟨link', rfl, kept⟩
      rcases Crossing.State.set_cases kept with ⟨-, rfl, -⟩ | ⟨-, kept'⟩
      · rfl
      · exact absurd kept' (noneKept link')
  · intro host
    rw [if_neg (by simp), add_zero]
    rfl

/-- While the other connection is kept, the HELLO claims a node ID that is taken. -/
theorem claimed (begun : Begun isLoopbackAddress start) (stands : Stands start dialing state)
    {frame : Frame} (busy : state side link.other = .kept)
    (stored : dialing.connection side link = some connection)
    (peer : dialing.connection side.other link = some sender)
    (first : sender.written.head? = some frame) :
    ∃ payload hello key other, frame = ⟨.hello, payload⟩ ∧ Hello.fromBytes payload = .ok hello ∧
      Session.Meets ⟨dialing.node side, connection⟩ hello ∧
      (dialing.node side).byNodeId.get? hello.nodeId = some key ∧ key ≠ connection.key ∧
      (dialing.node side).peers.get? key = some other ∧ other.closed = false := by
  obtain ⟨keyEq, -⟩ := stands.end_of_stored stored
  obtain ⟨-, -, ⟨payload, hello, first', decoded, fromNode, sameChain, sameGenesis⟩, -⟩ :=
    stands.end_of_stored peer
  rw [first] at first'
  obtain ⟨other, stored', -, -, -, shows'⟩ := stands.ends side link.other
  rw [busy] at shows'
  rw [Dialing.connection, stands.key_eq] at stored'
  refine ⟨payload, hello, start.key side link.other, other, Option.some_inj.mp first', decoded,
    stands.meets begun fromNode sameChain sameGenesis, ?_, ?_, stored', shows'.2.1⟩
  · rw [fromNode]
    exact (stands.registered side _).mpr ⟨link.other, rfl, busy⟩
  · rw [keyEq]
    exact begun.key_ne side link

/-- **An end refuses its connection** when it reads the HELLO while the other connection is
kept. -/
theorem refuse (begun : Begun isLoopbackAddress start) (stands : Stands start dialing state)
    (now : Time) {frame : Frame} (waiting : state side link = .waiting)
    (busy : state side link.other = .kept)
    (stored : dialing.connection side link = some connection)
    (peer : dialing.connection side.other link = some sender)
    (first : sender.written.head? = some frame) :
    Stands start (dialing.put side
      (Session.deliver frame now [] ⟨dialing.node side, connection⟩).store)
      (state.set side link .refused) := by
  obtain ⟨keyEq, hostEq, -, shows⟩ := stands.end_of_stored stored
  rw [waiting] at shows
  obtain ⟨task, isOpen, unmet⟩ := shows
  obtain ⟨payload, hello, key, other, rfl, decoded, meets, registered, different, stored', otherOpen⟩ :=
    stands.claimed begun busy stored peer first
  rw [@Session.deliver_claimed ⟨dialing.node side, connection⟩ _ _ _ _ _ now (stands.invariant side)
    task isOpen unmet decoded meets registered different stored' otherOpen]
  refine stands.put begun stored (by rw [waiting]; decide) ⟨rfl, rfl, rfl, rfl, rfl, List.prefix_rfl⟩
    ⟨rfl, rfl, unmet⟩ ?_ ?_
  · intro key
    have same : (Session.store ⟨(Session.penalized 20 now
        ⟨dialing.node side, connection⟩).node.removeConnection connection, { connection with
          score := connection.score + 20
          closed := true
          task := .ended }⟩).byNodeId = (dialing.node side).byNodeId := by
      simp [Session.store, P2PNode.removeConnection, unmet, Session.penalized]
    rw [same, stands.registered side key]
    constructor
    · rintro ⟨link', rfl, kept⟩
      exact ⟨link', rfl, Crossing.State.set_stable kept (by rw [waiting]; decide)⟩
    · rintro ⟨link', rfl, kept⟩
      rcases Crossing.State.set_cases kept with ⟨-, -, wrong⟩ | ⟨-, kept'⟩
      · cases wrong
      · exact ⟨link', rfl, kept'⟩
  · intro host
    rw [hostEq, hostScore]
    simp only [Session.store, P2PNode.removeConnection, Session.penalized, Option.some.injEq, true_and]
    by_cases same : connection.host = host
    · subst same
      rw [Dict.get?_set_self, Option.getD_some, if_pos rfl]
    · rw [Dict.get?_set_of_ne same, if_neg same, add_zero]

/-- **An end loses its connection** when the other end was closed. -/
theorem lose (begun : Begun isLoopbackAddress start) (stands : Stands start dialing state)
    {message : String} (now : Time) (kept : state side link = .kept)
    (stored : dialing.connection side link = some connection) :
    Stands start (dialing.put side (Session.fail (peerDisconnectedError message) now
      ⟨dialing.node side, connection⟩).store) (state.set side link .lost) := by
  obtain ⟨keyEq, -, -, shows⟩ := stands.end_of_stored stored
  rw [kept] at shows
  obtain ⟨task, isOpen, hello, greeted, fromPeer⟩ := shows
  have registered : (dialing.node side).byNodeId.get? (start.peerId side) = some connection.key := by
    rw [keyEq]
    exact (stands.registered side _).mpr ⟨link, rfl, kept⟩
  rw [@Session.fail_peerDisconnected ⟨dialing.node side, connection⟩ _ now isOpen]
  refine stands.put begun stored (by rw [kept]; decide) ⟨rfl, rfl, rfl, rfl, rfl, List.prefix_rfl⟩
    ⟨rfl, rfl, by simp [greeted]⟩ ?_ ?_
  · intro key
    have popped : (Session.store ⟨(dialing.node side).removeConnection connection, { connection with
        closed := true
        task := .ended }⟩).byNodeId.get? (start.peerId side) = none := by
      simp only [Session.store, P2PNode.removeConnection, greeted, fromPeer, registered, if_true]
      exact Dict.get?_pop_self _ _
    rw [popped]
    constructor
    · intro wrong
      cases wrong
    · rintro ⟨link', rfl, kept'⟩
      exfalso
      rcases Crossing.State.set_cases kept' with ⟨-, -, wrong⟩ | ⟨apart, kept''⟩
      · cases wrong
      · -- Both connections would be registered under the ID of the peer.
        have registered' := (stands.registered side _).mpr ⟨link', rfl, kept''⟩
        rw [registered, keyEq, Option.some.injEq] at registered'
        rcases Link.eq_or_eq_other link link' with rfl | rfl
        · exact apart ⟨rfl, rfl⟩
        · exact begun.key_ne side link registered'.symm
  · intro host
    rw [if_neg (by simp), add_zero]
    rfl

/-- **Every step of the nodes is a step of the parties.** -/
theorem simulates (begun : Begun isLoopbackAddress start) (stands : Stands start dialing state)
    (step : Step dialing after) : ∃ state', Crossing.Step state state' ∧ Stands start after state' := by
  cases step with
  | @greeting side link connection sender frame now stored task peer first =>
      have waiting := (stands.end_of_stored stored).2.2.2.waiting_of_task task
      by_cases busy : state side link.other = .kept
      · exact ⟨_, .refuse side link waiting busy,
          stands.refuse begun now waiting busy stored peer first⟩
      · exact ⟨_, .keep side link waiting busy, stands.keep begun now waiting busy stored peer first⟩
  | @closing side link connection sender now stored task peer closed =>
      have kept := (stands.end_of_stored stored).2.2.2.kept_of_task task
      have told := (stands.end_of_stored peer).2.2.2.closed_iff.mp closed
      exact ⟨_, .lose side link kept told, stands.lose begun now kept stored⟩

/-- **Every step of the parties is a step of the nodes.** -/
theorem exists_step (begun : Begun isLoopbackAddress start) (stands : Stands start dialing state)
    (step : Crossing.Step state state') : ∃ after, Step dialing after ∧ Stands start after state' := by
  cases step with
  | keep side link waiting free =>
      obtain ⟨connection, stored, -, -, -, shows⟩ := stands.ends side link
      obtain ⟨sender, peer, -, -, ⟨payload, hello, first, -⟩, -⟩ := stands.ends side.other link
      exact ⟨_, .greeting 0 stored (shows.waiting_iff.mpr waiting) peer first,
        stands.keep begun 0 waiting free stored peer first⟩
  | refuse side link waiting busy =>
      obtain ⟨connection, stored, -, -, -, shows⟩ := stands.ends side link
      obtain ⟨sender, peer, -, -, ⟨payload, hello, first, -⟩, -⟩ := stands.ends side.other link
      exact ⟨_, .greeting 0 stored (shows.waiting_iff.mpr waiting) peer first,
        stands.refuse begun 0 waiting busy stored peer first⟩
  | lose side link kept told =>
      obtain ⟨connection, stored, -, -, -, shows⟩ := stands.ends side link
      obtain ⟨sender, peer, -, -, -, shows'⟩ := stands.ends side.other link
      have reading : connection.task = .reading := by
        rw [kept] at shows
        exact shows.1
      exact ⟨_, .closing 0 stored reading peer (shows'.closed_iff.mpr told),
        stands.lose begun 0 kept stored⟩

/-! ## Runs -/

theorem simulates_run (begun : Begun isLoopbackAddress start)
    (run : Relation.ReflTransGen Step start after) :
    ∃ state, Relation.ReflTransGen Crossing.Step Crossing.waiting state ∧
      Stands start after state := by
  induction run with
  | refl => exact ⟨_, .refl, begun.stands⟩
  | tail _ step ih =>
      obtain ⟨state, parties, stands⟩ := ih
      obtain ⟨state', party, stands'⟩ := stands.simulates begun step
      exact ⟨state', parties.tail party, stands'⟩

theorem exists_run (begun : Begun isLoopbackAddress start)
    (parties : Relation.ReflTransGen Crossing.Step Crossing.waiting state) :
    ∃ after, Relation.ReflTransGen Step start after ∧ Stands start after state := by
  induction parties with
  | refl => exact ⟨start, .refl, begun.stands⟩
  | tail _ party ih =>
      obtain ⟨dialing, run, stands⟩ := ih
      obtain ⟨after, step, stands'⟩ := stands.exists_step begun party
      exact ⟨after, run.tail step, stands'⟩

theorem settled_iff (stands : Stands start dialing state) :
    dialing.Settled ↔ Crossing.Settled state := by
  constructor
  · intro settled
    refine ⟨fun side link => ?_, fun side link closed => ?_⟩
    · obtain ⟨connection, stored, -, -, -, shows⟩ := stands.ends side link
      exact fun waiting => settled.greeted side link connection stored (shows.waiting_iff.mpr waiting)
    · obtain ⟨connection, stored, -, -, -, shows⟩ := stands.ends side link
      obtain ⟨sender, peer, -, -, -, shows'⟩ := stands.ends side.other link
      exact shows.closed_iff.mp
        (settled.told side link connection sender stored peer (shows'.closed_iff.mpr closed))
  · intro settled
    refine ⟨fun side link connection stored => ?_, fun side link connection sender stored peer => ?_⟩
    · exact fun task => settled.greeted side link
        ((stands.end_of_stored stored).2.2.2.waiting_of_task task)
    · intro closed
      exact (stands.end_of_stored stored).2.2.2.closed_iff.mpr
        (settled.told side link ((stands.end_of_stored peer).2.2.2.closed_iff.mp closed))

theorem open_iff (stands : Stands start dialing state) :
    dialing.Open side link ↔ state side link = .kept := by
  obtain ⟨connection, stored, -, -, -, shows⟩ := stands.ends side link
  rw [← shows.open_iff, Open, stored]
  simp

theorem refused_iff (stands : Stands start dialing state) :
    dialing.Refused side link ↔ state side link = .refused := by
  obtain ⟨connection, stored, -, -, -, shows⟩ := stands.ends side link
  rw [← shows.refused_iff, Refused, stored]
  simp

theorem registered_iff (begun : Begun isLoopbackAddress start) (stands : Stands start dialing state) :
    dialing.Registered side link ↔ state side link = .kept := by
  rw [Registered, stands.peerId_eq, stands.registered, stands.key_eq]
  constructor
  · rintro ⟨link', same, kept⟩
    rcases Link.eq_or_eq_other link link' with rfl | rfl
    · exact kept
    · exact absurd same.symm (begun.key_ne side link)
  · intro kept
    exact ⟨link, rfl, kept⟩

/-- A connection that becomes refused is refused as a duplicate. -/
theorem meetsDuplicate (begun : Begun isLoopbackAddress start) (stands : Stands start dialing state)
    (step : Step dialing after) (notRefused : ¬ dialing.Refused side link)
    (refused : after.Refused side link) : dialing.MeetsDuplicate side link := by
  rw [stands.refused_iff] at notRefused
  cases step with
  | @greeting side' link' connection sender frame now stored task peer first =>
      have waiting := (stands.end_of_stored stored).2.2.2.waiting_of_task task
      by_cases busy : state side' link'.other = .kept
      · have next := stands.refuse begun now waiting busy stored peer first
        rcases Crossing.State.set_cases (next.refused_iff.mp refused) with ⟨rfl, rfl, -⟩ | ⟨-, old⟩
        · refine ⟨stands.open_iff.mpr busy, (stands.registered_iff begun).mpr busy, connection, sender,
            frame, stored, peer, first, ?_⟩
          obtain ⟨payload, hello, key, other, rfl, decoded, meets, registered, different, stored',
            otherOpen⟩ := stands.claimed begun busy stored peer first
          rw [@Session.handshake_claimed _ ⟨dialing.node side, connection⟩ _ _ _ _
            (stands.invariant side) decoded meets registered different stored' otherOpen]
        · exact absurd old notRefused
      · have next := stands.keep begun now waiting busy stored peer first
        rcases Crossing.State.set_cases (next.refused_iff.mp refused) with ⟨-, -, wrong⟩ | ⟨-, old⟩
        · cases wrong
        · exact absurd old notRefused
  | @closing side' link' connection sender now stored task peer closed =>
      have kept := (stands.end_of_stored stored).2.2.2.kept_of_task task
      rcases Crossing.State.set_cases
        ((stands.lose begun now kept stored).refused_iff.mp refused) with ⟨-, -, wrong⟩ | ⟨-, old⟩
      · cases wrong
      · exact absurd old notRefused

end Stands

/-! ## What is left -/

/-- **What is left** of two connections: at most one is open, at both ends, and every end that
refused one penalized the host of its peer for it. -/
structure LeavesAtMostOne (start after : Dialing) : Prop where
  open_iff : ∀ side link, after.Open side link ↔ ∀ side', ¬ after.Refused side' link
  registered_iff : ∀ side link, after.Registered side link ↔ after.Open side link
  one_open : ∀ side, ¬ (after.Open side .first ∧ after.Open side .second)
  one_refused : ∀ side, ¬ (after.Refused side .first ∧ after.Refused side .second)
  some_refused : ∃ side link, after.Refused side link
  penalized : ∀ side link connection, start.connection side link = some connection →
    after.Refused side link →
    after.hostScore side connection.host = start.hostScore side connection.host + 20
  unpenalized : ∀ side host, (∀ link connection, start.connection side link = some connection →
      after.Refused side link → connection.host ≠ host) →
    after.hostScore side host = start.hostScore side host
  /-- An end refuses a connection in one way: as a duplicate of the other one, whose HELLO it read
  before. -/
  duplicate : ∀ before next side link, Relation.ReflTransGen Step start before → Step before next →
    ¬ before.Refused side link → next.Refused side link → before.MeetsDuplicate side link

/-- **Simultaneous dialing leaves at most one connection**, in whatever order the HELLO frames
and the closings are read. -/
theorem leaves_at_most_one {isLoopbackAddress : Text → Bool} (begun : Begun isLoopbackAddress start)
    (run : Relation.ReflTransGen Step start after) (settled : after.Settled) :
    LeavesAtMostOne start after := by
  obtain ⟨state, parties, stands⟩ := Stands.simulates_run begun run
  have outcome := (Crossing.Sound.of_run parties).outcome (stands.settled_iff.mp settled)
  refine ⟨?_, ?_, ?_, ?_, ?_, ?_, ?_, ?_⟩
  · intro side link
    simp only [stands.open_iff, stands.refused_iff]
    exact outcome.kept_iff side link
  · intro side link
    rw [stands.registered_iff begun, stands.open_iff]
  · intro side
    rw [stands.open_iff, stands.open_iff]
    rintro ⟨kept, other⟩
    exact outcome.one_kept side .first kept other
  · intro side
    rw [stands.refused_iff, stands.refused_iff]
    rintro ⟨refused, other⟩
    exact outcome.one_refused side .first refused other
  · obtain ⟨side, link, refused⟩ := outcome.some_refused
    exact ⟨side, link, stands.refused_iff.mpr refused⟩
  · intro side link connection stored refused
    rw [stands.refused_iff] at refused
    have due : penaltyFor start state side connection.host link = 20 :=
      if_pos ⟨refused, by rw [hostOf, stored, Option.map_some]⟩
    have other : penaltyFor start state side connection.host link.other = 0 :=
      if_neg fun wrong => outcome.one_refused side link refused wrong.1
    rw [stands.scored]
    cases link with
    | first => rw [due, show penaltyFor start state side connection.host .second = 0 from other, add_zero]
    | second => rw [due, show penaltyFor start state side connection.host .first = 0 from other, zero_add]
  · intro side host spared
    have due : ∀ link, penaltyFor start state side host link = 0 := by
      intro link
      refine if_neg ?_
      rintro ⟨refused, here⟩
      obtain ⟨connection, stored, sameHost⟩ := Option.map_eq_some_iff.mp here
      exact spared link connection stored (stands.refused_iff.mpr refused) sameHost
    rw [stands.scored, due, due, add_zero, add_zero]
  · intro before next side link reached step notRefused refused
    obtain ⟨state', -, stands'⟩ := Stands.simulates_run begun reached
    exact stands'.meetsDuplicate begun step notRefused refused

end Dialing

/-! ## Two new nodes -/

namespace P2PNode

variable [Platform] {node : P2PNode} {key key' : Nat}

/-- A connection of the node sends its HELLO. -/
def sendHello (node : P2PNode) (key : Nat) : P2PNode :=
  match node.peers.get? key with
  | some connection => (Session.step ⟨node, connection⟩ (.start 0)).store
  | none => node

theorem sendHello_eq {host : Text} {outbound : Bool} (inv : node.localNode.Invariant)
    (stored : node.peers.get? key = some (.new key host outbound)) :
    ∃ connection, Dialing.Greets node connection ∧ connection.rateLimiter = .empty ∧
      node.sendHello key = { node with peers := node.peers.set key connection } := by
  obtain ⟨hello, payload, made, encoded, written⟩ :=
    @Session.greet_ok _ ⟨node, .new key host outbound⟩ inv rfl
  refine ⟨{ PeerConnection.new key host outbound with
    task := .handshaking
    written := [⟨.hello, payload⟩] }, ⟨rfl, rfl, rfl, hello, payload, made, encoded, rfl⟩, rfl, ?_⟩
  rw [sendHello, stored]
  dsimp only
  rw [Session.step, Session.start]
  simp only [PeerConnection.new] at written ⊢
  rw [written]
  rfl

theorem sendHello_reachable {isLoopbackAddress : Text → Bool}
    (reachable : node.Reachable isLoopbackAddress) : (node.sendHello key).Reachable isLoopbackAddress := by
  rw [sendHello]
  split
  · rename_i connection stored
    exact reachable.turn (.act (.start 0) stored trivial)
  · exact reachable

/-- The node dialled its peer and was dialled by it, and sent its HELLO on both connections. -/
def joined (node : P2PNode) (dialledKey acceptedKey : Nat) (host : Text) : P2PNode :=
  (((node.dialled (fun _ => true) dialledKey (some host) 0).2.accept (fun _ => true) acceptedKey
    (some host) 0).sendHello dialledKey).sendHello acceptedKey

theorem joined_greets {host : Text} (reachable : node.Reachable fun _ => true)
    (fresh : ∀ key, node.peers.get? key = none) (different : key ≠ key')
    (dialling : (node.dialled (fun _ => true) key (some host) 0).2 = node.opened key host true)
    (accepting : (node.opened key host true).accept (fun _ => true) key' (some host) 0 =
      (node.opened key host true).opened key' host false) :
    (node.joined key key' host).Reachable (fun _ => true) ∧
      (node.joined key key' host).nodeId = node.nodeId ∧
      (node.joined key key' host).byNodeId = node.byNodeId ∧
      ∃ first second, (node.joined key key' host).peers.get? key = some first ∧
        (node.joined key key' host).peers.get? key' = some second ∧
        Dialing.Greets (node.joined key key' host) first ∧
        Dialing.Greets (node.joined key key' host) second := by
  let called := (node.opened key host true).opened key' host false
  have calledReachable : called.Reachable fun _ => true := by
    have dialled : (node.opened key host true).Reachable fun _ => true :=
      dialling ▸ reachable.turn (.dialled key (some host) 0 (fresh key))
    have free : (node.opened key host true).peers.get? key' = none :=
      (Dict.get?_set_of_ne different _).trans (fresh key')
    have accepted := dialled.turn (.accept key' (some host) 0 free)
    rw [accepting] at accepted
    exact accepted
  have inv := calledReachable.sound.1.invariant
  have stored : called.peers.get? key = some (.new key host true) :=
    (Dict.get?_set_of_ne different.symm _).trans (Dict.get?_set_self _ _ _)
  obtain ⟨first, firstGreets, -, sentFirst⟩ := sendHello_eq inv stored
  let greeted : P2PNode := { called with peers := called.peers.set key first }
  have stored' : greeted.peers.get? key' = some (.new key' host false) :=
    (Dict.get?_set_of_ne different _).trans (Dict.get?_set_self _ _ _)
  obtain ⟨second, secondGreets, -, sentSecond⟩ := @sendHello_eq _ greeted _ _ _ inv stored'
  have shape : node.joined key key' host = { greeted with peers := greeted.peers.set key' second } := by
    rw [joined, dialling, accepting, sentFirst, sentSecond]
  have joinedReachable : (node.joined key key' host).Reachable fun _ => true := by
    rw [joined, dialling, accepting]
    exact sendHello_reachable (sendHello_reachable calledReachable)
  refine ⟨joinedReachable, by rw [shape]; rfl, by rw [shape]; rfl, first, second, ?_, ?_, ?_, ?_⟩
  · rw [shape]
    exact (Dict.get?_set_of_ne different.symm _).trans (Dict.get?_set_self _ _ _)
  · rw [shape]
    exact Dict.get?_set_self _ _ _
  · rw [shape]
    exact ⟨firstGreets.task_eq, firstGreets.isOpen, firstGreets.unmet, firstGreets.wrote⟩
  · rw [shape]
    exact ⟨secondGreets.task_eq, secondGreets.isOpen, secondGreets.unmet, secondGreets.wrote⟩

end P2PNode

namespace Dialing

/-- The ID of a second node. -/
def peerNodeId : Bytes := List.replicate 16 2

/-- A new node of the second ID. -/
def emptyPeer : P2PNode :=
  .new ⟨genesisChain, Mempool.empty, none⟩ 19734 .default peerNodeId (by decide) (by decide)

theorem emptyPeer_reachable : @P2PNode.Reachable asciiPlatform (fun _ => true) emptyPeer := by
  apply @P2PNode.Reachable.new asciiPlatform
  apply @LocalNode.Reachable.inMemory asciiPlatform
  unfold LocalNode.new
  dsimp only
  rw [@Chain.init_testnet asciiPlatform]
  rfl

/-- Two nodes with the same keys for their two connections. -/
def between (left right : P2PNode) : Dialing where
  node side :=
    match side with
    | .left => left
    | .right => right
  key _ link :=
    match link with
    | .first => 0
    | .second => 1

theorem between_begun [Platform] {left right : P2PNode} {isLoopbackAddress : Text → Bool}
    (leftReachable : left.Reachable isLoopbackAddress)
    (rightReachable : right.Reachable isLoopbackAddress) (strangers : left.nodeId ≠ right.nodeId)
    (leftFree : left.byNodeId.get? right.nodeId = none)
    (rightFree : right.byNodeId.get? left.nodeId = none)
    (leftGreets : ∃ first second, left.peers.get? 0 = some first ∧ left.peers.get? 1 = some second ∧
      Greets left first ∧ Greets left second)
    (rightGreets : ∃ first second, right.peers.get? 0 = some first ∧
      right.peers.get? 1 = some second ∧ Greets right first ∧ Greets right second) :
    Begun isLoopbackAddress (between left right) where
  reachable side := by
    cases side with
    | left => exact leftReachable
    | right => exact rightReachable
  strangers := strangers
  twoConnections _ := Nat.zero_ne_one
  unregistered side := by
    cases side with
    | left => exact leftFree
    | right => exact rightFree
  greets side link := by
    obtain ⟨first, second, stored, stored', greets, greets'⟩ := leftGreets
    obtain ⟨peerFirst, peerSecond, known, known', peerGreets, peerGreets'⟩ := rightGreets
    cases side with
    | left =>
        cases link with
        | first => exact ⟨first, stored, greets⟩
        | second => exact ⟨second, stored', greets'⟩
    | right =>
        cases link with
        | first => exact ⟨peerFirst, known, peerGreets⟩
        | second => exact ⟨peerSecond, known', peerGreets'⟩

/-- Two new nodes that dialled each other, the left one on the first connection. -/
def joined : Dialing :=
  between (@P2PNode.joined asciiPlatform P2PNode.emptyNode 0 1 (text "127.0.0.1"))
    (@P2PNode.joined asciiPlatform emptyPeer 1 0 (text "127.0.0.1"))

theorem joined_begun : @Begun asciiPlatform (fun _ => true) joined := by
  obtain ⟨reachable, nodeId, byNodeId, first, second, stored, stored', greets, greets'⟩ :=
    @P2PNode.joined_greets asciiPlatform P2PNode.emptyNode 0 1 (text "127.0.0.1")
      P2PNode.emptyNode_reachable (fun _ => rfl) (by decide) rfl rfl
  obtain ⟨peerReachable, peerId, peerByNodeId, second', first', storedSecond, storedFirst,
    greetsSecond, greetsFirst⟩ :=
    @P2PNode.joined_greets asciiPlatform emptyPeer 1 0 (text "127.0.0.1") emptyPeer_reachable
      (fun _ => rfl) (by decide) rfl rfl
  refine @between_begun asciiPlatform _ _ _ reachable peerReachable ?_ ?_ ?_
    ⟨first, second, stored, stored', greets, greets'⟩
    ⟨first', second', storedFirst, storedSecond, greetsFirst, greetsSecond⟩
  · rw [nodeId, peerId]
    decide
  · rw [byNodeId]
    rfl
  · rw [peerByNodeId]
    rfl

/-- One connection is left when both nodes keep the first one. -/
theorem leaves_at_most_one_first :
    ∃ after, @LeavesAtMostOne asciiPlatform joined after ∧ ∀ side, after.Open side .first := by
  obtain ⟨after, run, stands⟩ := @Stands.exists_run joined asciiPlatform _ _ joined_begun
    Crossing.run_agreed
  refine ⟨after, @leaves_at_most_one _ _ asciiPlatform _ joined_begun run
    ((@Stands.settled_iff _ _ asciiPlatform _ stands).mpr Crossing.settled_agreed), ?_⟩
  intro side
  exact (@Stands.open_iff _ _ _ _ asciiPlatform _ stands).mpr rfl

/-- The claim that one connection is left, and that nobody is penalized. -/
def LeavesOne (start after : Dialing) : Prop :=
  (∃! link, ∀ side, after.Open side link ∧ after.Registered side link) ∧
    ∀ side host, after.hostScore side host = start.hostScore side host

/-- **Both connections may be lost**: each node keeps the one that the other node refuses. -/
theorem not_leaves_one : ¬ ∀ start after : Dialing, @Begun asciiPlatform (fun _ => true) start →
    Relation.ReflTransGen (@Step asciiPlatform) start after → after.Settled →
    LeavesOne start after := by
  intro leaves
  obtain ⟨after, run, stands⟩ := @Stands.exists_run joined asciiPlatform _ _ joined_begun
    Crossing.run_crossed
  obtain ⟨⟨link, isOpen, -⟩, -⟩ := leaves joined after joined_begun run
    ((@Stands.settled_iff _ _ asciiPlatform _ stands).mpr Crossing.settled_crossed)
  have kept := (@Stands.open_iff _ _ .left link asciiPlatform _ stands).mp (isOpen .left).1
  cases link with
  | first => cases kept
  | second => cases kept

end Dialing

end OurCoin
