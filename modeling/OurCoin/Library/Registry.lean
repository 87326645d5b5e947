import Mathlib

/-!
# Registries of connections

A registry lists the open connections of a server by key, and names one connection for each
peer that is known. It changes in three ways (`Registry.Moves`): a connection is admitted while
there is room for it, a connection learns who its peer is, unless another open connection is
named for that peer, and a connection is closed.

`Registry.Sound` is what the registry is for: it lists exactly the open connections, stays
within its capacities, and an open connection that knows its peer is the one that is named for
it. So no two open connections know the same peer (`Sound.peer_unique`). Every change keeps it
(`Sound.moves`), and so does every run (`Sound.runs`).
-/

set_option autoImplicit false

universe u v w x

/-- What is known of one connection. -/
structure Registry.Entry (η : Type v) (π : Type w) where
  host : η
  closed : Bool
  peer : Option π

/-- The connections of a server, and the connection of each peer. -/
structure Registry (κ : Type u) (η : Type v) (π : Type w) (ι : Type x) where
  capacity : Nat
  hostCapacity : Nat
  connections : List κ
  byId : ι → Option κ
  entry : κ → Option (Registry.Entry η π)

namespace Registry

variable {κ : Type u} {η : Type v} {π : Type w} {ι : Type x} {idOf : π → ι} {Fits : π → Prop}

section

variable [DecidableEq η]

/-- Whether a connection is one to a host. -/
def atHost (entry : κ → Option (Entry η π)) (host : η) (key : κ) : Bool :=
  (entry key).any fun entry => entry.host = host

/-- The listed connections to a host. -/
def countAt (registry : Registry κ η π ι) (host : η) : Nat :=
  registry.connections.countP (atHost registry.entry host)

/-- What a registry is for. -/
structure Sound (idOf : π → ι) (Fits : π → Prop) (registry : Registry κ η π ι) : Prop where
  nodup : registry.connections.Nodup
  mem_iff : ∀ key, key ∈ registry.connections ↔
    ∃ entry, registry.entry key = some entry ∧ entry.closed = false
  total : registry.connections.length ≤ registry.capacity
  perHost : ∀ host, registry.countAt host ≤ registry.hostCapacity
  met : ∀ key entry peer, registry.entry key = some entry → entry.closed = false →
    entry.peer = some peer → Fits peer ∧ registry.byId (idOf peer) = some key

/-- **No two open connections know the same peer.** -/
theorem Sound.peer_unique {registry : Registry κ η π ι} (sound : registry.Sound idOf Fits)
    {key key' : κ} {entry entry' : Entry η π} {peer peer' : π}
    (found : registry.entry key = some entry) (found' : registry.entry key' = some entry')
    (isOpen : entry.closed = false) (isOpen' : entry'.closed = false) (known : entry.peer = some peer)
    (known' : entry'.peer = some peer') (same : idOf peer = idOf peer') : key = key' := by
  have named := (sound.met key entry peer found isOpen known).2
  rw [same, (sound.met key' entry' peer' found' isOpen' known').2] at named
  exact (Option.some.inj named).symm

/-- An unknown connection is not listed. -/
theorem Sound.not_mem {registry : Registry κ η π ι} (sound : registry.Sound idOf Fits) {key : κ}
    (unknown : registry.entry key = none) : key ∉ registry.connections := by
  intro member
  obtain ⟨entry, found, -⟩ := (sound.mem_iff key).mp member
  rw [unknown] at found
  cases found

/-- A registry without connections. -/
theorem Sound.of_empty {registry : Registry κ η π ι} (connections : registry.connections = [])
    (unknown : ∀ key, registry.entry key = none) : registry.Sound idOf Fits where
  nodup := by simp [connections]
  mem_iff key := by simp [connections, unknown]
  total := by simp [connections]
  perHost host := by simp [countAt, connections]
  met key entry peer found := by
    rw [unknown] at found
    cases found

end

variable [DecidableEq κ] [DecidableEq ι]

/-! ## Changes -/

/-- A connection is admitted, and its peer is unknown. -/
def enlist (registry : Registry κ η π ι) (key : κ) (host : η) : Registry κ η π ι :=
  { registry with
    connections := registry.connections ++ [key]
    entry := Function.update registry.entry key (some ⟨host, false, none⟩) }

/-- The peer of a connection is known, and the connection is named for it. -/
def greet (idOf : π → ι) (registry : Registry κ η π ι) (key : κ) (entry : Entry η π) (peer : π) :
    Registry κ η π ι :=
  { registry with
    byId := Function.update registry.byId (idOf peer) (some key)
    entry := Function.update registry.entry key (some { entry with peer := some peer }) }

/-- The peer of a closed connection is forgotten when that connection is named for it. -/
def forget (idOf : π → ι) (byId : ι → Option κ) (key : κ) : Option π → ι → Option κ
  | none => byId
  | some peer => if byId (idOf peer) = some key then Function.update byId (idOf peer) none else byId

/-- A connection is closed and leaves the list. -/
def close (idOf : π → ι) (registry : Registry κ η π ι) (key : κ) (entry : Entry η π) :
    Registry κ η π ι :=
  { registry with
    connections := registry.connections.erase key
    byId := forget idOf registry.byId key entry.peer
    entry := Function.update registry.entry key (some { entry with closed := true }) }

omit [DecidableEq ι] in
@[simp] theorem enlist_entry (registry : Registry κ η π ι) (key : κ) (host : η) :
    (registry.enlist key host).entry =
      Function.update registry.entry key (some ⟨host, false, none⟩) := rfl

@[simp] theorem greet_entry (registry : Registry κ η π ι) (key : κ) (entry : Entry η π) (peer : π) :
    (registry.greet idOf key entry peer).entry =
      Function.update registry.entry key (some { entry with peer := some peer }) := rfl

@[simp] theorem greet_byId (registry : Registry κ η π ι) (key : κ) (entry : Entry η π) (peer : π) :
    (registry.greet idOf key entry peer).byId =
      Function.update registry.byId (idOf peer) (some key) := rfl

@[simp] theorem close_entry (registry : Registry κ η π ι) (key : κ) (entry : Entry η π) :
    (registry.close idOf key entry).entry =
      Function.update registry.entry key (some { entry with closed := true }) := rfl

@[simp] theorem close_byId (registry : Registry κ η π ι) (key : κ) (entry : Entry η π) :
    (registry.close idOf key entry).byId = forget idOf registry.byId key entry.peer := rfl

/-- Forgetting a peer does not touch what is named for another connection. -/
theorem forget_eq {byId : ι → Option κ} {key other : κ} {id : ι} (named : byId id = some other)
    (different : other ≠ key) (peer : Option π) : forget idOf byId key peer id = some other := by
  cases peer with
  | none => exact named
  | some gone =>
      rw [forget]
      split
      · rename_i own
        have otherId : id ≠ idOf gone := by
          rintro rfl
          rw [own] at named
          exact different (Option.some.inj named).symm
        rw [Function.update_of_ne otherId, named]
      · exact named

variable [DecidableEq η]

/-- One change of a registry. -/
inductive Moves (idOf : π → ι) (Fits : π → Prop) : Registry κ η π ι → Registry κ η π ι → Prop
  | enlist {registry : Registry κ η π ι} {key : κ} {host : η} : registry.entry key = none →
      registry.connections.length < registry.capacity →
      registry.countAt host < registry.hostCapacity → Moves idOf Fits registry (registry.enlist key host)
  | greet {registry : Registry κ η π ι} {key : κ} {entry : Entry η π} {peer : π} :
      registry.entry key = some entry → Fits peer →
      (∀ other known, registry.byId (idOf peer) = some other → other ≠ key →
        registry.entry other = some known → known.closed = true) →
      Moves idOf Fits registry (registry.greet idOf key entry peer)
  | close {registry : Registry κ η π ι} {key : κ} {entry : Entry η π} :
      registry.entry key = some entry → entry.closed = false →
      Moves idOf Fits registry (registry.close idOf key entry)

/-! ## Every change keeps a registry sound -/

omit [DecidableEq ι] in
/-- What is noted of a connection, beside its host, does not change the count. -/
theorem countP_atHost_update {connections : List κ} {entry : κ → Option (Entry η π)} {key : κ}
    (value : Entry η π) (kept : key ∈ connections → ∃ old, entry key = some old ∧ old.host = value.host) (host : η) :
    connections.countP (atHost (Function.update entry key (some value)) host) =
      connections.countP (atHost entry host) := by
  apply List.countP_congr
  intro other member
  by_cases same : other = key
  · subst same
    obtain ⟨old, found, hostEq⟩ := kept member
    simp [atHost, found, hostEq]
  · simp [atHost, same]

omit [DecidableEq ι] in
theorem Sound.enlist {registry : Registry κ η π ι} (sound : registry.Sound idOf Fits) {key : κ}
    {host : η} (unknown : registry.entry key = none)
    (room : registry.connections.length < registry.capacity)
    (hostRoom : registry.countAt host < registry.hostCapacity) :
    (registry.enlist key host).Sound idOf Fits := by
  have absent := sound.not_mem unknown
  refine ⟨?_, ?_, ?_, ?_, ?_⟩
  · exact List.nodup_append.mpr ⟨sound.nodup, List.nodup_singleton key, by
      rintro _ member _ isNew rfl
      exact absent (List.mem_singleton.mp isNew ▸ member)⟩
  · intro other
    by_cases same : other = key
    · subst same
      simp [Registry.enlist]
    · simp [Registry.enlist, same, sound.mem_iff]
  · simp only [Registry.enlist, List.length_append, List.length_singleton]
    omega
  · intro host'
    have older := sound.perHost host'
    rw [countAt, Registry.enlist, List.countP_append, countP_atHost_update _ fun member =>
      absurd member absent, List.countP_singleton, ← countAt]
    by_cases same : host = host'
    · subst same
      simp only [atHost, Function.update_self]
      split <;> omega
    · simpa [atHost, same] using older
  · intro other entry peer found isOpen known
    by_cases same : other = key
    · subst same
      simp only [Registry.enlist, Function.update_self, Option.some.injEq] at found
      subst found
      cases known
    · rw [enlist_entry, Function.update_of_ne same] at found
      exact sound.met other entry peer found isOpen known

theorem Sound.greet {registry : Registry κ η π ι} (sound : registry.Sound idOf Fits) {key : κ}
    {entry : Entry η π} {peer : π} (found : registry.entry key = some entry) (fits : Fits peer)
    (free : ∀ other known, registry.byId (idOf peer) = some other → other ≠ key →
      registry.entry other = some known → known.closed = true) :
    (registry.greet idOf key entry peer).Sound idOf Fits := by
  refine ⟨sound.nodup, ?_, sound.total, ?_, ?_⟩
  · intro other
    by_cases same : other = key
    · subst same
      simp [Registry.greet, sound.mem_iff, found]
    · simp [Registry.greet, same, sound.mem_iff]
  · intro host
    rw [countAt, greet_entry,
      countP_atHost_update { entry with peer := some peer } fun _ => ⟨entry, found, rfl⟩]
    exact sound.perHost host
  · intro other known peer' found' isOpen knows
    by_cases same : other = key
    · subst same
      simp only [Registry.greet, Function.update_self, Option.some.injEq] at found'
      subst found'
      cases knows
      exact ⟨fits, Function.update_self _ _ _⟩
    · rw [greet_entry, Function.update_of_ne same] at found'
      obtain ⟨fits', named⟩ := sound.met other known peer' found' isOpen knows
      refine ⟨fits', ?_⟩
      -- Another open connection with the ID would have stood in the way.
      have different : idOf peer' ≠ idOf peer := by
        intro sameId
        rw [free other known (sameId ▸ named) same found'] at isOpen
        cases isOpen
      rw [greet_byId, Function.update_of_ne different, named]

theorem Sound.close {registry : Registry κ η π ι} (sound : registry.Sound idOf Fits) {key : κ}
    {entry : Entry η π} (found : registry.entry key = some entry) :
    (registry.close idOf key entry).Sound idOf Fits := by
  have shorter := List.erase_sublist (a := key) (l := registry.connections)
  refine ⟨sound.nodup.erase key, ?_, shorter.length_le.trans sound.total, ?_, ?_⟩
  · intro other
    rw [Registry.close, sound.nodup.mem_erase_iff]
    by_cases same : other = key
    · subst same
      simp
    · simp [same, sound.mem_iff]
  · intro host
    have older := sound.perHost host
    rw [countAt, ← countP_atHost_update { entry with closed := true } fun _ => ⟨entry, found, rfl⟩]
      at older
    exact shorter.countP_le.trans older
  · intro other known peer found' isOpen knows
    by_cases same : other = key
    · subst same
      simp only [Registry.close, Function.update_self, Option.some.injEq] at found'
      subst found'
      cases isOpen
    · rw [close_entry, Function.update_of_ne same] at found'
      obtain ⟨fits, named⟩ := sound.met other known peer found' isOpen knows
      exact ⟨fits, forget_eq named same entry.peer⟩

/-- **Every change keeps a registry sound.** -/
theorem Sound.moves {registry after : Registry κ η π ι} (sound : registry.Sound idOf Fits)
    (moves : Moves idOf Fits registry after) : after.Sound idOf Fits := by
  cases moves with
  | enlist unknown room hostRoom => exact sound.enlist unknown room hostRoom
  | greet found fits free => exact sound.greet found fits free
  | close found _ => exact sound.close found

/-- **A run of changes keeps a registry sound.** -/
theorem Sound.runs {registry after : Registry κ η π ι} (sound : registry.Sound idOf Fits)
    (run : Relation.ReflTransGen (Moves idOf Fits) registry after) : after.Sound idOf Fits := by
  induction run with
  | refl => exact sound
  | tail _ moves ih => exact ih.moves moves

end Registry
