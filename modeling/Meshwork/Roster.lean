import Meshwork.Links

/-!
# The roster of a node

What a node knows about each node of the cluster, itself included. There is an entry for every id
below a fixed size, and entries are changed in place, never removed. Id zero names no node, so its
entry is never used.
-/

namespace Meshwork

inductive LinkState where
  | empty | handshaking | connecting | established
deriving DecidableEq, Repr, Inhabited

/-- The entry of one node. Times are in milliseconds. -/
structure Peer where
  state : LinkState := .empty
  link : Option ConnId := none
  handle : Option Handle := none
  address : Address := {}
  lastSent : Option Nat := none
  bound : List Handle := []
deriving DecidableEq, Repr, Inhabited

namespace Peer

/-- The link that frames for the node are queued on: it is there, or being opened. -/
def liveLink? (p : Peer) : Option ConnId :=
  match p.state with
  | .connecting | .established => p.link
  | .empty | .handshaking => none

def Linked (p : Peer) : Prop := p.liveLink?.isSome

instance (p : Peer) : Decidable p.Linked := inferInstanceAs (Decidable (_ = _))

def Established (p : Peer) : Prop := p.state = .established

instance (p : Peer) : Decidable p.Established := inferInstanceAs (Decidable (_ = _))

def IdleFor (p : Peer) (now interval : Nat) : Prop := ∀ t ∈ p.lastSent, interval ≤ now - t

instance (p : Peer) (now interval : Nat) : Decidable (p.IdleFor now interval) :=
  match h : p.lastSent with
  | none => isTrue (by simp [IdleFor, h])
  | some t => decidable_of_iff (interval ≤ now - t) (by simp [IdleFor, h])

/-- Forgets the link and what was known through it. The address stays, so that the node can be
reached again. -/
def detached (p : Peer) : Peer := { address := p.address }

end Peer

structure Roster where
  self : NodeId
  peers : Array Peer

namespace Roster

/-- A roster in which only the own address is known. A node id has eight bits, so more than 256
entries are never made. -/
def ofSize (n : Nat) (self : NodeId) (address : Address) : Roster where
  self
  peers := (Array.replicate (min n 256) {}).modify self.index fun p => { p with address }

def size (r : Roster) : Nat := r.peers.size

def Contains (r : Roster) (id : NodeId) : Prop := id.Assigned ∧ id.index < r.peers.size

instance (r : Roster) (id : NodeId) : Decidable (r.Contains id) :=
  inferInstanceAs (Decidable (_ ∧ _))

def get? (r : Roster) (id : NodeId) : Option Peer :=
  if r.Contains id then r.peers[id.index]? else none

def modify (r : Roster) (id : NodeId) (f : Peer → Peer) : Roster :=
  if r.Contains id then { r with peers := r.peers.modify id.index f } else r

/-- The own entry, even if the own id is zero; `none` if the roster is too small for it. -/
def me? (r : Roster) : Option Peer := r.peers[r.self.index]?

def setOwnHandle (r : Roster) (handle : Handle) : Roster :=
  { r with peers := r.peers.modify r.self.index fun p => { p with handle := some handle } }

def others (r : Roster) : List (NodeId × Peer) :=
  (r.peers.toList.zipIdx.drop 1).filterMap fun (p, i) =>
    if NodeId.ofNat i = r.self then none else some (NodeId.ofNat i, p)

def update (r : Roster) (id : NodeId) (address : Address) (handle : Handle) : Roster :=
  r.modify id fun p => { p with address, handle := some handle }

def attach (r : Roster) (id : NodeId) (link : ConnId) (state : LinkState) : Roster :=
  r.modify id fun p => { p with link := some link, state }

def detach (r : Roster) (id : NodeId) : Roster := r.modify id Peer.detached

/-- The module can be recorded as started on the node: it has an entry, and the module is not in it
yet. -/
def CanBind (r : Roster) (id : NodeId) (handle : Handle) : Prop :=
  ∃ p ∈ r.get? id, handle ∉ p.bound

instance (r : Roster) (id : NodeId) (handle : Handle) : Decidable (r.CanBind id handle) :=
  match h : r.get? id with
  | none => isFalse (by simp [CanBind, h])
  | some p => decidable_of_iff (handle ∉ p.bound) (by simp [CanBind, h])

def bind (r : Roster) (id : NodeId) (handle : Handle) : Roster :=
  if r.CanBind id handle then r.modify id fun p => { p with bound := p.bound ++ [handle] } else r

def noteSent (r : Roster) (id : NodeId) (now : Nat) : Roster :=
  r.modify id fun p => { p with lastSent := some now }

/-- The other nodes that are due a sign of life: established, with a known handle, and idle. -/
def due (r : Roster) (now interval : Nat) : List (NodeId × Handle) :=
  r.others.filterMap fun (id, p) =>
    match p.handle with
    | some handle => if p.Established ∧ p.IdleFor now interval then some (id, handle) else none
    | none => none

end Roster

end Meshwork
