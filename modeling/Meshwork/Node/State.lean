import Meshwork.Catalog
import Meshwork.Fault
import Meshwork.Interests
import Meshwork.Registry
import Meshwork.Roster
import Meshwork.Routing

/-!
# The state of a node

A node holds its roster, its links, its interests and, on a center, the registry. What it does to
the outside it writes down as effects, in order: the outside opens connections, carries the frames,
and reports back with events.
-/

namespace Meshwork

/-- The center as the last greeting named it. -/
structure CenterLink where
  node : NodeId
  directory : Handle
deriving DecidableEq, Repr

inductive Role where
  | center (registry : Registry)
  | member (center : Option CenterLink)
deriving DecidableEq, Repr

inductive Effect where
  | deliver (delivery : Delivery)
  | report (event : ModuleEvent)
  | connect (conn : ConnId) (endpoint : Endpoint)
  /-- A connection that is open already becomes a link; `pending` was read from it before. -/
  | adopt (conn : ConnId) (pending : List UInt8)
  | shakeHands (endpoint : String)
  | queued (conn : ConnId) (frame : Frame)
deriving DecidableEq, Repr

structure Node where
  profile : Profile
  roster : Roster
  links : Links
  interests : Interests := {}
  role : Role
  catalog : Catalog
  now : Nat
  /-- Links that refused a frame and will be closed, oldest first. -/
  refused : List (ConnId × CloseReason) := []
  handshakes : Nat := 0
  effects : List Effect := []

namespace Node

def self (n : Node) : NodeId := n.roster.self

def meshHandle (n : Node) : Handle := ⟨n.self, meshModule⟩

def wire (n : Node) : Wire := .ofRequest n.profile.maxPayload

def registry? (n : Node) : Option Registry :=
  match n.role with
  | .center registry => some registry
  | .member _ => none

def center? (n : Node) : Option CenterLink :=
  match n.role with
  | .center _ => none
  | .member center => center

def routing (n : Node) : Routing := { self := n.self, isCenter := n.registry?.isSome }

def emit (n : Node) (e : Effect) : Node := { n with effects := n.effects ++ [e] }

def moduleEvents (n : Node) : List ModuleEvent :=
  n.effects.filterMap fun
    | .report e => some e
    | _ => none

def queuedOn (n : Node) (conn : ConnId) : List Frame :=
  n.effects.filterMap fun
    | .queued c f => if c = conn then some f else none
    | _ => none

def newLink (n : Node) (conn : ConnId) : Link := .ofBound conn n.profile.writeQueueFrames

end Node

end Meshwork
