import Meshwork.Command.Basic

/-!
# The registry of a center

Who publishes and who subscribes to which name. A request is answered by effects, which the center
carries out in order: a subscriber is told the publishers it missed, and from then on each new one.
-/

namespace Meshwork

/-- What a center has to do about a request. -/
inductive RegistryEffect where
  | register (node : Announcement)
  | broadcast (id : NodeId)
  | send (node : NodeId) (command : Command)
  | left (id : NodeId)
deriving DecidableEq, Repr

abbrev Listing (α : Type) := List (String × List α)

namespace Listing

variable {α : Type}

/-- The list of a name, empty if the name has none. -/
def under : Listing α → String → List α
  | [], _ => []
  | (key, list) :: rest, name => if key = name then list else under rest name

/-- Enters an element at the end of the list of a name. No element is entered twice. -/
def enter [DecidableEq α] : Listing α → String → α → Listing α
  | [], name, a => [(name, [a])]
  | (key, list) :: rest, name, a =>
    if key = name then (key, if a ∈ list then list else list ++ [a]) :: rest
    else (key, list) :: enter rest name a

def keep (lists : Listing α) (p : α → Bool) : Listing α :=
  (lists.map fun (name, list) => (name, list.filter p)).filter fun (_, list) => list ≠ []

end Listing

/-- Each list is in the order in which its elements were entered. -/
structure Registry where
  publishers : Listing Handle := []
  subscribers : Listing NodeId := []
deriving DecidableEq, Repr

namespace Registry

def publishersOf (r : Registry) (name : String) : List Handle := r.publishers.under name

def subscribersOf (r : Registry) (name : String) : List NodeId := r.subscribers.under name

/-- Tells all handles of a name: one has a form of its own. -/
def tell (name : String) : List Handle → Command
  | [only] => .handle name only
  | all => .handles name all

def subscribe (r : Registry) (source : NodeId) (name : String) : Registry × List RegistryEffect :=
  ({ r with subscribers := r.subscribers.enter name source },
    [.send source (tell name (r.publishersOf name))])

def publish (r : Registry) (name : String) (handle : Handle) : Registry × List RegistryEffect :=
  if handle ∈ r.publishersOf name then (r, [])
  else
    ({ r with publishers := r.publishers.enter name handle },
      (r.subscribersOf name).map fun id => .send id (.handle name handle))

def request (r : Registry) (source : NodeId) : Command → Registry × List RegistryEffect
  | .register node => (r, [.register node, .broadcast node.id])
  | .subscribe name => r.subscribe source name
  | .publish name handle => r.publish name handle
  | .unregister id => (r, [.left id])
  | .address _ | .broadcast _ | .handle .. | .handles .. | .heartbeat => (r, [])

def forget (r : Registry) (id : NodeId) : Registry where
  publishers := r.publishers.keep fun handle => handle.node ≠ id
  subscribers := r.subscribers.keep fun node => node ≠ id

def byName {α : Type} (lists : Listing α) : Listing α := lists.mergeSort fun a b => a.1 ≤ b.1

end Registry

end Meshwork
