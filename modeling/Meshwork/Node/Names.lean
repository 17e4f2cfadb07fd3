import Meshwork.Node.Peering

/-!
# Publishing and subscribing

A request goes to the center, which may be the node itself, and is remembered, so that a request
that does not get through is made up for by the next handshake.
-/

namespace Meshwork.Node

def forget (n : Node) (id : NodeId) : Node :=
  match n.role with
  | .center registry => { n with role := .center (registry.forget id) }
  | .member _ => n

/-- Carries out what the registry asks for. The entries of a node that is linked are kept. -/
def carryOut (loop : Loopback) (n : Node) : RegistryEffect → Node
  | .register a => n.enroll a
  | .broadcast id => n.introduce loop id
  | .send node c => n.tell loop ⟨node, meshModule⟩ c
  | .left id => if ∃ peer ∈ n.roster.get? id, peer.Linked then n else n.forget id

def serve (loop : Loopback) (n : Node) (source : NodeId) (c : Command) : Node :=
  match n.role with
  | .center registry =>
    let (registry, effects) := registry.request source c
    effects.foldl (carryOut loop) { n with role := .center registry }
  | .member _ => n

def ask (loop : Loopback) (n : Node) (c : Command) : Except Fault Node :=
  match n.role with
  | .center _ => .ok (n.serve loop n.self c)
  | .member none => .error CenterTrouble.unknown.fault
  | .member (some center) => n.command loop center.directory c

def askIfPossible (loop : Loopback) (n : Node) (c : Command) : Node :=
  match n.ask loop c with
  | .ok n => n
  | .error _ => n

/-- Asks for the publishers of a name. A local module of that name is reported at once. -/
def request (loop : Loopback) (n : Node) (name : String) : Node :=
  let n :=
    match n.catalog.find? name with
    | some moduleId => n.reach name ⟨n.self, moduleId⟩
    | none => n
  n.askIfPossible loop (.subscribe name)

def subscribe (loop : Loopback) (n : Node) (name : String) : Except Fault Node :=
  if ¬ ValidName name then .error (.invalidName name)
  else if n.interests.Wants name then .ok n
  else .ok ({ n with interests := n.interests.want name }.request loop name)

/-- The first publication of a name is remembered and sent. All of them answer with the handle of
the first. -/
def publish (loop : Loopback) (n : Node) (name : String) (handle : Handle) :
    Except Fault (Handle × Node) :=
  if ¬ ValidName name then .error (.invalidName name)
  else
    match n.interests.offered? name with
    | some first => .ok (first, n)
    | none =>
      let handle := handle.withNode n.self
      let n := { n with interests := n.interests.offer name handle }
      .ok (handle, n.askIfPossible loop (.publish name handle))

end Meshwork.Node
