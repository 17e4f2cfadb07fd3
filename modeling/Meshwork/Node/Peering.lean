import Meshwork.Node.Send

/-!
# Getting to know and reaching other nodes

An announcement fills the entry of a node, a link is opened when a node registers or one of its
modules is to be reached, and a center introduces its nodes to each other.
-/

namespace Meshwork.Node

/-- Makes sure there is a link to a node; `none` if there is none and none can be opened. -/
def dial (n : Node) (id : NodeId) : Option Node :=
  match n.roster.get? id with
  | none => none
  | some peer =>
    if peer.Linked then some n
    else if peer.state = .handshaking then none
    else
      match peer.address.endpoint? with
      | none => none
      | some endpoint =>
        if !n.links.hasRoom then none
        else
          let (conn, links) := n.links.nextId
          match links.insert (n.newLink conn) (some id) with
          | .error _ => none
          | .ok (_, links) =>
            let n := { n with
              links
              roster := (n.roster.attach id conn .connecting).noteSent id n.now }
            some (n.emit (.connect conn endpoint))

/-- Reports a module as started, once, if its node can be reached. The reserved node is this one. -/
def reach (n : Node) (name : String) (handle : Handle) : Node :=
  let id := if handle.node.Assigned then handle.node else n.self
  let handle := handle.withNode id
  if ¬ n.roster.Contains id then n
  else
    match if id = n.self then some n else n.dial id with
    | none => n
    | some n =>
      if n.roster.CanBind id handle then
        let address := ((n.roster.get? id).map (·.address)).getD {}
        let n := { n with roster := n.roster.bind id handle }
        n.emit (.report (.started name handle address))
      else n

/-- A node that is not linked registers: its entry is filled and it is dialled. -/
def enroll (n : Node) (a : Announcement) : Node :=
  if a.id = n.self then n
  else
    match n.roster.get? a.id with
    | none => n
    | some peer =>
      if peer.Linked ∨ peer.state = .handshaking then n
      else
        let n := { n with roster := n.roster.update a.id a.address a.handle }
        (n.dial a.id).getD n

/-- Fills the entry of another node and opens no link. -/
def noteAddress (n : Node) (a : Announcement) : Node :=
  if a.id = n.self then n else { n with roster := n.roster.update a.id a.address a.handle }

def linkedBesides (n : Node) (id : NodeId) : List Announcement :=
  n.roster.others.filterMap fun (other, peer) =>
    if other ≠ id ∧ peer.Linked then peer.handle.map fun h => ⟨other, peer.address, h⟩ else none

/-- Tells a node and each other linked node where the other one is. Only a center does so. -/
def introduce (loop : Loopback) (n : Node) (id : NodeId) : Node :=
  match n.role, n.roster.get? id with
  | .center _, some peer =>
    match peer.handle with
    | some handle =>
      if peer.Linked then
        (n.linkedBesides id).foldl
          (fun n other =>
            (n.tell loop other.handle (.address ⟨id, peer.address, handle⟩)).tell loop handle
              (.address other))
          n
      else n
    | none => n
  | _, _ => n

end Meshwork.Node
