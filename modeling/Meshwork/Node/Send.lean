import Meshwork.Node.State

/-!
# Sending

A frame for another node is queued on the link to it. A frame for a module of this node takes a
short cut: it is handed to `loop`, which stands for what the node does with a frame that arrives.
-/

namespace Meshwork

/-- What becomes of a frame that a node sends to itself. -/
abbrev Loopback := Node → Frame → Node

namespace Node

/-- Queues a frame on the link to a node. A link that refuses it counts as sent to, and is closed in
its turn. -/
def sendOver (n : Node) (id : NodeId) (frame : Frame) : Except Fault Node :=
  match n.roster.get? id with
  | none => .error (.invalidNode id)
  | some peer =>
    match peer.liveLink? with
    | none => .error (.notConnected id)
    | some conn =>
      match n.links.get? conn with
      | none => .error (.notConnected id)
      | some record =>
        match n.wire.encode frame with
        | .error e => .error (.wire e)
        | .ok bytes =>
          match record.link.send bytes with
          | .error reason => .ok { n with refused := n.refused ++ [(conn, reason)] }
          | .ok link =>
            let n := { n with
              links := n.links.modify conn fun _ => link
              roster := n.roster.noteSent id n.now }
            .ok (n.emit (.queued conn frame))

/-- Sends a frame from a module of this node; whatever node the source names, it is this one. -/
def post (loop : Loopback) (n : Node) (source dest : Handle) (kind : UInt8) (payload : List UInt8) :
    Except Fault Node :=
  let frame : Frame := { source := source.withNode n.self, dest := dest.moduleId, kind, payload }
  match n.routing.destination dest with
  | .here _ =>
    if n.wire.maxPayload < payload.length then
      .error (.wire (.payloadTooLarge payload.length n.wire.maxPayload))
    else .ok (loop n frame)
  | .node id => n.sendOver id frame

def command (loop : Loopback) (n : Node) (dest : Handle) (c : Command) : Except Fault Node :=
  n.post loop n.meshHandle dest textKind c.payload

def tell (loop : Loopback) (n : Node) (dest : Handle) (c : Command) : Node :=
  match n.command loop dest c with
  | .ok n => n
  | .error _ => n

end Node

end Meshwork
