import Meshwork.Catalog
import Meshwork.Command.Parser
import Meshwork.Frame.Basic

/-!
# Where frames go

A handle that is sent to names a module of this node or a node to pass the frame on to. A frame that
arrives is a control command, a request to the directory of a center, or for a local module. Text
for the mesh endpoint that is no command is dropped, and so is text for module zero, which is a
greeting on a link that expects none.
-/

namespace Meshwork

inductive Destination where
  | here (moduleId : UInt8)
  | node (id : NodeId)
deriving DecidableEq, Repr

inductive Arrival where
  | control (source : Handle) (command : Command)
  | request (source : Handle) (command : Command)
  | deliver (delivery : Delivery)
  | dropped
deriving DecidableEq, Repr

structure Routing where
  self : NodeId
  isCenter : Bool
deriving DecidableEq, Repr

namespace Routing

/-- The reserved node stands for the node that reads the handle. -/
def destination (r : Routing) (dest : Handle) : Destination :=
  if dest.node.Assigned ∧ dest.node ≠ r.self then .node dest.node else .here dest.moduleId

def delivery (f : Frame) : Delivery :=
  { source := f.source, dest := f.dest, kind := f.kind, payload := f.payload }

def classify (r : Routing) (f : Frame) : Arrival :=
  if f.kind ≠ textKind then .deliver (delivery f)
  else if f.dest = meshModule then
    match Command.parse f.payload with
    | .ok command => .control f.source command
    | .error _ => .dropped
  else if f.dest = centerModule ∧ r.isCenter then
    match Command.parse f.payload with
    | .ok command => .request f.source command
    | .error _ => .dropped
  else if f.dest = 0 then .dropped
  else .deliver (delivery f)

end Routing

end Meshwork
