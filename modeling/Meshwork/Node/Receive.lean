import Meshwork.Node.Names

/-!
# Receiving

What a node does with a frame that arrives. The answer to a request may go to the node itself, and
then arrives within the handling of the request; such an answer asks for nothing further, so one
level of this is all there is.
-/

namespace Meshwork.Node

/-- Handles a control command. `loop` receives what the node sends to itself meanwhile. -/
def obey (loop : Loopback) (n : Node) : Command → Node
  | .register a => n.enroll a
  | .address a => n.noteAddress a
  | .broadcast id => n.introduce loop id
  | .subscribe name =>
    match n.subscribe loop name with
    | .ok n => n
    | .error _ => n
  | .publish name handle =>
    match n.publish loop name handle with
    | .ok (_, n) => n
    | .error _ => n
  | .handle name handle => n.reach name handle
  | .handles name handles =>
    let n := n.emit (.report (.batchBegin name))
    let n := handles.foldl (fun n handle => n.reach name handle) n
    n.emit (.report (.batchEnd name))
  | .heartbeat => n
  -- Nodes leave by telling the directory, not each other.
  | .unregister _ => n

def receiveWith (loop : Loopback) (n : Node) (frame : Frame) : Node :=
  match n.routing.classify frame with
  | .control _ c => n.obey loop c
  | .request source c => n.serve loop source.node c
  | .deliver delivery => n.emit (.deliver delivery)
  | .dropped => n

/-- Receives a frame that the node sent to itself while it handled another one. -/
def receiveOwn : Loopback := receiveWith fun n _ => n

def receive : Loopback := receiveWith receiveOwn

end Meshwork.Node
