import Meshwork.Greeting
import Meshwork.Links
import Meshwork.Profile

/-!
# Faults

Why a request to a node fails.
-/

namespace Meshwork

inductive Fault where
  | config (detail : String)
  | network (detail : String)
  | center (detail : String)
  | notConnected (id : NodeId)
  | invalidNode (id : NodeId)
  | invalidName (name : String)
  | wire (error : WireError)
  | slot (error : SlotError)
  | closed
deriving DecidableEq, Repr

def Fault.message : Fault → String
  | config detail => "Configuration error: " ++ detail
  | network detail => "Network error: " ++ detail
  | center detail => "Center error: " ++ detail
  | notConnected id => "Node " ++ id.text ++ " is not connected"
  | invalidNode id => "Invalid destination node " ++ id.text
  | invalidName name => "Invalid module name " ++ Quoted.encode name
  | wire error => error.message
  | slot error => error.message
  | closed => "Mesh is shut down"

inductive CenterTrouble where
  | unknown
  | connectFailed (endpoint detail : String)
  | connectTimedOut (endpoint : String)
  | silent (endpoint : String)
  | hungUp
  | noGreeting (error : CommandError)
  | invalidNode (endpoint : String) (id : NodeId)
  | noRoom
deriving DecidableEq, Repr

def CenterTrouble.message : CenterTrouble → String
  | unknown => "center is not known"
  | connectFailed endpoint detail => "connect to " ++ endpoint ++ " failed: " ++ detail
  | connectTimedOut endpoint => "connect to " ++ endpoint ++ " timed out"
  | silent endpoint => "no center entry from " ++ endpoint
  | hungUp => "center closed during handshake"
  | noGreeting error => "invalid center entry: " ++ error.message
  | invalidNode endpoint id => "center at " ++ endpoint ++ " announced invalid node id " ++ id.text
  | noRoom => "connection limit reached"

def CenterTrouble.fault (t : CenterTrouble) : Fault := .center t.message

def Greeting.ReadError.fault : Greeting.ReadError → Fault
  | wire error => .wire error
  | command error => (CenterTrouble.noGreeting error).fault

end Meshwork
