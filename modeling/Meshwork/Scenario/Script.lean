import Meshwork.Node.Step

/-!
# Scripts

A scenario is the life of one node in a network that does what a script says. All hosts are the
local one: the node listens on a port of its own, and the peers and the center on the ports above
`scriptPort`.
-/

namespace Meshwork

structure CenterReply where
  data : List UInt8 := []
  closes : Bool := false
  waitMs : Nat := 0
deriving DecidableEq, Repr

inductive Scenario.Step where
  -- What the owner of the node asks of it.
  | call (request : Request)
  | peer (id : NodeId)
  | peers
  | directory
  | shutdown
  | install (name : String) (moduleId : UInt8)
  | uninstall (name : String)
  -- What the peers do. Pieces of data arrive one after the other.
  | connect (label : String)
  | receive (label : String) (pieces : List (List UInt8))
  | drop (label : String)
  | listen (peer : Nat)
  | unlisten (peer : Nat)
  -- What the center does.
  | reply (reply : CenterReply)
  | centerWrites (data : List UInt8)
  | centerCloses
  | advance (ms : Nat)

structure Scenario where
  profile : Profile
  catalog : Catalog := {}
  listening : List Nat := []
  reply : CenterReply := {}
  steps : List Scenario.Step := []

namespace Scenario

def localHost : String := "127.0.0.1"

def nodePort : UInt16 := 19999

/-- The port of the center. The peer of number `k` is `k` ports above it. -/
def scriptPort : Nat := 20000

def centerEndpoint : Endpoint := ⟨localHost, UInt16.ofNat scriptPort⟩

def peerAt? (listening : List Nat) (e : Endpoint) : Option Nat :=
  listening.find? fun k => e.host = localHost ∧ e.port.toNat = scriptPort + k

end Scenario

end Meshwork
