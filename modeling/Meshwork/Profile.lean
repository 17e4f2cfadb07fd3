import Meshwork.Frame.Wire

/-!
# The profile of a node

What a node is started with. `Profile.flaw?` finds the first thing that makes a start impossible.
-/

namespace Meshwork

inductive CenterSite where
  | here
  | remote (endpoint : String)
deriving DecidableEq, Repr

structure Profile where
  nodeId : NodeId := ⟨1⟩
  address : Address := { nodeHost := "127.0.0.1", nodePort := 7100 }
  center : CenterSite := .here
  heartbeatSecs : Nat := 10
  tickMicros : Nat := 1000000
  maxNodes : Nat := 256
  maxConnections : Nat := 1024
  maxPayload : Nat := payloadLimit
  connectTimeoutMs : Nat := 3000
  handshakeTimeoutMs : Nat := 3000
  writeQueueFrames : Nat := 4096
deriving DecidableEq, Repr

def nodeLimit : Nat := 256

/-- A heartbeat interval in seconds, kept between 3 and 30. -/
def clampHeartbeat (secs : Nat) : Nat := min 30 (max 3 secs)

inductive ProfileFlaw where
  | maxNodes (found : Nat)
  | nodeId (id : NodeId) (size : Nat)
  | maxConnections
  | maxPayload (found : Nat)
  | tickInterval
  | centerEndpoint
deriving DecidableEq, Repr

def ProfileFlaw.message : ProfileFlaw → String
  | maxNodes found =>
    "max_nodes must be in 2..=" ++ Numeral.decimal nodeLimit ++ ", got " ++ Numeral.decimal found
  | nodeId id size =>
    "node id " ++ Numeral.decimal id.index ++ " out of range 1.." ++ Numeral.decimal size
  | maxConnections => "max_connections must be positive"
  | maxPayload found =>
    "max_payload must be in 1..=" ++ Numeral.decimal payloadLimit ++ ", got " ++
      Numeral.decimal found
  | tickInterval => "tick_interval must be positive"
  | centerEndpoint => "center address is empty"

namespace Profile

def heartbeatInterval (p : Profile) : Nat := clampHeartbeat p.heartbeatSecs

/-- The endpoint of the center, if that is another node. -/
def centerEndpoint? (p : Profile) : Option String :=
  match p.center with
  | .here => none
  | .remote endpoint => some endpoint

def flaw? (p : Profile) : Option ProfileFlaw :=
  if p.maxNodes < 2 ∨ nodeLimit < p.maxNodes then some (.maxNodes p.maxNodes)
  else if ¬ p.nodeId.Assigned ∨ p.maxNodes ≤ p.nodeId.index then some (.nodeId p.nodeId p.maxNodes)
  else if p.maxConnections = 0 then some .maxConnections
  else if p.maxPayload = 0 ∨ payloadLimit < p.maxPayload then some (.maxPayload p.maxPayload)
  else if p.tickMicros = 0 then some .tickInterval
  else if p.center = .remote "" then some .centerEndpoint
  else none

end Profile

end Meshwork
