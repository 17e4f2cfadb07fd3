import Meshwork.Command.Basic
import Meshwork.Profile

/-!
# Settings of a node

What a settings file says about a node, and the profile that the node is started with.
`Settings.flaw?` finds the first setting that cannot be accepted.
-/

namespace Meshwork

structure NodeSettings where
  id : NodeId := ⟨1⟩
  address : Address := { nodeHost := "127.0.0.1", nodePort := 7100 }
deriving DecidableEq, Repr

structure CenterSettings where
  host : String := "127.0.0.1"
  port : UInt16 := 7100
  isHere : Bool := true
deriving DecidableEq, Repr

structure MeshSettings where
  heartbeatSecs : Nat := 10
  tickMs : Nat := 1000
  maxNodes : Nat := nodeLimit
  maxConnections : Nat := 1024
  maxPayload : Nat := payloadLimit
  connectTimeoutMs : Nat := 3000
  handshakeTimeoutMs : Nat := 3000
  writeQueueFrames : Nat := 4096
deriving DecidableEq, Repr

structure PublishedModule where
  name : String
  moduleId : UInt8
deriving DecidableEq, Repr

structure ModuleSettings where
  publish : List PublishedModule := []
  subscribe : List String := []
deriving DecidableEq, Repr

structure LogSettings where
  level : String := "info"
  asJson : Bool := false
deriving DecidableEq, Repr

structure Settings where
  node : NodeSettings := {}
  center : CenterSettings := {}
  mesh : MeshSettings := {}
  modules : ModuleSettings := {}
  logging : LogSettings := {}
deriving DecidableEq, Repr

def logLevels : List String := ["trace", "debug", "info", "warn", "error"]

inductive SettingsFlaw where
  | maxNodes (found : Nat)
  | nodeId (id : NodeId) (size : Nat)
  | center
  | maxPayload (found : Nat)
  | tickInterval
  | limits
  | moduleName (name : String)
  | reservedModule (name : String) (id : UInt8)
  | subscription (name : String)
  | logLevel (level : String)
deriving DecidableEq, Repr

def SettingsFlaw.message : SettingsFlaw → String
  | maxNodes found =>
    "max_nodes must be between 2 and " ++ Numeral.decimal nodeLimit ++ ", got " ++
      Numeral.decimal found
  | nodeId id size =>
    "Node id " ++ Numeral.decimal id.index ++ " out of range 1.." ++ Numeral.decimal size
  | center => "Center host and port are required unless host_center is set"
  | maxPayload found =>
    "max_payload must be between 1 and " ++ Numeral.decimal payloadLimit ++ ", got " ++
      Numeral.decimal found
  | tickInterval => "tick_interval_ms cannot be zero"
  | limits => "max_connections and write_queue_frames must be positive"
  | moduleName name => "Invalid module name: " ++ Quoted.encode name
  | reservedModule name id => "Module " ++ name ++ " uses reserved id " ++ Numeral.decimal id.toNat
  | subscription name => "Invalid subscription name: " ++ Quoted.encode name
  | logLevel level =>
    "Invalid log level: " ++ level ++ ". Must be one of: [" ++
      ", ".intercalate (logLevels.map Quoted.encode) ++ "]"

/-- A module may not have an id that the mesh itself answers at. -/
def PublishedModule.flaw? (m : PublishedModule) : Option SettingsFlaw :=
  if ¬ ValidName m.name ∨ m.name = centerName then some (.moduleName m.name)
  else if m.moduleId = 0 ∨ m.moduleId = meshModule ∨ m.moduleId = centerModule then
    some (.reservedModule m.name m.moduleId)
  else none

namespace Settings

def hasCenter (c : CenterSettings) : Prop := c.isHere = true ∨ c.host ≠ "" ∧ c.port ≠ 0

instance (c : CenterSettings) : Decidable (hasCenter c) :=
  inferInstanceAs (Decidable (_ ∨ _))

def flaw? (s : Settings) : Option SettingsFlaw :=
  if s.mesh.maxNodes < 2 ∨ nodeLimit < s.mesh.maxNodes then some (.maxNodes s.mesh.maxNodes)
  else if ¬ s.node.id.Assigned ∨ s.mesh.maxNodes ≤ s.node.id.index then
    some (.nodeId s.node.id s.mesh.maxNodes)
  else if ¬ hasCenter s.center then some .center
  else if s.mesh.maxPayload = 0 ∨ payloadLimit < s.mesh.maxPayload then
    some (.maxPayload s.mesh.maxPayload)
  else if s.mesh.tickMs = 0 then some .tickInterval
  else if s.mesh.maxConnections = 0 ∨ s.mesh.writeQueueFrames = 0 then some .limits
  else
    (s.modules.publish.findSome? PublishedModule.flaw?).or <|
      ((s.modules.subscribe.find? fun n => ¬ ValidName n).map .subscription).or <|
        if s.logging.level ∈ logLevels then none else some (.logLevel s.logging.level)

def centerSite (c : CenterSettings) : CenterSite :=
  if c.isHere then .here else .remote (Endpoint.text ⟨c.host, c.port⟩)

def profile (s : Settings) : Profile where
  nodeId := s.node.id
  address := s.node.address
  center := centerSite s.center
  heartbeatSecs := clampHeartbeat s.mesh.heartbeatSecs
  tickMicros := s.mesh.tickMs * 1000
  maxNodes := s.mesh.maxNodes
  maxConnections := s.mesh.maxConnections
  maxPayload := s.mesh.maxPayload
  connectTimeoutMs := s.mesh.connectTimeoutMs
  handshakeTimeoutMs := s.mesh.handshakeTimeoutMs
  writeQueueFrames := s.mesh.writeQueueFrames

end Settings

end Meshwork
