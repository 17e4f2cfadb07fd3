import Meshwork.Datum
import Meshwork.Settings.Basic
import Meshwork.Toml.Document

/-!
# Reading settings

A file need not say everything: tables and fields that are missing have their defaults. Fields that
no setting has are passed over.
-/

namespace Meshwork

inductive LoadError where
  | notText
  | malformed
deriving DecidableEq, Repr

namespace Settings

variable (format : SettingsFormat)

def nodeOf? (d : Datum) : Option NodeSettings := do
  let fs ← d.fields? format ["id", "node_host", "node_port", "gate_host", "gate_port", "wan_host"]
  let s : NodeSettings := {}
  return {
    id := ⟨← fieldOr? fs "id" Datum.uint8? s.id.val⟩
    address := {
      nodeHost := ← fieldOr? fs "node_host" Datum.text? s.address.nodeHost
      nodePort := ← fieldOr? fs "node_port" Datum.uint16? s.address.nodePort
      gateHost := ← fieldOr? fs "gate_host" Datum.text? s.address.gateHost
      gatePort := ← fieldOr? fs "gate_port" Datum.uint16? s.address.gatePort
      wanHost := ← fieldOr? fs "wan_host" Datum.text? s.address.wanHost } }

def centerOf? (d : Datum) : Option CenterSettings := do
  let fs ← d.fields? format ["host", "port", "host_center"]
  let s : CenterSettings := {}
  return {
    host := ← fieldOr? fs "host" Datum.text? s.host
    port := ← fieldOr? fs "port" Datum.uint16? s.port
    isHere := ← fieldOr? fs "host_center" Datum.flag? s.isHere }

def meshOf? (d : Datum) : Option MeshSettings := do
  let fs ← d.fields? format
    ["heartbeat_secs", "tick_interval_ms", "max_nodes", "max_connections", "max_payload",
      "connect_timeout_ms", "handshake_timeout_ms", "write_queue_frames"]
  let s : MeshSettings := {}
  let count (name : String) (default : Nat) := fieldOr? fs name Datum.count? default
  return {
    heartbeatSecs := ← count "heartbeat_secs" s.heartbeatSecs
    tickMs := ← count "tick_interval_ms" s.tickMs
    maxNodes := ← count "max_nodes" s.maxNodes
    maxConnections := ← count "max_connections" s.maxConnections
    maxPayload := ← count "max_payload" s.maxPayload
    connectTimeoutMs := ← count "connect_timeout_ms" s.connectTimeoutMs
    handshakeTimeoutMs := ← count "handshake_timeout_ms" s.handshakeTimeoutMs
    writeQueueFrames := ← count "write_queue_frames" s.writeQueueFrames }

def publishedOf? (d : Datum) : Option PublishedModule := do
  let fs ← d.fields? format ["name", "id"]
  return ⟨← field? fs "name" Datum.text?, ← field? fs "id" Datum.uint8?⟩

def modulesOf? (d : Datum) : Option ModuleSettings := do
  let fs ← d.fields? format ["publish", "subscribe"]
  return {
    publish := ← fieldOr? fs "publish" (Datum.listOf? (publishedOf? format)) []
    subscribe := ← fieldOr? fs "subscribe" (Datum.listOf? Datum.text?) [] }

def loggingOf? (d : Datum) : Option LogSettings := do
  let fs ← d.fields? format ["level", "json_format"]
  let s : LogSettings := {}
  return {
    level := ← fieldOr? fs "level" Datum.text? s.level
    asJson := ← fieldOr? fs "json_format" Datum.flag? s.asJson }

def ofDatum? (d : Datum) : Option Settings := do
  let fs ← d.fields? format ["node", "center", "mesh", "modules", "logging"]
  return {
    node := ← fieldOr? fs "node" (nodeOf? format) {}
    center := ← fieldOr? fs "center" (centerOf? format) {}
    mesh := ← fieldOr? fs "mesh" (meshOf? format) {}
    modules := ← fieldOr? fs "modules" (modulesOf? format) {}
    logging := ← fieldOr? fs "logging" (loggingOf? format) {} }

def ofToml (bytes : List UInt8) : Except LoadError Settings :=
  match Text.ofUtf8? bytes with
  | none => .error .notText
  | some text =>
    match (Datum.ofToml? text).bind (ofDatum? .toml) with
    | none => .error .malformed
    | some s => .ok s

end Settings

end Meshwork
