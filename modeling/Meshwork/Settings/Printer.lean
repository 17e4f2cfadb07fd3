import Meshwork.Settings.Basic

/-!
# Writing settings

A settings file in TOML, with every field in a fixed order. This is how the defaults are written
where a file is missing.
-/

namespace Meshwork.Settings

def escapeChar (c : Char) : List Char :=
  if c = '"' ∨ c = '\\' then ['\\', c]
  else if c.toNat < 0x20 ∨ c.toNat = 0x7f then '\\' :: 'u' :: (Numeral.hex4 c.toNat).toList
  else [c]

def quote (text : String) : String :=
  "\"" ++ String.ofList (text.toList.flatMap escapeChar) ++ "\""

def boolText (b : Bool) : String := if b then "true" else "false"

def listText (items : List String) : String := "[" ++ ", ".intercalate items ++ "]"

def publishedText (m : PublishedModule) : String :=
  "\x7b name = " ++ quote m.name ++ ", id = " ++ Numeral.decimal m.moduleId.toNat ++ " \x7d"

def tableText (name : String) (fields : List (String × String)) : String :=
  "[" ++ name ++ "]\n" ++ String.join (fields.map fun (key, value) => key ++ " = " ++ value ++ "\n")

def text (s : Settings) : String :=
  "\n".intercalate [
    tableText "node" [
      ("id", Numeral.decimal s.node.id.index),
      ("node_host", quote s.node.address.nodeHost),
      ("node_port", Numeral.decimal s.node.address.nodePort.toNat),
      ("gate_host", quote s.node.address.gateHost),
      ("gate_port", Numeral.decimal s.node.address.gatePort.toNat),
      ("wan_host", quote s.node.address.wanHost)],
    tableText "center" [
      ("host", quote s.center.host),
      ("port", Numeral.decimal s.center.port.toNat),
      ("host_center", boolText s.center.isHere)],
    tableText "mesh" [
      ("heartbeat_secs", Numeral.decimal s.mesh.heartbeatSecs),
      ("tick_interval_ms", Numeral.decimal s.mesh.tickMs),
      ("max_nodes", Numeral.decimal s.mesh.maxNodes),
      ("max_connections", Numeral.decimal s.mesh.maxConnections),
      ("max_payload", Numeral.decimal s.mesh.maxPayload),
      ("connect_timeout_ms", Numeral.decimal s.mesh.connectTimeoutMs),
      ("handshake_timeout_ms", Numeral.decimal s.mesh.handshakeTimeoutMs),
      ("write_queue_frames", Numeral.decimal s.mesh.writeQueueFrames)],
    tableText "modules" [
      ("publish", listText (s.modules.publish.map publishedText)),
      ("subscribe", listText (s.modules.subscribe.map quote))],
    tableText "logging" [
      ("level", quote s.logging.level),
      ("json_format", boolText s.logging.asJson)]]

end Meshwork.Settings
