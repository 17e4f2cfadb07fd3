import Meshwork.CommandLine
import Meshwork.Settings.Printer
import Meshwork.Settings.Reader

/-!
# The command

Reads the command line and the settings file, and shows what a node is started with. A settings file
that is missing is written.
-/

namespace Meshwork

namespace CommandLine

def usage : String := "\n".intercalate [
  "Usage: meshwork [OPTIONS]",
  "",
  "Options:",
  "  -c, --config <FILE>          Settings file [default: mesh_node.toml]",
  "  -n, --node-id <ID>           Node id (1-255)",
  "  -p, --port <PORT>            Port of the mesh listener",
  "      --center-addr <ADDRESS>  HOST:PORT of the center",
  "      --center                 Be the center of the cluster",
  "  -l, --log-level <LEVEL>      trace, debug, info, warn or error",
  "      --json-logs              Write logs as JSON",
  "  -h, --help                   Show this text",
  "  -V, --version                Show the version"]

def version : String := "meshwork 0.1.0"

def Stop.message : Stop → String
  | help => usage
  | version => CommandLine.version
  | unknownArgument => "unknown argument"
  | conflict => "an option is given twice or excludes another one"
  | malformedNumber => "a value is not a number in range"
  | missingValue => "an option has no value"
  | surplusValue => "a switch has a value"

def Stop.exitCode : Stop → UInt32
  | help | version => 0
  | _ => 2

def summary (s : Settings) : List String :=
  let p := s.profile
  [ "Node id: " ++ Numeral.decimal p.nodeId.index,
    "Mesh address: " ++ Endpoint.text ⟨p.address.nodeHost, p.address.nodePort⟩,
    "Role: " ++ (match p.center with
      | .here => "center"
      | .remote endpoint => "member of " ++ endpoint),
    "Heartbeat: " ++ Numeral.decimal p.heartbeatInterval ++ "s",
    "Max connections: " ++ Numeral.decimal p.maxConnections ] ++
  s.modules.publish.map (fun m =>
    "Publishes " ++ m.name ++ " as " ++ Handle.text ⟨p.nodeId, m.moduleId⟩) ++
  s.modules.subscribe.map (fun name => "Subscribes to " ++ name)

end CommandLine

/-- The settings of a file. One that is missing is written with the defaults. -/
def Settings.load (path : String) : IO (Except String Settings) := do
  match ← (IO.FS.readBinFile path).toBaseIO with
  | .ok bytes =>
    match Settings.ofToml bytes.data.toList with
    | .ok s => return .ok s
    | .error .notText => return .error ("reading " ++ path ++ ": not valid UTF-8")
    | .error .malformed => return .error ("parsing " ++ path ++ ": not a settings file")
  | .error (.noFileOrDirectory ..) =>
    IO.FS.writeFile path (Settings.text {})
    return .ok {}
  | .error e => return .error ("reading " ++ path ++ ": " ++ e.toString)

end Meshwork

open Meshwork in
def main (args : List String) : IO UInt32 := do
  match CommandLine.parse args with
  | .error stop =>
    let out ← if stop.exitCode = 0 then IO.getStdout else IO.getStderr
    out.putStrLn stop.message
    return stop.exitCode
  | .ok arguments =>
    match ← Settings.load arguments.config with
    | .error message =>
      IO.eprintln message
      return 1
    | .ok loaded =>
      let settings := loaded.override arguments.overrides
      match settings.flaw? with
      | some flaw =>
        IO.eprintln ("Configuration validation failed: " ++ flaw.message)
        return 1
      | none =>
        for line in CommandLine.summary settings do
          IO.println line
        return 0
