import Meshwork.Command.Printer

/-!
# Reading commands

A payload is judged in a fixed order: it is text, it has a keyword, the keyword is known, the number
of words is right, and then the fields are read from left to right, where hosts are never refused.
Numbers may have a plus sign and leading zeros, and empty items of a list of handles are passed
over.
-/

namespace Meshwork.Command

def readNodeId (word : String) : Except CommandError NodeId :=
  match Numeral.readBelow? 10 256 word with
  | some n => if n = 0 then .error (.invalidField .nodeId word) else .ok (NodeId.ofNat n)
  | none => .error (.invalidField .nodeId word)

def readPort (word : String) : Except CommandError UInt16 :=
  match Numeral.readBelow? 10 65536 word with
  | some n => .ok (UInt16.ofNat n)
  | none => .error (.invalidField .port word)

def readHandle (base : Nat) (word : String) : Except CommandError Handle :=
  match Numeral.readBelow? base 65536 word with
  | some n => .ok (Handle.ofNumber n)
  | none => .error (.invalidField .handle word)

def readHost (word : String) : String := if word = noHost then "" else word

def readNamed (word : String) : Except CommandError (String × Handle) :=
  match Text.splitFirst? ':' word.toList with
  | some (name, h) => (readHandle 16 (String.ofList h)).map fun h => (String.ofList name, h)
  | none => .error (.invalidField .namedHandle word)

/-- A name and, after the first colon, any number of handles with commas between them. -/
def readListed (word : String) : Except CommandError (String × List Handle) :=
  let (name, list) := (Text.splitFirst? ':' word.toList).getD (word.toList, [])
  ((Text.runs (· == ',') list).mapM fun h => readHandle 16 (String.ofList h)).map fun hs =>
    (String.ofList name, hs)

def readAnnouncement (id nodeHost nodePort gateHost gatePort wanHost handle : String) :
    Except CommandError Announcement := do
  let id ← readNodeId id
  let nodePort ← readPort nodePort
  let gatePort ← readPort gatePort
  let handle ← readHandle 16 handle
  let address : Address :=
    { nodeHost := readHost nodeHost, nodePort, gateHost := readHost gateHost, gatePort,
      wanHost := readHost wanHost }
  return { id, address, handle }

def ofArguments : Keyword → List String → Except CommandError Command
  | .reg, [i, nh, np, gh, gp, wh, h] => (readAnnouncement i nh np gh gp wh h).map register
  | .addr, [i, nh, np, gh, gp, wh, h] => (readAnnouncement i nh np gh gp wh h).map address
  | .broadcast, [id] => (readNodeId id).map broadcast
  | .unreg, [id] => (readNodeId id).map unregister
  | .sub, [name] => .ok (subscribe name)
  | .pub, [named] => (readNamed named).map fun p => publish p.1 p.2
  | .handle, [named] => (readNamed named).map fun p => handle p.1 p.2
  | .handles, [listed] => (readListed listed).map fun p => handles p.1 p.2
  | .hb, [] => .ok heartbeat
  | keyword, args => .error (.arity keyword.text keyword.arity args.length)

def ofWords : List String → Except CommandError Command
  | [] => .error .empty
  | word :: args =>
    match Keyword.ofText? word with
    | some keyword => ofArguments keyword args
    | none => .error (.unknown word)

def parse (payload : List UInt8) : Except CommandError Command :=
  match Text.ofUtf8? payload with
  | some text => ofWords (Text.words text)
  | none => .error .notText

end Meshwork.Command
