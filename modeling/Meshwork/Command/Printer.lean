import Meshwork.Command.Basic

/-!
# Writing commands

The wire text of a command: its words with single spaces between them.
-/

namespace Meshwork

/-- Stands for a host that is not known, since a word cannot be empty. -/
def noHost : String := "0"

namespace Command

def hostWord (host : String) : String := if host = "" then noHost else host

def portWord (port : UInt16) : String := Numeral.decimal port.toNat

def announcementWords (node : Announcement) : List String :=
  let a := node.address
  [node.id.text, hostWord a.nodeHost, portWord a.nodePort, hostWord a.gateHost, portWord a.gatePort,
    hostWord a.wanHost, node.handle.text]

def namedWord (name : String) (handle : Handle) : String := name ++ ":" ++ handle.text

def listedWord (name : String) : List Handle → String
  | [] => name
  | h :: hs =>
    name ++ ":" ++ String.ofList (Text.joined ',' ((h :: hs).map fun h => h.text.toList))

def keyword : Command → Keyword
  | register _ => .reg
  | address _ => .addr
  | broadcast _ => .broadcast
  | unregister _ => .unreg
  | subscribe _ => .sub
  | publish .. => .pub
  | handle .. => .handle
  | handles .. => .handles
  | heartbeat => .hb

def arguments : Command → List String
  | register node | address node => announcementWords node
  | broadcast id | unregister id => [id.text]
  | subscribe name => [name]
  | publish name h | handle name h => [namedWord name h]
  | handles name hs => [listedWord name hs]
  | heartbeat => []

def words (c : Command) : List String := c.keyword.text :: c.arguments

def text (c : Command) : String := Text.unwords c.words

def payload (c : Command) : List UInt8 := Text.utf8 c.text

end Command

end Meshwork
