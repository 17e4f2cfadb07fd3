import Meshwork.Command.Parser
import Meshwork.Frame.Wire

/-!
# Greetings

The first frame that a center writes on an accepted connection: the handles of its directory and of
its mesh endpoint, in decimal. The other side reads that one frame, and all bytes after it belong to
the link.
-/

namespace Meshwork

structure Greeting where
  center : Handle
  mesh : Handle
deriving DecidableEq, Repr

namespace Greeting

def ofCenter (id : NodeId) : Greeting := ⟨⟨id, centerModule⟩, ⟨id, meshModule⟩⟩

def text (g : Greeting) : String :=
  Text.unwords [Numeral.decimal g.center.number, Numeral.decimal g.mesh.number]

def ofWords : List String → Except CommandError Greeting
  | [center, mesh] => do
    let center ← Command.readHandle 10 center
    let mesh ← Command.readHandle 10 mesh
    return { center, mesh }
  | words => .error (.arity "center entry" 2 words.length)

def parse (payload : List UInt8) : Except CommandError Greeting :=
  match Text.ofUtf8? payload with
  | some text => ofWords (Text.words text)
  | none => .error .notText

def frame (id : NodeId) : Frame := .ofText ⟨id, 0⟩ 0 (ofCenter id).text

inductive ReadError where
  | wire (error : WireError)
  | command (error : CommandError)
deriving DecidableEq, Repr

/-- Reads the greeting at the front of the bytes received so far, and the bytes after it; `none` if
more must come. -/
def read (w : Wire) (buffer : List UInt8) : Except ReadError (Option (Greeting × List UInt8)) :=
  match w.decode buffer with
  | .error e => .error (.wire e)
  | .ok none => .ok none
  | .ok (some (f, rest)) =>
    match parse f.payload with
    | .error e => .error (.command e)
    | .ok g => .ok (some (g, rest))

end Greeting

end Meshwork
