import Meshwork.Settings.Overrides

/-!
# The command line

Options have a value, which may be the next argument or attached; switches have none. A value that
is the next argument is taken up only with the option after it, so an unknown argument is found
first.
-/

namespace Meshwork.CommandLine

structure Arguments where
  config : String := "mesh_node.toml"
  overrides : Overrides := {}
deriving DecidableEq, Repr

inductive Setting where
  | config
  | nodeId
  | port
  | centerAddress
  | logLevel
deriving DecidableEq, Repr

inductive Switch where
  | center
  | jsonLogs
  | help
  | version
deriving DecidableEq, Repr

inductive Stop where
  | help
  | version
  | unknownArgument
  -- Given twice, or together with something that excludes it.
  | conflict
  | malformedNumber
  | missingValue
  | surplusValue
deriving DecidableEq, Repr

def Setting.ofLong? : String → Option Setting
  | "config" => some .config
  | "node-id" => some .nodeId
  | "port" => some .port
  | "center-addr" => some .centerAddress
  | "log-level" => some .logLevel
  | _ => none

def Setting.ofShort? : Char → Option Setting
  | 'c' => some .config
  | 'n' => some .nodeId
  | 'p' => some .port
  | 'l' => some .logLevel
  | _ => none

def Switch.ofLong? : String → Option Switch
  | "center" => some .center
  | "json-logs" => some .jsonLogs
  | "help" => some .help
  | "version" => some .version
  | _ => none

def Switch.ofShort? : Char → Option Switch
  | 'h' => some .help
  | 'V' => some .version
  | _ => none

inductive Word where
  | setting (s : Setting) (attached : Option String)
  | switch (s : Switch) (attached : Option String)
  | value (text : String)
  | unknown
deriving DecidableEq, Repr

namespace Word

def ofLong (cs : List Char) : Word :=
  let (name, attached) := match Text.splitFirst? '=' cs with
    | some (name, rest) => (String.ofList name, some (String.ofList rest))
    | none => (String.ofList cs, none)
  match Setting.ofLong? name, Switch.ofLong? name with
  | some s, _ => setting s attached
  | none, some s => switch s attached
  | none, none => unknown

/-- After one dash: a short name, to which a value may be attached with or without an equals
sign. -/
def ofShort (c : Char) (cs : List Char) : Word :=
  match Setting.ofShort? c, Switch.ofShort? c with
  | some s, _ =>
    match cs with
    | [] => setting s none
    | '=' :: rest => setting s (some (String.ofList rest))
    | rest => setting s (some (String.ofList rest))
  | none, some s => switch s none
  | none, none => unknown

def ofText (text : String) : Word :=
  match text.toList with
  | '-' :: '-' :: cs => ofLong cs
  | '-' :: c :: cs => ofShort c cs
  | _ => value text

end Word

def number? (bound : Nat) (text : String) : Option Nat :=
  match text.toList with
  | '-' :: cs => (Numeral.readUnsigned? 10 cs).filter (· = 0)
  | _ => Numeral.readBelow? 10 bound text

def Arguments.set (a : Arguments) (s : Setting) (value : String) : Except Stop Arguments :=
  let o := a.overrides
  match s with
  | .config => if value = "" then .error .missingValue else .ok { a with config := value }
  | .nodeId =>
    match number? UInt8.size value with
    | some n => .ok { a with overrides := { o with nodeId := some (.ofNat n) } }
    | none => .error .malformedNumber
  | .port =>
    match number? UInt16.size value with
    | some n => .ok { a with overrides := { o with port := some (.ofNat n) } }
    | none => .error .malformedNumber
  | .centerAddress => .ok { a with overrides := { o with centerAddress := some value } }
  | .logLevel => .ok { a with overrides := { o with logLevel := some value } }

structure Progress where
  arguments : Arguments := {}
  given : List Setting := []
  switches : List Switch := []
  pending : Option (Setting × Option String) := none

namespace Progress

def store (p : Progress) (s : Setting) (value : String) : Except Stop Progress :=
  if s ∈ p.given then .error .conflict
  else do
    let arguments ← p.arguments.set s value
    .ok { p with arguments, given := s :: p.given }

def settle (p : Progress) : Except Stop Progress :=
  match p.pending with
  | none => .ok p
  | some (_, none) => .error .missingValue
  | some (s, some value) => { p with pending := none }.store s value

def turnOn (p : Progress) (s : Switch) : Except Stop Progress :=
  let o := p.arguments.overrides
  if s ∈ p.switches then .error .conflict
  else
    let p := { p with switches := s :: p.switches }
    match s with
    | .center => .ok { p with arguments.overrides := { o with isCenter := true } }
    | .jsonLogs => .ok { p with arguments.overrides := { o with jsonLogs := true } }
    | .help => .error .help
    | .version => .error .version

def take (p : Progress) : Word → Except Stop Progress
  | .unknown => .error .unknownArgument
  | .switch _ (some _) => .error .surplusValue
  | .switch s none => do
    let p ← p.settle
    p.turnOn s
  | .setting s (some value) => do
    let p ← p.settle
    p.store s value
  | .setting s none => do
    let p ← p.settle
    .ok { p with pending := some (s, none) }
  | .value text =>
    match p.pending with
    | some (s, none) => .ok { p with pending := some (s, some text) }
    | _ => .error .unknownArgument

/-- Reads the arguments to their end, or to two dashes, after which there may be no more. -/
def takeAll : Progress → List String → Except Stop Progress
  | p, [] => p.settle
  | p, "--" :: rest => if rest = [] then p.settle else .error .unknownArgument
  | p, text :: rest => do
    let p ← p.take (Word.ofText text)
    p.takeAll rest

end Progress

def parse (texts : List String) : Except Stop Arguments := do
  let p ← ({} : Progress).takeAll texts
  let o := p.arguments.overrides
  if o.isCenter ∧ o.centerAddress.isSome then .error .conflict else .ok p.arguments

end Meshwork.CommandLine
