import Meshwork.Text.Numeral

/-!
# Reading from the front of a text

A reader takes a first part of a text and leaves the rest, or fails; where one reader fails another
may start at the same place.
-/

namespace Meshwork.Toml

abbrev Reader := StateT (List Char) Option

namespace Reader

def rest : Reader (List Char) := get

def charOf (p : Char → Bool) : Reader Char
  | c :: cs => if p c then some (c, cs) else none
  | [] => none

def char (c : Char) : Reader Char := charOf (· == c)

def text : List Char → Reader Unit
  | [] => pure ()
  | c :: cs => do
    let _ ← char c
    text cs

def charsOf (p : Char → Bool) : Reader (List Char) := fun cs => some (cs.span p)

def someCharsOf (p : Char → Bool) : Reader (List Char) := do
  let c ← charOf p
  let cs ← charsOf p
  return c :: cs

def ended : Reader Unit
  | [] => some ((), [])
  | _ => none

def maybe {α : Type} (r : Reader α) : Reader (Option α) := (some <$> r) <|> pure none

def manyWithin {α : Type} (r : Reader α) : Nat → Reader (List α)
  | 0 => pure []
  | n + 1 => (do
      let a ← r
      let as ← manyWithin r n
      return a :: as) <|> pure []

def many {α : Type} (r : Reader α) : Reader (List α) := do
  let cs ← rest
  manyWithin r cs.length

def separated {α β : Type} (r : Reader α) (sep : Reader β) : Reader (List α) := do
  let a ← r
  let as ← many (do
    let _ ← sep
    r)
  return a :: as

def all {α : Type} (r : Reader α) (cs : List Char) : Option α :=
  ((do
    let a ← r
    ended
    return a : Reader α).run cs).map Prod.fst

def fixedDigits (n lo hi : Nat) : Reader Nat := do
  let ds ← go n
  match Numeral.readDigits? 10 0 ds with
  | some v => if lo ≤ v ∧ v ≤ hi then return v else failure
  | none => failure
where
  go : Nat → Reader (List Char)
    | 0 => pure []
    | n + 1 => do
      let d ← charOf Char.isDigit
      let ds ← go n
      return d :: ds

end Reader

def isSpace (c : Char) : Bool := c == ' ' || c == '\t'

def isPlain (c : Char) : Bool := c == '\t' || (0x20 ≤ c.toNat && c.toNat != 0x7f)

open Reader

def spaces : Reader Unit := do
  let _ ← charsOf isSpace

def newline : Reader Unit := do
  let _ ← maybe (char '\r')
  let _ ← char '\n'

def comment : Reader Unit := do
  let _ ← char '#'
  let _ ← charsOf isPlain

def lineEnd : Reader Unit := do
  spaces
  let _ ← maybe comment
  newline <|> ended

def layout : Reader Unit := do
  let _ ← many (newline <|> comment <|> (do
    let _ ← charOf isSpace))

end Meshwork.Toml
