import Meshwork.Toml.Reader

/-!
# Strings

Four kinds: on one line or on many, with escapes (quoted) or without (between apostrophes).
-/

namespace Meshwork.Toml

open Reader

def scalar? (n : Nat) : Option Char := if h : n.isValidChar then some (Char.ofNatAux n h) else none

def codePoint (n : Nat) : Reader Char := fun cs => do
  let ds := cs.take n
  if ds.length < n then none
  else
    let c ← (Numeral.readDigits? 16 0 ds).bind scalar?
    some (c, cs.drop n)

def escape : Reader Char := do
  match ← charOf fun _ => true with
  | 'b' => return '\x08'
  | 't' => return '\t'
  | 'n' => return '\n'
  | 'f' => return '\x0c'
  | 'r' => return '\r'
  | '"' => return '"'
  | '\\' => return '\\'
  | 'u' => codePoint 4
  | 'U' => codePoint 8
  | _ => failure

def escaped : Reader Char := do
  let _ ← char '\\'
  escape

def quoted : Reader String := do
  let _ ← char '"'
  let cs ← many (escaped <|> charOf fun c => isPlain c && c != '"' && c != '\\')
  let _ ← char '"'
  return String.ofList cs

def literal : Reader String := do
  let _ ← char '\''
  let cs ← charsOf fun c => isPlain c && c != '\''
  let _ ← char '\''
  return String.ofList cs

def innerNewline : Reader (List Char) := do
  newline
  return ['\n']

/-- A backslash at the end of a line stands for nothing, with all layout up to the next
character. -/
def continuation : Reader (List Char) := do
  let _ ← char '\\'
  spaces
  newline
  let _ ← many (newline <|> do
    let _ ← charOf isSpace)
  return []

/-- One or two delimiters that are content, since no third one follows. -/
def innerDelimiters (delim : Char) : Reader (List Char) := do
  let ds ← someCharsOf (· == delim)
  if ds.length < 3 then return ds else failure

/-- Three delimiters end a string of many lines; of up to five the first ones are content. -/
def closing (delim : Char) : Reader (List Char) := do
  let ds ← someCharsOf (· == delim)
  if 3 ≤ ds.length ∧ ds.length ≤ 5 then return ds.drop 3 else failure

/-- A string of many lines. A line end right after the first delimiters is not part of it. -/
def longString (delim : Char) (piece : Reader (List Char)) : Reader String := do
  text [delim, delim, delim]
  let _ ← maybe newline
  let pieces ← many (piece <|> innerNewline <|> innerDelimiters delim)
  let last ← closing delim
  return String.ofList (pieces.flatten ++ last)

def quotedLong : Reader String :=
  longString '"' (continuation <|> ((fun c => [c]) <$> escaped) <|>
    someCharsOf fun c => isPlain c && c != '"' && c != '\\')

def literalLong : Reader String :=
  longString '\'' (someCharsOf fun c => isPlain c && c != '\'')

def string : Reader String := quotedLong <|> quoted <|> literalLong <|> literal

end Meshwork.Toml
