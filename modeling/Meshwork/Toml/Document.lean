import Meshwork.Toml.Moment
import Meshwork.Toml.Number
import Meshwork.Toml.Text
import Meshwork.Toml.Tree

/-!
# Documents

The statements of a document and the table that they make. `Datum.ofToml?` reads a whole document.
-/

namespace Meshwork.Toml

open Reader

/-- A key has fewer parts than this, and arrays and inline tables fewer levels. -/
def depthLimit : Nat := 80

def simpleKey : Reader String :=
  quoted <|> literal <|>
    (String.ofList <$> someCharsOf fun c => c.isAlphanum || c == '_' || c == '-')

def key : Reader (List String × String) := do
  let parts ← separated
    (do
      spaces
      let part ← simpleKey
      spaces
      return part)
    (char '.')
  match parts.getLast? with
  | some last => if parts.length < depthLimit then return (parts.dropLast, last) else failure
  | none => failure

def truth : Reader Bool :=
  (do
    text ['t', 'r', 'u', 'e']
    return true) <|>
  (do
    text ['f', 'a', 'l', 's', 'e']
    return false)

def scalar : Reader Datum :=
  (Datum.text <$> string) <|> ((fun _ => Datum.moment) <$> moment) <|>
    ((fun _ => Datum.real) <$> real) <|> (Datum.integer <$> integer) <|> (Datum.flag <$> truth)

def array (value : Reader Datum) : Reader Datum := do
  let _ ← char '['
  let items ← maybe (do
    let items ← separated
      (do
        layout
        let item ← value
        layout
        return item)
      (char ',')
    let _ ← maybe (char ',')
    return items)
  layout
  let _ ← char ']'
  return .list (items.getD [])

def assignment (value : Reader Datum) : Reader ((List String × String) × Datum) := do
  let k ← key
  let _ ← char '='
  spaces
  let v ← value
  return (k, v)

def inlineTable (value : Reader Datum) : Reader Datum := do
  let _ ← char '\x7b'
  let pairs ← maybe (separated
    (do
      let pair ← assignment value
      spaces
      return pair)
    (char ','))
  spaces
  let _ ← char '\x7d'
  let step (es : Entries) (p : (List String × String) × Datum) := es.assign p.1.1 p.1.2 p.2
  match (pairs.getD []).foldlM step [] with
  | some es => return .table (Entries.dataOf es)
  | none => failure

def value : Nat → Reader Datum
  | 0 => scalar
  | depth + 1 => scalar <|> array (value depth) <|> inlineTable (value depth)

inductive Statement where
  | assign (path : List String) (key : String) (value : Datum)
  | header (path : List String) (key : String)
  | nextHeader (path : List String) (key : String)

def assignStatement : Reader Statement := do
  let ((path, k), v) ← assignment (value (depthLimit - 1))
  return .assign path k v

def headerStatement : Reader Statement := do
  let _ ← char '['
  let (path, k) ← key
  let _ ← char ']'
  return .header path k

def nextHeaderStatement : Reader Statement := do
  text ['[', '[']
  let (path, k) ← key
  text [']', ']']
  return .nextHeader path k

def line : Reader (Option Statement) := do
  spaces
  (do
      let s ← nextHeaderStatement <|> headerStatement <|> assignStatement
      lineEnd
      return some s) <|>
    (do
      newline <|> (do
        comment
        newline <|> ended)
      return none)

def document : Reader (List Statement) := do
  let _ ← maybe (char '\ufeff')
  let lines ← many line
  spaces
  return lines.filterMap id

def Statement.apply : Entries × List String → Statement → Option (Entries × List String)
  | (root, opened), .assign path key v => do
    return (← root.assignUnder opened path key v, opened)
  | (root, _), .header path key => do
    return (← root.declare path key, path ++ [key])
  | (root, _), .nextHeader path key => do
    return (← root.declareNext path key, path ++ [key])

end Toml

def Datum.ofToml? (text : String) : Option Datum := do
  let statements ← Toml.document.all text.toList
  let (root, _) ← statements.foldlM Toml.Statement.apply ([], [])
  some (.table (Toml.Entries.dataOf root))

end Meshwork
