/-!
# Data of a settings file

What a file says, whichever of its two formats it has. A record may be given as a table, by the
names of its fields, or as a list, by their order.
-/

namespace Meshwork

inductive Datum where
  | null
  | flag (value : Bool)
  | integer (value : Int)
  -- No setting is a real number, so its value is not kept; nor is that of a date or time.
  | real
  | text (value : String)
  | moment
  | list (items : List Datum)
  | table (entries : List (String × Datum))
deriving Repr, Inhabited

inductive SettingsFormat where
  | toml
  | json
deriving DecidableEq, Repr

namespace Datum

def flag? : Datum → Option Bool
  | flag b => some b
  | _ => none

def text? : Datum → Option String
  | text s => some s
  | _ => none

def natBelow? (bound : Nat) : Datum → Option Nat
  | integer n => if 0 ≤ n ∧ n < bound then some n.toNat else none
  | _ => none

def uint8? (d : Datum) : Option UInt8 := (d.natBelow? UInt8.size).map UInt8.ofNat

def uint16? (d : Datum) : Option UInt16 := (d.natBelow? UInt16.size).map UInt16.ofNat

def count? (d : Datum) : Option Nat := d.natBelow? UInt64.size

def listOf? {α : Type} (item? : Datum → Option α) : Datum → Option (List α)
  | list items => items.mapM item?
  | _ => none

/-- The fields of a record, whose names are given in order. Only JSON minds items of a list beyond
the last name. A date or time is a table of no name that a record knows. -/
def fields? (format : SettingsFormat) (names : List String) : Datum → Option (List (String × Datum))
  | table entries => some entries
  | list items =>
    if format = .json ∧ names.length < items.length then none else some (names.zip items)
  | moment => some []
  | _ => none

end Datum

def field? {α : Type} (fields : List (String × Datum)) (name : String) (read? : Datum → Option α) :
    Option α :=
  (fields.lookup name).bind read?

def fieldOr? {α : Type} (fields : List (String × Datum)) (name : String) (read? : Datum → Option α)
    (default : α) : Option α :=
  match fields.lookup name with
  | some d => read? d
  | none => some default

end Meshwork
