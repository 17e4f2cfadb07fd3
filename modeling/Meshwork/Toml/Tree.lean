import Meshwork.Datum

/-!
# The tables of a document

While a document is read its tables are kept with the way in which they came about, because this
decides what may still be added to them.
-/

namespace Meshwork.Toml

inductive TableKind where
  | declared
  | passed
  | dotted
deriving DecidableEq, Repr

inductive Item where
  | value (d : Datum)
  | table (kind : TableKind) (entries : List (String × Item))
  | tables (elements : List (List (String × Item)))

abbrev Entries := List (String × Item)

namespace Entries

def put (key : String) (item : Item) : Entries → Entries
  | [] => [(key, item)]
  | e :: es => if e.1 = key then (key, item) :: es else e :: put key item es

/-- Changes the table at a path, going through the last one of repeated tables. Tables that are
missing come about as `made`. A dotted key does not go through a table that has a header. -/
def change (made : TableKind) (f : TableKind → Entries → Option Entries) (kind : TableKind) :
    List String → Entries → Option Entries
  | [], es => f kind es
  | key :: path, es =>
    match es.lookup key with
    | none => do
      let inner ← change made f made path []
      some (put key (.table made inner) es)
    | some (.value _) => none
    | some (.table kind inner) =>
      if made = .dotted ∧ kind = .declared then none
      else do
        let inner ← change made f kind path inner
        some (put key (.table kind inner) es)
    | some (.tables elements) => do
      let last ← elements.getLast?
      let inner ← change made f .declared path last
      some (put key (.tables (elements.dropLast ++ [inner])) es)

/-- Gives a new key a value. A dotted key adds to no other tables than those of dotted keys. -/
def assign (path : List String) (key : String) (value : Datum) : Entries → Option Entries :=
  change .dotted
    (fun kind es =>
      if path ≠ [] ∧ kind ≠ .dotted then none
      else match es.lookup key with
        | none => some (es ++ [(key, .value value)])
        | some _ => none)
    .declared path

/-- Opens the table of a header. It may have been passed through before, but not declared. -/
def declare (path : List String) (key : String) : Entries → Option Entries :=
  change .passed
    (fun _ es => match es.lookup key with
      | none => some (es ++ [(key, .table .declared [])])
      | some (.table .passed inner) => some (put key (.table .declared inner) es)
      | some _ => none)
    .declared path

def declareNext (path : List String) (key : String) : Entries → Option Entries :=
  change .passed
    (fun _ es => match es.lookup key with
      | none => some (es ++ [(key, .tables [[]])])
      | some (.tables elements) => some (put key (.tables (elements ++ [[]])) es)
      | some _ => none)
    .declared path

def assignUnder (header : List String) (path : List String) (key : String) (value : Datum) :
    Entries → Option Entries :=
  change .passed (fun _ => assign path key value) .declared header

mutual

def datumOf : Item → Datum
  | .value d => d
  | .table _ es => .table (dataOf es)
  | .tables elements => .list (tablesOf elements)

def dataOf : List (String × Item) → List (String × Datum)
  | [] => []
  | (key, item) :: es => (key, datumOf item) :: dataOf es

def tablesOf : List (List (String × Item)) → List Datum
  | [] => []
  | es :: elements => .table (dataOf es) :: tablesOf elements

end

end Entries

end Meshwork.Toml
