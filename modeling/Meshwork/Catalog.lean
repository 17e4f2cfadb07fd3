import Meshwork.Address

/-!
# The modules of a node

The names of the modules that run on a node, and what the node reports to them: which modules of the
cluster became reachable or went away, and the frames that are for them.
-/

namespace Meshwork

structure Delivery where
  source : Handle
  dest : UInt8
  kind : UInt8
  payload : List UInt8
deriving DecidableEq, Repr

inductive ModuleEvent where
  | started (name : String) (handle : Handle) (address : Address)
  | batchBegin (name : String)
  | batchEnd (name : String)
  | exited (handle : Handle)
deriving DecidableEq, Repr

/-- The local modules by name. A name has one module. -/
structure Catalog where
  entries : List (String × UInt8) := []
deriving DecidableEq, Repr

namespace Catalog

def size (c : Catalog) : Nat := c.entries.length

def isEmpty (c : Catalog) : Bool := c.entries.isEmpty

def find? (c : Catalog) (name : String) : Option UInt8 := c.entries.lookup name

def erase (c : Catalog) (name : String) : Catalog :=
  { entries := c.entries.filter fun e => e.1 ≠ name }

def insert (c : Catalog) (name : String) (id : UInt8) : Catalog :=
  { entries := (c.erase name).entries ++ [(name, id)] }

end Catalog

end Meshwork
