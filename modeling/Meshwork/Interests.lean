import Meshwork.Command.Basic

/-!
# What a node asked for and offered

The names a node has subscribed to and those it has published, each in the order of the first
request. A new link to the center is told all of them again.
-/

namespace Meshwork

structure Interests where
  wanted : List String := []
  offered : List (String × Handle) := []
deriving DecidableEq, Repr

namespace Interests

def Wants (i : Interests) (name : String) : Prop := name ∈ i.wanted

instance (i : Interests) (name : String) : Decidable (i.Wants name) :=
  inferInstanceAs (Decidable (_ ∈ _))

def offered? (i : Interests) (name : String) : Option Handle := i.offered.lookup name

def want (i : Interests) (name : String) : Interests :=
  if i.Wants name then i else { i with wanted := i.wanted ++ [name] }

/-- A name keeps the handle it was first offered with. -/
def offer (i : Interests) (name : String) (handle : Handle) : Interests :=
  if (i.offered? name).isSome then i else { i with offered := i.offered ++ [(name, handle)] }

/-- The requests to repeat, subscriptions first. -/
def requests (i : Interests) : List Command :=
  i.wanted.map .subscribe ++ i.offered.map fun (name, handle) => .publish name handle

end Interests

end Meshwork
