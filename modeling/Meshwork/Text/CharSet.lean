/-!
# Sets of characters

A set of characters given by the edges of its ranges in rising order: the first code point of a
range, then the first one past it, and so on.
-/

namespace Meshwork.CharSet

/-- A code point is in the set if an odd number of edges lie at or below it. -/
def mem (edges : Array Nat) (c : Char) : Bool :=
  edges.foldl (fun inside edge => if edge ≤ c.toNat then !inside else inside) false

end Meshwork.CharSet
