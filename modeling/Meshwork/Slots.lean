import Std.Data.HashMap

/-!
# Slots for keys

A fixed number of slots, each of which is free or holds a key. A key keeps its slot until it is
freed, and the slot freed last is given out first. The index from keys to slots saves a search;
`Slots.Sound` says how it and the list of free slots hang together with the slots themselves.
-/

namespace Meshwork

variable {κ : Type} [BEq κ] [Hashable κ]

structure Slots (κ : Type) [BEq κ] [Hashable κ] where
  keys : Array (Option κ)
  free : List Nat
  index : Std.HashMap κ Nat

inductive SlotError where
  | full | notFound
deriving DecidableEq, Repr

def SlotError.message : SlotError → String
  | full => "slot table is full"
  | notFound => "key not found in slot table"

namespace Slots

/-- No key has a slot, and the lowest slot is given out first. -/
def ofCapacity (n : Nat) : Slots κ where
  keys := Array.replicate n none
  free := List.range n
  index := ∅

/-- A table has fewer slots than this: each takes sixteen bytes, and a table lies in fewer than
2^63. -/
def capacityLimit : Nat := Nat.pow 2 59

def ofCapacity? (n : Nat) : Option (Slots κ) :=
  if n < capacityLimit then some (ofCapacity n) else none

def capacity (s : Slots κ) : Nat := s.keys.size

def size (s : Slots κ) : Nat := s.index.size

def isEmpty (s : Slots κ) : Bool := s.index.isEmpty

def find? (s : Slots κ) (k : κ) : Except SlotError Nat :=
  match s.index[k]? with
  | some i => .ok i
  | none => .error .notFound

def allocate (s : Slots κ) (k : κ) : Except SlotError (Nat × Slots κ) :=
  match s.index[k]? with
  | some i => .ok (i, s)
  | none =>
    match s.free with
    | [] => .error .full
    | i :: rest =>
      .ok (i,
        { keys := s.keys.setIfInBounds i (some k), free := rest, index := s.index.insert k i })

def release (s : Slots κ) (k : κ) : Except SlotError (Nat × Slots κ) :=
  match s.index[k]? with
  | none => .error .notFound
  | some i =>
    .ok (i, { keys := s.keys.setIfInBounds i none, free := i :: s.free, index := s.index.erase k })

def toList (s : Slots κ) : List (Nat × κ) :=
  s.keys.toList.zipIdx.filterMap fun (k, i) => k.map fun k => (i, k)

/-- The index and the slots are inverse to each other, and the free list holds each unused slot once
and no other. -/
structure Sound (s : Slots κ) : Prop where
  index_iff : ∀ (k : κ) (i : Nat), s.index[k]? = some i ↔ s.keys[i]? = some (some k)
  mem_free_iff : ∀ i : Nat, i ∈ s.free ↔ s.keys[i]? = some none
  nodup_free : s.free.Nodup

end Slots

end Meshwork
