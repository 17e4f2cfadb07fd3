import Meshwork.Frame.Wire
import Meshwork.Slots

/-!
# Links

A link is one connection to another process. The node queues encoded frames on it, of which a
bounded number may wait to be written; the table of links gives each one a slot and knows the node
it leads to.
-/

namespace Meshwork

/-- The number of a connection. Numbers are given out in rising order and never twice. -/
structure ConnId where
  number : Nat
deriving DecidableEq, Hashable, Repr

def ConnId.text (c : ConnId) : String := "#" ++ Numeral.decimal c.number

inductive CloseReason where
  | endOfStream
  | io (detail : String)
  | malformed (error : WireError)
  | connectFailed (detail : String)
  | overflow
deriving DecidableEq, Repr

def CloseReason.message : CloseReason → String
  | endOfStream => "closed by peer"
  | io detail => "io error: " ++ detail
  | malformed error => "protocol error: " ++ error.message
  | connectFailed detail => "connect failed: " ++ detail
  | overflow => "write queue full"

structure Link where
  id : ConnId
  bound : Nat
  queue : List (List UInt8) := []
  running : Bool := true
deriving DecidableEq, Repr

namespace Link

/-- At least one frame may wait on a link. -/
def ofBound (id : ConnId) (bound : Nat) : Link := { id, bound := max 1 bound }

/-- Fewer frames than this may wait on a link: a queue counts its places in 61 bits. -/
def boundLimit : Nat := Nat.pow 2 61

def ofBound? (id : ConnId) (bound : Nat) : Option Link :=
  if bound < boundLimit then some (ofBound id bound) else none

def send (l : Link) (bytes : List UInt8) : Except CloseReason Link :=
  if !l.running then .error .endOfStream
  else if l.bound ≤ l.queue.length then .error .overflow
  else .ok { l with queue := l.queue ++ [bytes] }

def drain (l : Link) : List UInt8 × Link := (l.queue.flatten, { l with queue := [] })

def stop (l : Link) : Link := { l with running := false }

end Link

/-- A link and the node at its other end, as far as it is known: of an accepted connection it is
not. -/
structure LinkRecord where
  link : Link
  owner : Option NodeId
deriving DecidableEq, Repr

/-- The links of a node. The record of a link stands at the slot of its number. -/
structure Links where
  slots : Slots ConnId
  records : Array (Option LinkRecord)
  nextNumber : Nat

namespace Links

def ofCapacity (n : Nat) : Links where
  slots := .ofCapacity n
  records := Array.replicate n none
  nextNumber := 1

def ofCapacity? (n : Nat) : Option Links :=
  if n < Slots.capacityLimit then some (ofCapacity n) else none

def size (t : Links) : Nat := t.slots.size

def isEmpty (t : Links) : Bool := t.slots.isEmpty

def hasRoom (t : Links) : Bool := t.slots.size < t.slots.capacity

def nextId (t : Links) : ConnId × Links :=
  (⟨t.nextNumber⟩, { t with nextNumber := t.nextNumber + 1 })

/-- Adds a link, in place of the one with the same number if there is one. -/
def insert (t : Links) (link : Link) (owner : Option NodeId) : Except SlotError (Nat × Links) :=
  (t.slots.allocate link.id).map fun (i, slots) =>
    (i, { t with slots, records := t.records.setIfInBounds i (some { link, owner }) })

def get? (t : Links) (id : ConnId) : Option LinkRecord :=
  match t.slots.find? id with
  | .ok i => (t.records[i]?).join
  | .error _ => none

def owner? (t : Links) (id : ConnId) : Option NodeId := (t.get? id).bind (·.owner)

def erase (t : Links) (id : ConnId) : Option (LinkRecord × Links) :=
  match t.slots.release id with
  | .ok (i, slots) =>
    (t.records[i]?).join.map fun record =>
      (record, { t with slots, records := t.records.setIfInBounds i none })
  | .error _ => none

def modify (t : Links) (id : ConnId) (f : Link → Link) : Links :=
  match t.slots.find? id with
  | .ok i =>
    { t with records := t.records.modify i fun r => r.map fun r => { r with link := f r.link } }
  | .error _ => t

def ids (t : Links) : List ConnId := t.slots.toList.map (·.2)

def clear (t : Links) : Links :=
  t.ids.foldl (fun t id => match t.erase id with | some (_, t) => t | none => t) t

end Links

end Meshwork
