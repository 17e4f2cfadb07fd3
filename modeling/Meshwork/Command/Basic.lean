import Meshwork.Address
import Meshwork.Text.Blank
import Meshwork.Text.Quoted

/-!
# Control commands

What nodes say to each other about the mesh itself. A command is a line of words, the first of which
is its keyword.
-/

namespace Meshwork

/-- What a node tells others about itself: its id, where it can be reached and its control
handle. -/
structure Announcement where
  id : NodeId
  address : Address
  handle : Handle
deriving DecidableEq, Repr

inductive Command where
  | register (node : Announcement)
  | address (node : Announcement)
  | broadcast (id : NodeId)
  | unregister (id : NodeId)
  | subscribe (name : String)
  | publish (name : String) (handle : Handle)
  | handle (name : String) (handle : Handle)
  | handles (name : String) (handles : List Handle)
  | heartbeat
deriving DecidableEq, Repr

inductive Keyword where
  | reg | addr | broadcast | unreg | sub | pub | handle | handles | hb
deriving DecidableEq, Repr

namespace Keyword

def text : Keyword → String
  | reg => "REG"
  | addr => "ADDR"
  | broadcast => "BROADCAST"
  | unreg => "UNREG"
  | sub => "SUB"
  | pub => "PUB"
  | handle => "HANDLE"
  | handles => "HANDLES"
  | hb => "HB"

def arity : Keyword → Nat
  | reg | addr => 7
  | broadcast | unreg | sub | pub | handle | handles => 1
  | hb => 0

def all : List Keyword := [reg, addr, broadcast, unreg, sub, pub, handle, handles, hb]

def ofText? (word : String) : Option Keyword := all.find? (·.text = word)

theorem ofText?_text (k : Keyword) : ofText? k.text = some k := by
  cases k <;> decide

theorem eq_text_of_ofText? {word : String} {k : Keyword} (h : ofText? word = some k) :
    word = k.text := by
  have hk := List.find?_some h
  exact (of_decide_eq_true hk).symm

end Keyword

inductive Field where
  | nodeId | port | handle | namedHandle
deriving DecidableEq, Repr

def Field.text : Field → String
  | nodeId => "node id"
  | port => "port"
  | handle => "handle"
  | namedHandle => "name:handle"

inductive CommandError where
  | notText
  | empty
  | unknown (word : String)
  | arity (subject : String) (expected found : Nat)
  | invalidField (field : Field) (value : String)
deriving DecidableEq, Repr

def CommandError.message : CommandError → String
  | notText => "control payload is not valid UTF-8"
  | empty => "empty control payload"
  | unknown word => "unknown control command " ++ Quoted.encode word
  | arity subject expected found =>
    subject ++ " expects " ++ Numeral.decimal expected ++ " argument(s), got " ++
      Numeral.decimal found
  | invalidField field value => "invalid " ++ field.text ++ ": " ++ Quoted.encode value

def Handle.text (h : Handle) : String := Numeral.hex4 h.number

def NodeId.text (id : NodeId) : String := Numeral.decimal id.index

/-- A name of a module that can travel in every command. -/
def ValidName (name : String) : Prop :=
  name.toList ≠ [] ∧ ∀ c ∈ name.toList, isBlank c = false ∧ c ≠ ':' ∧ c ≠ ','

instance (name : String) : Decidable (ValidName name) :=
  @instDecidableAnd _ _ _ (List.decidableBAll _ name.toList)

end Meshwork
