import Meshwork.Text.Numeral

/-!
# Node ids, handles and addresses

A cluster has at most 255 nodes, numbered from one. A handle names a module of a node and travels as
one 16-bit number, node first. Main statements: `Handle.ofNumber_number` and
`Handle.number_ofNumber`, so that handles and 16-bit numbers are the same thing.
-/

namespace Meshwork

/-- The number of a node in its cluster. Zero is reserved and names no node. -/
structure NodeId where
  val : UInt8
deriving DecidableEq, Hashable, Repr, Inhabited

namespace NodeId

/-- The reserved number: a handle with this node means a module of the node that reads it. -/
def unassigned : NodeId := ⟨0⟩

def Assigned (id : NodeId) : Prop := id ≠ unassigned

instance (id : NodeId) : Decidable id.Assigned := inferInstanceAs (Decidable (id ≠ unassigned))

def index (id : NodeId) : Nat := id.val.toNat

def ofNat (n : Nat) : NodeId := ⟨UInt8.ofNat n⟩

theorem index_lt (id : NodeId) : id.index < 256 := id.val.toNat_lt

@[simp] theorem ofNat_index (id : NodeId) : ofNat id.index = id := by
  simp [ofNat, index]

theorem index_ofNat (n : Nat) : (ofNat n).index = n % 256 := by
  simp [ofNat, index]

theorem index_inj {a b : NodeId} : a.index = b.index ↔ a = b := by
  constructor
  · intro h
    rw [← ofNat_index a, ← ofNat_index b, h]
  · rintro rfl; rfl

theorem assigned_iff {id : NodeId} : id.Assigned ↔ 0 < id.index := by
  rw [Assigned, ne_eq, ← index_inj]
  exact Nat.pos_iff_ne_zero.symm

end NodeId

/-- A module of a node. -/
structure Handle where
  node : NodeId
  moduleId : UInt8
deriving DecidableEq, Hashable, Repr, Inhabited

namespace Handle

def number (h : Handle) : Nat := h.node.index * 256 + h.moduleId.toNat

def ofNumber (n : Nat) : Handle := ⟨NodeId.ofNat (n / 256), UInt8.ofNat n⟩

def withNode (h : Handle) (node : NodeId) : Handle := { h with node }

theorem number_lt (h : Handle) : h.number < 65536 := by
  have h₁ := h.node.index_lt
  have h₂ := h.moduleId.toNat_lt
  simp only [number]
  omega

@[simp] theorem ofNumber_number (h : Handle) : ofNumber h.number = h := by
  have hm := h.moduleId.toNat_lt
  have hd : (h.node.index * 256 + h.moduleId.toNat) / 256 = h.node.index := by omega
  have hr : UInt8.ofNat (h.node.index * 256 + h.moduleId.toNat) = h.moduleId := by
    apply UInt8.toNat_inj.1
    rw [UInt8.toNat_ofNat']
    omega
  simp only [ofNumber, number, hd, hr, NodeId.ofNat_index]

theorem number_ofNumber (n : Nat) : (ofNumber n).number = n % 65536 := by
  simp only [ofNumber, number, NodeId.index_ofNat, UInt8.toNat_ofNat']
  omega

@[simp] theorem node_withNode (h : Handle) (id : NodeId) : (h.withNode id).node = id := rfl

@[simp] theorem moduleId_withNode (h : Handle) (id : NodeId) :
    (h.withNode id).moduleId = h.moduleId := rfl

end Handle

/-- The module that carries control commands between nodes. -/
def meshModule : UInt8 := 1

/-- The module of a center that answers directory requests. -/
def centerModule : UInt8 := 2

/-- A node that registers a module of this name is a center. -/
def centerName : String := "centers"

def textKind : UInt8 := 1

structure Address where
  nodeHost : String := ""
  nodePort : UInt16 := 0
  gateHost : String := ""
  gatePort : UInt16 := 0
  wanHost : String := ""
deriving DecidableEq, Repr, Inhabited

structure Endpoint where
  host : String
  port : UInt16
deriving DecidableEq, Repr

namespace Endpoint

/-- Host and port with a colon between them. -/
def text (e : Endpoint) : String := e.host ++ ":" ++ Numeral.decimal e.port.toNat

end Endpoint

/-- The mesh listener of a node, known once it has a host and a port. -/
def Address.endpoint? (a : Address) : Option Endpoint :=
  if a.nodeHost = "" ∨ a.nodePort = 0 then none else some ⟨a.nodeHost, a.nodePort⟩

end Meshwork
