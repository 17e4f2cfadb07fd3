import Meshwork.Settings.Basic

/-!
# Overrides

Settings that are given when the node is started and go before those of the file. Main statement:
`CenterSettings.moveTo_text`, which says what a center address with a port comes to for every host.
-/

namespace Meshwork

structure Overrides where
  nodeId : Option NodeId := none
  port : Option UInt16 := none
  centerAddress : Option String := none
  isCenter : Bool := false
  logLevel : Option String := none
  jsonLogs : Bool := false
deriving DecidableEq, Repr

namespace CenterSettings

/-- The center is the node at an address. A port that is missing or no port stays what it was. -/
def moveTo (c : CenterSettings) (address : String) : CenterSettings :=
  match Text.splitLast? ':' address.toList with
  | some (host, port) =>
    { host := String.ofList host
      port :=
        ((Numeral.readBelow? 10 UInt16.size (String.ofList port)).map UInt16.ofNat).getD c.port
      isHere := false }
  | none => { c with host := address, isHere := false }

end CenterSettings

def Settings.override (s : Settings) (o : Overrides) : Settings where
  node :=
    { id := o.nodeId.getD s.node.id
      address := { s.node.address with nodePort := o.port.getD s.node.address.nodePort } }
  center :=
    let c := match o.centerAddress with
      | some address => s.center.moveTo address
      | none => s.center
    if o.isCenter then { c with isHere := true } else c
  mesh := s.mesh
  modules := s.modules
  logging :=
    { level := o.logLevel.getD s.logging.level
      asJson := s.logging.asJson || o.jsonLogs }

theorem Settings.override_empty (s : Settings) : s.override {} = s := by
  simp [Settings.override]

theorem CenterSettings.moveTo_append (c : CenterSettings) (host : String) {word : String} {n : Nat}
    (hcolon : ':' ∉ word.toList) (hread : Numeral.readBelow? 10 UInt16.size word = some n) :
    c.moveTo (host ++ ":" ++ word) = { host, port := .ofNat n, isHere := false } := by
  have hlist : (host ++ ":" ++ word).toList = host.toList ++ ':' :: word.toList := by simp
  rw [moveTo, hlist, Text.splitLast?_append hcolon]
  simp [hread]

theorem CenterSettings.moveTo_text (c : CenterSettings) (e : Endpoint) :
    c.moveTo e.text = { host := e.host, port := e.port, isHere := false } := by
  have hcolon : ':' ∉ (Numeral.decimal e.port.toNat).toList := by
    rw [Numeral.decimal, String.toList_ofList]
    exact Numeral.not_mem_digits e.port.toNat ':' (by decide)
  have hread : Numeral.readBelow? 10 UInt16.size (Numeral.decimal e.port.toNat) =
      some e.port.toNat := by
    rw [Numeral.readBelow?, Numeral.read?_decimal]
    simp [Option.filter, e.port.toNat_lt]
  rw [Endpoint.text, moveTo_append c e.host hcolon hread, UInt16.ofNat_toNat]

end Meshwork
