import Meshwork.Proofs.Node.Replay

/-!
# What a node says about itself

Main statement: `announcement_of_completes`, whenever a node registers it says what its profile
says, with the port of its listener. `Routing.classify_frame` says how the center takes it.
-/

namespace Meshwork

theorem Routing.classify_frame {r : Routing} (hr : r.isCenter = true) (c : Command) (id : NodeId) :
    r.classify (c.frame id ⟨r.self, centerModule⟩) =
      match Command.parse c.payload with
      | .ok command => .request ⟨id, meshModule⟩ command
      | .error _ => .dropped := by
  have hne : centerModule ≠ meshModule := by decide
  cases hparse : Command.parse c.payload <;> simp [classify, Command.frame, hr, hne, hparse]

def Profile.announcement (p : Profile) (port : UInt16) : Announcement :=
  ⟨p.nodeId, { p.address with nodePort := port }, ⟨p.nodeId, meshModule⟩⟩

namespace Node

variable {profile : Profile} {catalog : Catalog} {port : UInt16} {now : Nat} {calls : List Command}
  {n : Node}
  {conn : ConnId} {directory : Handle}

theorem me?_idle (hflaw : profile.flaw? = none) : (idle profile catalog port now).roster.me? =
    some { handle := some ⟨profile.nodeId, meshModule⟩
           address := { profile.address with nodePort := port } } := by
  have hin : profile.nodeId.index < min profile.maxNodes 256 := by
    have hown := (seated_idle hflaw catalog port now).own.2
    simpa [idle, self, Roster.setOwnHandle, Roster.ofSize] using hown
  simp only [idle, Roster.me?, Roster.setOwnHandle, Roster.ofSize, Array.getElem?_modify,
    Array.getElem?_replicate, if_pos hin, if_true, Option.map_some]

theorem announcement_idle (hflaw : profile.flaw? = none) :
    (idle profile catalog port now).announcement = profile.announcement port := by
  rw [announcement, me?_idle hflaw]
  rfl

theorem announcement_of_start {result : Except Fault Handshake}
    (started : start profile catalog port now result = .ok n) :
    n.announcement = profile.announcement port := by
  obtain ⟨hflaw, -⟩ := start_cases started
  rw [(start_via started).announcement_eq (ordered_idle hflaw ..), announcement_idle hflaw]

theorem announcement_of_completes
    (completed : Completes profile catalog port now calls n conn directory) :
    n.announcement = profile.announcement port := by
  cases completed with
  | first started _ => exact announcement_of_start started
  | @again result n₀ h started before t awaited judged =>
    have ho := ordered_of_run started before
    rw [(stepAt_via _ t _).announcement_eq ho, announcement_of_run started,
      announcement_of_start started]

end Node

end Meshwork
