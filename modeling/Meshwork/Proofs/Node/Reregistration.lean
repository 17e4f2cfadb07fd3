import Meshwork.Proofs.Node.Heartbeat
import Meshwork.Proofs.Node.Legible
import Meshwork.Proofs.Node.Reported

/-!
# Nodes that register twice

A center fills the entry of a node that registers before it knows whether it can dial it, and then
introduces it, which may bring its own introductions back to it. Main statement:
`reregistration_of_run`, whatever comes of the first registration, the second one finds it done: all
that it leads to is that frames are sent once more.
-/

namespace Meshwork

def Peer.unsent (p : Peer) : Peer := { p with lastSent := none }

theorem Peer.linked_congr {p q : Peer} (hstate : q.state = p.state) (hlink : q.link = p.link) :
    q.Linked ↔ p.Linked := by
  rw [linked_iff, linked_iff, hstate, hlink]

/-- The table of links when all that waits is written. -/
def Links.drained (t : Links) : Links :=
  { t with records := t.records.map (Option.map fun r => { r with link := r.link.drain.2 }) }

theorem Links.drained_modify {t : Links} {c : ConnId} {f : Link → Link}
    (hf : ∀ r ∈ t.get? c, (f r.link).drain.2 = r.link.drain.2) :
    (t.modify c f).drained = t.drained := by
  cases hi : t.slots.index[c]? with
  | none => simp [modify, Slots.find?, hi]
  | some i =>
    have hrecords :
        ((t.modify c f).records.map (Option.map fun r => { r with link := r.link.drain.2 })) =
        t.records.map (Option.map fun r => { r with link := r.link.drain.2 }) := by
      rw [records_modify hi]
      refine Array.ext_getElem? fun j => ?_
      simp only [Array.getElem?_map, Array.getElem?_modify]
      split
      · rename_i hij
        subst hij
        cases hr : t.records[i]? with
        | none => rfl
        | some o =>
          cases o with
          | none => rfl
          | some r => simp [hf r (by simp [get?_of_index hi, hr])]
      · rfl
    simp only [drained, hrecords, slots_modify, nextNumber_modify]

theorem Routing.isCenter_of_request {r : Routing} {f : Frame} {source : Handle} {c : Command}
    (h : r.classify f = .request source c) : r.isCenter := by
  by_contra hcenter
  unfold classify at h
  simp only [hcenter, and_false, if_false] at h
  split at h
  · cases h
  split at h
  · split at h <;> cases h
  · split at h <;> cases h

namespace Node

variable {n m k : Node} {a b : Announcement} {f : Frame} {id : NodeId} {p : Peer} {loop : Loopback}

/-- What was sent, and what waits to be written, is all that may be different in two states of a
node. -/
structure Unchanged (n m : Node) : Prop where
  self_eq : m.self = n.self
  role : m.role = n.role
  interests : m.interests = n.interests
  links : m.links.drained = n.links.drained
  entry : ∀ id, (m.roster.get? id).map Peer.unsent = (n.roster.get? id).map Peer.unsent

/-- A registration of the node is ignored: it is this one or has no entry, or it is linked or about
to be. -/
def Ignores (n : Node) (id : NodeId) : Prop :=
  id = n.self ∨ ¬ n.roster.Contains id ∨ ∃ p ∈ n.roster.get? id, p.Linked ∨ p.state = .handshaking

def Knows (n : Node) (a : Announcement) : Prop :=
  ∃ p ∈ n.roster.get? a.id, p.address = a.address ∧ p.handle = some a.handle

/-- All that a registration can lead to has come of it. -/
def Spent (n : Node) (a : Announcement) : Prop := n.Ignores a.id ∨ n.Knows a ∧ n.Shut a.id

/-- What comes of a registration when one like it went before, or when there is nothing to be
done. -/
structure Reregistration (n : Node) : Prop where
  again : ∀ a f f' t, n.routing.registration? f = some a → n.routing.registration? f' = some a →
    (n.receive f).Unchanged (Node.receive { n.receive f with now := t } f')
  ignored : ∀ a f, n.routing.registration? f = some a → n.Ignores a.id → n.Unchanged (n.receive f)
  /-- One that is not for the directory has no introductions come after it. -/
  control : ∀ a f source, n.routing.classify f = .control source (.register a) → n.Ignores a.id →
    n.receive f = n

namespace Unchanged

theorem refl (n : Node) : n.Unchanged n := ⟨rfl, rfl, rfl, rfl, fun _ => rfl⟩

theorem trans (h : n.Unchanged m) (h' : m.Unchanged k) : n.Unchanged k where
  self_eq := h'.self_eq.trans h.self_eq
  role := h'.role.trans h.role
  interests := h'.interests.trans h.interests
  links := h'.links.trans h.links
  entry id := (h'.entry id).trans (h.entry id)

theorem symm (h : n.Unchanged m) : m.Unchanged n where
  self_eq := h.self_eq.symm
  role := h.role.symm
  interests := h.interests.symm
  links := h.links.symm
  entry id := (h.entry id).symm

theorem exists_entry (h : n.Unchanged m) (hp : n.roster.get? id = some p) :
    ∃ q, m.roster.get? id = some q ∧ q.state = p.state ∧ q.link = p.link ∧ q.handle = p.handle ∧
      q.address = p.address ∧ q.bound = p.bound := by
  have hentry := h.entry id
  rw [hp, Option.map_some, Option.map_eq_some_iff] at hentry
  obtain ⟨q, hq, hsame⟩ := hentry
  simp only [Peer.unsent, Peer.mk.injEq] at hsame
  obtain ⟨hstate, hlink, hhandle, haddress, -, hbound⟩ := hsame
  exact ⟨q, hq, hstate, hlink, hhandle, haddress, hbound⟩

theorem contains_iff (h : n.Unchanged m) : m.roster.Contains id ↔ n.roster.Contains id := by
  have hmono {n m : Node} (h : n.Unchanged m) (hin : n.roster.Contains id) :
      m.roster.Contains id := by
    obtain ⟨p, hp⟩ := Roster.exists_get? hin
    obtain ⟨q, hq, -⟩ := h.exists_entry hp
    exact Roster.contains_of_get? hq
  exact ⟨hmono h.symm, hmono h⟩

theorem hasRoom (h : n.Unchanged m) : m.links.hasRoom = n.links.hasRoom := by
  have hdrained := congrArg Links.hasRoom h.links
  exact hdrained

theorem knows (h : n.Unchanged m) (hk : n.Knows a) : m.Knows a := by
  obtain ⟨p, hp, haddress, hhandle⟩ := hk
  obtain ⟨q, hq, -, -, hhandle', haddress', -⟩ := h.exists_entry hp
  exact ⟨q, hq, haddress'.trans haddress, hhandle'.trans hhandle⟩

theorem ignores (h : n.Unchanged m) (hi : n.Ignores id) : m.Ignores id := by
  obtain hself | hout | ⟨p, hp, hp'⟩ := hi
  · exact .inl (hself.trans h.self_eq.symm)
  · exact .inr (.inl (mt h.contains_iff.1 hout))
  · obtain ⟨q, hq, hstate, hlink, -⟩ := h.exists_entry hp
    rw [← Peer.linked_congr hstate hlink, ← hstate] at hp'
    exact .inr (.inr ⟨q, hq, hp'⟩)

theorem shut (h : n.Unchanged m) (hs : n.Shut id) : m.Shut id := by
  refine ⟨h.self_eq ▸ hs.1, fun q hq => ?_⟩
  obtain ⟨p, hp, hstate, hlink, -, haddress, -⟩ := h.symm.exists_entry hq
  rw [← Peer.linked_congr hstate hlink, ← hstate, ← haddress, h.hasRoom]
  exact hs.2 p hp

theorem spent (h : n.Unchanged m) (hs : n.Spent a) : m.Spent a :=
  hs.imp h.ignores fun hk => ⟨h.knows hk.1, h.shut hk.2⟩

end Unchanged

theorem unchanged_tend (n : Node) (t : Nat) : n.Unchanged { n with now := t } :=
  ⟨rfl, rfl, rfl, rfl, fun _ => rfl⟩

theorem Takes.unchanged_of_queue {conn : ConnId} (ht : n.Takes (.queue id conn f) m) :
    n.Unchanged m := by
  cases ht with
  | @queue _ _ _ record _ _ link hp hl hr he hs =>
    have hlink : link.drain.2 = record.link.drain.2 := by
      obtain ⟨-, -, rfl⟩ := Link.send_eq_ok hs
      rfl
    refine ⟨by simp [self], rfl, rfl, Links.drained_modify ?_, fun id' => ?_⟩
    · rw [hr]
      rintro _ ⟨⟩
      exact hlink
    · rw [Roster.get?_noteSent]
      split
      · rename_i hid
        rw [hid, Option.map_map]
        rfl
      · rfl

theorem Takes.unchanged_of_refuse {conn : ConnId} (ht : n.Takes (.refuse id conn) m) :
    n.Unchanged m := by
  cases ht
  exact ⟨rfl, rfl, rfl, rfl, fun _ => rfl⟩

theorem noteAddress_unchanged (hk : n.Knows b) : n.Unchanged (n.noteAddress b) := by
  unfold noteAddress
  split
  · exact .refl n
  · obtain ⟨p, hp, haddress, hhandle⟩ := hk
    refine ⟨by simp [self], rfl, rfl, rfl, fun id => ?_⟩
    rw [Roster.get?_update]
    split
    · rename_i hid
      rw [hid, Option.mem_def.1 hp, Option.map_some, ← haddress, ← hhandle]
    · rfl

theorem receiveWith_unchanged (hf : Command.parse f.payload = .ok (.address b)) (hk : n.Knows b) :
    n.Unchanged (n.receiveWith loop f) := by
  have hsame {source : Handle} {c : Command}
      (h : n.routing.classify f = .control source c ∨ n.routing.classify f = .request source c) :
          c = .address b :=
    Except.ok.inj ((Routing.parse_of_classify h).symm.trans hf)
  unfold receiveWith
  split
  · rename_i source c hclass
    rw [hsame (.inl hclass)]
    exact noteAddress_unchanged hk
  · rename_i source c hclass
    rw [hsame (.inr hclass)]
    unfold serve
    split
    · rename_i registry hr
      -- the directory has no use for an introduction
      exact ⟨rfl, hr.symm, rfl, rfl, fun _ => rfl⟩
    · exact .refl n
  · exact ⟨rfl, rfl, rfl, rfl, fun _ => rfl⟩
  · exact .refl n

theorem tell_unchanged (hread : b.Readable) (hk : n.Knows b) (dest : Handle) :
    n.Unchanged (n.tell receiveOwn dest (.address b)) := by
  unfold tell
  split
  · rename_i hs
    unfold command post at hs
    split at hs
    · split at hs
      · cases hs
      · cases hs
        exact receiveWith_unchanged hread.parse_address hk
    · obtain ⟨_, _, -, -, -, hqueue | hrefuse⟩ := sendOver_takes hs
      · exact hqueue.unchanged_of_queue
      · exact hrefuse.unchanged_of_refuse
  · exact .refl n

theorem foldl_acquaint_unchanged {others : List Announcement} (ha : a.Readable) (hk : n.Knows a)
    (hothers : ∀ b ∈ others, b.Readable ∧ n.Knows b) :
    n.Unchanged (others.foldl (acquaint receiveOwn a) n) := by
  induction others generalizing n with
  | nil => exact .refl n
  | cons b rest ih =>
    rw [List.forall_mem_cons] at hothers
    obtain ⟨⟨hb, hkb⟩, hrest⟩ := hothers
    have hfirst := tell_unchanged ha hk b.handle
    have hboth : n.Unchanged (acquaint receiveOwn a n b) :=
      hfirst.trans (tell_unchanged hb (hfirst.knows hkb) a.handle)
    exact hboth.trans (ih (hboth.knows hk) fun c hc => ⟨(hrest c hc).1, hboth.knows (hrest c hc).2⟩)

structure Informed (n : Node) : Prop where
  ordered : n.Ordered
  center : n.registry?.isSome
  legible : n.Legible
  size : n.roster.size ≤ 256

namespace Informed

theorem via (h : n.Informed) (hv : n.Via Move.Heard m) : m.Informed where
  ordered := hv.ordered h.ordered
  center := by rw [hv.isSome_registry?, h.center]
  legible := hv.legible (fun _ => id) h.center h.legible
  size := hv.keeps (I := fun k => k.roster.size ≤ 256) (fun _ _ _ hk _ ht => ht.size_roster_eq ▸ hk)
    h.size

theorem of_mem_linkedBesides (h : n.Informed) (hb : b ∈ n.linkedBesides id) :
    b.Readable ∧ n.Knows b := by
  simp only [linkedBesides, List.mem_filterMap, Prod.exists, Roster.mem_others_iff h.size] at hb
  obtain ⟨other, p, ⟨hother, hp⟩, hentry⟩ := hb
  split at hentry
  · obtain ⟨handle, hhandle, rfl⟩ := Option.map_eq_some_iff.1 hentry
    exact ⟨h.legible other p handle hother hp hhandle, p, hp, rfl, hhandle⟩
  · cases hentry

theorem introduce_unchanged (h : n.Informed) (id : NodeId) :
    n.Unchanged (n.introduce receiveOwn id) := by
  unfold introduce
  split
  · rename_i p hr hp
    split
    · rename_i handle hhandle
      split
      · rename_i hl
        have hid : id ≠ n.self := fun hself => h.ordered.self_not_linked ⟨p, hself ▸ hp, hl⟩
        exact foldl_acquaint_unchanged (a := ⟨id, p.address, handle⟩)
          (h.legible id p handle hid hp hhandle) ⟨p, hp, rfl, hhandle⟩ fun b hb =>
            h.of_mem_linkedBesides hb
      · exact .refl n
    · exact .refl n
  · exact .refl n

end Informed

theorem enroll_of_ignores (hi : n.Ignores a.id) : n.enroll a = n := by
  obtain hself | hout | ⟨p, hp, hp'⟩ := hi
  · exact if_pos hself
  · unfold enroll
    split
    · rfl
    · split
      · rfl
      · exact absurd (Roster.contains_of_get? ‹_›) hout
  · unfold enroll
    split
    · rfl
    · simp only [Option.mem_def.1 hp, hp', if_true]

theorem enroll_of_not_ignores (hi : ¬ n.Ignores a.id) :
    n.enroll a = ((n.noteAddress a).dial a.id).getD (n.noteAddress a) := by
  simp only [Ignores, not_or, Decidable.not_not, not_exists, not_and] at hi
  obtain ⟨hself, hin, hfree⟩ := hi
  obtain ⟨p, hp⟩ := Roster.exists_get? hin
  have hp' := hfree p hp
  simp only [enroll, noteAddress, hself, if_false, hp, hp', or_self]

theorem knows_noteAddress (hself : a.id ≠ n.self) (hin : n.roster.Contains a.id) :
    (n.noteAddress a).Knows a := by
  obtain ⟨p, hp⟩ := Roster.exists_get? hin
  refine ⟨{ p with address := a.address, handle := some a.handle }, ?_, rfl, rfl⟩
  rw [noteAddress, if_neg hself, Option.mem_def, Roster.get?_update, if_pos rfl, hp]
  rfl

theorem Shut.dial_eq_none (hs : n.Shut id) : n.dial id = none := by
  unfold dial
  split
  · rfl
  · rename_i p hp
    obtain ⟨hl, hshaking | hnone | hfull⟩ := hs.2 p hp
    · simp [hl, hshaking]
    · simp [hl, hnone]
    · rw [if_neg hl]
      split
      · rfl
      · split
        · rfl
        · simp [hfull]

theorem Ordered.spent_enroll (ho : n.Ordered) (a : Announcement) : (n.enroll a).Spent a := by
  by_cases hi : n.Ignores a.id
  · rw [enroll_of_ignores hi]
    exact .inl hi
  · have hself : a.id ≠ n.self := fun h => hi (.inl h)
    have hin : n.roster.Contains a.id := by
      by_contra hout
      exact hi (.inr (.inl hout))
    have hvia : n.Via (fun _ => True) (n.noteAddress a) :=
      (noteAddress_via n a).mono fun _ _ => trivial
    have hself' : a.id ≠ (n.noteAddress a).self := hvia.self_eq ▸ hself
    rw [enroll_of_not_ignores hi]
    cases hd : (n.noteAddress a).dial a.id with
    | none => exact .inr ⟨knows_noteAddress hself hin, (hvia.ordered ho).shut_of_dial hself' hd⟩
    | some m =>
      obtain ⟨p, hp, hl⟩ := linked_of_dial hd hself'
      exact .inl (.inr (.inr ⟨p, hp, .inl hl⟩))

theorem Spent.enroll_unchanged (hs : n.Spent a) : n.Unchanged (n.enroll a) := by
  by_cases hi : n.Ignores a.id
  · rw [enroll_of_ignores hi]
    exact .refl n
  · obtain ⟨hk, hshut⟩ := hs.resolve_left hi
    have hnote := noteAddress_unchanged hk
    rw [enroll_of_not_ignores hi, (hnote.shut hshut).dial_eq_none]
    exact hnote

namespace Informed

theorem receive_unchanged (h : n.Informed) (hf : n.routing.registration? f = some a)
    (hs : n.Spent a) :
    n.Unchanged (n.receive f) := by
  have henroll := h.via (enroll_heard (Routing.registration?_eq_some hf).1 n)
  rw [receive_of_registration? h.center hf]
  exact hs.enroll_unchanged.trans (henroll.introduce_unchanged a.id)

theorem spent_receive (h : n.Informed) (hf : n.routing.registration? f = some a) :
    (n.receive f).Spent a := by
  have henroll := h.via (enroll_heard (Routing.registration?_eq_some hf).1 n)
  rw [receive_of_registration? h.center hf]
  exact (henroll.introduce_unchanged a.id).spent (h.ordered.spent_enroll a)

end Informed

theorem center_of_registration? (hf : n.routing.registration? f = some a) : n.registry?.isSome := by
  obtain ⟨-, source, hclass⟩ := Routing.registration?_eq_some hf
  exact Routing.isCenter_of_request hclass

section Start

variable {profile : Profile} {catalog : Catalog} {port : UInt16} {now : Nat}
  {result : Except Fault Handshake} {n₀ : Node}

/-- Whenever a center reads a registration for the second time, nothing comes of it that has not
come of it before, and nothing comes of one at all that it ignores. -/
theorem reregistration_of_run (started : start profile catalog port now result = .ok n₀)
    (events : List (Nat × Event)) (t : Nat) (before : List Frame) :
    Reregistration (before.foldl Node.receive { n₀.run events with now := t }) := by
  have htend : (n₀.run events).Via Move.Heard { n₀.run events with now := t } :=
    (Takes.tend t (n₀.run events).catalog).via trivial
  have hframes : Node.Via Move.Heard { n₀.run events with now := t }
      (before.foldl Node.receive { n₀.run events with now := t }) :=
        Via.foldl _ fun n f _ => receive_heard n f
  have hvia := htend.trans hframes
  have hinformed (center :
      (Node.registry? (before.foldl Node.receive { n₀.run events with now := t })).isSome) :
      Informed (before.foldl Node.receive { n₀.run events with now := t }) := by
    have hrun := run_via n₀ events
    have hcenter : (Node.registry? (n₀.run events)).isSome := by
      rw [← hvia.isSome_registry?, center]
    have hstart : n₀.registry?.isSome := by rw [← hrun.isSome_registry?, hcenter]
    exact Informed.via
      ⟨ordered_of_run started events, hcenter, legible_of_run started hstart events,
        size_roster_of_run started events⟩ hvia
  generalize before.foldl Node.receive { n₀.run events with now := t } = n at hinformed
  refine ⟨fun a f f' t hf hf' => ?_, fun a f hf hi => ?_, fun a f source hf hi => ?_⟩
  · have h := hinformed (center_of_registration? hf)
    have hfirst : n.Via Move.Heard { n.receive f with now := t } :=
      (receive_heard n f).trans ((Takes.tend t (n.receive f).catalog).via trivial)
    have htend := unchanged_tend (n.receive f) t
    refine htend.trans ((h.via hfirst).receive_unchanged ?_ (htend.spent (h.spent_receive hf)))
    rw [hfirst.routing_eq, hf']
  · exact (hinformed (center_of_registration? hf)).receive_unchanged hf (.inl hi)
  · have hreceive : n.receive f = n.enroll a := by simp only [receive, receiveWith, hf, obey]
    rw [hreceive, enroll_of_ignores hi]

/-- Node 3 registers with a center, and then node 4 does so twice. Both name the center as where
they take commands, so each introduction comes back to it. -/
theorem reregistration_of_run_loop :
    ∃ n₀ g f a b,
      start {} {} 7100 0 (.error .closed) = .ok n₀ ∧ (b.id = ⟨3⟩ ∧ b.handle = n₀.meshHandle) ∧
      (a.id = ⟨4⟩ ∧ a.handle = n₀.meshHandle) ∧ n₀.routing.registration? g = some b ∧
      (n₀.receive g).routing.registration? f = some a ∧
      ((n₀.receive g).receive f).Unchanged
        (Node.receive { (n₀.receive g).receive f with now := 1 } f) := by
  have started : start {} {} 7100 0 (.error .closed) = .ok (idle {} {} 7100 0) := rfl
  have center : (Node.registry? (idle {} {} 7100 0)).isSome := by decide +kernel
  have hread (id : NodeId) (nodePort : UInt16) (h : Command.parse (Command.register
      ⟨id, { nodeHost := "lab", nodePort }, ⟨⟨1⟩, meshModule⟩⟩).payload = .ok (.register _)) :
      ∃ a : Announcement, a.Readable ∧ a.id = id ∧ a.handle = Node.meshHandle (idle {} {} 7100 0) :=
    ⟨⟨id, { nodeHost := "lab", nodePort }, ⟨⟨1⟩, meshModule⟩⟩,
      Command.readable_of_parse h (.inl rfl), rfl, rfl⟩
  obtain ⟨b, hb, hthree⟩ := hread ⟨3⟩ 7103 (by decide +kernel)
  obtain ⟨a, ha, hfour⟩ := hread ⟨4⟩ 7104 (by decide +kernel)
  have hnow : (idle {} {} 7100 0).now = 0 := rfl
  generalize idle {} {} 7100 0 = n₀ at started center hthree hfour hnow
  have hg := registration?_of_registering (r := n₀.routing) center hb ⟨1⟩
  have hf := registration?_of_registering (r := n₀.routing) center ha ⟨1⟩
  generalize (Command.register b).frame b.id ⟨⟨1⟩, centerModule⟩ = g at hg
  rw [← (receive_via n₀ g).routing_eq] at hf
  have hall := reregistration_of_run started [] 0 [g]
  have hstart : { n₀.run [] with now := 0 } = n₀ := by
    rw [← hnow]
    rfl
  rw [hstart] at hall
  exact ⟨n₀, g, _, a, b, started, hthree, hfour, hg, hf, hall.again _ _ _ 1 hf hf⟩

end Start

end Node

end Meshwork
