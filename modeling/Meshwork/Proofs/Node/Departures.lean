import Meshwork.Proofs.Node.OwnNames

/-!
# Nodes that leave the directory

A center drops what a node has in its directory when it loses the link of the node, and when
somebody says that the node left and it has no link. Main statement: `departures_of_run`, when a
frame has made the center drop something of a node the node is not linked, and with the link of a
node goes all that the node has and nothing else. Frames that come at once are handled one after the
other, so a later one may link the node again: `exists_linked_after_drop`.
-/

namespace Meshwork

namespace Registry

variable {r s : Registry} {calls : List Call} {id : NodeId}

def Drops (r s : Registry) (id : NodeId) : Prop :=
  ∃ name, id ∈ r.subscribersOf name ∧ id ∉ s.subscribersOf name ∨
    ∃ handle, handle.node = id ∧ handle ∈ r.publishersOf name ∧ handle ∉ s.publishersOf name

/-- In `s` nothing of a node is left, and the other entries of `r` are in their order. -/
def Loses (r s : Registry) (id : NodeId) : Prop :=
  ∀ name, s.subscribersOf name = (r.subscribersOf name).filter (· ≠ id) ∧
    s.publishersOf name = (r.publishersOf name).filter (·.node ≠ id)

theorem Drops.cases (h : r.Drops s id) (k : Registry) : r.Drops k id ∨ k.Drops s id := by
  obtain ⟨name, ⟨hr, hs⟩ | ⟨handle, hid, hr, hs⟩⟩ := h
  · by_cases hk : id ∈ k.subscribersOf name
    · exact .inr ⟨name, .inl ⟨hk, hs⟩⟩
    · exact .inl ⟨name, .inl ⟨hr, hk⟩⟩
  · by_cases hk : handle ∈ k.publishersOf name
    · exact .inr ⟨name, .inr ⟨handle, hid, hk, hs⟩⟩
    · exact .inl ⟨name, .inr ⟨handle, hid, hr, hk⟩⟩

theorem not_drops_self (r : Registry) (id : NodeId) : ¬ r.Drops r id := by
  rintro ⟨name, ⟨hr, hs⟩ | ⟨handle, -, hr, hs⟩⟩
  · exact hs hr
  · exact hs hr

theorem Neat.run (h : r.Neat) (calls : List Call) : (r.run calls).Neat := by
  induction calls generalizing r with
  | nil => exact h
  | cons c rest ih => exact ih (h.call c)

theorem Neat.forget_mem_of_drops (h : r.Neat) (hd : r.Drops (r.run calls) id) :
    .forget id ∈ calls := by
  induction calls generalizing r with
  | nil => exact absurd hd (not_drops_self r id)
  | cons c rest ih =>
    obtain hfirst | hrest := hd.cases (r.call c).1
    · by_contra hnot
      have hc : c ≠ .forget id := fun heq => hnot (heq ▸ List.mem_cons_self ..)
      obtain ⟨name, ⟨hr, hs⟩ | ⟨handle, rfl, hr, hs⟩⟩ := hfirst
      · exact hs ((mem_subscribersOf_call h).2 (.inl ⟨hr, hc⟩))
      · exact hs ((mem_publishersOf_call h).2 (.inl ⟨hr, hc⟩))
    · exact List.mem_cons_of_mem c (ih (h.call c) hrest)

theorem Neat.loses_forget (h : r.Neat) (id : NodeId) : r.Loses (r.forget id) id := fun name => by
  rw [subscribersOf, publishersOf, forget, Listing.under_keep h.subscribers.names,
    Listing.under_keep h.publishers.names]
  exact ⟨rfl, rfl⟩

end Registry

namespace Node

variable {n m k : Node} {f : Frame} {frames : List Frame} {e : Event} {id : NodeId} {conn : ConnId}

/-- Between two states the registry drops something of a node. -/
def Drops (n m : Node) (id : NodeId) : Prop := ∃ r ∈ n.registry?, ∃ s ∈ m.registry?, r.Drops s id

/-- The entry of a node has a link. -/
def LinkedTo (n : Node) (id : NodeId) : Prop := ∃ p ∈ n.roster.get? id, p.Linked

instance (n : Node) (id : NodeId) : Decidable (n.LinkedTo id) :=
  inferInstanceAs (Decidable (∃ p ∈ _, _))

/-- How nodes leave the directory of a center. -/
structure Departures (n : Node) : Prop where
  frame : ∀ f id, n.Drops (n.receive f) id → ¬ (n.receive f).LinkedTo id
  event : ∀ t e id, n.Drops (n.stepAt t e) id → (n.framesOf e).length ≤ 1 →
    ¬ (n.stepAt t e).LinkedTo id
  /-- If a node is linked after an event that made the center drop something of it, then one of the
  frames did so while it was not linked. -/
  batch : ∀ t e id, n.Drops (n.stepAt t e) id → (n.stepAt t e).LinkedTo id →
    ∃ before f after k,
      n.framesOf e = before ++ f :: after ∧ k = before.foldl receive { n with now := t } ∧
      k.Drops (k.receive f) id ∧ ¬ (k.receive f).LinkedTo id
  lost : ∀ t e conn id p, n.Closes conn e → n.roster.get? id = some p → p.link = some conn →
    ∃ r s, n.registry? = some r ∧ Node.registry? (n.stepAt t e) = some s ∧ r.Loses s id
  /-- The end of a link that no entry has does not matter. -/
  stale : ∀ t e conn, n.Closes conn e → (∀ id p, n.roster.get? id = some p → p.link ≠ some conn) →
    Node.registry? (n.stepAt t e) = n.registry?

structure Files (n : Node) (r : Registry) : Prop where
  ordered : n.Ordered
  registry : n.registry? = some r
  neat : r.Neat

theorem Drops.cases (h : n.Drops m id) (hk : k.registry?.isSome) : n.Drops k id ∨ k.Drops m id := by
  obtain ⟨r, hr, s, hs, hd⟩ := h
  obtain ⟨q, hq⟩ := Option.isSome_iff_exists.1 hk
  exact (hd.cases q).imp (fun h => ⟨r, hr, q, hq, h⟩) fun h => ⟨q, hq, s, hs, h⟩

namespace Files

variable {r : Registry} {calls : List Registry.Call}

theorem of_directs (h : n.Files r) (hd : n.Directs calls m) : m.Files (r.run calls) where
  ordered := hd.via.ordered h.ordered
  registry := by rw [hd.registry, h.registry, Option.map_some]
  neat := h.neat.run calls

theorem center (h : n.Files r) : n.registry?.isSome := by
  rw [h.registry]
  rfl

theorem tend (h : n.Files r) (t : Nat) : Files { n with now := t } r :=
  ⟨h.ordered.tend t, h.registry, h.neat⟩

theorem forget_mem_of_drops (h : n.Files r) (hd : n.Directs calls m) (hdrops : n.Drops m id) :
    .forget id ∈ calls := by
  obtain ⟨r', hr, s, hs, hdrop⟩ := hdrops
  obtain rfl := Option.some.inj (h.registry.symm.trans hr)
  obtain rfl := Option.some.inj ((h.of_directs hd).registry.symm.trans hs)
  exact h.neat.forget_mem_of_drops hdrop

theorem not_linkedTo_of_receive (h : n.Files r) (hd : n.Drops (n.receive f) id) :
    ¬ (n.receive f).LinkedTo id := by
  obtain ⟨⟨source, hf⟩, hunlinked⟩ :=
    forget_mem_frameCalls_iff.1 (h.forget_mem_of_drops (directs_receive h.center f) hd)
  rw [receive_unregister hf, if_neg hunlinked]
  unfold forget
  split <;> exact hunlinked

theorem exists_frame_of_drops (h : n.Files r) (hd : n.Drops (frames.foldl receive n) id) :
    ∃ before f after k, frames = before ++ f :: after ∧ k = before.foldl receive n ∧
      k.Drops (k.receive f) id ∧ ¬ (k.receive f).LinkedTo id := by
  induction frames generalizing n r with
  | nil =>
    obtain ⟨r', hr, s, hs, hdrop⟩ := hd
    obtain rfl := Option.some.inj (hr.symm.trans hs)
    exact absurd hdrop (Registry.not_drops_self r' id)
  | cons f rest ih =>
    have hfirst := h.of_directs (directs_receive h.center f)
    obtain hd | hd := hd.cases hfirst.center
    · exact ⟨[], f, rest, n, rfl, rfl, hd, h.not_linkedTo_of_receive hd⟩
    · obtain ⟨before, g, after, k, rfl, hk, hdrops⟩ := ih hfirst hd
      exact ⟨f :: before, g, after, k, rfl, hk, hdrops⟩

end Files

theorem step_eq_of_framesOf (h : n.framesOf e ≠ []) :
    n.step e = (n.framesOf e).foldl receive n := by
  cases e with
  | link e =>
    cases e with
    | frames conn frames => rfl
    | _ => exact absurd rfl h
  | call c =>
    cases c with
    | send source dest kind payload =>
      exact step_eq_foldl fun hpass => h (via_of_passes hpass).2.1
    | _ => exact absurd rfl h
  | _ => exact absurd rfl h

theorem Ordered.not_linkedTo_of_closes (ho : n.Ordered) (hc : n.Closes conn e) {p : Peer}
    (hp : n.roster.get? id = some p) (hl : p.link = some conn) (t : Nat) :
    ¬ (n.stepAt t e).LinkedTo id := by
  have hroster : (n.turned t e).roster = n.roster := by cases e <;> rfl
  rw [stepAt_of_closes hc]
  rintro ⟨q, hq, hlinked⟩
  rw [((ho.turned t e).entry_of_lose (hroster ▸ hp) hl).1] at hq
  cases hq
  exact Peer.not_linked_detached hlinked

namespace Files

variable {r : Registry}

theorem stepAt (h : n.Files r) (t : Nat) (e : Event) :
    (n.stepAt t e).Files (r.run (eventCalls { n with now := t } e)) :=
  h.of_directs (h.ordered.wired.directs_stepAt h.center t e)

theorem drops_cases (h : n.Files r) (t : Nat) (hd : n.Drops (n.stepAt t e) id) :
    ¬ (n.stepAt t e).LinkedTo id ∨
      n.stepAt t e = (n.framesOf e).foldl receive { n with now := t } ∧
        ∃ before f after k,
          n.framesOf e = before ++ f :: after ∧ k = before.foldl receive { n with now := t } ∧
          k.Drops (k.receive f) id ∧ ¬ (k.receive f).LinkedTo id := by
  have hmem := h.forget_mem_of_drops (h.ordered.wired.directs_stepAt h.center t e) hd
  obtain ⟨conn, _, hc, hleaver, heq⟩ | ⟨c, hown⟩ | hframes := mem_eventCalls hmem
  · cases heq
    obtain ⟨p, hp, hl⟩ := (leaver?_eq_some_iff (h.tend t).ordered.wired).1 hleaver
    exact .inl (h.ordered.not_linkedTo_of_closes hc hp hl t)
  · simp [ownCalls] at hown
  · have hsome : framesOf { n with now := t } e ≠ [] :=
      fun hnil => by simp [hnil, framesCalls] at hframes
    have hstep : n.stepAt t e = (n.framesOf e).foldl receive { n with now := t } :=
      step_eq_of_framesOf hsome
    exact .inr ⟨hstep, (h.tend t).exists_frame_of_drops (hstep ▸ hd)⟩

theorem departures (h : n.Files r) : n.Departures where
  frame f id hd := h.not_linkedTo_of_receive hd
  event t e id hd hshort := by
    obtain hnot | ⟨hstep, before, f, after, k, heq, rfl, -, hnot⟩ := h.drops_cases t hd
    · exact hnot
    · -- the frame is the only one
      obtain ⟨rfl, rfl⟩ : before = [] ∧ after = [] := by
        rw [heq, List.length_append, List.length_cons] at hshort
        exact ⟨List.length_eq_zero_iff.1 (by omega), List.length_eq_zero_iff.1 (by omega)⟩
      rw [hstep, heq]
      exact hnot
  batch t e id hd hlinked := ((h.drops_cases t hd).resolve_left (not_not.2 hlinked)).2
  lost t e conn id p hc hp hl := by
    have hleaver : leaver? { n with now := t } conn = some id :=
      (leaver?_eq_some_iff (h.tend t).ordered.wired).2 ⟨p, hp, hl⟩
    have hcalls : eventCalls { n with now := t } e = [.forget id] := by
      rw [eventCalls_of_closes (n := { n with now := t }) hc, hleaver]
      rfl
    refine ⟨r, r.forget id, h.registry, ?_, h.neat.loses_forget id⟩
    rw [(h.stepAt t e).registry, hcalls]
    rfl
  stale t e conn hc hnone := by
    have hleaver : leaver? { n with now := t } conn = none := by
      refine Option.eq_none_iff_forall_ne_some.2 fun id hid => ?_
      obtain ⟨p, hp, hl⟩ := (leaver?_eq_some_iff (h.tend t).ordered.wired).1 hid
      exact hnone id p hp hl
    have hcalls : eventCalls { n with now := t } e = [] := by
      rw [eventCalls_of_closes (n := { n with now := t }) hc, hleaver]
      rfl
    rw [(h.stepAt t e).registry, hcalls, h.registry]
    rfl

end Files

section Start

variable {profile : Profile} {catalog : Catalog} {port : UInt16} {now : Nat}
  {result : Except Fault Handshake} {n₀ : Node}

/-- After every run of a center, no frame makes it drop anything of a node that is linked when the
frame is handled. With the link of a node goes all that the node has, and nothing else. -/
theorem departures_of_run (started : start profile catalog port now result = .ok n₀)
    (center : n₀.registry?.isSome) (events : List (Nat × Event)) : (n₀.run events).Departures := by
  have hfiles : n₀.Files {} :=
    ⟨ordered_of_run started [], (blank_of_start started center).1, Registry.neat_run []⟩
  exact (hfiles.of_directs (hfiles.ordered.wired.directs_run center events)).departures

theorem exists_drop : ∃ events f n k, n = Node.run (idle {} {} 7100 0) events ∧
    k = n.stepAt 2 (.link (.frames ⟨1⟩ [f])) ∧ n.Drops k ⟨3⟩ ∧ k.roster.Contains ⟨3⟩ ∧
      k.self = ⟨1⟩ ∧
      ¬ k.Waits ⟨3⟩ ∧ k.links.hasRoom = true := by
  obtain ⟨asks, hasks⟩ :
      ∃ asks : Command → Frame, asks = fun c => c.frame ⟨3⟩ ⟨⟨1⟩, centerModule⟩ := ⟨_, rfl⟩
  obtain ⟨n, hn⟩ : ∃ n, n = Node.run (idle {} {} 7100 0)
      [(1, .link (.frames ⟨1⟩ [asks (.publish "db" ⟨⟨3⟩, 5⟩)]))] := ⟨_, rfl⟩
  obtain ⟨k, hk⟩ : ∃ k, k = n.stepAt 2 (.link (.frames ⟨1⟩ [asks (.unregister ⟨3⟩)])) := ⟨_, rfl⟩
  have hbefore : n.registry? = some { publishers := [("db", [⟨⟨3⟩, 5⟩])] } := by
    rw [hn, hasks]
    decide +kernel
  have hafter : k.registry? = some {} ∧ k.roster.Contains ⟨3⟩ ∧ k.self = ⟨1⟩ ∧
      (¬ ∃ p ∈ k.roster.get? ⟨3⟩, p.state = .handshaking) ∧ k.links.hasRoom = true := by
    rw [hk, hn, hasks]
    decide +kernel
  exact ⟨_, _, n, k, hn, hk,
    ⟨_, hbefore, _, hafter.1, "db", .inr ⟨⟨⟨3⟩, 5⟩, rfl, by decide, by decide⟩⟩, hafter.2⟩

/-- A node that is not linked leaves. -/
theorem departures_of_run_unregister :
    ∃ n₀ events t e, start {} {} 7100 0 (.error .closed) = .ok n₀ ∧ n₀.registry?.isSome ∧
      (n₀.run events).Drops ((n₀.run events).stepAt t e) ⟨3⟩ ∧
        ¬ ((n₀.run events).stepAt t e).LinkedTo ⟨3⟩ := by
  have started : start {} {} 7100 0 (.error .closed) = .ok (idle {} {} 7100 0) := rfl
  obtain ⟨events, f, n, k, rfl, rfl, hdrops, -⟩ := exists_drop
  exact ⟨_, events, 2, _, started, rfl, hdrops,
    (departures_of_run started rfl events).event _ _ _ hdrops (Nat.le_refl 1)⟩

/-- A node that says that it leaves, and registers in the same batch, is linked when the batch is
handled, and what it had published is gone. -/
theorem exists_linked_after_drop :
    ∃ n₀ events t e, start {} {} 7100 0 (.error .closed) = .ok n₀ ∧ n₀.registry?.isSome ∧
      (n₀.run events).Drops ((n₀.run events).stepAt t e) ⟨3⟩ ∧
        ((n₀.run events).stepAt t e).LinkedTo ⟨3⟩ := by
  have started : start {} {} 7100 0 (.error .closed) = .ok (idle {} {} 7100 0) := rfl
  obtain ⟨events, f, n, k, hn, hk, hdrops, hin, hself, hwait, hroom⟩ := exists_drop
  obtain ⟨a, g, hid, haddress, hg⟩ := exists_registration
  have hbatch : n.stepAt 2 (.link (.frames ⟨1⟩ [f, g])) = k.enroll a := by
    have hreceive : k.receive g = k.enroll a := by simp only [receive, receiveWith, hg, obey]
    rw [← hreceive, hk]
    rfl
  have ho : k.Ordered := by
    rw [hk, hn, ← run_concat]
    exact ordered_of_run started _
  obtain ⟨r, hr, s, hs, hdrop⟩ := hdrops
  have henroll := (enroll_via k a).mono (Q := Move.Nameless) fun _ ha => ha.1.nameless
  refine ⟨_, events, 2, .link (.frames ⟨1⟩ [f, g]), started, rfl, ⟨r, hn ▸ hr, s, ?_, hdrop⟩, ?_⟩
  · rw [← hn, hbatch, Option.mem_def, henroll.registry?_eq]
    exact hs
  · rw [← hn, hbatch, ← hid]
    exact ho.linked_of_enroll (hid ▸ hin) (by rw [hid, hself]; decide) (hid ▸ hwait) haddress hroom

end Start

end Node

end Meshwork
