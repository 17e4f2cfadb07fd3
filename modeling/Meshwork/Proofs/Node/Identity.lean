import Meshwork.Proofs.Node.Announced
import Meshwork.Proofs.Node.Overtaken

/-!
# What a node is

A node is a center or a member from its start on, and nobody can tell it anything about itself. Main
statement: `rooted_of_run`, of the own entry nothing changes but the modules, and no link leads to
the node itself.
-/

namespace Meshwork.Node

variable {n m : Node} {a : Move}

/-- A node is still what it was made with this profile, its listener at this port. -/
structure Rooted (profile : Profile) (catalog : Catalog) (port : UInt16) (n : Node) : Prop where
  self_eq : n.self = profile.nodeId
  registry_iff : n.registry?.isSome ↔ profile.center = .here ∨ (catalog.find? centerName).isSome
  other : ∀ c, n.center? = some c →
    n.roster.Contains c.node ∧ c.node ≠ profile.nodeId ∧ c.directory.node = c.node
  entry : ∃ bound, n.roster.get? profile.nodeId =
    some { handle := some ⟨profile.nodeId, meshModule⟩
           address := { profile.address with nodePort := port }
           bound }
  owner_ne : ∀ conn r, n.links.get? conn = some r → r.owner ≠ some profile.nodeId

theorem Takes.own_entry (ho : n.Ordered) (ht : n.Takes a m) {q : Peer}
    (hq : n.roster.get? n.self = some q) :
    ∃ bound, m.roster.get? n.self = some { q with bound } := by
  have hempty : q.state = .empty := ho.seated.own_state q hq
  have hlink : q.link = none := ho.wired.link_eq_none hq (by simp [hempty, LinkState.Live])
  have hcenter : n.center?.map (·.node) ≠ some n.self := by
    intro h
    obtain ⟨c, hc, hself⟩ := Option.map_eq_some_iff.1 h
    exact (ho.seated.center c hc).2.1 hself
  obtain ⟨p, hp, halters⟩ := ht.exists_alters hq
  cases halters with
  | same => exact ⟨q.bound, hp⟩
  | bind => exact ⟨_, hp⟩
  -- all others are about a node that is not this one, or that has a link or waits for one
  | learn node =>
    cases ht with
    | learn ha => exact absurd node ha
  | dial =>
    cases ht with
    | dial hid => exact absurd rfl hid
  | queue =>
    cases ht with
    | queue hpeer hl =>
      rw [hq, Option.some.injEq] at hpeer
      simp [← hpeer, Peer.liveLink?, hempty] at hl
  | join node =>
    cases ht with
    | join _ _ hj => exact absurd node (judge_eq_ok hj).2.2.1
  | release center => exact absurd center hcenter
  | seek center => exact absurd center hcenter
  | establish state => simp [hempty] at state
  | lose link => simp [hlink] at link

theorem Takes.owner?_ne_self (ho : n.Ordered) (ht : n.Takes a m)
    (h : ∀ conn, n.links.owner? conn ≠ some n.self) (conn : ConnId) :
    m.links.owner? conn ≠ some n.self := by
  intro howner
  obtain hold | ⟨p, hp, hl⟩ := ht.owner?_cases ho.wired howner
  · exact h conn hold
  · have hm := ht.ordered ho
    have hempty := hm.seated.own_state p (ht.self_eq ▸ hp)
    have hnone := hm.wired.link_eq_none hp (by simp [hempty, LinkState.Live])
    rw [hnone] at hl
    cases hl

theorem Takes.isSome_center? (ht : n.Takes a m) (h : n.center?.isSome) : m.center?.isSome := by
  by_cases ha : a.Joins
  · cases ht with
    | join => rfl
    | _ => exact ha.elim
  · rwa [ht.center?_eq ha]

section Start

variable {profile : Profile} {catalog : Catalog} {port : UInt16} {now : Nat}
  {result : Except Fault Handshake} {n₀ : Node}

theorem Takes.rooted (ho : n.Ordered) (ht : n.Takes a m) (h : n.Rooted profile catalog port) :
    m.Rooted profile catalog port where
  self_eq := ht.self_eq.trans h.self_eq
  registry_iff := by rw [ht.isSome_registry?, h.registry_iff]
  other c hc := by
    have hself := ht.self_eq.trans h.self_eq
    exact hself ▸ (ht.ordered ho).seated.center c hc
  entry := by
    obtain ⟨bound, hentry⟩ := h.entry
    rw [← h.self_eq] at hentry ⊢
    obtain ⟨bound', hentry'⟩ := ht.own_entry ho hentry
    exact ⟨bound', hentry'⟩
  owner_ne conn r hr howner := by
    have hnone : ∀ c, n.links.owner? c ≠ some n.self := by
      intro c hc
      obtain ⟨r, hr, howner⟩ := Option.bind_eq_some_iff.1 hc
      exact h.owner_ne c r hr (h.self_eq ▸ howner)
    refine ht.owner?_ne_self ho hnone conn ?_
    rw [Links.owner?, hr, h.self_eq, Option.bind_some, howner]

theorem isSome_registry?_idle : (Node.registry? (idle profile catalog port now)).isSome ↔
    profile.center = .here ∨ (catalog.find? centerName).isSome := by
  by_cases hcenter : profile.center = .here ∨ (catalog.find? centerName).isSome
  · simp [idle, registry?, hcenter]
  · simp [idle, registry?, hcenter]

theorem rooted_idle (hflaw : profile.flaw? = none) :
    (idle profile catalog port now).Rooted profile catalog port where
  self_eq := rfl
  registry_iff := isSome_registry?_idle
  other c hc := by
    rw [center?_idle] at hc
    cases hc
  entry := by
    have hown := (seated_idle hflaw catalog port now).own
    exact ⟨[], (Roster.me?_eq_get? hown).symm.trans (me?_idle hflaw)⟩
  owner_ne conn r hr := by
    rw [get?_links_idle] at hr
    cases hr

/-- In every state that a started node comes to, within a handler or after it and whatever it has
received: it is what it started as. It has a registry or knows its center, but not both. -/
theorem rooted_of_run (started : start profile catalog port now result = .ok n₀)
    (events : List (Nat × Event)) {moves : List Move} (passed : (n₀.run events).Path moves m) :
    m.Rooted profile catalog port ∧ (m.registry?.isSome ↔ m.center? = none) := by
  have hflaw := (start_cases started).1
  have hstep {I : Node → Prop} (hI : ∀ n a m, I n → Takes n a m → I m) (h₀ : I n₀) : I m :=
    passed.keeps hI (run_keeps hI h₀ events)
  constructor
  · have hkeeps : ∀ n a m, n.Ordered ∧ n.Rooted profile catalog port → Takes n a m →
        m.Ordered ∧ m.Rooted profile catalog port :=
      fun _ _ _ hk ht => ⟨ht.ordered hk.1, ht.rooted hk.1 hk.2⟩
    exact (hstep hkeeps (start_keeps hkeeps ⟨ordered_idle hflaw .., rooted_idle hflaw⟩ started)).2
  · constructor
    · intro hregistry
      cases hc : m.center? with
      | none => rfl
      | some c => simp [registry?_of_center? hc] at hregistry
    · intro hcenter
      by_contra hregistry
      have hmember : n₀.registry? = none := by
        have hsame := hstep (I := fun k => k.registry?.isSome = n₀.registry?.isSome)
          (fun _ _ _ hk ht => ht.isSome_registry?.trans hk) rfl
        rw [hsame] at hregistry
        simpa using hregistry
      -- a member starts with the center that it has joined
      obtain ⟨h, -, rfl, -⟩ := join_of_start started hmember
      have hsession := (opened_of_start started hmember).1.session
      have hsome := hstep (I := fun k => k.center?.isSome) (fun _ _ _ hk ht => ht.isSome_center? hk)
        (by rw [hsession.center]; rfl)
      simp [hcenter] at hsome

/-- A center that is node 3 receives the registration of a node 3. -/
theorem rooted_of_run_namesake :
    ∃ n₀ f a, start { nodeId := ⟨3⟩ } {} 7100 0 (.error .closed) = .ok n₀ ∧
      n₀.routing.classify f = .control ⟨⟨3⟩, meshModule⟩ (.register a) ∧ a.id = n₀.self ∧
      (n₀.run [(1, .link (.frames ⟨1⟩ [f]))]).Rooted { nodeId := ⟨3⟩ } {} 7100 ∧
      (Node.registry? (n₀.run [(1, .link (.frames ⟨1⟩ [f]))])).isSome := by
  have started : start { nodeId := ⟨3⟩ } {} 7100 0 (.error .closed) =
      .ok (idle { nodeId := ⟨3⟩ } {} 7100 0) := rfl
  obtain ⟨a, f, hid, -, hf⟩ := exists_registration
  obtain ⟨hrooted, -⟩ := rooted_of_run started [(1, .link (.frames ⟨1⟩ [f]))] (.nil _)
  exact ⟨_, f, a, started, hf _, hid, hrooted, hrooted.registry_iff.2 (.inl rfl)⟩

end Start

end Meshwork.Node
