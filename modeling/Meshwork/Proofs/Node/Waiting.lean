import Mathlib.Data.List.Induction
import Meshwork.Proofs.Node.CenterSlot

/-!
# Entries that wait for a handshake

The entry of the center waits while a handshake is under way. The result may name another node: that
node gets the link and is the center from then on, and the entry that waited is not given back. Main
statement: `waits_iff_of_run`, after every run an entry waits exactly if it is that of the center
and a handshake is under way, or it was left behind so.
-/

namespace Meshwork.Node

variable {n m : Node} {a : Move} {id : NodeId} {conn : ConnId} {directory : Handle} {h : Handshake}

/-- The entry of a node waits for the result of a handshake. -/
def Waits (n : Node) (id : NodeId) : Prop := ∃ p ∈ n.roster.get? id, p.state = .handshaking

theorem awaits_iff : n.Awaits ↔ ∃ center ∈ n.center?, n.Waits center.node := .rfl

/-- In a run a handshake that the entry of a node waits for named another node, and no handshake
that was accepted since then named the node itself. -/
inductive Stranded (n₀ : Node) (id : NodeId) : List (Nat × Event) → Prop where
  | leave {before : List (Nat × Event)} {h : Handshake} (accepted : (n₀.run before).Accepts h)
      (center : (n₀.run before).center?.map (·.node) = some id)
      (other : h.greeting.center.node ≠ id) (t : Nat) :
      Stranded n₀ id (before ++ [(t, .handshake (.ok h))])
  | stay {before : List (Nat × Event)} {e : Event} (stranded : Stranded n₀ id before)
      (unnamed :
        ∀ h, e = .handshake (.ok h) → (n₀.run before).Accepts h → h.greeting.center.node ≠ id)
      (t : Nat) : Stranded n₀ id (before ++ [(t, e)])

/-- One handshake is under way while the entry of the center waits, and none otherwise. -/
def Counted (n : Node) : Prop := n.Awaits ∧ n.handshakes = 1 ∨ ¬ n.Awaits ∧ n.handshakes = 0

theorem Takes.waits_iff (hw : n.Wired) (ht : n.Takes a m) (ha : a.Steady) (hs : a ≠ .seek) :
    m.Waits id ↔ n.Waits id := by
  constructor
  · rintro ⟨p, hp, hstate⟩
    obtain ⟨q, hq, halters⟩ := ht.alters hp
    cases halters with
    | same | learn | bind | queue => exact ⟨_, hq, hstate⟩
    | join | release => exact ha.elim
    | seek => exact absurd rfl hs
    | dial | establish | lose => cases hstate
  · rintro ⟨q, hq, hstate⟩
    have hlive := hw.link_iff id q hq
    obtain ⟨p, hp, halters⟩ := ht.exists_alters hq
    cases halters with
    | same | learn | bind | queue => exact ⟨_, hp, hstate⟩
    | join | release => exact ha.elim
    | seek => exact absurd rfl hs
    | dial _ idle => exact absurd hstate idle
    | establish state =>
      rw [state] at hstate
      cases hstate
    | lose link => simp [link, hstate, LinkState.Live] at hlive

theorem Takes.handshakes_eq (ht : n.Takes a m) (ha : a.Steady) (hs : a ≠ .seek) :
    m.handshakes = n.handshakes := by
  cases ht with
  | answered => exact ha.elim
  | seek => exact absurd rfl hs
  | _ => rfl

theorem Takes.waits_of_seek (ht : n.Takes .seek m) :
    ¬ n.Awaits ∧ m.handshakes = n.handshakes + 1 ∧
      ∀ id, m.Waits id ↔ n.Waits id ∨ n.center?.map (·.node) = some id := by
  cases ht with
  | @seek center peer endpoint hc he hp hs =>
    refine ⟨?_, rfl, fun id => ?_⟩
    · rintro ⟨center', hc', q, hq, hq'⟩
      rw [hc, Option.mem_some] at hc'
      rw [← hc', hp, Option.mem_some] at hq
      rw [← hq, hs] at hq'
      cases hq'
    · rw [Waits, Waits, Roster.get?_modify, hc]
      by_cases hid : id = center.node
      · simp [hid, hp, hs]
      · have hne : ¬ center.node = id := fun heq => hid heq.symm
        simp [hid, hne]

theorem Takes.waits_of_release (ht : n.Takes .release m) :
    m.handshakes = n.handshakes ∧
      ∀ id, m.Waits id ↔ n.Waits id ∧ n.center?.map (·.node) ≠ some id := by
  cases ht with
  | @release center peer hc hp hs =>
    refine ⟨rfl, fun id => ?_⟩
    rw [Waits, Waits, Roster.get?_detach, hc]
    by_cases hid : id = center.node
    · simp [hid, hp, Peer.detached]
    · have hne : ¬ center.node = id := fun heq => hid heq.symm
      simp [hid, hne]

theorem Takes.waits_of_join (ht : n.Takes (.join conn h) m) :
    m.center?.map (·.node) = some h.greeting.center.node ∧ m.handshakes = n.handshakes ∧
      ∀ id, m.Waits id ↔ n.Waits id ∧ id ≠ h.greeting.center.node := by
  cases ht with
  | @join _ i links hm hf hj hi address =>
    refine ⟨rfl, rfl, fun id => ?_⟩
    obtain ⟨-, hin, -⟩ := judge_eq_ok hj
    obtain ⟨p, hp⟩ := Roster.exists_get? hin
    rw [Waits, Waits, Roster.get?_noteSent_attach_update]
    by_cases hid : id = h.greeting.center.node
    · simp [hid, hp]
    · simp [hid]

theorem Via.center?_eq {P : Move → Prop} (hv : n.Via P m) (hP : ∀ a, P a → ¬ a.Joins) :
    m.center? = n.center? :=
  hv.keeps (I := fun k => k.center? = n.center?)
    (fun _ a _ hk ha ht => (ht.center?_eq (hP a ha)).trans hk) rfl

theorem Via.waits_iff (hv : n.Via Move.Inner m) (ho : n.Ordered) :
    (∀ id, m.Waits id ↔ n.Waits id) ∧ m.handshakes = n.handshakes := by
  have hkeep := hv.keeps
    (I := fun k => k.Ordered ∧ (∀ id, k.Waits id ↔ n.Waits id) ∧ k.handshakes = n.handshakes)
    (fun k a l hk ha ht => ?_) ⟨ho, fun _ => .rfl, rfl⟩
  · exact hkeep.2
  · have hseek : a ≠ .seek := by
      rintro rfl
      exact ha
    exact ⟨ht.ordered hk.1, fun id => (ht.waits_iff hk.1.wired ha.steady hseek).trans (hk.2.1 id),
      (ht.handshakes_eq ha.steady hseek).trans hk.2.2⟩

theorem Counted.handshakes_eq_one_iff (hc : n.Counted) : n.handshakes = 1 ↔ n.Awaits := by
  obtain ⟨hw, hone⟩ | ⟨hw, hzero⟩ := hc
  · simp [hw, hone]
  · simp [hw, hzero]

theorem Takes.counted (hw : n.Wired) (hc : n.Counted) (ht : n.Takes a m) (ha : a.Steady) :
    m.Counted := by
  have hcenter : m.center? = n.center? := ht.center?_eq ha.not_joins
  by_cases hs : a = .seek
  · subst hs
    obtain ⟨hnot, hcount, hwaits⟩ := ht.waits_of_seek
    have hzero : n.handshakes = 0 := (hc.resolve_left fun hone => hnot hone.1).2
    refine .inl ⟨?_, by rw [hcount, hzero]⟩
    cases ht with
    | seek hknown => exact ⟨_, hcenter.trans hknown, (hwaits _).2 (.inr (by rw [hknown]; rfl))⟩
  · have hawaits : m.Awaits ↔ n.Awaits := by
      simp only [awaits_iff, hcenter, ht.waits_iff hw ha hs]
    rwa [Counted, hawaits, ht.handshakes_eq ha hs]

theorem Via.counted (hv : n.Via Move.Steady m) (hc : n.Counted) (ho : n.Ordered) :
    m.Counted ∧ m.center? = n.center? ∧
      ∀ id, n.center?.map (·.node) ≠ some id → (m.Waits id ↔ n.Waits id) := by
  have hkeep := hv.keeps (I := fun k => k.Ordered ∧ k.Counted ∧ k.center? = n.center? ∧
    ∀ id, n.center?.map (·.node) ≠ some id → (k.Waits id ↔ n.Waits id)) (fun k a l hk ha ht => ?_)
    ⟨ho, hc, rfl, fun _ _ => .rfl⟩
  · exact hkeep.2
  · obtain ⟨hko, hkc, hcenter, hwaits⟩ := hk
    refine ⟨ht.ordered hko, ht.counted hko.wired hkc ha, (ht.center?_eq ha.not_joins).trans hcenter,
      fun id hne => ?_⟩
    by_cases hs : a = .seek
    · subst hs
      rw [ht.waits_of_seek.2.2, hcenter, hwaits id hne]
      exact or_iff_left hne
    · rw [ht.waits_iff hko.wired ha hs, hwaits id hne]

theorem Ordered.handshakes_finishHandshake (ho : n.Ordered) (result : Except Fault Handshake) :
    (n.finishHandshake result).handshakes = n.handshakes - 1 := by
  obtain ⟨-, heq⟩ | ⟨-, -, hrelease⟩ | ⟨h, m, -, -, hjoin, hinner⟩ :=
    ho.finishHandshake_cases result
  · rw [heq]
  · exact hrelease.waits_of_release.1
  · have hm := hjoin.ordered (Takes.answered.ordered ho)
    exact (hinner.waits_iff hm).2.trans hjoin.waits_of_join.2.1

theorem Counted.handshakes_stepAt (hc : n.Counted) (ho : n.Ordered) (t : Nat)
    (result : Except Fault Handshake) : (n.stepAt t (.handshake result)).handshakes = 0 := by
  have htend : n.Takes .tend { n with now := t } := .tend t n.catalog
  rw [Node.stepAt, step, (htend.ordered ho).handshakes_finishHandshake]
  obtain ⟨-, hone⟩ | ⟨-, hzero⟩ := hc
  · simp [hone]
  · simp [hzero]

theorem Counted.stepAt (hc : n.Counted) (ho : n.Ordered) (t : Nat) {e : Event}
    (he : ∀ h, e = .handshake (.ok h) → ¬ n.Accepts h) :
    (n.stepAt t e).Counted ∧ (n.stepAt t e).center? = n.center? ∧
      ∀ id, n.center?.map (·.node) ≠ some id → ((n.stepAt t e).Waits id ↔ n.Waits id) := by
  have htend : n.Takes .tend { n with now := t } := .tend t n.catalog
  by_cases hresult : ∃ result, e = .handshake result
  · obtain ⟨result, rfl⟩ := hresult
    have ho' : Ordered { n with now := t } := htend.ordered ho
    obtain ⟨hw, heq⟩ | ⟨hw, -, hrelease⟩ | ⟨h, m, rfl, haccepts, -⟩ :=
      ho'.finishHandshake_cases result
    · have hzero : n.handshakes = 0 := (hc.resolve_left fun hone => hw hone.1).2
      have hsame : n.stepAt t (.handshake result) = { n with now := t } := by
        rw [Node.stepAt, step, heq, hzero]
      rw [hsame]
      exact (htend.via trivial).counted hc ho
    · have hcenter : (n.stepAt t (.handshake result)).center? = n.center? :=
        hrelease.center?_eq (fun h => h)
      have hwaits := hrelease.waits_of_release.2
      refine ⟨.inr ⟨?_, hc.handshakes_stepAt ho t result⟩, hcenter,
        fun id hne => (hwaits id).trans (and_iff_left hne)⟩
      rw [awaits_iff, hcenter]
      rintro ⟨center, hknown, hwait⟩
      rw [Option.mem_def] at hknown
      exact ((hwaits _).1 hwait).2 (congrArg (Option.map (·.node)) hknown)
    · exact absurd haccepts (he h rfl)
  · have hsteady :=
      step_via_of_ne_handshake { n with now := t } fun result heq => hresult ⟨result, heq⟩
    exact ((htend.via trivial).trans hsteady).counted hc ho

/-- A handshake that is accepted gives back the entry of the node that it names, and makes it the
center. -/
theorem Counted.accept (hc : n.Counted) (ho : n.Ordered) (t : Nat) (haccepts : n.Accepts h) :
    (n.stepAt t (.handshake (.ok h))).Counted ∧
      (n.stepAt t (.handshake (.ok h))).center?.map (·.node) = some h.greeting.center.node ∧
      ∀ id, (n.stepAt t (.handshake (.ok h))).Waits id ↔
        n.Waits id ∧ id ≠ h.greeting.center.node := by
  obtain ⟨m, hjoin, hinner⟩ := haccepts.exists_join ho t
  have hm := hjoin.ordered (Takes.answered.ordered ((Takes.tend t n.catalog).ordered ho))
  obtain ⟨hknown, -, hwaits⟩ := hjoin.waits_of_join
  have hcenter : (n.stepAt t (.handshake (.ok h))).center? = m.center? :=
    hinner.center?_eq fun _ ha => ha.not_joins
  have hall (id : NodeId) : (n.stepAt t (.handshake (.ok h))).Waits id ↔
      n.Waits id ∧ id ≠ h.greeting.center.node := ((hinner.waits_iff hm).1 id).trans (hwaits id)
  refine ⟨.inr ⟨?_, hc.handshakes_stepAt ho t _⟩, by rw [hcenter, hknown], hall⟩
  rw [awaits_iff, hcenter]
  rintro ⟨center, hmem, hwait⟩
  rw [Option.mem_def] at hmem
  rw [hmem, Option.map_some, Option.some.injEq] at hknown
  exact ((hall _).1 hwait).2 hknown

theorem Takes.hasRoom (ht : n.Takes a m) (ha : a.Inner) (hl : ∀ id, ¬ a.LinksTo id)
    (hroom : n.links.hasRoom = true) : m.links.hasRoom = true := by
  cases ht with
  | dial => exact absurd rfl (hl _)
  | queue => simpa [Links.hasRoom] using hroom
  | tend | pardon | answered | mint | arrive | join | release | seek | establish | drop | lose
  | write =>
    exact ha.elim
  | _ => exact hroom

theorem Lost.awaits_rejoin {center : CenterLink} {endpoint : String} (hlost : n.Lost center)
    (he : n.profile.centerEndpoint? = some endpoint) :
    n.rejoin.Awaits ∧ n.rejoin.links = n.links := by
  obtain ⟨hin, -⟩ := hlost.ordered.seated.center center hlost.known
  obtain ⟨p, hp⟩ := Roster.exists_get? hin
  have hlive := mt (hlost.ordered.wired.link_iff _ p hp).2 (by simp [hlost.unlinked p hp])
  simp only [rejoin, hlost.known, he, hp]
  split
  · refine ⟨⟨center, hlost.known, { p with state := .handshaking }, ?_, rfl⟩, rfl⟩
    simp [emit, Roster.get?_modify, hp]
  · rename_i hempty
    refine ⟨⟨center, hlost.known, p, hp, ?_⟩, rfl⟩
    cases hs : p.state with
    | empty => exact absurd hs hempty
    | handshaking => rfl
    | connecting => exact absurd (.inl hs) hlive
    | established => exact absurd (.inr hs) hlive

theorem Lost.awaits_tick {center : CenterLink} {endpoint : String} (hlost : n.Lost center)
    (he : n.profile.centerEndpoint? = some endpoint) (hroom : n.links.hasRoom = true) :
    n.tick.Lost center ∧ n.tick.Awaits ∧ n.tick.links.hasRoom = true := by
  have hbeats :=
    hlost.member.heartbeats_via (n.roster.due n.now (n.profile.heartbeatInterval * 1000))
  obtain ⟨hlost', hroom'⟩ := hbeats.keeps (I := fun k => k.Lost center ∧ k.links.hasRoom = true)
    (fun _ _ _ hk ha ht => ⟨ht.lost hk.1 (ha.2.2 _) ha.2.not_joins, ht.hasRoom ha.1 ha.2.2 hk.2⟩)
    ⟨hlost, hroom⟩
  have htick : n.tick = rejoin ((n.roster.due n.now (n.profile.heartbeatInterval * 1000)).foldl
      (fun n (x : NodeId × Handle) => n.tell Node.receive x.2 .heartbeat) n) := by
    unfold tick
    exact if_neg (by simp [hlost'.member.not_center])
  obtain ⟨hawaits, hlinks⟩ := hlost'.awaits_rejoin (hbeats.profile_eq.symm ▸ he)
  refine ⟨hlost.member.tick_via.lost hlost fun _ ha => ⟨ha.2 _, ha.not_joins⟩, ?_⟩
  rw [htick, hlinks]
  exact ⟨hawaits, hroom'⟩

theorem Session.awaits_of_loss (hs : n.Session conn directory) {endpoint : String}
    (he : n.profile.centerEndpoint? = some endpoint) (t t' : Nat) (reason : CloseReason) :
    ((n.stepAt t (.link (.closed conn reason))).stepAt t' .tick).Lost ⟨directory.node, directory⟩ ∧
      ((n.stepAt t (.link (.closed conn reason))).stepAt t' .tick).Awaits ∧
      ((n.stepAt t (.link (.closed conn reason))).stepAt t' .tick).links.hasRoom = true := by
  have hlost : (n.stepAt t (.link (.closed conn reason))).Lost ⟨directory.node, directory⟩ ∧
      (n.stepAt t (.link (.closed conn reason))).links.hasRoom = true :=
    ⟨(hs.tend t).lose.1, (hs.tend t).lose.2.1⟩
  have hprofile := (stepAt_via n t (.link (.closed conn reason))).profile_eq
  generalize n.stepAt t (.link (.closed conn reason)) = k at hlost hprofile
  have hlost' := (Takes.tend t' k.catalog).lost hlost.1 id id
  exact hlost'.awaits_tick ((congrArg Profile.centerEndpoint? hprofile).trans he) hlost.2

section Start

variable {profile : Profile} {catalog : Catalog} {port : UInt16} {now : Nat}
  {result : Except Fault Handshake} {n₀ : Node}

theorem not_waits_of_start (started : start profile catalog port now result = .ok n₀) :
    n₀.Counted ∧ ∀ id, ¬ n₀.Waits id := by
  have hidle (id : NodeId) : ¬ (idle profile catalog port now).Waits id := by
    rintro ⟨p, hp, hs⟩
    rw [(get?_idle hp).1] at hs
    cases hs
  suffices hnone : n₀.handshakes = 0 ∧ ∀ id, ¬ n₀.Waits id by
    exact ⟨.inr ⟨fun ⟨center, _, hw⟩ => hnone.2 _ hw, hnone.1⟩, hnone.2⟩
  obtain rfl | ⟨h, m, hjoin, hinner⟩ := exists_join_of_start started
  · exact ⟨rfl, hidle⟩
  · have ho := hjoin.ordered (ordered_idle (start_cases started).1 ..)
    obtain ⟨-, hcount, hwaits⟩ := hjoin.waits_of_join
    refine ⟨(hinner.waits_iff ho).2.trans hcount, fun id => ?_⟩
    rw [(hinner.waits_iff ho).1, hwaits]
    exact fun hw => hidle id hw.1

theorem stranded_snoc_iff {before : List (Nat × Event)} {t : Nat} {e : Event} :
    Stranded n₀ id (before ++ [(t, e)]) ↔
      (∃ h, e = .handshake (.ok h) ∧ (n₀.run before).Accepts h ∧
        (n₀.run before).center?.map (·.node) = some id ∧ h.greeting.center.node ≠ id) ∨
      Stranded n₀ id before ∧
        ∀ h, e = .handshake (.ok h) → (n₀.run before).Accepts h → h.greeting.center.node ≠ id := by
  constructor
  · generalize heq : before ++ [(t, e)] = events
    intro hs
    cases hs with
    | leave accepted center other t' =>
      obtain ⟨rfl, hlast⟩ := List.append_inj' heq rfl
      cases hlast
      exact .inl ⟨_, rfl, accepted, center, other⟩
    | stay stranded unnamed t' =>
      obtain ⟨rfl, hlast⟩ := List.append_inj' heq rfl
      cases hlast
      exact .inr ⟨stranded, unnamed⟩
  · rintro (⟨h, rfl, accepted, center, other⟩ | ⟨stranded, unnamed⟩)
    · exact .leave accepted center other t
    · exact .stay stranded unnamed t

theorem stranded_iff_of_run (started : start profile catalog port now result = .ok n₀)
    (events : List (Nat × Event)) :
    (n₀.run events).Counted ∧ ∀ id, Stranded n₀ id events ↔
      (n₀.run events).Waits id ∧ (n₀.run events).center?.map (·.node) ≠ some id := by
  induction events using List.reverseRecOn with
  | nil =>
    obtain ⟨hc, hnone⟩ := not_waits_of_start started
    refine ⟨hc, fun id => ⟨fun hs => ?_, fun hw => absurd hw.1 (hnone id)⟩⟩
    generalize heq : ([] : List (Nat × Event)) = events at hs
    cases hs <;> simp at heq
  | append_singleton before x ih =>
    obtain ⟨t, e⟩ := x
    obtain ⟨hc, hs⟩ := ih
    have ho := ordered_of_run started before
    rw [run_concat]
    by_cases haccepts : ∃ h, e = .handshake (.ok h) ∧ (n₀.run before).Accepts h
    · obtain ⟨h, rfl, haccepts⟩ := haccepts
      obtain ⟨hc', hcenter, hwaits⟩ := hc.accept ho t haccepts
      refine ⟨hc', fun id => ?_⟩
      rw [stranded_snoc_iff, hwaits, hcenter, hs]
      -- the entry of the center waits, as the handshake was accepted
      obtain ⟨center, hknown, hw⟩ := awaits_iff.1 haccepts.1
      rw [Option.mem_def] at hknown
      by_cases hid : id = h.greeting.center.node
      · simp [hid, haccepts]
      · have hne : h.greeting.center.node ≠ id := fun heq => hid heq.symm
        by_cases hcid : center.node = id
        · subst hcid
          simp [hknown, haccepts, hne, hid, hw]
        · simp [hknown, hne, hid, hcid]
    · have hnot : ∀ h, e = .handshake (.ok h) → ¬ (n₀.run before).Accepts h :=
        fun h he ha => haccepts ⟨h, he, ha⟩
      obtain ⟨hc', hcenter, hwaits⟩ := hc.stepAt ho t hnot
      refine ⟨hc', fun id => ?_⟩
      have hsnoc : Stranded n₀ id (before ++ [(t, e)]) ↔ Stranded n₀ id before := by
        rw [stranded_snoc_iff]
        constructor
        · rintro (⟨h, he, ha, -⟩ | ⟨hs, -⟩)
          · exact absurd ha (hnot h he)
          · exact hs
        · exact fun hs => .inr ⟨hs, fun h he ha => absurd ha (hnot h he)⟩
      rw [hsnoc, hs, hcenter]
      exact and_congr_left fun hne => (hwaits id hne).symm

/-- After every run the entry of a node waits for a handshake exactly if the node is the center and
a handshake is under way, or the entry was left behind by a handshake that named another node. A
result leaves no handshake under way. -/
theorem waits_iff_of_run (started : start profile catalog port now result = .ok n₀)
    (events : List (Nat × Event)) :
    (∀ id, (n₀.run events).Waits id ↔
      (n₀.run events).center?.map (·.node) = some id ∧ (n₀.run events).handshakes = 1 ∨
        Stranded n₀ id events) ∧
    ∀ t result, ((n₀.run events).stepAt t (.handshake result)).handshakes = 0 := by
  obtain ⟨hc, hs⟩ := stranded_iff_of_run started events
  refine ⟨fun id => ?_, fun t result => ?_⟩
  · rw [hs, hc.handshakes_eq_one_iff, awaits_iff]
    by_cases hid : (n₀.run events).center?.map (·.node) = some id
    · obtain ⟨center, hknown, rfl⟩ := Option.map_eq_some_iff.1 hid
      simp [hknown]
    · simp [hid]
  · exact hc.handshakes_stepAt (ordered_of_run started events) t result

theorem hasRoom_of_start (started : start profile catalog port now result = .ok n₀)
    (hm : n₀.registry? = none) (hmax : 1 < profile.maxConnections) : n₀.links.hasRoom = true := by
  obtain ⟨h, m, rfl, ho, hjoin, hask⟩ := join_of_start started hm
  have hs := (hjoin.session_of_join ho).1
  have hvia := hs.member.askIfPossible_via receive (.register m.announcement)
  rw [askIfPossible, hask] at hvia
  refine hvia.keeps (I := fun k => k.links.hasRoom = true)
    (fun _ _ _ hk ha ht => ht.hasRoom ha.1 ha.2.2.1 hk) ?_
  cases hjoin with
  | @join _ i links _ _ _ hi =>
    have hsize := Links.size_insert_le hi
    have hnone : (idle profile catalog port now).links.nextId.2.size = 0 := by
      simp [idle, Links.nextId, Links.ofCapacity, Links.size, Slots.ofCapacity, Slots.size]
    have hcapacity : links.slots.capacity = profile.maxConnections :=
      (Links.capacity_insert hi).trans (Links.Numbered.ofCapacity _).capacity
    rw [Links.size] at hsize
    have hlt : links.slots.size < links.slots.capacity := by omega
    exact decide_eq_true hlt

theorem contains_of_run (started : start profile catalog port now result = .ok n₀)
    (events : List (Nat × Event)) (id : NodeId) :
    (n₀.run events).roster.Contains id ↔ (idle profile catalog port now).roster.Contains id :=
  run_keeps (I := fun k => k.roster.Contains id ↔
    (idle profile catalog port now).roster.Contains id)
    (fun _ _ _ hk ht => ht.contains_iff.trans hk)
    (start_keeps
      (I := fun k => k.roster.Contains id ↔ (idle profile catalog port now).roster.Contains id)
      (fun _ _ _ hk ht => ht.contains_iff.trans hk) .rfl started) events

/-- The center of node 2, which was node 1, is lost, and the next handshake names node 3: the entry
of node 1 waits, and no handshake is under way. -/
theorem waits_iff_of_run_leave :
    ∃ n₀ events, start { nodeId := ⟨2⟩, center := .remote "hub:7100" } {} 7101 0
        (.ok ⟨.ofCenter ⟨1⟩, []⟩) = .ok n₀ ∧
      (n₀.run events).Waits ⟨1⟩ ∧ (n₀.run events).handshakes = 0 := by
  obtain ⟨n₀, started, member, -⟩ := exists_start_of_second
  obtain ⟨hopened, -⟩ := opened_of_start started member
  have hs := hopened.session
  have hprofile := profile_of_run started []
  have hendpoint : n₀.profile.centerEndpoint? = some "hub:7100" :=
    congrArg Profile.centerEndpoint? hprofile
  obtain ⟨hlost, hawaits, hroom⟩ := hs.awaits_of_loss hendpoint 1 2 .endOfStream
  have hrun (c : ConnId) : n₀.run [(1, .link (.closed c .endOfStream)), (2, .tick)] =
      (n₀.stepAt 1 (.link (.closed c .endOfStream))).stepAt 2 .tick := by
        rw [run_cons, run_cons, run_nil]
  rw [← hrun] at hlost hawaits hroom
  generalize [(1, Event.link (.closed _ .endOfStream)), (2, Event.tick)] = before
    at hlost hawaits hroom
  have hin : (n₀.run before).roster.Contains ⟨3⟩ := by
    rw [contains_of_run started before]
    decide +kernel
  have hself : (n₀.run before).self = ⟨2⟩ := by
    rw [(run_via n₀ before).self_eq, (start_via started).self_eq]
    rfl
  have hcenter : (n₀.run before).center?.map (·.node) = some ⟨1⟩ := by
    rw [hlost.known]
    rfl
  have hjudge : (n₀.run before).judge (.ok ⟨.ofCenter ⟨3⟩, []⟩) = .ok ⟨.ofCenter ⟨3⟩, []⟩ :=
    judge_of_contains hin (by rw [hself]; decide) hroom
  have haccepts : (n₀.run before).Accepts _ := ⟨hawaits, hjudge⟩
  have hstranded := Stranded.leave haccepts hcenter (by decide) 3
  obtain ⟨hwaits, -⟩ :=
    waits_iff_of_run started (before ++ [(3, .handshake (.ok ⟨.ofCenter ⟨3⟩, []⟩))])
  refine ⟨n₀, _, started, (hwaits _).2 (.inr hstranded), ?_⟩
  rw [run_concat]
  exact (waits_iff_of_run started before).2 3 _

end Start

end Meshwork.Node
