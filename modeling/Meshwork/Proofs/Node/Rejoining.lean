import Meshwork.Proofs.Node.Admission
import Meshwork.Proofs.Node.Waiting

/-!
# A handshake fails, or it is completed

The result of a handshake is rejected before anything is done with it, or it brings a link on which
nothing can go wrong any more. Main statement: `rejoining_of_run`, for every state in which a member
waits for a result.
-/

namespace Meshwork.Node

variable {n m k : Node} {center : CenterLink} {result : Except Fault Handshake} {e : Fault}

def heard (n : Node) (t : Nat) : Node := { n with now := t, handshakes := n.handshakes - 1 }

/-- The results of a handshake that a node can do nothing with, and what it says about them. -/
inductive Rejects (n : Node) : Except Fault Handshake → Fault → Prop where
  | unread (e : Fault) : Rejects n (.error e) e
  | unassigned {h : Handshake} (unassigned : ¬ h.greeting.center.node.Assigned) :
      Rejects n (.ok h)
        (CenterTrouble.invalidNode (n.profile.centerEndpoint?.getD "") h.greeting.center.node).fault
  | outside {h : Handshake} (outside : n.roster.size ≤ h.greeting.center.node.index) :
      Rejects n (.ok h)
        (CenterTrouble.invalidNode (n.profile.centerEndpoint?.getD "") h.greeting.center.node).fault
  | own {h : Handshake} (own : h.greeting.center.node = n.self) :
      Rejects n (.ok h)
        (CenterTrouble.invalidNode (n.profile.centerEndpoint?.getD "") h.greeting.center.node).fault
  | full {h : Handshake} (known : n.roster.Contains h.greeting.center.node)
      (other : h.greeting.center.node ≠ n.self) (full : n.links.hasRoom = false) :
      Rejects n (.ok h) CenterTrouble.noRoom.fault

/-- How a member that waits for a handshake takes its result. -/
structure Rejoining (n : Node) (center : CenterLink) : Prop where
  fails_iff : ∀ t result e, ((n.heard t).join result).2 = .error e ↔ n.Rejects result e
  /-- Nothing is left of a handshake that failed, and nothing is done but to give the entry back. -/
  failed : ∀ t result e, n.Rejects result e →
    n.stepAt t (.handshake result) = { n.heard t with roster := n.roster.detach center.node } ∧
      (n.stepAt t (.handshake result)).centerLink? = none
  entry : ∃ p, n.roster.get? center.node = some p ∧ p.link = none ∧ p.bound = [] ∧
    (n.roster.detach center.node).get? center.node = some { address := p.address }
  others : ∀ id, id ≠ center.node → (n.roster.detach center.node).get? id = n.roster.get? id
  completed : ∀ t result, (∀ e, ¬ n.Rejects result e) → ∃ h k p, result = .ok h ∧
    (n.heard t).join result = (k, .ok ()) ∧ k.roster.get? h.greeting.center.node = some p ∧
    p.state = .established ∧ p.handle = some h.greeting.mesh ∧ p.link = some n.links.nextId.1 ∧
    k.queuedOn n.links.nextId.1 =
      [(Command.register n.announcement).frame n.self h.greeting.center] ∧
    (n.stepAt t (.handshake result)).Opened n.links.nextId.1 h.greeting.center

theorem judge_eq_error_iff : n.judge result = .error e ↔ n.Rejects result e := by
  cases result with
  | error f =>
    constructor
    · intro h
      cases h
      exact .unread e
    · rintro ⟨⟩
      rfl
  | ok h =>
    have hcontains : n.roster.Contains h.greeting.center.node ↔
        h.greeting.center.node.Assigned ∧ ¬ n.roster.size ≤ h.greeting.center.node.index :=
      and_congr_right fun _ => Nat.not_le.symm
    constructor
    · intro hj
      unfold judge at hj
      dsimp only at hj
      split at hj
      · rename_i hid
        cases hj
        rw [hcontains] at hid
        by_cases hassigned : h.greeting.center.node.Assigned
        · by_cases hown : h.greeting.center.node = n.self
          · exact .own hown
          · exact .outside (by simpa [hassigned, hown] using hid)
        · exact .unassigned hassigned
      · rename_i hid
        simp only [not_or, Decidable.not_not] at hid
        split at hj
        · rename_i hfull
          cases hj
          exact .full hid.1 hid.2 (by simpa using hfull)
        · cases hj
    · intro hr
      cases hr with
      | unassigned h => simp [judge, hcontains, h]
      | outside h => simp [judge, hcontains, h]
      | own h => simp [judge, h]
      | full known other full => simp [judge, known, other, full]

theorem exists_judge_of_not_rejects (h : ∀ e, ¬ n.Rejects result e) :
    ∃ hs, result = .ok hs ∧ n.judge (.ok hs) = .ok hs := by
  cases hj : n.judge result with
  | error e => exact absurd (judge_eq_error_iff.1 hj) (h e)
  | ok hs =>
    obtain ⟨rfl, -⟩ := judge_eq_ok hj
    exact ⟨hs, rfl, hj⟩

theorem Ordered.entry_of_awaits (ho : n.Ordered) (hw : n.Awaits) (hc : n.center? = some center) :
    ∃ p, n.roster.get? center.node = some p ∧ p.link = none ∧ p.bound = [] := by
  obtain ⟨c, hc', p, hp, hs⟩ := hw
  rw [hc, Option.mem_some] at hc'
  subst hc'
  have hlink := ho.wired.link_eq_none hp (by simp [hs, LinkState.Live])
  refine ⟨p, hp, hlink, ?_⟩
  by_contra hbound
  have hsome := ho.tracked.link _ p hp (ho.seated.center center hc).2.1 hbound
  rw [hlink] at hsome
  cases hsome

theorem Awaits.stepAt_eq (hw : n.Awaits) (t : Nat) (result : Except Fault Handshake) :
    n.stepAt t (.handshake result) =
      match (n.heard t).join result with
      | (m, .error _) => m
      | (m, .ok ()) => m.interests.requests.foldl repeatRequest m :=
  if_neg (not_not_intro hw)

theorem join_of_rejects (hc : n.center? = some center) (hr : n.Rejects result e) (t : Nat) :
    (n.heard t).join result =
      ({ n.heard t with roster := n.roster.detach center.node }, .error e) := by
  have hjudge : (n.heard t).judge result = .error e := judge_eq_error_iff (n := n).2 hr
  have hcenter : (n.heard t).center? = some center := hc
  simp only [join, hjudge, releaseCenter, hcenter]
  rfl

theorem Ordered.heard (ho : n.Ordered) (t : Nat) : (n.heard t).Ordered :=
  Takes.answered.ordered (ho.tend t)

theorem Ordered.completes (ho : n.Ordered) (hw : n.Awaits)
    (hfit : n.Fits (.register n.announcement)) (t : Nat) (hr : ∀ e, ¬ n.Rejects result e) :
    ∃ h k p, result = .ok h ∧
      (n.heard t).join result = (k, .ok ()) ∧ k.roster.get? h.greeting.center.node = some p ∧
      p.state = .established ∧ p.handle = some h.greeting.mesh ∧ p.link = some n.links.nextId.1 ∧
      k.queuedOn n.links.nextId.1 =
        [(Command.register n.announcement).frame n.self h.greeting.center] ∧
      (n.stepAt t (.handshake result)).Opened n.links.nextId.1 h.greeting.center := by
  obtain ⟨h, rfl, hj⟩ := exists_judge_of_not_rejects hr
  obtain ⟨k, p, hjoin, hp, hstate, hhandle, hlink, hqueued⟩ :=
    (ho.heard t).join_eq hw.not_center (.inr hw) hj hfit
  exact ⟨h, k, p, rfl, hjoin, hp, hstate, hhandle, hlink, hqueued,
    (opened_of_handshake (ho.tend t) hw hj).1⟩

theorem Ordered.rejoining (ho : n.Ordered) (hw : n.Awaits) (hc : n.center? = some center)
    (hfit : n.Fits (.register n.announcement)) : n.Rejoining center := by
  obtain ⟨p, hp, hlink, hbound⟩ := ho.entry_of_awaits hw hc
  have hdetached : (n.roster.detach center.node).get? center.node = some p.detached := by
    rw [Roster.get?_detach, if_pos rfl, hp, Option.map_some]
  constructor
  case fails_iff =>
    intro t result e
    constructor
    · intro he
      -- if it were another fault or none, the join would end otherwise
      by_contra hnot
      have hnone : ∀ e, ¬ n.Rejects result e := by
        intro e' hr
        rw [join_of_rejects hc hr] at he
        cases he
        exact hnot hr
      obtain ⟨_, _, _, -, hjoin, -⟩ := ho.completes hw hfit t hnone
      rw [hjoin] at he
      cases he
    · intro hr
      rw [join_of_rejects hc hr]
  case failed =>
    intro t result e hr
    have hstep : n.stepAt t (.handshake result) =
        { n.heard t with roster := n.roster.detach center.node } := by
      rw [hw.stepAt_eq, join_of_rejects hc hr]
    have hcenter :
        ({ n.heard t with roster := n.roster.detach center.node } : Node).center? = some center :=
      hc
    refine ⟨hstep, ?_⟩
    rw [hstep, centerLink?, hcenter, Option.bind_some, hdetached]
    rfl
  case entry => exact ⟨p, hp, hlink, hbound, hdetached⟩
  case others =>
    intro id hne
    rw [Roster.get?_detach, if_neg hne]
  case completed => exact fun t result hr => ho.completes hw hfit t hr

section Start

variable {profile : Profile} {catalog : Catalog} {port : UInt16} {now : Nat}
  {result : Except Fault Handshake} {n₀ : Node}

/-- In every state of a started node in which the entry of the center waits for a handshake: a
result that is rejected changes nothing but that entry, and every other result brings a link on
which the node registers and repeats its requests. -/
theorem rejoining_of_run (started : start profile catalog port now result = .ok n₀)
    (events : List (Nat × Event)) (awaited : (n₀.run events).Awaits)
    (known : (n₀.run events).center? = some center) :
    (n₀.run events).Rejoining center := by
  have hmember := not_center_of_run awaited.not_center
  obtain ⟨h, -, rfl, -⟩ := join_of_start started hmember
  obtain ⟨-, -, hfit⟩ := opened_of_start started hmember
  refine (ordered_of_run started events).rejoining awaited known ?_
  rw [announcement_of_run started]
  exact (run_via n₀ events).fits_iff.2 hfit

/-- Node 2 has lost its center and waits for a handshake. One that names node 2 itself is
rejected. -/
theorem rejoining_of_run_lost :
    ∃ n₀ events center, start { nodeId := ⟨2⟩, center := .remote "hub:7100" } {} 7101 0
        (.ok ⟨.ofCenter ⟨1⟩, []⟩) = .ok n₀ ∧ (n₀.run events).Awaits ∧
      (n₀.run events).Rejoining center ∧
      ((n₀.run events).stepAt 3 (.handshake (.ok ⟨.ofCenter ⟨2⟩, []⟩))).centerLink? = none := by
  obtain ⟨n₀, started, member, -⟩ := exists_start_of_second
  have hs := (opened_of_start started member).1.session
  have hendpoint : n₀.profile.centerEndpoint? = some "hub:7100" :=
    congrArg Profile.centerEndpoint? (profile_of_run started [])
  obtain ⟨hlost, hawaits, -⟩ := hs.awaits_of_loss hendpoint 1 2 .endOfStream
  rw [← run_nil n₀, ← run_concat, ← run_concat] at hlost hawaits
  have hrejoining := rejoining_of_run started _ hawaits hlost.known
  have hself (events : List (Nat × Event)) : (n₀.run events).self = ⟨2⟩ :=
    (run_via n₀ events).self_eq.trans (start_via started).self_eq
  exact ⟨n₀, _, _, started, hawaits, hrejoining, (hrejoining.failed 3 _ _ (.own (hself _).symm)).2⟩

end Start

end Meshwork.Node
