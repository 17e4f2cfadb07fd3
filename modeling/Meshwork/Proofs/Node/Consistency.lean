import Meshwork.Proofs.Node.Reported

/-!
# The roster, the links and the reports agree

Main statements: `agrees_of_run`, after every run and within every handler an entry has a link
exactly if its state says so, the link has a record that names the entry, and there are never more
links than the profile allows; `turns_of_run`, the reports that a module came and that it went have
taken turns, and the last one agrees with the roster.
-/

namespace Meshwork.Node

variable {n m : Node} {handle : Handle} {conn : ConnId} {p : Peer}

/-- The roster and the links of a node are two views of the same links, of which there are at most
`limit`. -/
structure Agrees (n : Node) (limit : Nat) : Prop where
  link_iff : ∀ id p, n.roster.get? id = some p →
    (p.link.isSome ↔ p.state = .connecting ∨ p.state = .established)
  record : ∀ id p c, n.roster.get? id = some p → p.link = some c →
    ∃ r, n.links.get? c = some r ∧ r.link.id = c ∧ r.owner = some id
  number_lt : ∀ c r, n.links.get? c = some r → c.number < n.links.nextNumber
  mem_ids_iff : ∀ c, c ∈ n.links.ids ↔ (n.links.get? c).isSome
  nodup_ids : n.links.ids.Nodup
  length_ids_le : n.links.ids.length ≤ limit
  found : ∀ id p c, n.roster.get? id = some p → p.liveLink? = some c → n.links.get? c ≠ none
  /-- No frame for a linked entry is lost for want of its link. -/
  not_linked : ∀ id p frame, n.roster.get? id = some p →
    n.sendOver id frame = .error (.notConnected id) → ¬ p.Linked
  /-- No link is turned away while there is room. -/
  admits : n.links.hasRoom = true → ∀ link owner,
    ∃ i links, n.links.nextId.2.insert link owner = .ok (i, links)

theorem Wired.agrees (h : n.Wired) : n.Agrees n.profile.maxConnections where
  link_iff := h.link_iff
  record id p c hp hl := by
    obtain ⟨r, hr, ho⟩ := h.owner id p c hp hl
    exact ⟨r, hr, h.links.kept.id_of_get? hr, ho⟩
  number_lt := h.links.fresh
  mem_ids_iff _ := h.links.kept.mem_ids_iff
  nodup_ids := h.links.kept.nodup_ids
  length_ids_le := by
    rw [h.links.kept.length_ids, ← h.links.capacity]
    exact h.links.kept.size_le
  found id p c hp hl := by
    obtain ⟨r, hr, -⟩ := h.exists_record hp hl
    simp [hr]
  not_linked id p frame hp hs := h.not_linked_of_sendOver hp hs
  admits hroom link owner := h.links.kept.nextId.exists_insert hroom link owner

theorem takes_bind_of_reach (hp : n.roster.get? handle.node = some p) (hl : p.Linked)
    (hassigned : handle.node.Assigned) (hfresh : ¬ n.Binds handle) (name : String) :
    n.Takes (.bind name handle) (n.reach name handle) := by
  have hin : n.roster.Contains handle.node := Roster.contains_of_get? hp
  have hreach : n.reach name handle = n.recorded name handle := by
    have hdial : (if handle.node = n.self then some n else n.dial handle.node) = some n := by
      simp [dial, hp, hl]
    rw [reach_eq, resolve_of_assigned hassigned, if_neg (not_not_intro hin), hdial]
  have hcases : n.Binds handle ∧ n.recorded name handle = n ∨
      ¬ n.Binds handle ∧ n.Takes (.bind name handle) (n.recorded name handle) :=
    recorded_cases hin (.inr ⟨p, hp, hl⟩)
  rw [hreach]
  exact (hcases.resolve_left fun h => hfresh h.1).2

theorem Ordered.lifecycle_of_lose (ho : n.Ordered) (hp : n.roster.get? handle.node = some p)
    (hl : p.link = some conn) (hmem : handle ∈ p.bound) :
    (n.lose conn).lifecycle handle = n.lifecycle handle ++ [false] := by
  rw [lifecycle_of_exits (ho.tracked.nodup _ p hp) (ho.entry_of_lose hp hl).2, if_pos hmem]

theorem Ordered.lifecycle_of_loss (ho : n.Ordered) (hp : n.roster.get? handle.node = some p)
    (hl : p.liveLink? = some conn) (hassigned : handle.node.Assigned) (hfresh : ¬ n.Binds handle)
    {f : Frame}
    {source : Handle} {name : String}
    (hf : n.routing.classify f = .control source (.handle name handle))
    (t t' : Nat) (reason : CloseReason) :
    (n.stepAt t (.link (.frames conn [f]))).lifecycle handle = n.lifecycle handle ++ [true] ∧
      ((n.stepAt t (.link (.frames conn [f]))).stepAt t' (.link (.closed conn reason))).lifecycle
        handle =
        n.lifecycle handle ++ [true, false] := by
  have hbind :
      Takes { n with now := t } (.bind name handle) (n.stepAt t (.link (.frames conn [f]))) := by
    rw [stepAt_control hf]
    exact takes_bind_of_reach (n := { n with now := t }) hp (Peer.linked_of_liveLink? hl) hassigned
      hfresh name
  have hcame := hbind.lifecycle_of_bind
  have hlink := (Peer.liveLink?_eq_some_iff.1 hl).1
  generalize n.stepAt t (.link (.frames conn [f])) = k at hbind hcame ⊢
  have ho' := hbind.ordered (ho.tend t)
  have hentry : k.roster.get? handle.node = some { p with bound := p.bound ++ [handle] } := by
    cases hbind with
    | bind hb =>
      rw [Roster.get?_bind hb, if_pos rfl]
      exact congrArg (Option.map _) hp
  have hwent : (k.stepAt t' (.link (.closed conn reason))).lifecycle handle =
      k.lifecycle handle ++ [false] :=
    (ho'.tend t').lifecycle_of_lose hentry hlink
      (List.mem_append_right _ (List.mem_singleton_self _))
  refine ⟨hcame, ?_⟩
  rw [hwent, hcame]
  exact List.append_assoc ..

section Start

variable {profile : Profile} {catalog : Catalog} {port : UInt16} {now : Nat}
  {result : Except Fault Handshake} {n₀ : Node} {moves : List Move}

/-- After every run of a started node, and in every state `m` that a handler passes through from
there, the roster and the links agree. -/
theorem agrees_of_run (started : start profile catalog port now result = .ok n₀)
    (events : List (Nat × Event)) (passed : (n₀.run events).Path moves m) :
    m.Agrees profile.maxConnections := by
  have hwired : m.Wired := passed.keeps (fun _ _ _ => Takes.wired) (wired_of_run started events)
  have hprofile : m.profile = profile := passed.profile_eq.trans (profile_of_run started events)
  rw [← hprofile]
  exact hwired.agrees

/-- A center that node 3 is linked to uses up one more number. -/
theorem agrees_of_run_linked :
    ∃ n₀ events m p conn,
      start {} {} 7100 0 (.error .closed) = .ok n₀ ∧ (n₀.run events).Path [.mint] m ∧
      m.roster.get? ⟨3⟩ = some p ∧ p.link = some conn ∧ m.Agrees 1024 ∧
      ∃ r, m.links.get? conn = some r ∧ r.link.id = conn ∧ r.owner = some ⟨3⟩ := by
  have started : start {} {} 7100 0 (.error .closed) = .ok (idle {} {} 7100 0) := rfl
  obtain ⟨events, p, conn, hp, hlive, -⟩ :=
    exists_run_linked started rfl (by decide +kernel) (by decide) (by decide)
  have hlink := (Peer.liveLink?_eq_some_iff.1 hlive).1
  have hagrees := agrees_of_run started events Takes.mint.path
  exact ⟨_, events, _, p, conn, started, Takes.mint.path, hp, hlink, hagrees,
    hagrees.record _ p conn hp hlink⟩

/-- For every handle and after every run, coming and going have taken turns, beginning with coming,
and the last report is that the module came exactly if the entry of its node has it. -/
theorem turns_of_run (started : start profile catalog port now result = .ok n₀)
    (events : List (Nat × Event)) (h : Handle) :
    TakesTurns ((n₀.run events).lifecycle h) ∧
      (((n₀.run events).lifecycle h).getLast? = some true ↔
        ∃ p, (n₀.run events).roster.get? h.node = some p ∧ h ∈ p.bound) := by
  have htracked := (ordered_of_run started events).tracked
  have hturns := htracked.turns h
  refine ⟨hturns, ?_⟩
  rw [hturns.getLast?_eq_some_true, htracked.odd_iff]
  exact .rfl

/-- A module of node 3 is reached over the link of the node, and the link is lost after that. -/
theorem turns_of_run_loss :
    ∃ n₀ events conn, start {} {} 7100 0 (.error .closed) = .ok n₀ ∧
      (n₀.run events).lifecycle ⟨⟨3⟩, 5⟩ = [true] ∧
      (∃ p, (n₀.run events).roster.get? ⟨3⟩ = some p ∧ ⟨⟨3⟩, 5⟩ ∈ p.bound) ∧
      (n₀.run (events ++ [(3, .link (.closed conn .endOfStream))])).lifecycle ⟨⟨3⟩, 5⟩ =
        [true, false] ∧
      ¬ ∃ p, (n₀.run (events ++ [(3, .link (.closed conn .endOfStream))])).roster.get? ⟨3⟩ =
        some p ∧
        ⟨⟨3⟩, 5⟩ ∈ p.bound := by
  have started : start {} {} 7100 0 (.error .closed) = .ok (idle {} {} 7100 0) := rfl
  obtain ⟨before, p, conn, hp, hlive, -, hsilent⟩ :=
    exists_run_linked started rfl (by decide +kernel) (by decide) (by decide)
  have hnone : (idle {} {} 7100 0).moduleEvents = [] := rfl
  generalize idle {} {} 7100 0 = n₀ at started hp hsilent hnone
  have ho := ordered_of_run started before
  have hquiet : (n₀.run before).lifecycle ⟨⟨3⟩, 5⟩ = [] := by
    rw [lifecycle, hsilent, hnone, List.filterMap_nil]
  have hfresh : ¬ (n₀.run before).Binds ⟨⟨3⟩, 5⟩ := by
    rw [← ho.tracked.odd_iff, hquiet]
    decide
  have hparse :
      Command.parse (Command.handle "db" ⟨⟨3⟩, 5⟩).payload = .ok (.handle "db" ⟨⟨3⟩, 5⟩) := by
    decide +kernel
  have hf : (n₀.run before).routing.classify
      ((Command.handle "db" ⟨⟨3⟩, 5⟩).frame ⟨3⟩ ⟨⟨1⟩, meshModule⟩) =
      .control ⟨⟨3⟩, meshModule⟩ (.handle "db" ⟨⟨3⟩, 5⟩) := by
    simp [Routing.classify, Command.frame, hparse]
  obtain ⟨hcame, hwent⟩ := ho.lifecycle_of_loss hp hlive (by decide) hfresh hf 2 3 .endOfStream
  rw [hquiet, List.nil_append, ← run_concat] at hcame hwent
  rw [← run_concat] at hwent
  have hbound := (turns_of_run started _ ⟨⟨3⟩, 5⟩).2.1 (congrArg List.getLast? hcame)
  refine ⟨n₀, _, conn, started, hcame, hbound, hwent, fun hbound => ?_⟩
  have hlast := (turns_of_run started _ ⟨⟨3⟩, 5⟩).2.2 hbound
  rw [hwent] at hlast
  cases hlast

end Start

end Meshwork.Node
