import Mathlib.Data.List.Induction
import Meshwork.Proofs.Node.Overtaken

/-!
# Linked nodes without a handle

Signs of life and introductions go to the handle of a node, which comes with its announcement. When
a link is lost the handle is forgotten and the address is not, so that the node can be dialled
without a handle. Main statement: `unannounced_iff_of_path`, a linked entry has no handle exactly if
its link was dialled so and the node was not announced since. By `run_via` every run is a path, and
so is what a handler has done so far.
-/

namespace Meshwork.Node

variable {n m k : Node} {a : Move} {as : List Move} {id : NodeId} {c : ConnId}

/-- On a path a node was dialled whose link had been lost and whose handle was unknown, and the node
was not announced since. -/
inductive Unannounced (n₀ : Node) (id : NodeId) (c : ConnId) : List Move → Node → Prop where
  | dial {before : List Move} {k m : Node} {q : Peer} (path : n₀.Path before k)
      (lost : ∃ conn, .lose id conn ∈ before) (entry : k.roster.get? id = some q)
      (unknown : q.handle = none) (takes : k.Takes (.dial id c) m) :
      Unannounced n₀ id c (before ++ [.dial id c]) m
  | later {before : List Move} {k m : Node} {a : Move} (unannounced : Unannounced n₀ id c before k)
      (takes : k.Takes a m) (silent : ¬ a.Announces id) : Unannounced n₀ id c (before ++ [a]) m

/-- What holds of a node whose link was never lost. It is linked if it is the center, and while its
handle is unknown so is its address. -/
structure Fresh (n : Node) (id : NodeId) : Prop where
  not_waits : ¬ n.Waits id
  center : n.center?.map (·.node) = some id → ∀ p, n.roster.get? id = some p → p.state ≠ .empty
  blank : ∀ p, n.roster.get? id = some p → p.handle = none → p.address = {} ∧ p.link = none

theorem Path.concat (h : n.Path as m) (ha : m.Takes a k) : n.Path (as ++ [a]) k := h.append ha.path

theorem path_concat_iff : n.Path (as ++ [a]) k ↔ ∃ m, n.Path as m ∧ m.Takes a k := by
  refine ⟨fun h => ?_, fun ⟨m, hm, ha⟩ => hm.concat ha⟩
  induction as generalizing n with
  | nil =>
    cases h with
    | cons ha hrest =>
      cases hrest
      exact ⟨n, .nil n, ha⟩
  | cons b rest ih =>
    cases h with
    | cons hb hrest =>
      obtain ⟨m, hm, ha⟩ := ih hrest
      exact ⟨m, .cons hb hm, ha⟩

theorem Takes.handle_of_announces (ht : n.Takes a m) (ha : a.Announces id) {p : Peer}
    (hp : m.roster.get? id = some p) : p.handle ≠ none := by
  obtain ⟨q, -, halters⟩ := ht.alters hp
  cases halters with
  | same silent => exact absurd ha silent
  | learn | join => simp
  | _ => exact ha.elim

theorem endpoint?_blank : ({} : Address).endpoint? = none := by decide

/-- Only the loss of its link brings a node to an entry with an address and no handle. -/
theorem Takes.fresh (h : n.Fresh id) (ht : n.Takes a m) (ha : ∀ conn, a ≠ .lose id conn) :
    m.Fresh id := by
  refine ⟨?_, fun hcenter p hp => ?_, fun p hp hhandle => ?_⟩
  · rintro ⟨p, hp, hstate⟩
    obtain ⟨q, hq, halters⟩ := ht.alters hp
    cases halters with
    | same | learn | bind | queue => exact h.not_waits ⟨_, hq, hstate⟩
    | seek center state => exact h.center center _ hq state
    | dial | join | establish | release | lose => cases hstate
  · obtain ⟨q, hq, halters⟩ := ht.alters hp
    have hempty : (¬ a.Joins) → q.state ≠ .empty :=
      fun hj => h.center (ht.center?_eq hj ▸ hcenter) q hq
    cases halters with
    | same silent =>
      refine hempty fun hj => silent ?_
      cases ht with
      | join => exact Option.some.inj hcenter
      | _ => exact hj.elim
    | learn | bind | queue => exact hempty (fun hj => hj)
    | dial | join | seek | establish => simp
    | release _ state => exact absurd ⟨q, hq, state⟩ h.not_waits
    | lose => exact absurd rfl (ha _)
  · obtain ⟨q, hq, halters⟩ := ht.alters hp
    have hblank := h.blank q hq
    cases halters with
    | same | bind | queue | seek | establish => exact hblank hhandle
    | learn | join => cases hhandle
    | dial _ _ endpoint =>
      -- an entry without an address is not dialled
      rw [(hblank hhandle).1, endpoint?_blank] at endpoint
      cases endpoint
    | release _ state => exact absurd ⟨q, hq, state⟩ h.not_waits
    | lose => exact absurd rfl (ha _)

theorem Path.fresh (hp : n.Path as m) (h : n.Fresh id) (has : ∀ conn, .lose id conn ∉ as) :
    m.Fresh id := by
  induction hp with
  | nil => exact h
  | cons ha _ ih =>
    simp only [List.mem_cons, not_or] at has
    exact ih (ha.fresh h fun conn heq => (has conn).1 heq.symm) fun conn => (has conn).2

theorem Unannounced.handle_eq_none {n₀ : Node} (h : Unannounced n₀ id c as m) :
    c.number < m.links.nextNumber ∧
      ∀ p, m.roster.get? id = some p → p.link = some c → p.handle = none := by
  induction h with
  | dial _ _ entry unknown takes =>
    cases takes with
    | dial _ _ _ _ _ _ hi =>
      refine ⟨by simp [Links.nextNumber_insert hi], fun p hp _ => ?_⟩
      rw [Roster.get?_noteSent_attach, if_pos rfl, entry, Option.map_some, Option.some.injEq] at hp
      rw [← hp]
      exact unknown
  | later _ takes silent ih =>
    obtain ⟨hlt, hnone⟩ := ih
    refine ⟨Nat.lt_of_lt_of_le hlt takes.nextNumber_le, fun p hp hl => ?_⟩
    obtain ⟨q, hq, halters⟩ := takes.alters hp
    have hsame := hnone q hq
    cases halters with
    | same | bind | queue | seek | establish => exact hsame hl
    | learn node => exact absurd node silent
    | join node => exact absurd node silent
    | release | lose => cases hl
    | dial =>
      rw [Option.some.injEq] at hl
      rw [← hl, Links.number_nextId] at hlt
      exact absurd hlt (Nat.lt_irrefl _)

theorem Ordered.unknown_of_receive (ho : n.Ordered) {f : Frame} {source handle : Handle}
    {name : String} (hf : n.routing.classify f = .control source (.handle name handle))
    (hid : handle.node ≠ n.self)
    (hmay : n.MayDial handle.node) (hunknown : ∀ p ∈ n.roster.get? handle.node, p.handle = none) :
    ∃ p ∈ (n.receive f).roster.get? handle.node, p.Linked ∧ p.handle = none := by
  obtain ⟨m, hdial, hbind⟩ := ho.reach_of_mayDial hid hmay name
  have hreceive : n.receive f = n.reach name handle := by simp only [receive, receiveWith, hf, obey]
  rw [hreceive]
  refine hbind.keeps (I := fun k => ∃ p ∈ k.roster.get? handle.node, p.Linked ∧ p.handle = none)
    (fun k a l hk ha ht => ?_) ?_
  · obtain ⟨p, hp, hlinked, hnone⟩ := hk
    obtain ⟨_, _, rfl⟩ := ha
    obtain ⟨q, hq, halters⟩ := ht.exists_alters hp
    cases halters with
    | same | bind => exact ⟨_, hq, hlinked, hnone⟩
  · obtain ⟨p, hp, hentry⟩ := hdial.entry_of_dial
    exact ⟨_, hentry, by simp [Peer.linked_iff], hunknown p hp⟩

section Start

variable {profile : Profile} {catalog : Catalog} {port : UInt16} {now : Nat}
  {result : Except Fault Handshake} {n₀ : Node} {moves : List Move}

theorem fresh_of_start (started : start profile catalog port now result = .ok n₀)
    (hid : id ≠ n₀.self) :
    n₀.Fresh id := by
  have hnode : id ≠ profile.nodeId := by rwa [(start_via started).self_eq] at hid
  have hidle : (idle profile catalog port now).Fresh id := by
    refine ⟨?_, fun hcenter => ?_, fun p hp _ => ?_⟩
    · rintro ⟨p, hp, hstate⟩
      rw [(get?_idle hp).1] at hstate
      cases hstate
    · rw [center?_idle] at hcenter
      cases hcenter
    · rw [(get?_idle hp).2.2.2 hnode]
      exact ⟨rfl, rfl⟩
  obtain rfl | ⟨h, m, hjoin, hinner⟩ := exists_join_of_start started
  · exact hidle
  · refine hinner.keeps (fun _ _ _ hk ha ht => ht.fresh hk ?_) (hjoin.fresh hidle nofun)
    rintro conn rfl
    exact ha

theorem unannounced_of_path (started : start profile catalog port now result = .ok n₀)
    (path : n₀.Path moves m) (hid : id ≠ n₀.self) {p : Peer} (hp : m.roster.get? id = some p)
    (hl : p.link = some c) (hunknown : p.handle = none) : Unannounced n₀ id c moves m := by
  induction moves using List.reverseRecOn generalizing m p with
  | nil =>
    cases path
    rw [((fresh_of_start started hid).blank p hp hunknown).2] at hl
    cases hl
  | append_singleton before a ih =>
    obtain ⟨k, hk, ht⟩ := path_concat_iff.1 path
    have hsilent : ¬ a.Announces id := fun ha => ht.handle_of_announces ha hp hunknown
    obtain ⟨q, hq, halters⟩ := ht.alters hp
    have hbefore := ih hk hq
    cases halters with
    | same | bind | queue | seek | establish => exact .later (hbefore hl hunknown) ht hsilent
    | learn node => exact absurd node hsilent
    | join node => exact absurd node hsilent
    | release | lose => cases hl
    | dial _ _ endpoint =>
      rw [Option.some.injEq] at hl
      subst hl
      refine .dial hk ?_ hq hunknown ht
      by_contra hnone
      have hfresh := hk.fresh (fresh_of_start started hid) fun conn hmem => hnone ⟨conn, hmem⟩
      rw [(hfresh.blank q hq hunknown).1, endpoint?_blank] at endpoint
      cases endpoint

/-- On every path of a started node, a linked entry has no handle exactly if its link was dialled
without one after a loss, and the node was not announced since. A frame that names a module is
enough for that, in every state in which the node can be dialled and its handle is unknown. -/
theorem unannounced_iff_of_path (started : start profile catalog port now result = .ok n₀)
    (path : n₀.Path moves m) :
    (∀ id p c, m.roster.get? id = some p → p.liveLink? = some c →
      (p.handle = none ↔ Unannounced n₀ id c moves m)) ∧
    ∀ f source name handle, m.routing.classify f = .control source (.handle name handle) →
      handle.node ≠ m.self → m.MayDial handle.node →
      (∀ p ∈ m.roster.get? handle.node, p.handle = none) →
      ∃ p ∈ (m.receive f).roster.get? handle.node, p.Linked ∧ p.handle = none := by
  have ho : m.Ordered := path.keeps (fun _ _ _ => Takes.ordered) (ordered_of_run started [])
  refine ⟨fun id p c hp hlive => ?_, fun f source name handle hf hid hmay hunknown =>
    ho.unknown_of_receive hf hid hmay hunknown⟩
  obtain ⟨hl, hstate⟩ := Peer.liveLink?_eq_some_iff.1 hlive
  refine ⟨fun hunknown => ?_, fun h => h.handle_eq_none.2 p hp hl⟩
  refine unannounced_of_path started path (fun hid => ?_) hp hl hunknown
  -- the own entry has no link
  have hempty := ho.seated.own_state p (by rw [path.self_eq, ← hid]; exact hp)
  simp [hempty] at hstate

theorem Ordered.mayDial_of_loss (ho : n.Ordered) (hcenter : n.registry?.isSome) {p : Peer}
    (hp : n.roster.get? id = some p) (hl : p.link = some c) (haddress : p.address.endpoint?.isSome)
    (t : Nat)
    (reason : CloseReason) : (n.stepAt t (.link (.closed c reason))).MayDial id ∧
      ∀ q ∈ (n.stepAt t (.link (.closed c reason))).roster.get? id, q.handle = none := by
  have ho' := (Takes.tend t n.catalog).ordered ho
  have hroom : (Node.lose { n with now := t } c).links.hasRoom = true := by
    obtain ⟨m, hlose, heq⟩ := ho'.wired.exists_lose hp hl
    have hroom := hlose.hasRoom_of_lose ho'.wired
    rw [heq, if_pos (Takes.isSome_registry? hlose |>.trans hcenter)]
    unfold forget
    split <;> exact hroom
  have hentry := (ho'.entry_of_lose hp hl).1
  refine ⟨⟨_, hentry, rfl, haddress, hroom⟩, fun q hq => ?_⟩
  obtain rfl := Option.some.inj (hentry.symm.trans hq)
  rfl

/-- A center with which node 3 has registered loses the link, and gets a frame that names a module
of node 3: the node is linked and has no handle. -/
theorem unannounced_iff_of_path_lamp :
    ∃ n₀ events f, start {} {} 7100 0 (.error .closed) = .ok n₀ ∧
      ∃ p ∈ ((n₀.run events).receive f).roster.get? ⟨3⟩, p.Linked ∧ p.handle = none := by
  have hparse :
      Command.parse (Command.handle "lamp" ⟨⟨3⟩, 7⟩).payload = .ok (.handle "lamp" ⟨⟨3⟩, 7⟩) := by
    decide +kernel
  have started : start {} {} 7100 0 (.error .closed) = .ok (idle {} {} 7100 0) := rfl
  obtain ⟨before, q, conn, hq, hlive, haddress, -⟩ :=
    exists_run_linked started rfl (by decide +kernel) (by decide) (by decide)
  have hcenter : (Node.registry? (idle {} {} 7100 0)).isSome := rfl
  have hself : (⟨3⟩ : NodeId) ≠ (idle {} {} 7100 0).self := by decide
  generalize idle {} {} 7100 0 = n₀ at started hq hcenter hself
  have hcenter' := Via.isSome_registry? (run_via n₀ before) |>.trans hcenter
  obtain ⟨hmay, hunknown⟩ := (ordered_of_run started before).mayDial_of_loss hcenter' hq
    (Peer.liveLink?_eq_some_iff.1 hlive).1 haddress 2 .endOfStream
  rw [← run_concat] at hmay hunknown
  generalize before ++ [_] = events at hmay hunknown
  have hvia := run_via n₀ events
  obtain ⟨moves, path, -⟩ := id hvia
  have hf : (n₀.run events).routing.classify
      ((Command.handle "lamp" ⟨⟨3⟩, 7⟩).frame ⟨3⟩ ⟨⟨1⟩, meshModule⟩) =
      .control ⟨⟨3⟩, meshModule⟩ (.handle "lamp" ⟨⟨3⟩, 7⟩) := by
    simp [Routing.classify, Command.frame, hparse]
  exact ⟨n₀, events, _, started, (unannounced_iff_of_path started path).2 _ _ _ _ hf
    (by rw [hvia.self_eq]; exact hself) hmay hunknown⟩

end Start

end Meshwork.Node
