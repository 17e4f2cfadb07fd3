import Meshwork.Proofs.Node.Departures
import Meshwork.Proofs.Node.Sending

/-!
# What the end of a link leaves alone

When a link is closed, the node at its other end is gone, and all others are as they were. Main
statement: `partings_of_run`, in every state, for the links of entries and for those that no entry
has.
-/

namespace Meshwork.Node

variable {n m k : Node} {a : Move} {id id' : NodeId} {conn c : ConnId} {p : Peer} {frame : Frame}
  {sent : List (ConnId × Frame)} {written : ConnId → List UInt8}

instance (n : Node) (c : Command) : Decidable (n.Fits c) := inferInstanceAs (Decidable (_ ≤ _))

/-- What a member sends when another node is gone: it tells its center so, over a link that takes
the frame. -/
def farewell (n : Node) (id : NodeId) : List (ConnId × Frame) :=
  match n.center?, n.centerLink? with
  | some center, some conn =>
    if center.node ≠ id ∧ n.Fits (.unregister id) ∧ 0 < n.room conn then
      [(conn, (Command.unregister id).frame n.self center.directory)]
    else []
  | _, _ => []

/-- From `n` to `m` a node is gone with its link and its entry `p`, and `sent` was queued. -/
structure Leaves (n m : Node) (id : NodeId) (conn : ConnId) (p : Peer)
    (sent : List (ConnId × Frame)) :
    Prop where
  same : m = { n with
    roster := m.roster, links := m.links, role := m.role, refused := m.refused, effects :=
      m.effects }
  entry : m.roster.get? id = some { address := p.address }
  others : ∀ id', id' ≠ id → ∀ q, n.roster.get? id' = some q →
    ∃ lastSent, m.roster.get? id' = some { q with lastSent }
  contains : ∀ id', m.roster.Contains id' ↔ n.roster.Contains id'
  record : m.links.get? conn = none
  records : ∀ c, c ≠ conn → m.links.get? c = (n.links.get? c).map fun r =>
    { r with link := { r.link with queue := r.link.queue ++ (framesOver c sent).map Frame.bytes } }
  center : m.center? = n.center?
  effects : m.effects = n.effects ++ (p.bound.map fun h => .report (.exited h)) ++
    sent.map fun (c, frame) => .queued c frame

/-- A node is gone, and the directory has learned of it. -/
structure Parts (n m : Node) (id : NodeId) (conn : ConnId) (p : Peer) : Prop
    extends Leaves n m id conn p (n.farewell id) where
  registry : ∀ r, n.registry? = some r → ∃ s, m.registry? = some s ∧ r.Loses s id
  /-- If the link of the center has no room, it is closed in its turn. -/
  refused : m.refused = n.refused ∨ ∃ c reason, n.centerLink? = some c ∧ n.room c = 0 ∧
    m.refused = n.refused ++ [(c, reason)]

/-- What the events of links do in a state. -/
structure Partings (n : Node) : Prop where
  lost : ∀ t e conn id p, n.Closes conn e → n.roster.get? id = some p → p.link = some conn →
    Parts (n.turned t e) (n.stepAt t e) id conn p
  /-- The link was accepted, or it is gone already, or the entry of its node has another one. -/
  stale : ∀ t e conn, n.Closes conn e →
    (∀ id, n.links.owner? conn = some id → ∀ p, n.roster.get? id = some p → p.link ≠ some conn) →
    ∃ links, n.stepAt t e = { n.turned t e with links } ∧ links.get? conn = none ∧
      (∀ c, c ≠ conn → links.get? c = n.links.get? c) ∧ links.nextNumber = n.links.nextNumber
  unawaited : ∀ t conn,
    (∀ id p, n.roster.get? id = some p → p.link = some conn → p.state ≠ .connecting) →
    n.stepAt t (.link (.connected conn)) = { n with now := t }

theorem Takes.leaves_of_lose (hw : n.Wired) (ht : n.Takes (.lose id conn) m)
    (hp : n.roster.get? id = some p) : n.Leaves m id conn p [] := by
  cases ht with
  | @lose _ _ record links peer he ho hp' hl =>
    rw [hp, Option.some.injEq] at hp'
    subst hp'
    obtain ⟨-, hget⟩ := hw.links.kept.get?_erase he
    refine ⟨rfl, ?_, fun id' hne q hq => ⟨q.lastSent, ?_⟩, fun id' => by simp, ?_, fun c hc => ?_,
      rfl, ?_⟩
    · rw [Roster.get?_detach, if_pos rfl, hp]
      rfl
    · rw [Roster.get?_detach, if_neg hne, hq]
    · rw [hget, if_pos rfl]
    · rw [hget, if_neg hc]
      simp [framesOver]
    · rw [List.map_nil, List.append_nil]

theorem Leaves.queue (h : n.Leaves k id conn p []) (hw : k.Wired)
    (ht : k.Takes (.queue id' c frame) m) (hne : id' ≠ id) : n.Leaves m id conn p [(c, frame)] := by
  have hself := h.same
  cases ht with
  | @queue _ _ _ record _ bytes link hp hl hr he hs =>
    obtain ⟨-, -, rfl⟩ := Link.send_eq_ok hs
    obtain ⟨-, rfl⟩ := Wire.encode_eq_ok_iff.1 he
    have hget := hw.links.kept.get?_modify c fun _ =>
      { record.link with queue := record.link.queue ++ [frame.bytes] }
    refine ⟨?_, ?_, fun id'' hne' q hq => ?_, fun id'' => ?_, ?_, fun c' hc' => ?_, h.center, ?_⟩
    · rw [hself]
    · rw [Roster.get?_noteSent, if_neg fun heq => hne heq.symm]
      exact h.entry
    · obtain ⟨lastSent, hq'⟩ := h.others id'' hne' q hq
      rw [Roster.get?_noteSent]
      split
      · rename_i heq
        exact ⟨some k.now, by rw [← heq, hq', Option.map_some]⟩
      · exact ⟨lastSent, hq'⟩
    · simpa using h.contains id''
    · have hc : conn ≠ c := by
        rintro rfl
        rw [h.record] at hr
        cases hr
      rw [hget, if_neg hc]
      exact h.record
    · have hold : k.links.get? c' = n.links.get? c' := by simpa [framesOver] using h.records c' hc'
      rw [hget, framesOver_cons, ← hold]
      by_cases hcc : c' = c
      · rw [if_pos hcc, if_pos hcc.symm, hcc, hr]
        rfl
      · rw [if_neg hcc, if_neg fun heq => hcc heq.symm]
        simp [framesOver]
    · rw [h.effects]
      simp

theorem Leaves.refuse (h : n.Leaves k id conn p []) (ht : k.Takes (.refuse id' c) m) :
    n.Leaves m id conn p [] ∧ ∃ reason, m.refused = k.refused ++ [(c, reason)] := by
  have hsame := h.same
  cases ht with
  | refuse =>
    refine ⟨⟨?_, h.entry, h.others, h.contains, h.record, h.records, h.center, h.effects⟩, _, rfl⟩
    rw [hsame]

theorem Leaves.room_eq (h : n.Leaves k id conn p []) (hc : c ≠ conn) : k.room c = n.room c := by
  have hget : k.links.get? c = n.links.get? c := by simpa [framesOver] using h.records c hc
  have hplaces : k.places = n.places := by
    rw [h.same]
    rfl
  rw [room, room, hget, hplaces]

theorem farewell_of_linked {center : CenterLink} (hc : n.center? = some center)
    (hl : n.centerLink? = some c) :
    n.farewell id = if center.node ≠ id ∧ n.Fits (.unregister id) ∧ 0 < n.room c then
      [(c, (Command.unregister id).frame n.self center.directory)] else [] := by
  simp only [farewell, hc, hl]

theorem Takes.registry?_of_member (ht : n.Takes a k) (hm : k.Member) : n.registry? = none := by
  have hsame := ht.isSome_registry?
  simpa [hm.not_center] using hsame.symm

theorem Takes.parts_of_silent (hw : n.Wired) (hk : n.Takes (.lose id conn) k) (hm : k.Member)
    (hp : n.roster.get? id = some p) (hask : ∀ m, k.ask receive (.unregister id) ≠ .ok m)
    (hnil : n.farewell id = []) : n.Parts (k.askIfPossible receive (.unregister id)) id conn p := by
  have hsame : k.askIfPossible receive (.unregister id) = k := by
    unfold askIfPossible
    split
    · rename_i m hok
      exact absurd hok (hask m)
    · rfl
  rw [hsame]
  refine ⟨?_, fun r hr => ?_, .inl (by cases hk; rfl)⟩
  · rw [hnil]
    exact hk.leaves_of_lose hw hp
  · rw [hk.registry?_of_member hm] at hr
    cases hr

theorem Takes.parts_of_linked (hl : n.Ledger written) (hk : n.Takes (.lose id conn) k)
    (hm : k.Member) (hp : n.roster.get? id = some p) (hlink : p.link = some conn)
    {center : CenterLink} {q : Peer}
    (hc : n.center? = some center) (hne : center.node ≠ id)
    (hq : n.roster.get? center.node = some q)
    (hlive : q.liveLink? = some c) (hfit : n.Fits (.unregister id)) :
    n.Parts (k.askIfPossible receive (.unregister id)) id conn p := by
  have ho := hl.ordered
  have hlk := hk.ledger hl trivial
  have hleaves := hk.leaves_of_lose ho.wired hp
  have hrefused : k.refused = n.refused := by cases hk; rfl
  have hcenterLink : n.centerLink? = some c := by simp [centerLink?, hc, hq, hlive]
  have hcc : c ≠ conn := by
    rintro rfl
    exact hne (ho.wired.link_inj hq hp (Peer.liveLink?_eq_some_iff.1 hlive).1 hlink)
  -- the link of the center is another one, so it has the room that it had before
  have hroom := hleaves.room_eq hcc
  obtain ⟨lastSent, hq'⟩ := hleaves.others center.node hne q hq
  have hlen :
      ((Command.unregister id).frame k.self center.directory).payload.length ≤ k.wire.maxPayload :=
    (hk.via (P := fun _ => True) trivial).fits_iff.2 hfit
  obtain ⟨m, hover, htakes⟩ :=
    hlk.ordered.wired.exists_sendOver hq' (show Peer.liveLink? _ = some c from hlive) hlen
  have hasked : k.askIfPossible receive (.unregister id) = m := by
    rw [askIfPossible, hm.ask_eq, hleaves.center, hc]
    simp only [hover]
  have hregistry : ∀ r, n.registry? = some r → ∃ s, m.registry? = some s ∧ r.Loses s id := by
    simp [hk.registry?_of_member hm]
  rw [hasked]
  rcases htakes with hqueue | hrefuse
  · have hpos : 0 < n.room c := by
      rw [← hroom, hqueue.room_of_queue hlk]
      exact Nat.succ_pos _
    refine ⟨?_, hregistry, .inl ?_⟩
    · rw [farewell_of_linked hc hcenterLink, if_pos ⟨hne, hfit, hpos⟩, ← hk.self_eq]
      exact hleaves.queue hlk.ordered.wired hqueue hne
    · cases hqueue
      exact hrefused
  · have hzero : n.room c = 0 := hroom.symm.trans (hrefuse.room_of_refuse hlk).1
    obtain ⟨hleft, reason, hadded⟩ := hleaves.refuse hrefuse
    refine ⟨?_, hregistry, .inr ⟨c, reason, hcenterLink, hzero, by rw [hadded, hrefused]⟩⟩
    rw [farewell_of_linked hc hcenterLink, if_neg fun h => by simp [hzero] at h]
    exact hleft

theorem Takes.parts_of_member (hl : n.Ledger written) (hk : n.Takes (.lose id conn) k)
    (hm : k.Member) (hp : n.roster.get? id = some p) (hlink : p.link = some conn)
    (hne : k.center?.map (·.node) ≠ some id) :
    n.Parts (k.askIfPossible receive (.unregister id)) id conn p := by
  have ho := hl.ordered
  have hleaves := hk.leaves_of_lose ho.wired hp
  have hsilent := hk.parts_of_silent ho.wired hm hp
  rw [hm.ask_eq, hleaves.center] at hsilent
  rw [hleaves.center] at hne
  cases hc : n.center? with
  | none =>
    rw [hc] at hsilent
    exact hsilent (by simp) (by simp [farewell, hc])
  | some center =>
    rw [hc] at hne hsilent
    have hne : center.node ≠ id := fun h => hne (congrArg some h)
    obtain ⟨q, hq⟩ := Roster.exists_get? (ho.seated.center center hc).1
    cases hlive : q.liveLink? with
    | none =>
      obtain ⟨lastSent, hq'⟩ := hleaves.others center.node hne q hq
      have hlive' : Peer.liveLink? { q with lastSent } = none := hlive
      refine hsilent (fun m => ?_) (by simp [farewell, hc, centerLink?, hq, hlive])
      simp [sendOver, hq', hlive']
    | some c =>
      by_cases hfit : n.Fits (.unregister id)
      · exact hk.parts_of_linked hl hm hp hlink hc hne hq hlive hfit
      · have hcenterLink : n.centerLink? = some c := by simp [centerLink?, hc, hq, hlive]
        refine hsilent (fun m hm' => ?_) ?_
        · obtain ⟨_, _, -, -, hlen, -⟩ := sendOver_takes hm'
          exact hfit ((hk.via (P := fun _ => True) trivial).fits_iff.1 hlen)
        · rw [farewell_of_linked hc hcenterLink, if_neg fun h => hfit h.2.1]

theorem Takes.parts_of_center {r : Registry} (hw : n.Wired) (hr : n.registry? = some r)
    (hneat : r.Neat) (hk : n.Takes (.lose id conn) k) (hp : n.roster.get? id = some p) :
    n.Parts (k.forget id) id conn p := by
  have hleaves := hk.leaves_of_lose hw hp
  have hnone : n.center? = none := by
    cases hc : n.center? with
    | none => rfl
    | some center => simp [registry?_of_center? hc] at hr
  have hrole : k.role = .center r := by
    have hsame : k.role = n.role := by cases hk; rfl
    rw [hsame]
    unfold registry? at hr
    split at hr
    · cases hr
      assumption
    · cases hr
  have hforget : k.forget id = { k with role := .center (r.forget id) } := by
    simp only [Node.forget, hrole]
  have hnil : n.farewell id = [] := by simp [farewell, hnone]
  have hsame := hleaves.same
  rw [hforget]
  refine ⟨?_, fun r' hr' => ?_, .inl (by cases hk; rfl)⟩
  · rw [hnil]
    refine ⟨?_, hleaves.entry, hleaves.others, hleaves.contains, hleaves.record, hleaves.records,
      hnone.symm, hleaves.effects⟩
    rw [hsame]
  · obtain rfl := Option.some.inj (hr.symm.trans hr')
    exact ⟨_, rfl, hneat.loses_forget id⟩

theorem Ledger.parts (hl : n.Ledger written) (hneat : ∀ r, n.registry? = some r → r.Neat)
    (hp : n.roster.get? id = some p) (hlink : p.link = some conn) :
    n.Parts (n.lose conn) id conn p := by
  obtain ⟨k, hk, heq⟩ := hl.ordered.wired.exists_lose hp hlink
  have hregistry := hk.isSome_registry?
  rw [heq]
  split
  · rename_i hcenter
    rw [hregistry] at hcenter
    obtain ⟨r, hr⟩ := Option.isSome_iff_exists.1 hcenter
    exact hk.parts_of_center hl.ordered.wired hr (hneat r hr) hp
  · rename_i hmember
    have hm : k.Member := ⟨hk.ordered hl.ordered, by simpa using hmember⟩
    split
    · -- the center itself is gone
      rename_i hself
      have hleaves := hk.leaves_of_lose hl.ordered.wired hp
      have hnil : n.farewell id = [] := by
        obtain ⟨center, hc, hnode⟩ := Option.map_eq_some_iff.1 (hleaves.center ▸ hself)
        unfold farewell
        split
        · rename_i c hc' hc''
          rw [hc, Option.some.injEq] at hc'
          subst hc'
          exact if_neg fun h => h.1 hnode
        · rfl
      refine ⟨by rw [hnil]; exact hleaves, fun r hr => ?_, .inl (by cases hk; rfl)⟩
      rw [hk.registry?_of_member hm] at hr
      cases hr
    · rename_i hother
      exact hk.parts_of_member hl hm hp hlink hother

theorem Ordered.lose_of_not_linked (ho : n.Ordered)
    (hlink : ∀ id, n.links.owner? conn = some id → ∀ p, n.roster.get? id = some p →
      p.link ≠ some conn) :
    ∃ links, n.lose conn = { n with links } ∧ links.get? conn = none ∧
      (∀ c, c ≠ conn → links.get? c = n.links.get? c) ∧ links.nextNumber = n.links.nextNumber := by
  have hkept := ho.wired.links.kept
  obtain ⟨he, heq⟩ | hdrop | ⟨id, k, hlose, -⟩ := lose_cases n conn
  · exact ⟨n.links, heq, hkept.erase_eq_none_iff.1 he, fun _ _ => rfl, rfl⟩
  · generalize n.lose conn = m at hdrop
    cases hdrop with
    | drop he =>
      obtain ⟨-, hget⟩ := hkept.get?_erase he
      exact ⟨_, rfl, by rw [hget, if_pos rfl], fun c hc => by rw [hget, if_neg hc],
        Links.nextNumber_erase he⟩
  · cases hlose with
    | lose _ _ hp hl => exact absurd hl (hlink id (ho.wired.owner?_eq hp hl) _ hp)

theorem connected_eq_self
    (h : ∀ id p, n.roster.get? id = some p → p.link = some conn → p.state ≠ .connecting) :
    n.connected conn = n := by
  unfold connected
  split
  · rfl
  split
  · rfl
  rename_i p hp
  exact if_neg fun hc => h _ p hp hc.1 hc.2

theorem Ledger.partings (hl : n.Ledger written) (hneat : ∀ r, n.registry? = some r → r.Neat) :
    n.Partings where
  lost t e conn id p hc hp hlink := by
    rw [stepAt_of_closes hc]
    exact (hl.turned t e).parts (by cases e <;> exact hneat) (by cases e <;> exact hp) hlink
  stale t e conn hc hlink := by
    rw [stepAt_of_closes hc]
    have hturned : (n.turned t e).links = n.links ∧ (n.turned t e).roster = n.roster := by
      cases e <;> exact ⟨rfl, rfl⟩
    rw [← hturned.1, ← hturned.2] at hlink
    rw [← hturned.1]
    exact (hl.ordered.turned t e).lose_of_not_linked hlink
  unawaited t conn h := connected_eq_self (n := { n with now := t }) h

section Start

variable {profile : Profile} {catalog : Catalog} {port : UInt16} {now : Nat}
  {result : Except Fault Handshake} {n₀ : Node}

theorem neat_of_run (started : start profile catalog port now result = .ok n₀)
    (events : List (Nat × Event)) {r : Registry} (hr : Node.registry? (n₀.run events) = some r) :
    r.Neat := by
  have hcenter : n₀.registry?.isSome := by
    rw [← Via.isSome_registry? (run_via n₀ events), hr]
    rfl
  have hfiles : n₀.Files {} :=
    ⟨ordered_of_run started [], (blank_of_start started hcenter).1, Registry.neat_run []⟩
  have hfiles' := hfiles.of_directs (hfiles.ordered.wired.directs_run hcenter events)
  obtain rfl := Option.some.inj (hfiles'.registry.symm.trans hr)
  exact hfiles'.neat

/-- After every run of a started node, whatever closes a link and however often: if an entry has the
link, its node is gone and nothing else changes, and if no entry has it, nothing goes but its
record. -/
theorem partings_of_run (started : start profile catalog port now result = .ok n₀)
    (events : List (Nat × Event)) : (n₀.run events).Partings :=
  (ledger_of_run started events).partings fun _ hr => neat_of_run started events hr

/-- A center loses the link of node 3, which has registered. -/
theorem partings_of_run_registered :
    ∃ n₀ events conn p, start {} {} 7100 0 (.error .closed) = .ok n₀ ∧
      (n₀.run events).roster.get? ⟨3⟩ = some p ∧ p.link = some conn ∧ (n₀.run events).Partings ∧
      Parts { n₀.run events with now := 5 }
        ((n₀.run events).stepAt 5 (.link (.closed conn .endOfStream)))
        ⟨3⟩ conn p := by
  have started : start {} {} 7100 0 (.error .closed) = .ok (idle {} {} 7100 0) := rfl
  obtain ⟨events, p, conn, hp, hlive, -⟩ :=
    exists_run_linked started rfl (by decide +kernel) (by decide) (by decide)
  have hlink := (Peer.liveLink?_eq_some_iff.1 hlive).1
  have hpartings := partings_of_run started events
  exact ⟨_, events, conn, p, started, hp, hlink, hpartings,
    hpartings.lost 5 (.link (.closed conn .endOfStream)) conn ⟨3⟩ p rfl hp hlink⟩

end Start

end Meshwork.Node
