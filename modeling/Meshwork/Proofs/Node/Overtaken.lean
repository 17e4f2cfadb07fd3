import Mathlib.Data.List.Induction
import Meshwork.Proofs.Node.Waiting

/-!
# Links that no entry has

A link that was made for a node is that of its entry until it ends, with one exception: a handshake
links the node that it names, whether or not that node has a link. Main statement:
`orphaned_iff_of_run`, after every run the links that were made for a node but are not that of its
entry are those that a handshake has overtaken.
-/

namespace Meshwork.Node

variable {n m : Node} {a : Move} {id : NodeId} {conn : ConnId} {h : Handshake}

/-- A link was made for a node, and the entry of the node does not have it. -/
structure Orphaned (n : Node) (conn : ConnId) (id : NodeId) : Prop where
  owner : n.links.owner? conn = some id
  link_ne : ∀ p, n.roster.get? id = some p → p.link ≠ some conn

/-- In a run a handshake was accepted that named a node while the entry of the node had a link. -/
inductive Overtaken (n₀ : Node) (conn : ConnId) (id : NodeId) : List (Nat × Event) → Prop where
  | named {before : List (Nat × Event)} {h : Handshake} {p : Peer}
      (accepted : (n₀.run before).Accepts h)
      (node : h.greeting.center.node = id) (entry : (n₀.run before).roster.get? id = some p)
      (link : p.link = some conn) (t : Nat) :
      Overtaken n₀ conn id (before ++ [(t, .handshake (.ok h))])
  | later {before : List (Nat × Event)} (overtaken : Overtaken n₀ conn id before)
      (x : Nat × Event) : Overtaken n₀ conn id (before ++ [x])

theorem Wired.owner?_eq (hw : n.Wired) {p : Peer} (hp : n.roster.get? id = some p)
    (hl : p.link = some conn) : n.links.owner? conn = some id := by
  obtain ⟨r, hr, ho⟩ := hw.owner id p conn hp hl
  rw [Links.owner?, hr, Option.bind_some, ho]

theorem Takes.owner?_cases (hw : n.Wired) (ht : n.Takes a m) (ho : m.links.owner? conn = some id) :
    n.links.owner? conn = some id ∨
      ∃ p, m.roster.get? id = some p ∧ p.link = some conn := by
  have hkept := hw.links.kept
  cases ht with
  | queue => exact .inl (by rwa [hkept.owner?_modify] at ho)
  | write => exact .inl (by rwa [hkept.owner?_modify] at ho)
  | drop he =>
    rw [hkept.owner?_erase he] at ho
    split at ho
    · cases ho
    · exact .inl ho
  | lose he =>
    rw [hkept.owner?_erase he] at ho
    split at ho
    · cases ho
    · exact .inl ho
  | arrive _ _ hi =>
    rw [hkept.nextId.owner?_insert hi] at ho
    split at ho
    · cases ho
    · exact .inl ho
  | @dial id' peer endpoint i links _ hp _ _ _ _ hi =>
    rw [hkept.nextId.owner?_insert hi] at ho
    split at ho
    · rename_i hc
      rw [Option.some.injEq] at ho
      subst ho
      exact .inr
        ⟨_, by rw [Roster.get?_noteSent_attach, if_pos rfl, hp]; rfl, congrArg some hc.symm⟩
    · exact .inl ho
  | @join h i links _ _ hj hi address =>
    rw [hkept.nextId.owner?_insert hi] at ho
    split at ho
    · rename_i hc
      rw [Option.some.injEq] at ho
      subst ho
      obtain ⟨p, hp⟩ := Roster.exists_get? (judge_eq_ok hj).2.1
      exact .inr
        ⟨_, by rw [Roster.get?_noteSent_attach_update, if_pos rfl, hp]; rfl, congrArg some hc.symm⟩
    · exact .inl ho
  | _ => exact .inl ho

theorem Takes.link_kept (hw : n.Wired) (ht : n.Takes a m) {p : Peer}
    (hp : n.roster.get? id = some p) (hl : p.link = some conn) :
    (∃ q, m.roster.get? id = some q ∧ q.link = some conn) ∨
      a = .lose id conn ∧ m.links.owner? conn = none ∨
      ∃ c h, a = .join c h ∧ h.greeting.center.node = id := by
  have hlive := (hw.link_iff id p hp).1 (by simp [hl])
  obtain ⟨q, hq, halters⟩ := ht.exists_alters hp
  cases halters with
  | same | learn | bind | queue | seek | establish => exact .inl ⟨_, hq, hl⟩
  | dial unlinked =>
    rw [hw.linked_iff hp, hl] at unlinked
    exact absurd rfl unlinked
  | join node => exact .inr (.inr ⟨_, _, rfl, node⟩)
  | release _ state => simp [state, LinkState.Live] at hlive
  | lose link =>
    rw [hl, Option.some.injEq] at link
    subst link
    refine .inr (.inl ⟨rfl, ?_⟩)
    cases ht with
    | lose he => rw [hw.links.kept.owner?_erase he, if_pos rfl]

/-- Only a handshake leaves a link without its entry. -/
theorem Takes.orphaned (hw : n.Wired) (ht : n.Takes a m) (ho : m.Orphaned conn id) :
    n.Orphaned conn id ∨ ∃ c h p, a = .join c h ∧ h.greeting.center.node = id ∧
      n.roster.get? id = some p ∧ p.link = some conn := by
  obtain hold | ⟨p, hp, hl⟩ := ht.owner?_cases hw ho.owner
  · by_cases hlinked : ∃ p, n.roster.get? id = some p ∧ p.link = some conn
    · obtain ⟨p, hp, hl⟩ := hlinked
      obtain ⟨q, hq, hl'⟩ | ⟨-, hgone⟩ | ⟨c, h, rfl, hid⟩ := ht.link_kept hw hp hl
      · exact absurd hl' (ho.link_ne q hq)
      · have howner := ho.owner
        rw [hgone] at howner
        cases howner
      · exact .inr ⟨c, h, p, rfl, hid, hp, hl⟩
    · exact .inl ⟨hold, fun p hp hl => hlinked ⟨p, hp, hl⟩⟩
  · exact absurd hl (ho.link_ne p hp)

theorem Via.orphaned (hv : n.Via (fun a => ¬ a.Joins) m) (ho : n.Ordered) (h : m.Orphaned conn id) :
    n.Orphaned conn id := by
  have hkeep := hv.keeps (I := fun k => k.Ordered ∧ (k.Orphaned conn id → n.Orphaned conn id))
    (fun k a l hk ha ht => ⟨ht.ordered hk.1, fun hl => ?_⟩) ⟨ho, fun h => h⟩
  · exact hkeep.2 h
  · obtain hk' | ⟨c, hs, -, rfl, -⟩ := ht.orphaned hk.1.wired hl
    · exact hk.2 hk'
    · exact absurd trivial ha

theorem Takes.gone_of_join {c : ConnId} (ho : n.Ordered) (ht : n.Takes (.join c h) m) {p : Peer}
    (hp : n.roster.get? h.greeting.center.node = some p) (hl : p.link = some conn) :
    m.Gone conn := by
  obtain ⟨r, hr, -⟩ := ho.wired.owner _ p conn hp hl
  have hlt := ho.wired.links.fresh conn r hr
  refine ⟨ht.ordered ho, Nat.lt_of_lt_of_le hlt ht.nextNumber_le, fun id q hq hl' => ?_⟩
  cases ht with
  | join =>
    rw [Roster.get?_noteSent_attach_update] at hq
    split at hq
    · obtain ⟨q', -, rfl⟩ := Option.map_eq_some_iff.1 hq
      exact ho.wired.link_ne_nextId hp (hl.trans hl'.symm)
    · rename_i hne
      exact hne (ho.wired.link_inj hq hp hl' hl)

theorem Via.gone {P : Move → Prop} (hv : n.Via P m) (hg : n.Gone conn) : m.Gone conn :=
  hv.keeps (fun _ _ _ hk _ ht => ht.gone hk) hg

theorem Via.link_kept {P : Move → Prop} (hv : n.Via P m) (ho : n.Ordered)
    (hP : ∀ a, P a → a ≠ .lose id conn ∧ ¬ a.Joins) {p : Peer} (hp : n.roster.get? id = some p)
    (hl : p.link = some conn) : ∃ q, m.roster.get? id = some q ∧ q.link = some conn := by
  have hkeep := hv.keeps
    (I := fun k => k.Ordered ∧ ∃ q, k.roster.get? id = some q ∧ q.link = some conn)
    (fun k a l hk ha ht => ⟨ht.ordered hk.1, ?_⟩) ⟨ho, p, hp, hl⟩
  · exact hkeep.2
  · obtain ⟨hko, q, hq, hl⟩ := hk
    obtain hkept | ⟨rfl, -⟩ | ⟨c, h, rfl, -⟩ := ht.link_kept hko.wired hq hl
    · exact hkept
    · exact absurd rfl (hP _ ha).1
    · exact absurd trivial (hP _ ha).2

theorem Takes.owner?_kept (hw : n.Wired) (ht : n.Takes a m) (h : n.links.owner? conn = some id) :
    m.links.owner? conn = some id ∨ a = .drop conn ∨ ∃ id', a = .lose id' conn := by
  have htreats := ht.treats hw conn
  rw [Links.owner?] at h ⊢
  generalize n.links.get? conn = r, m.links.get? conn = s at h htreats ⊢
  cases htreats with
  | same | queue | write => exact .inl h
  | insert => cases h
  | erase ends => exact .inr ends

theorem Via.owner?_kept (hv : n.Via Move.Inner m) (ho : n.Ordered)
    (h : n.links.owner? conn = some id) :
    m.links.owner? conn = some id := by
  have hkeep := hv.keeps (I := fun k => k.Ordered ∧ k.links.owner? conn = some id)
    (fun k a l hk ha ht => ⟨ht.ordered hk.1, ?_⟩) ⟨ho, h⟩
  · exact hkeep.2
  · obtain hkept | rfl | ⟨id', rfl⟩ := ht.owner?_kept hk.1.wired hk.2
    · exact hkept
    · exact ha.elim
    · exact ha.elim

theorem Orphaned.lose (h : n.Orphaned conn id) (ho : n.Ordered) :
    ∃ links, n.lose conn = { n with links } ∧ links.get? conn = none := by
  cases he : n.links.erase conn with
  | none =>
    rw [ho.wired.links.kept.erase_eq_none_iff] at he
    have howner := h.owner
    rw [Links.owner?, he] at howner
    cases howner
  | some erased =>
    obtain ⟨record, links⟩ := erased
    obtain ⟨hr, hget⟩ := ho.wired.links.kept.get?_erase he
    have howner : record.owner = some id := by
      have howner := h.owner
      rwa [Links.owner?, hr, Option.bind_some] at howner
    refine ⟨links, ?_, by rw [hget, if_pos rfl]⟩
    cases hp : n.roster.get? id with
    | none => simp only [Node.lose, he, howner, hp]
    | some p =>
      simp only [Node.lose, he, howner, hp, ne_eq, h.link_ne p hp, not_false_eq_true, if_true]

theorem Accepts.orphaned (haccepts : n.Accepts h) (ho : n.Ordered) {p : Peer}
    (hp : n.roster.get? h.greeting.center.node = some p) (hl : p.link = some conn) (t : Nat) :
    (n.stepAt t (.handshake (.ok h))).Orphaned conn h.greeting.center.node := by
  have ho' : Ordered { n with now := t, handshakes := n.handshakes - 1 } :=
    Takes.answered.ordered ((Takes.tend t n.catalog).ordered ho)
  obtain ⟨m, hjoin, hinner⟩ := haccepts.exists_join ho t
  generalize n.stepAt t (.handshake (.ok h)) = k at hinner ⊢
  have hgone := hinner.gone (hjoin.gone_of_join ho' hp hl)
  have howner : m.links.owner? conn = some h.greeting.center.node := by
    obtain howner | hdrop | ⟨id', hlose⟩ := hjoin.owner?_kept ho'.wired (ho.wired.owner?_eq hp hl)
    · exact howner
    · cases hdrop
    · cases hlose
  exact ⟨hinner.owner?_kept (hjoin.ordered ho') howner, hgone.link_ne _⟩

/-- In each session the loss of the center and a handshake that names a linked node are enough to
leave the link of that node without its entry. -/
theorem Session.orphaned_of_loss {directory : Handle} {c : ConnId} {endpoint : String} {p : Peer}
    (hs : n.Session conn directory) (he : n.profile.centerEndpoint? = some endpoint)
    (hp : n.roster.get? id = some p) (hl : p.link = some c) (hid : id ≠ directory.node)
    (hnode : h.greeting.center.node = id) (t t' t'' : Nat) (reason : CloseReason) :
    (((n.stepAt t (.link (.closed conn reason))).stepAt t' .tick).stepAt t''
      (.handshake (.ok h))).Orphaned c id := by
  subst hnode
  obtain ⟨hlost, hawaits, hroom⟩ := hs.awaits_of_loss he t t' reason
  have hne : c ≠ conn := by
    rintro rfl
    obtain ⟨q, hq, hl'⟩ := hs.linked
    exact hid (hs.ordered.wired.link_inj hp hq hl (Peer.liveLink?_eq_some_iff.1 hl').1)
  have hclosed : n.Via (fun a => a ≠ .lose h.greeting.center.node c ∧ ¬ a.Joins)
      (n.stepAt t (.link (.closed conn reason))) := by
    refine ((Takes.tend t n.catalog).via ⟨nofun, fun h => h⟩).trans ((lose_via _ conn).mono ?_)
    rintro a (ha | rfl | ⟨id', rfl⟩)
    · exact ⟨by rintro rfl; exact ha, ha.not_joins⟩
    · exact ⟨nofun, fun h => h⟩
    · refine ⟨fun heq => ?_, fun h => h⟩
      cases heq
      exact hne rfl
  have htick (k : Node) :
      k.Via (fun a => a ≠ .lose h.greeting.center.node c ∧ ¬ a.Joins) (k.stepAt t' .tick) := by
    refine ((Takes.tend t' k.catalog).via ⟨nofun, fun h => h⟩).trans ((tick_via _).mono ?_)
    rintro a (ha | rfl)
    · exact ⟨by rintro rfl; exact ha, ha.not_joins⟩
    · exact ⟨nofun, fun h => h⟩
  have hvia := hclosed.trans (htick (n.stepAt t (.link (.closed conn reason))))
  generalize (n.stepAt t (.link (.closed conn reason))).stepAt t' .tick = k
    at hlost hawaits hroom hvia ⊢
  have ho := hlost.ordered
  -- the other node is still linked when the handshake ends, and its link is not looked at
  obtain ⟨q, hq, hlink⟩ := hvia.link_kept hs.ordered (fun _ ha => ha) hp hl
  have hself : h.greeting.center.node ≠ k.self := by
    intro hself
    have hempty := ho.seated.own_state q (hself ▸ hq)
    have hlive := (ho.wired.link_iff _ q hq).1 (by simp [hlink])
    simp [hempty, LinkState.Live] at hlive
  have haccepts : k.Accepts h :=
    ⟨hawaits, judge_of_contains (Roster.contains_of_get? hq) hself hroom⟩
  exact haccepts.orphaned ho hq hlink t''

theorem Ordered.enroll_takes (ho : n.Ordered) {a : Announcement} (hid : a.id ≠ n.self) {p : Peer}
    (hp : n.roster.get? a.id = some p) (hl : ¬ p.Linked) (hw : ¬ n.Waits a.id)
    (haddress : a.address.endpoint?.isSome) (hroom : n.links.hasRoom = true) :
    ∃ k, n.Takes (.learn a) k ∧ k.Takes (.dial a.id n.links.nextId.1) (n.enroll a) := by
  have hlearn : n.Takes (.learn a) { n with roster := n.roster.update a.id a.address a.handle } :=
    .learn hid
  have hshaking : p.state ≠ .handshaking := fun hs => hw ⟨p, hp, hs⟩
  have hself : a.id ≠ (n.roster.update a.id a.address a.handle).self := by simpa [self] using hid
  have hempty := ho.wired.state_eq_empty hp hl hshaking
  have hentry := Roster.get?_update n.roster a.id a.address a.handle a.id
  rw [if_pos rfl, hp, Option.map_some] at hentry
  obtain ⟨m, hdial, htakes⟩ :=
    (hlearn.ordered ho).dial_of_mayDial hself ⟨_, hentry, hempty, haddress, hroom⟩
  have henroll : n.enroll a = m := by simp [enroll, hid, hp, hl, hshaking, hdial]
  rw [henroll]
  exact ⟨_, hlearn, htakes⟩

theorem Ordered.linked_of_enroll (ho : n.Ordered) {a : Announcement} (hin : n.roster.Contains a.id)
    (hid : a.id ≠ n.self) (hw : ¬ n.Waits a.id) (haddress : a.address.endpoint?.isSome)
    (hroom : n.links.hasRoom = true) : ∃ p ∈ (n.enroll a).roster.get? a.id, p.Linked := by
  obtain ⟨p, hp⟩ := Roster.exists_get? hin
  by_cases hl : p.Linked
  · have henroll : n.enroll a = n := by simp [enroll, hid, hp, hl]
    rw [henroll]
    exact ⟨p, hp, hl⟩
  · obtain ⟨k, -, hdial⟩ := ho.enroll_takes hid hp hl hw haddress hroom
    exact hdial.linked_of_dial

theorem stepAt_control {f : Frame} {source : Handle} {c : Command}
    (hf : n.routing.classify f = .control source c) (t : Nat) (conn : ConnId) :
    n.stepAt t (.link (.frames conn [f])) = obey receiveOwn { n with now := t } c := by
  have hf' : (routing { n with now := t }).classify f = .control source c := hf
  have hreceive : n.stepAt t (.link (.frames conn [f])) = Node.receive { n with now := t } f := rfl
  simp only [hreceive, receive, receiveWith, hf']

theorem stepAt_register {f : Frame} {source : Handle} {a : Announcement}
    (hf : n.routing.classify f = .control source (.register a)) (t : Nat) (c : ConnId) :
    n.stepAt t (.link (.frames c [f])) = enroll { n with now := t } a := stepAt_control hf t c

theorem Ordered.linked_of_register (ho : n.Ordered) {f : Frame} {source : Handle} {a : Announcement}
    (hf : n.routing.classify f = .control source (.register a)) (hin : n.roster.Contains a.id)
    (hid : a.id ≠ n.self) (hw : ¬ n.Waits a.id) (haddress : a.address.endpoint?.isSome)
    (hroom : n.links.hasRoom = true) (t : Nat) (c : ConnId) :
    ∃ p ∈ (n.stepAt t (.link (.frames c [f]))).roster.get? a.id, p.Linked := by
  rw [stepAt_register hf]
  exact ((Takes.tend t n.catalog).ordered ho).linked_of_enroll hin hid hw haddress hroom

theorem exists_registration :
    ∃ (a : Announcement) (f : Frame), a.id = ⟨3⟩ ∧ a.address.endpoint?.isSome ∧
    ∀ r : Routing, r.classify f = .control ⟨⟨3⟩, meshModule⟩ (.register a) := by
  obtain ⟨a, ha⟩ : ∃ a : Announcement,
      a = ⟨⟨3⟩, { nodeHost := "lab", nodePort := 7103 }, ⟨⟨3⟩, meshModule⟩⟩ := ⟨_, rfl⟩
  have hparse : Command.parse (Command.register a).payload = .ok (.register a) := by
    rw [ha]
    decide +kernel
  refine ⟨a, (Command.register a).frame ⟨3⟩ ⟨⟨2⟩, meshModule⟩, by rw [ha], by rw [ha]; rfl,
    fun r => ?_⟩
  simp [Routing.classify, Command.frame, hparse]

section Start

variable {profile : Profile} {catalog : Catalog} {port : UInt16} {now : Nat}
  {result : Except Fault Handshake} {n₀ : Node} {events : List (Nat × Event)}

theorem not_orphaned_of_start (started : start profile catalog port now result = .ok n₀) :
    ¬ n₀.Orphaned conn id := by
  have ho : (idle profile catalog port now).Ordered := ordered_idle (start_cases started).1 ..
  have hidle : ¬ (idle profile catalog port now).Orphaned conn id := by
    intro h
    have howner := h.owner
    rw [Links.owner?, get?_links_idle] at howner
    cases howner
  intro h
  obtain rfl | ⟨hs, m, hjoin, hinner⟩ := exists_join_of_start started
  · exact hidle h
  · have hm := (hinner.mono fun _ ha => ha.not_joins).orphaned (hjoin.ordered ho) h
    obtain hn | ⟨c, h', p, -, -, hp, hl⟩ := hjoin.orphaned ho.wired hm
    · exact hidle hn
    · rw [(get?_idle hp).2.1] at hl
      cases hl

theorem Overtaken.gone (started : start profile catalog port now result = .ok n₀)
    (h : Overtaken n₀ conn id events) : (n₀.run events).Gone conn := by
  induction h with
  | @named before hs p accepted node entry link t =>
    have ho := ordered_of_run started before
    obtain ⟨m, hjoin, hinner⟩ := accepted.exists_join ho t
    subst node
    rw [run_concat]
    exact hinner.gone (hjoin.gone_of_join
      (Takes.answered.ordered ((Takes.tend t _).ordered ho)) entry link)
  | later _ x ih =>
    rw [run_append]
    exact (run_via _ [x]).gone ih

theorem Orphaned.overtaken (started : start profile catalog port now result = .ok n₀)
    (h : (n₀.run events).Orphaned conn id) : Overtaken n₀ conn id events := by
  induction events using List.reverseRecOn with
  | nil => exact absurd h (not_orphaned_of_start started)
  | append_singleton before x ih =>
    obtain ⟨t, e⟩ := x
    have ho := ordered_of_run started before
    rw [run_concat] at h
    by_cases haccepts : ∃ hs, e = .handshake (.ok hs) ∧ (n₀.run before).Accepts hs
    · obtain ⟨hs, rfl, haccepts⟩ := haccepts
      obtain ⟨m, hjoin, hinner⟩ := haccepts.exists_join ho t
      have ho' := Takes.answered.ordered ((Takes.tend t (n₀.run before).catalog).ordered ho)
      have hm := (hinner.mono fun _ ha => ha.not_joins).orphaned (hjoin.ordered ho') h
      obtain hn | ⟨c, hs', p, heq, hid, hp, hl⟩ := hjoin.orphaned ho'.wired hm
      · exact .later (ih ⟨hn.owner, hn.link_ne⟩) _
      · cases heq
        exact .named haccepts hid hp hl t
    · have hvia := ho.stepAt_via t fun hs he ha => haccepts ⟨hs, he, ha⟩
      exact .later (ih (hvia.orphaned ho h)) _

/-- After every run a link that was made for a node is without the entry of the node exactly if a
handshake has overtaken it. Of the others a node has one at most, and the end of a link without an
entry changes nothing else. -/
theorem orphaned_iff_of_run (started : start profile catalog port now result = .ok n₀)
    (events : List (Nat × Event)) :
    (∀ conn id, (n₀.run events).Orphaned conn id ↔
      (n₀.run events).links.owner? conn = some id ∧ Overtaken n₀ conn id events) ∧
    (∀ conn conn' id, (n₀.run events).links.owner? conn = some id → ¬ Overtaken n₀ conn id events →
      (n₀.run events).links.owner? conn' = some id → ¬ Overtaken n₀ conn' id events →
        conn = conn') ∧
    ∀ conn id, (n₀.run events).Orphaned conn id → ∀ t reason, ∃ links,
      (n₀.run events).stepAt t (.link (.closed conn reason)) =
        { n₀.run events with now := t, links } ∧
        links.get? conn = none := by
  have hiff (conn : ConnId) (id : NodeId) : (n₀.run events).Orphaned conn id ↔
      (n₀.run events).links.owner? conn = some id ∧ Overtaken n₀ conn id events :=
    ⟨fun h => ⟨h.owner, h.overtaken started⟩,
      fun h => ⟨h.1, fun p hp => (h.2.gone started).link_ne id p hp⟩⟩
  have hentry {conn : ConnId} {id : NodeId} (howner : (n₀.run events).links.owner? conn = some id)
      (hnot : ¬ Overtaken n₀ conn id events) :
          ∃ p, (n₀.run events).roster.get? id = some p ∧ p.link = some conn := by
    by_contra hnone
    exact hnot ((hiff conn id).1 ⟨howner, fun p hp hl => hnone ⟨p, hp, hl⟩⟩).2
  refine ⟨hiff, fun conn conn' id howner hnot howner' hnot' => ?_, fun conn id h t reason => ?_⟩
  · obtain ⟨p, hp, hl⟩ := hentry howner hnot
    obtain ⟨q, hq, hl'⟩ := hentry howner' hnot'
    rw [hp, Option.some.injEq] at hq
    rw [← hq, hl, Option.some.injEq] at hl'
    exact hl'
  · have htend : (n₀.run events).Takes .tend { n₀.run events with now := t } := .tend t _
    have h' : Orphaned { n₀.run events with now := t } conn id := ⟨h.owner, h.link_ne⟩
    exact h'.lose (htend.ordered (ordered_of_run started events))

theorem exists_run_linked (started : start profile catalog port now result = .ok n₀)
    (hcenter : (Node.registry? (idle profile catalog port now)).isSome)
    (hin : n₀.roster.Contains ⟨3⟩)
    (hself : n₀.self ≠ ⟨3⟩) (hmax : 0 < profile.maxConnections) :
    ∃ events p conn, (n₀.run events).roster.get? ⟨3⟩ = some p ∧ p.liveLink? = some conn ∧
      p.address.endpoint?.isSome ∧ (n₀.run events).moduleEvents = n₀.moduleEvents := by
  obtain ⟨a, f, hid, haddress, hf⟩ := exists_registration
  have ho : n₀.Ordered := ordered_of_run started []
  have hwait := (not_waits_of_start started).2 ⟨3⟩
  obtain ⟨q, hq⟩ := Roster.exists_get? hin
  obtain ⟨hblank, hroom⟩ : q = {} ∧ n₀.links.hasRoom = true := by
    obtain ⟨-, ⟨-, rfl⟩ | ⟨hm, -⟩⟩ := start_cases started
    · refine ⟨(get?_idle hq).2.2.2 fun h => hself h.symm, ?_⟩
      simpa [idle, Links.hasRoom, Links.ofCapacity, Slots.ofCapacity, Slots.size, Slots.capacity]
        using hmax
    · simp [hm] at hcenter
  rw [← hid] at hself hwait hq
  obtain ⟨k, hlearn, hdial⟩ :=
    ((Takes.tend 1 n₀.catalog).ordered ho).enroll_takes (fun h => hself h.symm) hq
      (by rw [hblank]; decide) hwait haddress hroom
  obtain ⟨p, hp, hentry⟩ := hdial.entry_of_dial
  have hlearned : p.address = a.address := by
    obtain ⟨_, -, halters⟩ := hlearn.alters hp
    cases halters with
    | same silent => exact absurd rfl silent
    | learn => rfl
  have hsilent : k.moduleEvents = n₀.moduleEvents := by
    cases hlearn
    rfl
  have hevents := hdial.moduleEvents_of_dial.trans hsilent
  have hrun : n₀.run [(1, .link (.frames ⟨1⟩ [f]))] = enroll { n₀ with now := 1 } a :=
    stepAt_register (hf n₀.routing) 1 ⟨1⟩
  rw [← hrun] at hentry hevents
  exact ⟨_, _, _, hid ▸ hentry, rfl, by rw [hlearned]; exact haddress, hevents⟩

/-- Node 2 is linked to node 3 when its center, which is node 1, is lost, and the next handshake
names node 3: the link to node 3 was overtaken, and no entry has it. -/
theorem orphaned_iff_of_run_rename :
    ∃ n₀ events conn, start { nodeId := ⟨2⟩, center := .remote "hub:7100" } {} 7101 0
        (.ok ⟨.ofCenter ⟨1⟩, []⟩) = .ok n₀ ∧
      (n₀.run events).Orphaned conn ⟨3⟩ ∧ Overtaken n₀ conn ⟨3⟩ events := by
  obtain ⟨a, f, hid, haddress, hf⟩ := exists_registration
  obtain ⟨n₀, started, member, -⟩ := exists_start_of_second
  obtain ⟨hopened, -⟩ := opened_of_start started member
  have hs := hopened.session
  have hprofile := profile_of_run started []
  have hendpoint : n₀.profile.centerEndpoint? = some "hub:7100" :=
    congrArg Profile.centerEndpoint? hprofile
  have hself : n₀.self = ⟨2⟩ := (start_via started).self_eq
  have hin : n₀.roster.Contains a.id := by
    rw [hid]
    refine (contains_of_run started [] ⟨3⟩).2 ?_
    decide +kernel
  obtain ⟨p, hp, hlinked⟩ :=
    hs.ordered.linked_of_register (hf n₀.routing) hin (by rw [hid, hself]; decide)
      ((not_waits_of_start started).2 a.id) haddress (hasRoom_of_start started member (by decide)) 1
      ⟨1⟩
  obtain ⟨conn, hl⟩ := hlinked.exists_link
  have hs' := ((enroll_via { n₀ with now := 1 } a).mono fun _ hb => hb.1.inner).session (hs.tend 1)
  rw [← stepAt_register (hf n₀.routing) 1 ⟨1⟩] at hs'
  have horphaned := hs'.orphaned_of_loss (h := ⟨.ofCenter ⟨3⟩, []⟩)
    ((congrArg Profile.centerEndpoint? (stepAt_via ..).profile_eq).trans hendpoint) hp
    (Peer.liveLink?_eq_some_iff.1 hl).1 (by rw [hid]; decide) (by rw [hid]; rfl) 2 3 4 .endOfStream
  rw [hid, ← run_nil n₀, ← run_concat, ← run_concat, ← run_concat, ← run_concat] at horphaned
  exact ⟨n₀, _, conn, started, horphaned,
    (((orphaned_iff_of_run started _).1 conn ⟨3⟩).1 horphaned).2⟩

end Start

end Meshwork.Node
