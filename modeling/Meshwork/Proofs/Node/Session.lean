import Meshwork.Proofs.Node.Lifecycle

/-!
# Sessions with the center

A session is the time during which a link is that of the center. Main statement: `Takes.session`, a
move leaves the session as it is or ends it for good: a link that the entry of the center has lost
is never on an entry again.
-/

namespace Meshwork

def Move.frame? (conn : ConnId) : Move → Option Frame
  | .queue _ c frame => if c = conn then some frame else none
  | _ => none

theorem Move.frame?_eq_none {a : Move} {conn : ConnId} (h : ∀ id frame, a ≠ .queue id conn frame) :
    a.frame? conn = none := by
  cases a with
  | queue id c frame =>
    refine if_neg ?_
    rintro rfl
    exact h id frame rfl
  | _ => rfl

def Move.request? (conn : ConnId) : Move → Option Frame
  | .queue _ c frame => if c = conn ∧ frame.IsRequest then some frame else none
  | _ => none

theorem Move.filter_frame? (a : Move) (conn : ConnId) :
    (a.frame? conn).toList.filter (·.IsRequest) = (a.request? conn).toList := by
  cases a with
  | queue id c frame =>
    by_cases hc : c = conn
    · by_cases hf : frame.IsRequest <;> simp [frame?, request?, hc, hf]
    · simp [frame?, request?, hc]
  | _ => rfl

theorem Move.Quiet.request?_eq_none {a : Move} (h : a.Quiet) (conn : ConnId) :
    a.request? conn = none := by
  cases a with
  | queue id c frame => exact if_neg fun hr => h hr.2
  | _ => rfl

def Effect.frameOn? (conn : ConnId) : Effect → Option Frame
  | .queued c frame => if c = conn then some frame else none
  | _ => none

namespace Node

variable {n m : Node} {a : Move} {conn : ConnId} {directory : Handle}

/-- The requests queued on a link so far, oldest first. -/
def requestsOn (n : Node) (conn : ConnId) : List Frame := (n.queuedOn conn).filter (·.IsRequest)

theorem queuedOn_eq (n : Node) (conn : ConnId) :
    n.queuedOn conn = n.effects.filterMap (·.frameOn? conn) := by
  refine congrArg (List.filterMap · n.effects) (funext fun e => ?_)
  cases e <;> rfl

/-- A frame was refused by the link, which is to be closed for it. -/
def Refuses (n : Node) (conn : ConnId) : Prop := ∃ reason, (conn, reason) ∈ n.refused

def centerLink? (n : Node) : Option ConnId :=
  n.center?.bind fun c => (n.roster.get? c.node).bind (·.liveLink?)

/-- A link is that of the center with a given directory. -/
structure Session (n : Node) (conn : ConnId) (directory : Handle) : Prop where
  ordered : n.Ordered
  center : n.center? = some ⟨directory.node, directory⟩
  linked : ∃ p, n.roster.get? directory.node = some p ∧ p.liveLink? = some conn

/-- A link was there, and no entry has it. -/
structure Gone (n : Node) (conn : ConnId) : Prop where
  ordered : n.Ordered
  number_lt : conn.number < n.links.nextNumber
  link_ne : ∀ id p, n.roster.get? id = some p → p.link ≠ some conn

/-- The connection of a link was opened without a handshake. -/
def Dialled (n : Node) (conn : ConnId) : Prop := ∃ endpoint, .connect conn endpoint ∈ n.effects

theorem Session.number_lt (h : n.Session conn directory) : conn.number < n.links.nextNumber := by
  obtain ⟨p, hp, hl⟩ := h.linked
  obtain ⟨r, hr, -⟩ := h.ordered.wired.exists_record hp hl
  exact h.ordered.wired.links.fresh conn r hr

theorem Session.centerLink? (h : n.Session conn directory) : n.centerLink? = some conn := by
  obtain ⟨p, hp, hl⟩ := h.linked
  simp [Node.centerLink?, h.center, hp, hl]

theorem Session.not_center (h : n.Session conn directory) : n.registry? = none :=
  registry?_of_center? h.center

theorem Session.liveLink?_eq (h : n.Session conn directory) {center : CenterLink} {p : Peer}
    (hc : n.center? = some center) (hp : n.roster.get? center.node = some p) :
    p.liveLink? = some conn := by
  obtain ⟨q, hq, hl⟩ := h.linked
  rw [h.center, Option.some.injEq] at hc
  rw [← hc, hq, Option.some.injEq] at hp
  rw [← hp, hl]

theorem Session.not_awaits (h : n.Session conn directory) : ¬ n.Awaits := by
  rintro ⟨center, hc, peer, hp, hs⟩
  have hl := h.liveLink?_eq hc hp
  simp [Peer.liveLink?, hs] at hl

theorem Session.not_seek (h : n.Session conn directory) : ¬ n.Takes .seek m := by
  intro ht
  cases ht with
  | seek hc he hp hs =>
    have hl := h.liveLink?_eq hc hp
    simp [Peer.liveLink?, hs] at hl

theorem session_of_centerLink? (ho : n.Ordered) (h : n.centerLink? = some conn) :
    ∃ directory, n.Session conn directory := by
  obtain ⟨c, hc, hl⟩ := Option.bind_eq_some_iff.1 h
  obtain ⟨p, hp, hl⟩ := Option.bind_eq_some_iff.1 hl
  have hnode := (ho.seated.center c hc).2.2
  have hcenter : c = ⟨c.directory.node, c.directory⟩ := by rw [hnode]
  exact ⟨c.directory, ho, by rw [hc, ← hcenter], p, by rw [hnode, hp], hl⟩

theorem Gone.centerLink? (h : n.Gone conn) : n.centerLink? ≠ some conn := by
  intro hl
  obtain ⟨c, -, hl⟩ := Option.bind_eq_some_iff.1 hl
  obtain ⟨p, hp, hl⟩ := Option.bind_eq_some_iff.1 hl
  exact h.link_ne _ p hp (Peer.liveLink?_eq_some_iff.1 hl).1

theorem Takes.queuedOn (h : n.Takes a m) (hconn : a = .arrive conn → n.registry? = none) :
    m.queuedOn conn = n.queuedOn conn ++ (a.frame? conn).toList := by
  have hadd {es : List Effect} (he : m.effects = n.effects ++ es)
      (hes : es.filterMap (·.frameOn? conn) = (a.frame? conn).toList) :
      m.queuedOn conn = n.queuedOn conn ++ (a.frame? conn).toList := by
    rw [queuedOn_eq, queuedOn_eq, he, List.filterMap_append, hes]
  cases h with
  | @queue id peer c =>
    refine hadd rfl ?_
    by_cases hc : c = conn <;> simp [Effect.frameOn?, Move.frame?, hc]
  | deliver | bind | dial | join | seek => exact hadd rfl (by simp [Effect.frameOn?, Move.frame?])
  | bracket => exact hadd rfl (by simp [Effect.frameOn?, Move.frame?])
  | lose => exact hadd rfl (by simp [Effect.frameOn?, Move.frame?, List.filterMap_map])
  | arrive _ _ _ hg =>
    obtain rfl | ⟨hr, rfl⟩ := hg
    · exact hadd rfl (by simp [Effect.frameOn?, Move.frame?])
    · refine hadd rfl ?_
      by_cases hc : n.links.nextId.1 = conn
      · simp [hconn (by rw [hc])] at hr
      · simp [Effect.frameOn?, Move.frame?, hc]
  | _ => exact (List.append_nil _).symm

theorem Takes.requestsOn (hm : n.registry? = none) (h : n.Takes a m) (conn : ConnId) :
    m.requestsOn conn = n.requestsOn conn ++ (a.request? conn).toList := by
  rw [Node.requestsOn, h.queuedOn fun _ => hm, List.filter_append, a.filter_frame?]
  rfl

theorem Via.requestsOn_eq (h : n.Via Move.Quiet m) (hm : n.registry? = none) (conn : ConnId) :
    m.requestsOn conn = n.requestsOn conn := by
  have hkeep : m.registry? = none ∧ m.requestsOn conn = n.requestsOn conn := by
    refine h.keeps (I := fun k => k.registry? = none ∧ k.requestsOn conn = n.requestsOn conn)
      (fun k a l hk ha ht => ⟨?_, ?_⟩) ⟨hm, rfl⟩
    · have hsame := ht.isSome_registry?
      rw [hk.1] at hsame
      simpa using hsame
    · rw [ht.requestsOn hk.1, ha.request?_eq_none, hk.2]
      simp
  exact hkeep.2

theorem Via.interests_eq {P : Move → Prop} (h : n.Via P m) (hP : ∀ a, P a → ¬ a.Remembers) :
    m.interests = n.interests := by
  refine h.keeps (I := fun k => k.interests = n.interests) (fun k a l hk ha ht => ?_) rfl
  cases ht with
  | want | offer => exact absurd trivial (hP _ ha)
  | _ => exact hk

theorem Via.refuses (h : n.Via Move.Retains m) (hn : n.Refuses conn) : m.Refuses conn := by
  refine h.keeps (I := fun k => k.Refuses conn) (fun k a l hk ha ht => ?_) hn
  cases ht with
  | refuse =>
    obtain ⟨reason, hmem⟩ := hk
    exact ⟨reason, List.mem_append_left _ hmem⟩
  | pardon => exact absurd ha id
  | _ => exact hk

theorem Via.announcement_eq {P : Move → Prop} (h : n.Via P m) (ho : n.Ordered) :
    m.announcement = n.announcement := by
  have hkeep := h.keeps (I := fun k => k.Ordered ∧ k.announcement = n.announcement)
    (fun _ _ _ hk _ ht => ⟨ht.ordered hk.1, (ht.announcement_eq hk.1.seated).trans hk.2⟩) ⟨ho, rfl⟩
  exact hkeep.2

theorem Takes.effects_eq_append (h : n.Takes a m) : ∃ es, m.effects = n.effects ++ es := by
  cases h with
  | deliver | bracket | bind | dial | queue | arrive | join | seek | lose => exact ⟨_, rfl⟩
  | _ => exact ⟨[], (List.append_nil _).symm⟩

theorem Via.effects_eq_append {P : Move → Prop} (h : n.Via P m) :
    ∃ es, m.effects = n.effects ++ es := by
  refine h.keeps (I := fun k => ∃ es, k.effects = n.effects ++ es) (fun k a l hk _ ht => ?_)
    ⟨[], (List.append_nil _).symm⟩
  obtain ⟨es, he⟩ := hk
  obtain ⟨es', he'⟩ := ht.effects_eq_append
  exact ⟨es ++ es', by rw [he', he, List.append_assoc]⟩

theorem Via.queuedOn_eq_append {P : Move → Prop} (h : n.Via P m) (conn : ConnId) :
    ∃ frames, m.queuedOn conn = n.queuedOn conn ++ frames := by
  obtain ⟨es, he⟩ := h.effects_eq_append
  exact ⟨_, by rw [queuedOn_eq, queuedOn_eq, he, List.filterMap_append]⟩

theorem Via.dialled {P : Move → Prop} (h : n.Via P m) (hd : n.Dialled conn) : m.Dialled conn := by
  obtain ⟨es, he⟩ := h.effects_eq_append
  obtain ⟨endpoint, hmem⟩ := hd
  exact ⟨endpoint, by rw [he]; exact List.mem_append_left _ hmem⟩

theorem Via.undialled {P : Move → Prop} (h : n.Via P m)
    (hn : conn.number < n.links.nextNumber ∧ ¬ n.Dialled conn) :
    conn.number < m.links.nextNumber ∧ ¬ m.Dialled conn := by
  refine h.keeps (I := fun k => conn.number < k.links.nextNumber ∧ ¬ k.Dialled conn)
    (fun k a l hk _ ht => ⟨Nat.lt_of_lt_of_le hk.1 ht.nextNumber_le, ?_⟩) hn
  rintro ⟨endpoint, hmem⟩
  have hold : .connect conn endpoint ∉ k.effects := fun he => hk.2 ⟨endpoint, he⟩
  cases ht with
  | dial =>
    rw [List.mem_append, List.mem_singleton] at hmem
    rcases hmem with hmem | hmem
    · exact hold hmem
    · -- the link that is dialled has the next number
      cases hmem
      exact Nat.lt_irrefl _ hk.1
  | deliver | bracket | bind | queue | join | seek | lose => exact hold (by simpa using hmem)
  | arrive _ _ _ hg =>
    obtain rfl | ⟨-, rfl⟩ := hg
    · exact hold (by simpa using hmem)
    · exact hold (by simpa using hmem)
  | _ => exact hold hmem

theorem Via.self_eq {P : Move → Prop} (h : n.Via P m) : m.self = n.self := by
  obtain ⟨_, hp, -⟩ := h
  exact hp.self_eq

theorem Via.profile_eq {P : Move → Prop} (h : n.Via P m) : m.profile = n.profile := by
  obtain ⟨_, hp, -⟩ := h
  exact hp.profile_eq

theorem Via.wire_eq {P : Move → Prop} (h : n.Via P m) : m.wire = n.wire := by
  rw [wire, wire, h.profile_eq]

theorem Via.isSome_registry? {P : Move → Prop} (h : n.Via P m) :
    m.registry?.isSome = n.registry?.isSome :=
  h.keeps (I := fun k => k.registry?.isSome = n.registry?.isSome)
    (fun _ _ _ hk _ ht => ht.isSome_registry?.trans hk) rfl

theorem Takes.link_cases (h : n.Takes a m) {id : NodeId} {p : Peer}
    (hp : m.roster.get? id = some p) :
    ∃ q, n.roster.get? id = some q ∧
      (p.link = q.link ∨ p.link = none ∨ a.LinksTo id ∧ p.link = some n.links.nextId.1) := by
  obtain ⟨q, hq, halters⟩ := h.alters hp
  refine ⟨q, hq, ?_⟩
  cases halters with
  | same | learn | bind | queue | seek | establish => exact .inl rfl
  | release | lose => exact .inr (.inl rfl)
  | dial => exact .inr (.inr ⟨rfl, rfl⟩)
  | join node => exact .inr (.inr ⟨node, rfl⟩)

/-- A link that no entry has comes to no entry. -/
theorem Takes.gone (h : n.Gone conn) (ht : n.Takes a m) : m.Gone conn := by
  refine ⟨ht.ordered h.ordered, Nat.lt_of_lt_of_le h.number_lt ht.nextNumber_le,
    fun id p hp hl => ?_⟩
  obtain ⟨q, hq, hsame | hnone | ⟨-, hnext⟩⟩ := ht.link_cases hp
  · exact h.link_ne id q hq (hsame ▸ hl)
  · rw [hnone] at hl
    cases hl
  · rw [hnext, Option.some.injEq] at hl
    have hlt := h.number_lt
    rw [← hl, Links.number_nextId] at hlt
    exact Nat.lt_irrefl _ hlt

theorem Gone.frame?_eq_none (hg : n.Gone conn) (ht : n.Takes a m) : a.frame? conn = none := by
  refine Move.frame?_eq_none ?_
  rintro id frame rfl
  cases ht with
  | queue hp hl => exact hg.link_ne _ _ hp (Peer.liveLink?_eq_some_iff.1 hl).1

theorem Gone.ne_arrive (hg : n.Gone conn) (ht : n.Takes a m) : a ≠ .arrive conn := by
  rintro rfl
  cases ht with
  | arrive => exact Nat.lt_irrefl _ hg.number_lt

theorem Gone.queuedOn_eq (hg : n.Gone conn) (ht : n.Takes a m) :
    m.queuedOn conn = n.queuedOn conn := by
  rw [ht.queuedOn fun ha => absurd ha (hg.ne_arrive ht), hg.frame?_eq_none ht]
  exact List.append_nil _

theorem Wired.link_inj (h : n.Wired) {id id' : NodeId} {p q : Peer} (hp : n.roster.get? id = some p)
    (hq : n.roster.get? id' = some q) (hl : p.link = some conn) (hl' : q.link = some conn) :
    id = id' := by
  obtain ⟨r, hr, ho⟩ := h.owner id p conn hp hl
  obtain ⟨r', hr', ho'⟩ := h.owner id' q conn hq hl'
  rw [hr, Option.some.injEq] at hr'
  rw [← hr', ho, Option.some.injEq] at ho'
  exact ho'

theorem Wired.exists_lose (hw : n.Wired) {id : NodeId} {p : Peer} (hp : n.roster.get? id = some p)
    (hl : p.link = some conn) : ∃ m, n.Takes (.lose id conn) m ∧
      n.lose conn =
        if m.registry?.isSome then m.forget id
        else if m.center?.map (·.node) = some id then m
        else m.askIfPossible receive (.unregister id) := by
  obtain ⟨r, hr, howner⟩ := hw.owner id p conn hp hl
  obtain ⟨he, -⟩ | hdrop | ⟨id', m, hlose, heq⟩ := lose_cases n conn
  · rw [hw.links.kept.erase_eq_none_iff, hr] at he
    cases he
  · generalize n.lose conn = m at hdrop
    cases hdrop with
    | drop he ho =>
      have hrecord := (hw.links.kept.get?_erase he).1
      rw [hr, Option.some.injEq] at hrecord
      exact absurd hl (ho id (hrecord ▸ howner) p hp)
  · have hid : id = id' := by
      cases hlose with
      | lose _ _ hp' hl' => exact hw.link_inj hp hp' hl hl'
    exact ⟨m, hid ▸ hlose, hid ▸ heq⟩

namespace Session

theorem of_modify (h : n.Session conn directory) (ho : m.Ordered) (hc : m.center? = n.center?)
    {id : NodeId} {f : Peer → Peer}
    (hr : ∀ id', m.roster.get? id' = if id' = id then (n.roster.get? id).map f
      else n.roster.get? id')
    (hf : id = directory.node → ∀ p, n.roster.get? id = some p →
      (f p).liveLink? = p.liveLink?) : m.Session conn directory := by
  obtain ⟨p, hp, hl⟩ := h.linked
  refine ⟨ho, hc.trans h.center, ?_⟩
  rw [hr]
  split
  · rename_i hid
    rw [hid] at hp
    exact ⟨f p, by rw [hp, Option.map_some], (hf hid.symm p hp).trans hl⟩
  · exact ⟨p, hp, hl⟩

theorem gone_of_detach (h : n.Session conn directory) (ho : m.Ordered)
    (hn : m.links.nextNumber = n.links.nextNumber)
    (hr : m.roster = n.roster.detach directory.node) : m.Gone conn := by
  obtain ⟨p, hp, hl⟩ := h.linked
  have hlink := (Peer.liveLink?_eq_some_iff.1 hl).1
  obtain ⟨r, hrec, -⟩ := h.ordered.wired.exists_record hp hl
  refine ⟨ho, hn ▸ h.ordered.wired.links.fresh conn r hrec, fun id q hq hl' => ?_⟩
  rw [hr, Roster.get?_detach] at hq
  split at hq
  · obtain ⟨q', -, rfl⟩ := Option.map_eq_some_iff.1 hq
    cases hl'
  · rename_i hne
    exact hne (h.ordered.wired.link_inj hq hp hl' hlink)

end Session

/-- A session goes on, or its link is lost and it is over. -/
theorem Takes.session (h : n.Session conn directory) (ht : n.Takes a m) :
    m.Session conn directory ∨ a = .lose directory.node conn ∧ m.Gone conn := by
  have ho := ht.ordered h.ordered
  obtain ⟨p, hp, hl⟩ := h.linked
  obtain ⟨hlink, hlive⟩ := Peer.liveLink?_eq_some_iff.1 hl
  have hm := h.not_center
  have hseek := h.not_seek (m := m)
  cases ht with
  | tend | pardon | answered | deliver | bracket | want | offer | refuse | mint | arrive | drop
  | write =>
    exact .inl ⟨ho, h.center, h.linked⟩
  | enter hr => simp [hr, registry?] at hm
  | forget hr => simp [hr, registry?] at hm
  | learn =>
    exact .inl (h.of_modify ho rfl (fun id' => Roster.get?_update _ _ _ _ id') fun _ _ _ => rfl)
  | bind hb => exact .inl (h.of_modify ho rfl (fun id' => Roster.get?_bind hb id') fun _ _ _ => rfl)
  | queue =>
    exact .inl (h.of_modify ho rfl (fun id' => Roster.get?_noteSent _ _ _ id') fun _ _ _ => rfl)
  | @establish id peer hpeer hs =>
    refine .inl (h.of_modify ho rfl (fun id' => Roster.get?_modify _ _ _ id') fun _ q hq => ?_)
    rw [hpeer, Option.some.injEq] at hq
    simp [Peer.liveLink?, ← hq, hs]
  | @dial id peer endpoint i links hid hpeer hnot =>
    refine .inl (h.of_modify ho rfl (fun id' => Roster.get?_noteSent_attach _ _ _ _ _ id')
      fun hcenter _ _ => absurd ?_ hnot)
    -- the entry of the center is linked, and only one that is not is dialled
    rw [hcenter, hp, Option.some.injEq] at hpeer
    rw [Peer.Linked, ← hpeer, hl]
    rfl
  | join hm hf =>
    rw [h.center] at hf
    exact (hf.resolve_left (by simp) |> h.not_awaits).elim
  | release hc hpeer hs => exact (h.not_awaits ⟨_, hc, _, hpeer, hs⟩).elim
  | seek hc he hpeer hs => exact absurd (.seek hc he hpeer hs) hseek
  | @lose id c record links peer he howner hpeer hlost =>
    by_cases hid : id = directory.node
    · rw [hid, hp, Option.some.injEq] at hpeer
      rw [← hpeer, hlink, Option.some.injEq] at hlost
      exact .inr ⟨by rw [hid, hlost], h.gone_of_detach ho (Links.nextNumber_erase he) (by rw [hid])⟩
    · exact .inl
        (h.of_modify ho rfl (fun id' => Roster.get?_detach _ _ id') fun heq => absurd heq hid)

theorem Session.tend (h : n.Session conn directory) (t : Nat) :
    Session { n with now := t } conn directory := by
  obtain hs | ⟨hlose, -⟩ := (Takes.tend t n.catalog).session h
  · exact hs
  · cases hlose

theorem Via.session (h : n.Via Move.Inner m) (hs : n.Session conn directory) :
    m.Session conn directory := by
  refine h.keeps (I := fun k => k.Session conn directory) (fun k a l hk ha ht => ?_) hs
  obtain hsession | ⟨rfl, -⟩ := ht.session hk
  · exact hsession
  · exact ha.elim

end Node

end Meshwork
