import Meshwork.Proofs.Node.Admission
import Meshwork.Proofs.Node.Timeline

/-!
# Signs of life

At a tick a node sends a sign of life to each established peer that it has sent nothing to for a
while. Main statement: `cadence_of_run`, each due peer gets one sign of life and nobody else does,
so on a link they are as far apart as the interval says, and from every frame before them.
-/

namespace Meshwork

def Move.Beats (ids : List NodeId) : Move → Prop
  | .queue id _ _ | .refuse id _ => id ∈ ids
  | _ => False

theorem Roster.mem_due_iff {r : Roster} (hsize : r.size ≤ 256) {now interval : Nat} {id : NodeId}
    {h : Handle} : (id, h) ∈ r.due now interval ↔ id ≠ r.self ∧
      ∃ p, r.get? id = some p ∧ p.handle = some h ∧ p.Established ∧ p.IdleFor now interval := by
  simp only [due, List.mem_filterMap, Prod.exists, mem_others_iff hsize]
  constructor
  · rintro ⟨id', p, ⟨hid, hp⟩, hentry⟩
    split at hentry
    · rename_i h' hh
      split at hentry
      · rename_i hdue
        cases hentry
        exact ⟨hid, p, hp, hh, hdue⟩
      · cases hentry
    · cases hentry
  · rintro ⟨hid, p, hp, hh, hdue⟩
    refine ⟨id, p, ⟨hid, hp⟩, ?_⟩
    simp only [hh]
    rw [if_pos hdue]

theorem Roster.nodup_due {r : Roster} (hsize : r.size ≤ 256) (now interval : Nat) :
    ((r.due now interval).map (·.1)).Nodup := by
  refine List.pairwise_map.2 (List.pairwise_filterMap.2 ((pairwise_others hsize).imp ?_))
  rintro ⟨id, p⟩ ⟨id', q⟩ hne x hx y hy
  have hx' : x.1 = id := by grind
  have hy' : y.1 = id' := by grind
  rw [hx', hy']
  exact hne

namespace Node

variable {n m k : Node} {a : Move} {e : Event} {conn : ConnId} {id : NodeId} {p q : Peer}
  {h : Handle}
  {ids : List NodeId}

/-- Each known handle is that of a module of the node whose entry it is in. -/
def Labelled (n : Node) : Prop := ∀ id p, n.roster.get? id = some p → ∀ h ∈ p.handle, h.node = id

def Open (n : Node) (conn : ConnId) : Prop :=
  ∃ r ∈ n.links.get? conn, r.link.running = true ∧ r.link.queue.length < r.link.bound

/-- What the node has done on a link. -/
def effectsOn (n : Node) (conn : ConnId) : List Effect := n.effects.filter (·.conn? = some conn)

theorem Takes.labelled (ht : n.Takes a m) (hn : n.Labelled)
    (hlearn : ∀ b, a = .learn b → b.handle.node = b.id)
    (hjoin : ∀ c h, a = .join c h → h.greeting.mesh.node = h.greeting.center.node) :
    m.Labelled := by
  intro id p hp h hh
  obtain ⟨q, hq, halters⟩ := ht.alters hp
  cases halters with
  | @learn b node =>
    obtain rfl := Option.some.inj hh
    rw [hlearn b rfl, node]
  | @join g node =>
    obtain rfl := Option.some.inj hh
    rw [hjoin _ g rfl, node]
  | release | lose => cases hh
  | _ => exact hn id _ hq h hh

theorem length_payload_heartbeat : Command.heartbeat.payload.length = 2 := by decide +kernel

theorem tell_eq (hid : id ≠ n.self) (hin : id.Assigned) (hh : h.node = id) (c : Command) :
    n.tell receive h c =
      match n.sendOver id (c.frame n.self h) with
      | .ok m => m
      | .error _ => n := by
  have hdest : n.routing.destination h = .node id := by
    rw [Routing.destination, hh, if_pos ⟨hin, hid⟩]
  simp only [tell, command, post, hdest]
  rfl

theorem Ordered.beat_cases (ho : n.Ordered) (hid : id ≠ n.self) (hp : n.roster.get? id = some p)
    (hl : p.liveLink? = some conn) (hh : h.node = id) (hpayload : 2 ≤ n.wire.maxPayload) :
    n.Open conn ∧
      n.Takes (.queue id conn (Command.heartbeat.frame n.self h)) (n.tell receive h .heartbeat) ∨
      ¬ n.Open conn ∧ n.Takes (.refuse id conn) (n.tell receive h .heartbeat) := by
  have hfit : (Command.heartbeat.frame n.self h).payload.length ≤ n.wire.maxPayload :=
    length_payload_heartbeat ▸ hpayload
  obtain ⟨m, hm, htakes⟩ := ho.wired.exists_sendOver hp hl hfit
  rw [tell_eq hid (Roster.contains_of_get? hp).1 hh, hm]
  obtain hqueue | hrefuse := htakes
  · refine .inl ⟨?_, hqueue⟩
    cases hqueue with
    | queue _ _ hr _ hs =>
      obtain ⟨hrunning, hroom, -⟩ := Link.send_eq_ok hs
      exact ⟨_, hr, hrunning, hroom⟩
  · refine .inr ⟨?_, hrefuse⟩
    cases hrefuse with
    | refuse _ _ hr hs =>
      rintro ⟨r, hr', hrunning, hroom⟩
      rw [hr, Option.mem_some] at hr'
      subst hr'
      obtain hstopped | hfull := Link.full_of_send hs
      · rw [hrunning] at hstopped
        cases hstopped
      · omega

theorem Takes.effectsOn_of_queue {f : Frame} (ht : n.Takes (.queue id conn f) m) :
    m.effectsOn conn = n.effectsOn conn ++ [.queued conn f] := by
  cases ht with
  | queue => simp [effectsOn, Effect.conn?]

theorem Takes.get?_of_queue {f : Frame} {r : LinkRecord} (ht : n.Takes (.queue id conn f) m)
    (hw : n.Wired) (hr : n.links.get? conn = some r) :
    m.links.get? conn =
      some { r with link := { r.link with queue := r.link.queue ++ [f.bytes] } } := by
  have htreats := ht.treats hw conn
  rw [hr] at htreats
  generalize m.links.get? conn = after at htreats
  cases htreats with
  | same silent => exact absurd rfl (silent id f)
  | queue => rfl
  | erase ends =>
    obtain heq | ⟨_, heq⟩ := ends <;> cases heq

theorem Takes.effectsOn_of_refuse {c : ConnId} (ht : n.Takes (.refuse id c) m) :
    m.effectsOn conn = n.effectsOn conn := by
  cases ht with
  | refuse => rfl

theorem Takes.entry_of_beats (ht : n.Takes a m) (ha : a.Beats ids)
    (hq : n.roster.get? id = some q) :
    ∃ p, m.roster.get? id = some p ∧ p.state = q.state ∧ p.handle = q.handle ∧ p.link = q.link := by
  cases a with
  | queue => exact ht.entry_of_queue hq
  | refuse =>
    cases ht with
    | refuse => exact ⟨q, hq, rfl, rfl, rfl⟩
  | _ => exact ha.elim

theorem Via.entry_of_beats (hv : n.Via (Move.Beats ids) m) (hq : n.roster.get? id = some q) :
    ∃ p, m.roster.get? id = some p ∧ p.state = q.state ∧ p.handle = q.handle ∧ p.link = q.link := by
  refine hv.keeps
    (I := fun k => ∃ p, k.roster.get? id = some p ∧ p.state = q.state ∧ p.handle = q.handle ∧
      p.link = q.link) (fun k a l hk ha ht => ?_) ⟨q, hq, rfl, rfl, rfl⟩
  obtain ⟨p, hp, hstate, hhandle, hlink⟩ := hk
  obtain ⟨p', hp', hstate', hhandle', hlink'⟩ := ht.entry_of_beats ha hp
  exact ⟨p', hp', hstate'.trans hstate, hhandle'.trans hhandle, hlink'.trans hlink⟩

theorem Via.get?_of_beats (hv : n.Via (Move.Beats ids) m) (hid : id ∉ ids) :
    m.roster.get? id = n.roster.get? id := by
  refine hv.keeps (I := fun k => k.roster.get? id = n.roster.get? id) (fun k a l hk ha ht => ?_) rfl
  cases ht with
  | @queue id' =>
    have hne : id ≠ id' := by
      rintro rfl
      exact hid ha
    exact (Roster.get?_noteSent ..).trans ((if_neg hne).trans hk)
  | refuse => exact hk
  | _ => exact ha.elim

def Spares (n : Node) (ids : List NodeId) (conn : ConnId) : Prop :=
  ∀ id ∈ ids, ∀ p, n.roster.get? id = some p → p.link ≠ some conn

theorem Takes.spares (ht : n.Takes a m) (ho : n.Ordered) (ha : a.Beats ids)
    (hs : n.Spares ids conn) :
    m.Spares ids conn ∧ m.effectsOn conn = n.effectsOn conn ∧
      m.links.get? conn = n.links.get? conn := by
  have hspares : m.Spares ids conn := by
    intro id hid p hp
    obtain ⟨q, hq, -⟩ := ht.alters hp
    obtain ⟨p', hp', -, -, hlink⟩ := ht.entry_of_beats ha hq
    rw [hp, Option.some.injEq] at hp'
    subst hp'
    rw [hlink]
    exact hs id hid q hq
  refine ⟨hspares, ?_⟩
  cases ht with
  | @queue id' peer c record frame bytes link hp hl =>
    have hne : c ≠ conn := by
      rintro rfl
      exact hs id' ha peer hp (Peer.liveLink?_eq_some_iff.1 hl).1
    refine ⟨by simp [effectsOn, Effect.conn?, hne], ?_⟩
    exact (ho.wired.links.kept.get?_modify ..).trans (if_neg hne.symm)
  | refuse => exact ⟨rfl, rfl⟩
  | _ => exact ha.elim

theorem Via.spares (hv : n.Via (Move.Beats ids) m) (ho : n.Ordered) (hs : n.Spares ids conn) :
    m.effectsOn conn = n.effectsOn conn ∧ m.links.get? conn = n.links.get? conn := by
  have hkeep := hv.keeps (I := fun k => k.Ordered ∧ k.Spares ids conn ∧
    k.effectsOn conn = n.effectsOn conn ∧ k.links.get? conn = n.links.get? conn)
    (fun k a l ⟨hk, hspares, heffects, hlinks⟩ ha ht => ?_) ⟨ho, hs, rfl, rfl⟩
  · exact hkeep.2.2
  · obtain ⟨hspares', heffects', hlinks'⟩ := ht.spares hk ha hspares
    exact ⟨ht.ordered hk, hspares', heffects'.trans heffects, hlinks'.trans hlinks⟩

structure Beatable (n : Node) (x : NodeId × Handle) : Prop where
  other : x.1 ≠ n.self
  node : x.2.node = x.1
  linked : ∃ p ∈ n.roster.get? x.1, p.Linked

theorem Takes.beatable {x : NodeId × Handle} (ht : n.Takes a m) (ho : n.Ordered) (ha : a.Beats ids)
    (hx : n.Beatable x) : m.Beatable x := by
  refine ⟨ht.self_eq ▸ hx.other, hx.node, ?_⟩
  obtain ⟨q, hq, hl⟩ := hx.linked
  obtain ⟨p, hp, hstate, -, hlink⟩ := ht.entry_of_beats ha hq
  refine ⟨p, hp, ?_⟩
  rwa [(ht.ordered ho).wired.linked_iff hp, hlink, ← ho.wired.linked_iff hq]

/-- Signs of life can be sent to some nodes. -/
structure Prepared (n : Node) (due : List (NodeId × Handle)) : Prop where
  ordered : n.Ordered
  payload : 2 ≤ n.wire.maxPayload
  beatable : ∀ x ∈ due, n.Beatable x

def beat (n : Node) (due : List (NodeId × Handle)) : Node :=
  due.foldl (fun n x => n.tell receive x.2 .heartbeat) n

section Beat

variable {due before after : List (NodeId × Handle)}

theorem Takes.prepared (ht : n.Takes a m) (ha : a.Beats ids) (hn : n.Prepared due) :
    m.Prepared due := by
  exact ⟨ht.ordered hn.ordered, ht.wire_eq ▸ hn.payload,
    fun x hx => ht.beatable hn.ordered ha (hn.beatable x hx)⟩

theorem Via.prepared (hv : n.Via (Move.Beats ids) m) (hn : n.Prepared due) : m.Prepared due :=
  hv.keeps (fun _ _ _ hk ha ht => ht.prepared ha hk) hn

theorem Prepared.mono {fewer : List (NodeId × Handle)} (hn : n.Prepared due) (hsub : fewer ⊆ due) :
    n.Prepared fewer :=
  ⟨hn.ordered, hn.payload, fun x hx => hn.beatable x (hsub hx)⟩

theorem Prepared.beat_via (hn : n.Prepared due) :
    n.Via (Move.Beats (due.map (·.1))) (n.beat due) := by
  refine Via.foldl_of (I := fun k => k.Prepared due) (fun k a l hk ha ht => ht.prepared ha hk) hn
    fun k hk x hx => ?_
  obtain ⟨p, hp, hl⟩ := (hk.beatable x hx).linked
  obtain ⟨conn, hl⟩ := Option.isSome_iff_exists.1 hl
  have hmem : x.1 ∈ due.map (·.1) := List.mem_map_of_mem hx
  obtain ⟨-, ht⟩ | ⟨-, ht⟩ :=
    hk.ordered.beat_cases (hk.beatable x hx).other hp hl (hk.beatable x hx).node hk.payload
  · exact ht.via hmem
  · exact ht.via hmem

theorem Ordered.spares_of_link (ho : n.Ordered) (hp : n.roster.get? id = some p)
    (hl : p.link = some conn) (hid : id ∉ ids) : n.Spares ids conn := by
  intro id' hmem q hq hlink
  exact hid (ho.wired.link_inj hp hq hl hlink ▸ hmem)

theorem Prepared.beat_others (hn : n.Prepared due) (hp : n.roster.get? id = some p)
    (hl : p.link = some conn) (hid : id ∉ due.map (·.1)) :
    (n.beat due).effectsOn conn = n.effectsOn conn ∧ ((n.beat due).Open conn ↔ n.Open conn) ∧
      (n.beat due).roster.get? id = some p ∧ (n.beat due).self = n.self ∧
        (n.beat due).now = n.now := by
  have hvia := hn.beat_via
  obtain ⟨heffects, hlinks⟩ := hvia.spares hn.ordered (hn.ordered.spares_of_link hp hl hid)
  have huntimed : n.Via (· ≠ .tend) (n.beat due) := by
    refine hvia.mono ?_
    rintro a ha rfl
    exact ha
  exact ⟨heffects, by rw [Open, Open, hlinks], (hvia.get?_of_beats hid).trans hp, hvia.self_eq,
    huntimed.now_eq⟩

theorem Prepared.beat_of_mem (hn : n.Prepared due) (hnodup : (due.map (·.1)).Nodup)
    (hmem : (id, h) ∈ due) (hp : n.roster.get? id = some p) (hl : p.link = some conn) :
    n.Open conn ∧
        (n.beat due).effectsOn conn =
          n.effectsOn conn ++ [.queued conn (Command.heartbeat.frame n.self h)] ∧
        (∃ q, (n.beat due).roster.get? id = some q ∧ q.lastSent = some n.now) ∨
      ¬ n.Open conn ∧ (n.beat due).effectsOn conn = n.effectsOn conn := by
  -- its turn comes between those of others, which leave its link and its entry as they are
  obtain ⟨before, after, rfl⟩ := List.append_of_mem hmem
  rw [List.map_append, List.map_cons, List.nodup_append, List.nodup_cons] at hnodup
  have hbefore : id ∉ before.map (·.1) :=
    fun hin => hnodup.2.2 id hin id (List.mem_cons_self ..) rfl
  have hafter : id ∉ after.map (·.1) := hnodup.2.1.1
  have hsplit : n.beat (before ++ (id, h) :: after) =
      ((n.beat before).tell receive h .heartbeat).beat after := by
    simp only [beat, List.foldl_append, List.foldl_cons]
  rw [hsplit]
  have hfirst := hn.mono (List.subset_append_left before ((id, h) :: after))
  have hrest := hn.mono (List.subset_append_right before ((id, h) :: after))
  obtain ⟨heffects, hopen, hp₁, hself, hnow⟩ := hfirst.beat_others hp hl hbefore
  have hn₁ := hfirst.beat_via.prepared hrest
  have hlive : p.liveLink? = some conn :=
    Peer.liveLink?_eq_some_iff.2 ⟨hl, (hn.ordered.wired.link_iff id p hp).1 (by simp [hl])⟩
  have hlinked := hn₁.beatable (id, h) (List.mem_cons_self ..)
  obtain ⟨hopen₁, ht⟩ | ⟨hfull, ht⟩ :=
    hn₁.ordered.beat_cases hlinked.other hp₁ hlive hlinked.node hn₁.payload
  · have hown (f : Frame) : Move.Beats [id] (.queue id conn f) := List.mem_singleton_self id
    obtain ⟨q, hq, -, -, hlink⟩ := ht.entry_of_beats (hown _) hp₁
    have hsent := ht.lastSent_of_touches hn₁.ordered.wired rfl hq (hlink.trans hl)
    have hn₂ := (ht.prepared (hown _) hn₁).mono (List.subset_cons_self ..)
    obtain ⟨heffects', -, hq', -⟩ := hn₂.beat_others hq (hlink.trans hl) hafter
    refine .inl ⟨hopen.1 hopen₁, ?_, q, hq', hsent.trans (congrArg some hnow)⟩
    rw [heffects', ht.effectsOn_of_queue, heffects, hself]
  · have hown : Move.Beats [id] (.refuse id conn) := List.mem_singleton_self id
    obtain ⟨q, hq, -, -, hlink⟩ := ht.entry_of_beats hown hp₁
    have hn₂ := (ht.prepared hown hn₁).mono (List.subset_cons_self ..)
    obtain ⟨heffects', -⟩ := hn₂.beat_others hq (hlink.trans hl) hafter
    refine .inr ⟨fun h => hfull (hopen.2 h), ?_⟩
    rw [heffects', ht.effectsOn_of_refuse, heffects]

theorem Prepared.beat_spares (hn : n.Prepared due) (hs : n.Spares (due.map (·.1)) conn) :
    (n.beat due).effectsOn conn = n.effectsOn conn :=
  (hn.beat_via.spares hn.ordered hs).1

end Beat

theorem Via.effectsOn_of_seek (hv : n.Via (· = .seek) m) (conn : ConnId) :
    m.effectsOn conn = n.effectsOn conn := by
  refine hv.keeps (I := fun k => k.effectsOn conn = n.effectsOn conn) (fun k a l hk ha ht => ?_) rfl
  subst ha
  rw [← hk]
  cases ht with
  | seek => simp [effectsOn, Effect.conn?]

theorem Via.get?_of_seek (hv : n.Via (· = .seek) m) (hp : n.roster.get? id = some p)
    (hs : p.state ≠ .empty) :
    m.roster.get? id = some p := by
  refine hv.keeps (I := fun k => k.roster.get? id = some p) (fun k a l hk ha ht => ?_) hp
  subst ha
  cases ht with
  | @seek center peer endpoint hc he hp' hs' =>
    have hne : id ≠ center.node := by
      rintro rfl
      rw [hk, Option.some.injEq] at hp'
      exact hs (hp' ▸ hs')
    exact (Roster.get?_modify ..).trans ((if_neg hne).trans hk)

theorem tick_cases (n : Node) :
    (n.beat (n.roster.due n.now (n.profile.heartbeatInterval * 1000))).Via (· = .seek) n.tick := by
  unfold tick
  dsimp only
  split
  · exact .refl _
  · exact rejoin_via _

theorem Ordered.prepared_due (ho : n.Ordered) (labelled : n.Labelled) (hsize : n.roster.size ≤ 256)
    (hpayload : 2 ≤ n.wire.maxPayload) (now interval : Nat) :
    n.Prepared (n.roster.due now interval) := by
  refine ⟨ho, hpayload, ?_⟩
  rintro ⟨id, h⟩ hx
  obtain ⟨hid, p, hp, hhandle, hestablished, -⟩ := (Roster.mem_due_iff hsize).1 hx
  have hlink : p.link.isSome := (ho.wired.link_iff id p hp).2 (.inr hestablished)
  exact ⟨hid, labelled id p hp h hhandle, p, hp, (ho.wired.linked_iff hp).2 hlink⟩

section Tick

variable {interval : Nat}

theorem Ordered.tick_of_due (ho : n.Ordered) (labelled : n.Labelled) (hsize : n.roster.size ≤ 256)
    (hpayload : 2 ≤ n.wire.maxPayload) (hinterval : interval = n.profile.heartbeatInterval * 1000)
    (hdue : (id, h) ∈ n.roster.due n.now interval) (hp : n.roster.get? id = some p)
    (hl : p.link = some conn) :
    n.Open conn ∧
        n.tick.effectsOn conn =
          n.effectsOn conn ++ [.queued conn (Command.heartbeat.frame n.self h)] ∧
        (∃ q, n.tick.roster.get? id = some q ∧ q.lastSent = some n.now) ∨
      ¬ n.Open conn ∧ n.tick.effectsOn conn = n.effectsOn conn := by
  subst hinterval
  have hn := ho.prepared_due labelled hsize hpayload n.now (n.profile.heartbeatInterval * 1000)
  have hseek := n.tick_cases
  rw [hseek.effectsOn_of_seek conn]
  obtain ⟨hopen, heffects, q, hq, hsent⟩ | hfull :=
    hn.beat_of_mem (Roster.nodup_due hsize ..) hdue hp hl
  · refine .inl ⟨hopen, heffects, q, ?_, hsent⟩
    obtain ⟨-, p', hp', -, hestablished, -⟩ := (Roster.mem_due_iff hsize).1 hdue
    obtain ⟨q', hq', hstate, -⟩ := hn.beat_via.entry_of_beats hp'
    rw [hq, Option.some.injEq] at hq'
    subst hq'
    have hnot : q.state ≠ .empty := by
      rw [hstate, hestablished]
      exact nofun
    exact hseek.get?_of_seek hq hnot
  · exact .inr hfull

theorem Ordered.tick_spares (ho : n.Ordered) (labelled : n.Labelled) (hsize : n.roster.size ≤ 256)
    (hpayload : 2 ≤ n.wire.maxPayload) (hinterval : interval = n.profile.heartbeatInterval * 1000)
    (hs : n.Spares ((n.roster.due n.now interval).map (·.1)) conn) :
    n.tick.effectsOn conn = n.effectsOn conn := by
  subst hinterval
  have hn := ho.prepared_due labelled hsize hpayload n.now (n.profile.heartbeatInterval * 1000)
  exact (n.tick_cases.effectsOn_of_seek conn).trans (hn.beat_spares hs)

end Tick

/-- At time `t` of a run a peer is due a sign of life on its link: it is established, it has a known
handle, and its link was touched last at least `interval` before. -/
def Due (n : Node) (before : List (Nat × Event)) (interval t : Nat) (id : NodeId) (h : Handle)
    (conn : ConnId) :
    Prop :=
  id ≠ n.self ∧ ∃ p x, (n.run before).roster.get? id = some p ∧ p.Established ∧ p.handle = some h ∧
    p.link = some conn ∧ (n.touches before conn).getLast? = some x ∧ x.time + interval ≤ t

/-- The cadence of the signs of life in a run. -/
structure Cadence (n : Node) (interval : Nat) (events : List (Nat × Event)) : Prop where
  /-- At a tick a due peer gets one sign of life, if its link takes one more frame. -/
  beat : ∀ before t e later, events = before ++ (t, e) :: later → e.isTick = true →
    ∀ id h conn, n.Due before interval t id h conn → (n.run before).Open conn →
      n.touches (before ++ [(t, e)]) conn =
          n.touches before conn ++ [⟨t, true, .queued conn (Command.heartbeat.frame n.self h)⟩] ∧
        ∃ p, (n.run (before ++ [(t, e)])).roster.get? id = some p ∧ p.lastSent = some t
  silent : ∀ before t e later, events = before ++ (t, e) :: later → e.isTick = true →
    ∀ conn, (∀ id h, n.Due before interval t id h conn → ¬ (n.run before).Open conn) →
      n.touches (before ++ [(t, e)]) conn = n.touches before conn
  recorded : ∀ id p conn, (n.run events).roster.get? id = some p → p.link = some conn →
    ∃ x, (n.touches events conn).getLast? = some x ∧ p.lastSent = some x.time
  /-- Each sign of life that a tick sends is that long after all that was done on the link
  before. -/
  apart : ∀ conn, (n.touches events conn).Pairwise fun x y => y.ticked = true →
    x.time + interval ≤ y.time
  /-- In a window after a frame there are as many of them as intervals fit into it, or fewer. -/
  window : ∀ conn before x later, n.touches events conn = before ++ x :: later → ∀ width,
    later.countP (fun y => y.ticked && y.time ≤ x.time + width) ≤ width / interval

theorem countP_mul_le {interval : Nat} {x : Mark} {later : List Mark} (width : Nat)
    (h : (x :: later).Pairwise fun x y => y.ticked = true → x.time + interval ≤ y.time) :
    later.countP (fun y => y.ticked && y.time ≤ x.time + width) * interval ≤ width := by
  induction later generalizing x width with
  | nil => simp
  | cons y rest ih =>
    rw [List.pairwise_cons, List.pairwise_cons] at h
    obtain ⟨hx, hy, hrest⟩ := h
    rw [List.countP_cons]
    by_cases hcounts : y.ticked = true ∧ y.time ≤ x.time + width
    · -- the window of `y` ends where that of `x` does
      obtain ⟨hticked, htime⟩ := hcounts
      have hstart := hx y (List.mem_cons_self ..) hticked
      have hinner := ih (x.time + width - y.time) (List.pairwise_cons.2 ⟨hy, hrest⟩)
      have hend : y.time + (x.time + width - y.time) = x.time + width := by omega
      rw [hend] at hinner
      simp only [hticked, htime, decide_true, Bool.and_self, if_true, Nat.add_mul, Nat.one_mul]
      omega
    · have hskip : (y.ticked && decide (y.time ≤ x.time + width)) = false := by
        simpa using hcounts
      rw [if_neg (by simp [hskip]), Nat.add_zero]
      exact ih width (List.pairwise_cons.2 ⟨fun z hz => hx z (List.mem_cons_of_mem _ hz), hrest⟩)

theorem touches_of_effectsOn {before : List (Nat × Event)} {t : Nat} {es : List Effect}
    (hstep : ((n.run before).stepAt t e).effectsOn conn = (n.run before).effectsOn conn ++ es) :
    n.touches (before ++ [(t, e)]) conn = n.touches before conn ++ es.map (⟨t, e.isTick, ·⟩) := by
  rw [effectsOn, effects_stepAt, List.filter_append] at hstep
  rw [touches_concat, List.append_cancel_left hstep]

theorem stepAt_of_isTick (he : e.isTick = true) (t : Nat) :
    n.stepAt t e = tick { n with now := t } := by
  cases e with
  | tick => rfl
  | call r =>
    cases r with
    | tick => rfl
    | _ => cases he
  | _ => cases he

section Start

variable {profile : Profile} {catalog : Catalog} {port : UInt16} {now : Nat}
  {result : Except Fault Handshake} {n₀ : Node} {before events : List (Nat × Event)} {t : Nat}

theorem size_roster_of_run (started : start profile catalog port now result = .ok n₀)
    (events : List (Nat × Event)) : (n₀.run events).roster.size ≤ 256 := by
  have hidle : (idle profile catalog port now).roster.size ≤ 256 := by
    simp only [idle, Roster.size, Roster.setOwnHandle, Roster.ofSize, Array.size_modify,
      Array.size_replicate]
    omega
  exact run_keeps (I := fun k => k.roster.size ≤ 256) (fun _ _ _ hk ht => ht.size_roster_eq ▸ hk)
    (start_keeps (I := fun k => k.roster.size ≤ 256) (fun _ _ _ hk ht => ht.size_roster_eq ▸ hk)
      hidle started)
    events

theorem due_iff_of_run (started : start profile catalog port now result = .ok n₀) {interval : Nat}
    (hinterval : 0 < interval) :
    n₀.Due before interval t id h conn ↔ (id, h) ∈ (n₀.run before).roster.due t interval ∧
      ∃ p, (n₀.run before).roster.get? id = some p ∧ p.link = some conn := by
  have hself : (n₀.run before).roster.self = n₀.self := (run_via n₀ before).self_eq
  rw [Roster.mem_due_iff (size_roster_of_run started before), hself]
  constructor
  · rintro ⟨hid, p, x, hp, hestablished, hhandle, hl, hlast, htime⟩
    obtain ⟨y, hy, hsent⟩ := lastSent_of_run started before hp hl
    rw [hlast, Option.some.injEq] at hy
    subst hy
    have hidle : p.IdleFor t interval := by
      intro s hs
      rw [hsent, Option.mem_some] at hs
      omega
    exact ⟨⟨hid, p, hp, hhandle, hestablished, hidle⟩, p, hp, hl⟩
  · rintro ⟨⟨hid, p, hp, hhandle, hestablished, hidle⟩, q, hq, hl⟩
    rw [hp, Option.some.injEq] at hq
    subst hq
    obtain ⟨x, hlast, hsent⟩ := lastSent_of_run started before hp hl
    have hlong := hidle x.time hsent
    exact ⟨hid, p, x, hp, hestablished, hhandle, hl, hlast, by omega⟩

theorem labelled_idle (hflaw : profile.flaw? = none) :
    (idle profile catalog port now).Labelled := by
  intro id p hp h hh
  by_cases hid : id = profile.nodeId
  · subst hid
    have hown := Roster.me?_eq_get? (seated_idle hflaw catalog port now).own
    rw [me?_idle hflaw] at hown
    have hp' := hown.trans hp
    rw [Option.some.injEq] at hp'
    rw [← hp', Option.mem_some] at hh
    rw [← hh]
  · rw [(get?_idle hp).2.2.2 hid] at hh
    cases hh

theorem interval_pos (p : Profile) : 0 < p.heartbeatInterval * 1000 := by
  have hclamp : 3 ≤ p.heartbeatInterval := by
    rw [Profile.heartbeatInterval, clampHeartbeat]
    omega
  omega

theorem touches_of_tick (started : start profile catalog port now result = .ok n₀)
    (payload : 2 ≤ profile.maxPayload) (labelled : (n₀.run before).Labelled) (he : e.isTick = true)
    (t : Nat) (conn : ConnId) :
    (∀ id h, n₀.Due before (profile.heartbeatInterval * 1000) t id h conn →
      (n₀.run before).Open conn →
      n₀.touches (before ++ [(t, e)]) conn =
          n₀.touches before conn ++ [⟨t, true, .queued conn (Command.heartbeat.frame n₀.self h)⟩] ∧
        ∃ p, (n₀.run (before ++ [(t, e)])).roster.get? id = some p ∧ p.lastSent = some t) ∧
    ((∀ id h, n₀.Due before (profile.heartbeatInterval * 1000) t id h conn →
      ¬ (n₀.run before).Open conn) →
      n₀.touches (before ++ [(t, e)]) conn = n₀.touches before conn) := by
  have ho := (ordered_of_run started before).tend t
  have hsize := size_roster_of_run started before
  have hprofile := profile_of_run started before
  have hself : Node.self { n₀.run before with now := t } = n₀.self := (run_via n₀ before).self_eq
  have hpayload : 2 ≤ (wire { n₀.run before with now := t }).maxPayload := by
    simp only [wire, Wire.ofRequest, payloadLimit, hprofile]
    omega
  have hinterval :
      profile.heartbeatInterval * 1000 = (n₀.run before).profile.heartbeatInterval * 1000 := by
    rw [hprofile]
  have hdue (id : NodeId) (h : Handle) :
      n₀.Due before (profile.heartbeatInterval * 1000) t id h conn ↔ _ :=
    due_iff_of_run started (interval_pos profile)
  have hstep := stepAt_of_isTick (n := n₀.run before) he t
  rw [run_concat]
  constructor
  · intro id h hd hopen
    obtain ⟨hmem, p, hp, hl⟩ := (hdue id h).1 hd
    obtain ⟨-, heffects, hsent⟩ | ⟨hfull, -⟩ :=
      ho.tick_of_due labelled hsize hpayload hinterval hmem hp hl
    · rw [← hstep, hself] at heffects
      rw [hstep]
      exact ⟨by rw [touches_of_effectsOn heffects, he]; rfl, hsent⟩
    · exact absurd hopen hfull
  · intro hnone
    have heffects :
        ((n₀.run before).stepAt t e).effectsOn conn = (n₀.run before).effectsOn conn ++ [] := by
      rw [hstep, List.append_nil]
      by_cases hlinked : ∃ x ∈ (n₀.run before).roster.due t (profile.heartbeatInterval * 1000),
          ∃ p, (n₀.run before).roster.get? x.1 = some p ∧ p.link = some conn
      · obtain ⟨⟨id, h⟩, hmem, p, hp, hl⟩ := hlinked
        obtain ⟨hopen, -⟩ | ⟨-, hsame⟩ :=
          ho.tick_of_due labelled hsize hpayload hinterval hmem hp hl
        · exact absurd hopen (hnone id h ((hdue id h).2 ⟨hmem, p, hp, hl⟩))
        · exact hsame
      · refine ho.tick_spares labelled hsize hpayload hinterval ?_
        intro id hid p hp hl
        obtain ⟨x, hx, rfl⟩ := List.mem_map.1 hid
        exact hlinked ⟨x, hx, p, hp, hl⟩
    rw [touches_of_effectsOn heffects, List.map_nil, List.append_nil]

theorem time_le_of_getLast? {l : List Mark} (h : l.Pairwise fun x y => x.time ≤ y.time) {x y : Mark}
    (hlast : l.getLast? = some y) (hx : x ∈ l) : x.time ≤ y.time := by
  obtain ⟨init, rfl⟩ := List.getLast?_eq_some_iff.1 hlast
  obtain hx | hx := List.mem_append.1 hx
  · exact (List.pairwise_append.1 h).2.2 x hx y (List.mem_singleton_self y)
  · obtain rfl := List.mem_singleton.1 hx
    exact Nat.le_refl _

/-- While the clock does not go back, a sign of life comes at least an interval after all that was
done on its link before. -/
theorem apart_of_run (started : start profile catalog port now result = .ok n₀)
    (payload : 2 ≤ profile.maxPayload) (clock : n₀.ClockRises events)
    (labelled : ∀ before t e later, events = before ++ (t, e) :: later → e.isTick = true →
      (n₀.run before).Labelled) (conn : ConnId) :
    (n₀.touches events conn).Pairwise fun x y =>
      y.ticked = true → x.time + profile.heartbeatInterval * 1000 ≤ y.time := by
  induction events using List.reverseRecOn with
  | nil =>
    -- what was done at the start was not done by a tick
    rw [touches, timeline, marks, List.append_nil, List.filter_map]
    exact List.pairwise_map.2 (List.pairwise_of_forall fun _ _ hticked => absurd hticked (by simp))
  | append_singleton before last ih =>
    obtain ⟨t, e⟩ := last
    have hbefore := ih clock.of_append fun first t' e' later h =>
      labelled first t' e' (later ++ [(t, e)]) (by simp [h])
    cases he : e.isTick with
    | false =>
      rw [touches_concat, he, List.pairwise_append]
      refine ⟨hbefore, List.pairwise_map.2 ?_, ?_⟩
      · exact List.pairwise_of_forall fun _ _ hticked => absurd hticked (by simp)
      intro x hx y hy hticked
      obtain ⟨f, -, rfl⟩ := List.mem_map.1 hy
      cases hticked
    | true =>
      obtain ⟨hbeat, hsilent⟩ :=
        touches_of_tick started payload (labelled before t e [] rfl he) he t conn
      by_cases hdue : ∃ id h,
          n₀.Due before (profile.heartbeatInterval * 1000) t id h conn ∧ (n₀.run before).Open conn
      · obtain ⟨id, h, hd, hopen⟩ := hdue
        rw [(hbeat id h hd hopen).1, List.pairwise_append]
        refine ⟨hbefore, List.pairwise_singleton .., ?_⟩
        intro x hx y hy _
        obtain ⟨-, -, z, -, -, -, -, hlast, htime⟩ := hd
        have hle := time_le_of_getLast? (clock.of_append.pairwise_touches conn) hlast hx
        rw [List.mem_singleton.1 hy]
        exact Nat.le_trans (Nat.add_le_add_right hle _) htime
      · rw [hsilent fun id h hd hopen => hdue ⟨id, h, hd, hopen⟩]
        exact hbefore

/-- In a run whose clock does not go back and in which each known handle leads to the node whose
entry it is in, a tick sends one sign of life to each due peer that has room for it and to nobody
else. So the signs of life on a link are at least an interval apart, other frames put them off, and
no window holds more of them than intervals. -/
theorem cadence_of_run (started : start profile catalog port now result = .ok n₀)
    (payload : 2 ≤ profile.maxPayload) (clock : n₀.ClockRises events)
    (labelled : ∀ before t e later, events = before ++ (t, e) :: later → e.isTick = true →
      (n₀.run before).Labelled) :
    n₀.Cadence (profile.heartbeatInterval * 1000) events := by
  have hapart := apart_of_run started payload clock labelled
  constructor
  case beat =>
    intro before t e later hevents he id h conn
    exact (touches_of_tick started payload (labelled before t e later hevents he) he t conn).1 id h
  case silent =>
    intro before t e later hevents he conn
    exact (touches_of_tick started payload (labelled before t e later hevents he) he t conn).2
  case recorded => exact fun id p conn => lastSent_of_run started events
  case apart => exact hapart
  case window =>
    intro conn before x later htouches width
    have hlater := hapart conn
    rw [htouches] at hlater
    rw [Nat.le_div_iff_mul_le (interval_pos profile)]
    exact countP_mul_le width (List.pairwise_append.1 hlater).2.1

theorem center_of_start {h : Handshake} (started : start profile catalog port now (.ok h) = .ok n₀)
    (member : n₀.registry? = none) :
    ∃ p r, n₀.roster.get? h.greeting.center.node = some p ∧ p.state = .established ∧
      p.handle = some h.greeting.mesh ∧
        p.link = some (idle profile catalog port now).links.nextId.1 ∧
      p.lastSent = some now ∧
        n₀.links.get? (idle profile catalog port now).links.nextId.1 = some r ∧
      r.link.running = true ∧ r.link.queue.length = 1 ∧
        r.link.bound = max 1 profile.writeQueueFrames := by
  obtain ⟨h', m, heq, ho, hjoin, hask⟩ := join_of_start started member
  cases heq
  obtain ⟨hs, -⟩ := hjoin.session_of_join ho
  have hfit : m.Fits (.register m.announcement) := by
    rw [hs.member.ask_eq, hs.center] at hask
    obtain ⟨_, _, -, -, hlen, -⟩ := sendOver_takes hask
    exact hlen
  obtain ⟨k, hk, hqueue⟩ := hjoin.exists_ask_of_join ho hfit
  rw [hask, Except.ok.injEq] at hk
  subst hk
  obtain ⟨q, hq, hstate, hhandle, hlink⟩ := hjoin.entry_of_join
  obtain ⟨p, hp, hstate', hhandle', hlink'⟩ := hqueue.entry_of_queue hq
  have hsent := hqueue.lastSent_of_touches (hjoin.ordered ho).wired rfl hp (hlink'.trans hlink)
  have hmade : m.links.get? (idle profile catalog port now).links.nextId.1 =
      some ⟨(idle profile catalog port now).newLink (idle profile catalog port now).links.nextId.1,
        some h.greeting.center.node⟩ := by
    cases hjoin with
    | join _ _ _ hi => exact (ho.wired.links.kept.nextId.get?_insert hi _).trans (if_pos rfl)
  have hnow : m.now = now := by
    cases hjoin
    rfl
  exact ⟨p, _, hp, hstate'.trans hstate, hhandle'.trans hhandle, hlink'.trans hlink,
    hsent.trans (congrArg some hnow), hqueue.get?_of_queue (hjoin.ordered ho).wired hmade, rfl, rfl,
    rfl⟩

theorem labelled_of_start {h : Handshake}
    (started : start profile catalog port now (.ok h) = .ok n₀) (member : n₀.registry? = none)
    (hmesh : h.greeting.mesh.node = h.greeting.center.node) : n₀.Labelled := by
  obtain ⟨h', m, heq, ho, hjoin, hask⟩ := join_of_start started member
  cases heq
  obtain ⟨hs, -⟩ := hjoin.session_of_join ho
  rw [hs.member.ask_eq, hs.center] at hask
  have hm : m.Labelled := by
    refine hjoin.labelled (labelled_idle (start_cases started).1) nofun fun c g heq => ?_
    cases heq
    exact hmesh
  obtain ⟨_, _, -, -, -, hqueue | hrefuse⟩ := sendOver_takes hask
  · exact hqueue.labelled hm nofun nofun
  · exact hrefuse.labelled hm nofun nofun

/-- Node 2 has joined the center that is node 1, and ten seconds later it gives it a sign of
life. -/
theorem cadence_of_run_idle :
    ∃ n₀, start { nodeId := ⟨2⟩, center := .remote "hub:7100" } {} 7101 0
        (.ok ⟨.ofCenter ⟨1⟩, []⟩) = .ok n₀ ∧
      n₀.ClockRises [(10000, .tick)] ∧ n₀.Labelled ∧ n₀.Cadence 10000 [(10000, .tick)] ∧
      n₀.touches [(10000, .tick)] ⟨1⟩ = n₀.touches [] ⟨1⟩ ++
        [⟨10000, true, .queued ⟨1⟩ (Command.heartbeat.frame n₀.self ⟨⟨1⟩, meshModule⟩)⟩] := by
  obtain ⟨n₀, started, member, -⟩ := exists_start_of_second
  have hlabelled := labelled_of_start started member rfl
  have hnow : n₀.now = 0 := (start_via_untimed started).now_eq
  have hself : n₀.self = ⟨2⟩ := (start_via started).self_eq
  have hclock : n₀.ClockRises [(10000, .tick)] := by simp [ClockRises, hnow]
  have hcadence : n₀.Cadence 10000 [(10000, .tick)] := by
    refine cadence_of_run started (by decide) hclock fun before t e later hevents _ => ?_
    cases before with
    | nil => exact hlabelled
    | cons first rest => simp at hevents
  obtain ⟨p, r, hp, hstate, hhandle, hlink, hsent, hr, hrunning, hqueue, hbound⟩ :=
    center_of_start started member
  obtain ⟨x, hlast, hx⟩ := lastSent_of_run started [] hp hlink
  have htime : x.time = 0 := by
    rw [hsent, Option.some.injEq] at hx
    exact hx.symm
  have hdue : n₀.Due [] 10000 10000 ⟨1⟩ ⟨⟨1⟩, meshModule⟩ ⟨1⟩ :=
    ⟨by rw [hself]; decide, p, x, hp, hstate, hhandle, hlink, hlast, by omega⟩
  have hopen : n₀.Open ⟨1⟩ := ⟨r, hr, hrunning, by rw [hqueue, hbound]; decide⟩
  exact ⟨n₀, started, hclock, hlabelled, hcadence,
    (hcadence.beat [] _ _ [] rfl rfl _ _ _ hdue hopen).1⟩

end Start

end Node

end Meshwork
