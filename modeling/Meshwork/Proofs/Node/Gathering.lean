import Mathlib.Data.List.Nodup
import Meshwork.Proofs.Node.Meshed
import Meshwork.Proofs.Node.Overtaken

/-!
# What a center knows of its clients and tells them

A center links each node that registers, and tells it and all nodes that are linked already of each
other. The invariant is `Node.Gathered`: every client is linked as it announced itself, what was
told on its link is known, and all other entries are as they were at first. Main statements:
`Gathered.via`, plain moves tell nobody anything; `Gathered.enroll` and `Gathered.introduce`, the
two halves of a registration.
-/

namespace Meshwork

theorem nodup_ids_concat {clients : List Announcement} {a : Announcement} :
    ((clients ++ [a]).map (·.id)).Nodup ↔
      (clients.map (·.id)).Nodup ∧ ∀ b ∈ clients, b.id ≠ a.id := by
  simp [List.nodup_append]

def news (a : Announcement) (others : List Announcement) (id : NodeId) : List Announcement :=
  if id = a.id then others else (others.filter (·.id = id)).map fun _ => a

theorem news_cons {a b : Announcement} (hne : b.id ≠ a.id) (others : List Announcement)
    (id : NodeId) :
    news a (b :: others) id =
      ((if id = b.id then [a] else []) ++ if id = a.id then [b] else []) ++ news a others id := by
  unfold news
  by_cases ha : id = a.id
  · subst ha
    simp [Ne.symm hne]
  · by_cases hb : id = b.id
    · subst hb
      simp [ha]
    · simp [ha, hb, Ne.symm hb]

theorem Announcement.Readable.introduced?_frame {a : Announcement} (h : a.Readable) (self : NodeId)
    (directory : Handle) : ((Command.address a).frame self directory).introduced? = some a :=
  Frame.introduced?_eq_some_iff.2 h.parse_address

theorem Move.Plain.filter_frame? {a : Move} (ha : a.Plain) (conn : ConnId) :
    (a.frame? conn).toList.filter (·.introduced?.isSome) = [] := by
  cases a with
  | queue id c frame =>
    have hnone : frame.introduced? = none := ha
    by_cases hc : c = conn <;> simp [Move.frame?, hc, hnone]
  | _ => rfl

namespace Node

variable {n m k : Node} {move : Move} {a b : Announcement} {id : NodeId} {p q : Peer}
  {conn : ConnId}
  {loop : Loopback}

def introductions (n : Node) (conn : ConnId) : List Frame :=
  (n.queuedOn conn).filter (·.introduced?.isSome)

def acquaint (loop : Loopback) (a : Announcement) (n : Node) (other : Announcement) : Node :=
  (n.tell loop other.handle (.address a)).tell loop a.handle (.address other)

/-- A client can register: its id is that of another node of the roster, it can be reached, its
handle is that of its mesh endpoint, and an introduction of it is not too long. -/
structure Admits (n : Node) (a : Announcement) : Prop where
  contains : n.roster.Contains a.id
  other : a.id ≠ n.self
  endpoint : a.address.endpoint?.isSome
  handle : a.handle = ⟨a.id, meshModule⟩
  fits : (Command.address a).payload.length ≤ n.wire.maxPayload

/-- Clients have registered with a center, and `accepted` connections came in. Each client is linked
as it announced itself, and `told` says whom it was told of. Of other nodes nothing is known. -/
structure Gathered (n : Node) (accepted : Nat) (clients : List Announcement)
    (told : NodeId → List Announcement) : Prop where
  ordered : n.Ordered
  center : n.registry?.isSome
  size_roster : n.roster.size ≤ 256
  size_links : n.links.size ≤ accepted + clients.length
  admits : ∀ a ∈ clients, n.Admits a
  readable : ∀ a ∈ clients, a.Readable
  nodup : (clients.map (·.id)).Nodup
  client : ∀ a ∈ clients, ∃ p conn, n.roster.get? a.id = some p ∧ p.liveLink? = some conn ∧
    p.address = a.address ∧ p.handle = some a.handle ∧
    n.introductions conn = (told a.id).map fun b => (Command.address b).frame n.self a.handle
  blank : ∀ id p, n.roster.get? id = some p → id ≠ n.self → (∀ a ∈ clients, a.id ≠ id) →
    p.state = .empty ∧ p.address = {}
  silent : ∀ conn, (∀ id p, n.roster.get? id = some p → p.link ≠ some conn) →
    n.introductions conn = []

theorem exists_registry (h : n.registry?.isSome) : ∃ registry, n.role = .center registry := by
  unfold registry? at h
  split at h
  · exact ⟨_, ‹_›⟩
  · cases h

theorem Takes.size_roster_eq (ht : n.Takes move m) : m.roster.size = n.roster.size := by
  cases ht <;> simp

theorem Takes.size_links_eq (ht : n.Takes move m) (hm : move.Plain) :
    m.links.size = n.links.size := by
  cases ht with
  | queue | write => simp [Links.size]
  | dial | join | arrive | drop | lose => exact hm.elim
  | _ => rfl

theorem Takes.size_links_of_dial (ht : n.Takes (.dial id conn) m) :
    m.links.size ≤ n.links.size + 1 := by
  cases ht with
  | dial _ _ _ _ _ _ hi =>
    have hinsert := Links.size_insert_le hi
    exact hinsert

theorem Takes.size_links_of_arrive (ht : n.Takes (.arrive conn) m) :
    m.links.size ≤ n.links.size + 1 := by
  cases ht with
  | arrive _ _ hi =>
    have hinsert := Links.size_insert_le hi
    exact hinsert

theorem Takes.routing_eq (ht : n.Takes move m) : m.routing = n.routing := by
  simp only [routing, ht.self_eq, ht.isSome_registry?]

theorem Via.routing_eq {P : Move → Prop} (h : n.Via P m) : m.routing = n.routing :=
  h.keeps (I := fun k => k.routing = n.routing) (fun _ _ _ hk _ ht => ht.routing_eq.trans hk) rfl

theorem Takes.admits (ht : n.Takes move m) (h : n.Admits a) : m.Admits a := by
  refine ⟨ht.contains_iff.2 h.contains, ht.self_eq ▸ h.other, h.endpoint, h.handle, ?_⟩
  rw [wire, ht.profile_eq]
  exact h.fits

theorem Via.admits {P : Move → Prop} (h : n.Via P m) (ha : n.Admits a) : m.Admits a :=
  h.keeps (fun _ _ _ hk _ ht => ht.admits hk) ha

theorem Via.refused_eq_nil {P : Move → Prop} (h : n.Via P m) (hP : ∀ a, P a → a ≠ .pardon)
    (hm : m.refused = []) : n.refused = [] := by
  refine h.keeps (I := fun k => k.refused = [] → n.refused = []) (fun k a l hk ha ht hl => hk ?_) id
    hm
  cases ht with
  | pardon => exact absurd rfl (hP _ ha)
  | refuse => simp at hl
  | _ => exact hl

theorem Via.refused_eq_nil_of_inner (h : n.Via Move.Inner m) (hm : m.refused = []) :
    n.refused = [] :=
  h.refused_eq_nil (fun _ ha => ha.retains.ne_pardon) hm

theorem Takes.exists_keeps (ht : n.Takes move m) (hm : move.Settled)
    (hq : n.roster.get? id = some q) :
    ∃ p, m.roster.get? id = some p ∧ q.Keeps p := by
  obtain ⟨p, hp, halters⟩ := ht.exists_alters hq
  exact ⟨p, hp, halters.keeps hm⟩

theorem Takes.get?_of_learn_dial (hlearn : n.Takes (.learn a) k)
    (hdial : k.Takes (.dial a.id conn) m) (hp : n.roster.get? a.id = some p) (id : NodeId) :
    m.roster.get? id =
      if id = a.id then
        some { p with
          address := a.address, handle := some a.handle, link := some conn, state := .connecting,
          lastSent := some n.now }
      else n.roster.get? id := by
  cases hlearn with
  | learn =>
    cases hdial with
    | dial =>
      simp only [Roster.get?_noteSent_attach, Roster.get?_update, if_true, hp]
      split <;> rfl

theorem Takes.introductions_eq (ht : n.Takes move m) (conn : ConnId) :
    m.introductions conn =
      n.introductions conn ++ (move.frame? conn).toList.filter (·.introduced?.isSome) := by
  by_cases harrive : move = .arrive conn
  · subst harrive
    simp only [introductions, queuedOn_eq]
    cases ht with
    | arrive _ _ _ hg =>
      obtain rfl | ⟨-, rfl⟩ := hg
      · simp [Effect.frameOn?, Move.frame?]
      · simp [Effect.frameOn?, Move.frame?, Frame.introduced?_greeting]
  · rw [introductions, ht.queuedOn fun h => absurd h harrive, List.filter_append]
    rfl

theorem Admits.command_eq (ha : n.Admits a) (loop : Loopback) (c : Command) :
    n.command loop a.handle c = n.sendOver a.id (c.frame n.self a.handle) := by
  have hdest : n.routing.destination a.handle = .node a.id := by
    rw [ha.handle]
    exact if_pos ⟨ha.contains.1, ha.other⟩
  rw [command, post, hdest]
  rfl

theorem acquaint_via (hloop : loop.Tame) (n : Node) (other : Announcement) :
    n.Via Move.Inner (acquaint loop a n other) :=
  (tell_via hloop n other.handle _).trans (tell_via hloop _ a.handle _)

namespace Gathered

variable {accepted accepted' : Nat} {clients others : List Announcement}
  {told told' : NodeId → List Announcement}

theorem eq_of_id_eq (h : n.Gathered accepted clients told) (ha : a ∈ clients) (hb : b ∈ clients)
    (hid : a.id = b.id) : a = b :=
  List.inj_on_of_nodup_map h.nodup ha hb hid

theorem meshed (h : n.Gathered accepted clients told) : n.Meshed := by
  intro id p hid hp
  by_cases hclient : ∃ a ∈ clients, a.id = id
  · obtain ⟨a, ha, rfl⟩ := hclient
    obtain ⟨q, conn, hq, hl, -⟩ := h.client a ha
    rw [hp, Option.some.injEq] at hq
    exact .inl (Peer.linked_of_liveLink? (hq ▸ hl))
  · obtain ⟨-, haddress⟩ := h.blank id p hp hid fun a ha heq => hclient ⟨a, ha, heq⟩
    exact .inr (by rw [haddress]; decide)

theorem of_settled (h : n.Gathered accepted clients told) (ht : n.Takes move m) (hm : move.Settled)
    (hsize : m.links.size ≤ accepted' + clients.length)
    (htold : ∀ a ∈ clients, ∀ p conn, n.roster.get? a.id = some p → p.liveLink? = some conn →
      (move.frame? conn).toList.filter (·.introduced?.isSome) =
        (told' a.id).map fun b => (Command.address b).frame n.self a.handle)
    (hsilent : ∀ conn, (∀ id p, n.roster.get? id = some p → p.link ≠ some conn) →
      (move.frame? conn).toList.filter (·.introduced?.isSome) = []) :
    m.Gathered accepted' clients fun id => told id ++ told' id where
  ordered := ht.ordered h.ordered
  center := ht.isSome_registry?.trans h.center
  size_roster := ht.size_roster_eq ▸ h.size_roster
  size_links := hsize
  admits a ha := ht.admits (h.admits a ha)
  readable := h.readable
  nodup := h.nodup
  client a ha := by
    obtain ⟨q, conn, hq, hl, haddress, hhandle, hintro⟩ := h.client a ha
    obtain ⟨p, hp, hkeeps⟩ := ht.exists_keeps hm hq
    refine ⟨p, conn, hp, hkeeps.liveLink?.trans hl, hkeeps.address.trans haddress,
      hkeeps.handle.trans hhandle, ?_⟩
    rw [ht.introductions_eq, hintro, htold a ha q conn hq hl, ht.self_eq, List.map_append]
  blank id p hp hid hclient := by
    obtain ⟨q, hq, halters⟩ := ht.alters hp
    obtain ⟨hstate, haddress⟩ := h.blank id q hq (ht.self_eq ▸ hid) hclient
    have hkeeps := halters.keeps hm
    exact ⟨hkeeps.empty hstate, hkeeps.address.trans haddress⟩
  silent conn hconn := by
    have hbefore : ∀ id q, n.roster.get? id = some q → q.link ≠ some conn := by
      intro id q hq hl
      obtain ⟨p, hp, hkeeps⟩ := ht.exists_keeps hm hq
      exact hconn id p hp (hkeeps.link.trans hl)
    rw [ht.introductions_eq, h.silent conn hbefore, hsilent conn hbefore]
    rfl

theorem of_silent (h : n.Gathered accepted clients told) (ht : n.Takes move m) (hm : move.Settled)
    (hsize : m.links.size ≤ accepted' + clients.length)
    (hsilent : ∀ conn, (move.frame? conn).toList.filter (·.introduced?.isSome) = []) :
    m.Gathered accepted' clients told := by
  have h' : m.Gathered accepted' clients fun id => told id ++ [] :=
    h.of_settled ht hm hsize (fun _ _ _ conn _ _ => hsilent conn) fun conn _ => hsilent conn
  simpa using h'

theorem takes (h : n.Gathered accepted clients told) (ht : n.Takes move m) (hm : move.Plain) :
    m.Gathered accepted clients told :=
  h.of_silent ht hm.settled (ht.size_links_eq hm ▸ h.size_links) hm.filter_frame?

theorem via (h : n.Gathered accepted clients told) (hv : n.Via Move.Plain m) :
    m.Gathered accepted clients told :=
  hv.keeps (I := fun k => k.Gathered accepted clients told) (fun _ _ _ hk ha ht => hk.takes ht ha) h

theorem accept (h : n.Gathered accepted clients told) :
    n.accept.Gathered (accepted + 1) clients told := by
  have hsize := h.size_links
  obtain hsame | hmint | ⟨conn, harrive⟩ := n.accept_cases
  · rw [hsame]
    exact { h with size_links := by omega }
  · have h' := h.takes hmint trivial
    have hsize' := h'.size_links
    exact { h' with size_links := by omega }
  · have hsize' := harrive.size_links_of_arrive
    exact h.of_silent harrive trivial (by omega) fun _ => rfl

theorem mem_linkedBesides_iff (h : n.Gathered accepted clients told) :
    a ∈ n.linkedBesides id ↔ a ∈ clients ∧ a.id ≠ id := by
  simp only [linkedBesides, List.mem_filterMap, Prod.exists, Roster.mem_others_iff h.size_roster]
  constructor
  · rintro ⟨other, p, ⟨hother, hp⟩, hentry⟩
    split at hentry
    · rename_i hlinked
      obtain ⟨handle, hhandle, rfl⟩ := Option.map_eq_some_iff.1 hentry
      obtain ⟨b, hb, rfl⟩ : ∃ b ∈ clients, b.id = other := by
        by_contra hnone
        have hstate := (h.blank other p hp hother fun b hb heq => hnone ⟨b, hb, heq⟩).1
        simp [Peer.linked_iff, hstate] at hlinked
      obtain ⟨q, conn, hq, -, haddress, hhandle', -⟩ := h.client b hb
      rw [hp, Option.some.injEq] at hq
      rw [← hq, hhandle, Option.some.injEq] at hhandle'
      rw [← hq] at haddress
      rw [haddress, hhandle']
      exact ⟨hb, hlinked.1⟩
    · cases hentry
  · rintro ⟨ha, hid⟩
    obtain ⟨p, conn, hp, hl, haddress, hhandle, -⟩ := h.client a ha
    refine ⟨a.id, p, ⟨(h.admits a ha).other, hp⟩, ?_⟩
    rw [if_pos ⟨hid, Peer.linked_of_liveLink? hl⟩, hhandle, haddress]
    rfl

theorem perm_linkedBesides (h : n.Gathered accepted clients told) (id : NodeId) :
    (n.linkedBesides id).Perm (clients.filter (·.id ≠ id)) := by
  have hplace {x : NodeId × Peer} {a : Announcement}
      (ha : (if x.1 ≠ id ∧ x.2.Linked then x.2.handle.map fun h => ⟨x.1, x.2.address, h⟩
        else none) = some a) : a.id = x.1 := by
    split at ha
    · obtain ⟨handle, -, rfl⟩ := Option.map_eq_some_iff.1 ha
      rfl
    · cases ha
  have hnodup : (n.linkedBesides id).Nodup := by
    refine List.pairwise_filterMap.2 ((Roster.pairwise_others h.size_roster).imp ?_)
    rintro x y hne a ha b hb rfl
    exact hne ((hplace ha).symm.trans (hplace hb))
  refine (List.perm_ext_iff_of_nodup hnodup (h.nodup.of_map.filter _)).2 fun a => ?_
  rw [h.mem_linkedBesides_iff, List.mem_filter, decide_eq_true_eq]

theorem exists_tell (h : n.Gathered accepted clients told) (ha : a ∈ clients) (hb : b ∈ clients)
    (hp : n.roster.get? a.id = some p) (hl : p.liveLink? = some conn) (loop : Loopback) :
    n.Takes (.queue a.id conn ((Command.address b).frame n.self a.handle))
        (n.tell loop a.handle (.address b)) ∨
      n.Takes (.refuse a.id conn) (n.tell loop a.handle (.address b)) := by
  have hfit : ((Command.address b).frame n.self a.handle).payload.length ≤ n.wire.maxPayload :=
    (h.admits b hb).fits
  obtain ⟨m, hover, htakes⟩ := h.ordered.wired.exists_sendOver hp hl hfit
  rwa [Node.tell, (h.admits a ha).command_eq, hover]

theorem tell (h : n.Gathered accepted clients told) (ha : a ∈ clients) (hb : b ∈ clients)
    (hr : (n.tell loop a.handle (.address b)).refused = []) :
    (n.tell loop a.handle (.address b)).Gathered accepted clients
      fun id => told id ++ if id = a.id then [b] else [] := by
  obtain ⟨p, conn, hp, hl, -⟩ := h.client a ha
  have hlink := (Peer.liveLink?_eq_some_iff.1 hl).1
  have htell := h.exists_tell ha hb hp hl loop
  generalize n.tell loop a.handle (.address b) = m at hr htell ⊢
  obtain hqueue | hrefuse := htell
  · refine h.of_settled hqueue trivial ?_ (fun a' ha' p' conn' hp' hl' => ?_) fun conn' hnone => ?_
    · cases hqueue with
      | queue => simpa [Links.size] using h.size_links
    · by_cases hid : a'.id = a.id
      · obtain rfl := h.eq_of_id_eq ha' ha hid
        rw [hp, Option.some.injEq] at hp'
        rw [← hp', hl, Option.some.injEq] at hl'
        simp [Move.frame?, hl', (h.readable b hb).introduced?_frame]
      · have hne : conn ≠ conn' := fun hc =>
          hid (h.ordered.wired.link_inj hp' hp (Peer.liveLink?_eq_some_iff.1 hl').1 (hc ▸ hlink))
        simp [Move.frame?, hne, hid]
    · have hne : conn ≠ conn' := fun hc => hnone _ p hp (hc ▸ hlink)
      rw [Move.frame?, if_neg hne]
      rfl
  · cases hrefuse with
    | refuse => simp at hr

theorem foldl_acquaint (h : n.Gathered accepted clients told) (hloop : loop.Tame) (ha : a ∈ clients)
    (hothers : ∀ b ∈ others, b ∈ clients ∧ b.id ≠ a.id)
    (hr : (others.foldl (acquaint loop a) n).refused = []) :
    (others.foldl (acquaint loop a) n).Gathered accepted clients fun id =>
      told id ++ news a others id := by
  induction others generalizing n told with
  | nil => simpa [news] using h
  | cons b rest ih =>
    rw [List.forall_mem_cons] at hothers
    obtain ⟨⟨hb, hne⟩, hrest⟩ := hothers
    rw [List.foldl_cons] at hr ⊢
    -- no refusal is taken up meanwhile, so none at the end means none on the way
    have hlater :
        (acquaint loop a n b).Via Move.Inner (rest.foldl (acquaint loop a) (acquaint loop a n b)) :=
      Via.foldl _ fun n other _ => acquaint_via hloop n other
    have hboth : (acquaint loop a n b).refused = [] := hlater.refused_eq_nil_of_inner hr
    have hfirst : (n.tell loop b.handle (.address a)).refused = [] :=
      (tell_via hloop _ a.handle (.address b)).refused_eq_nil_of_inner hboth
    have hpair : (acquaint loop a n b).Gathered accepted clients _ :=
      (h.tell hb ha hfirst).tell ha hb hboth
    simpa only [news_cons hne, List.append_assoc] using ih hpair hrest hr

theorem introduce_eq (h : n.Gathered accepted clients told) (ha : a ∈ clients) (loop : Loopback) :
    n.introduce loop a.id = (n.linkedBesides a.id).foldl (acquaint loop a) n := by
  obtain ⟨p, conn, hp, hl, haddress, hhandle, -⟩ := h.client a ha
  obtain ⟨registry, hrole⟩ := exists_registry h.center
  simp only [Node.introduce, hrole, hp, hhandle, Peer.linked_of_liveLink? hl, if_true, haddress]
  rfl

theorem introduce (h : n.Gathered accepted clients told) (hloop : loop.Tame) (ha : a ∈ clients)
    (hr : (n.introduce loop a.id).refused = []) :
    (n.introduce loop a.id).Gathered accepted clients
      fun id => told id ++ news a (n.linkedBesides a.id) id := by
  rw [h.introduce_eq ha] at hr ⊢
  exact h.foldl_acquaint hloop ha (fun b hb => h.mem_linkedBesides_iff.1 hb) hr

theorem enroll_takes (h : n.Gathered accepted clients told) (ha : n.Admits a)
    (hnew : ∀ b ∈ clients, b.id ≠ a.id) (hroom : n.links.hasRoom = true) :
    ∃ p k, n.roster.get? a.id = some p ∧ p.link = none ∧ n.Takes (.learn a) k ∧
      k.Takes (.dial a.id n.links.nextId.1) (n.enroll a) := by
  obtain ⟨p, hp⟩ := Roster.exists_get? ha.contains
  obtain ⟨hstate, -⟩ := h.blank a.id p hp ha.other hnew
  have hwait : ¬ n.Waits a.id := by
    rintro ⟨q, hq, hwaits⟩
    rw [hp, Option.mem_some] at hq
    rw [← hq, hstate] at hwaits
    cases hwaits
  have hlink : p.link = none := h.ordered.wired.link_eq_none hp (by simp [hstate, LinkState.Live])
  have hunlinked : ¬ p.Linked := by simp [Peer.linked_iff, hlink]
  obtain ⟨k, hlearn, hdial⟩ := h.ordered.enroll_takes ha.other hp hunlinked hwait ha.endpoint hroom
  exact ⟨p, k, hp, hlink, hlearn, hdial⟩

/-- A node that registers is linked as it announced itself, and is told nothing yet. -/
theorem enroll (h : n.Gathered accepted clients told) (ha : n.Admits a) (hread : a.Readable)
    (hnew : ∀ b ∈ clients, b.id ≠ a.id) (hroom : n.links.hasRoom = true) :
    (n.enroll a).Gathered accepted (clients ++ [a]) fun id => if id = a.id then []
      else told id := by
  obtain ⟨p, k, hp, hlink, hlearn, hdial⟩ := h.enroll_takes ha hnew hroom
  -- all that follows needs only the two moves and not how the node came to them
  generalize n.enroll a = m at hdial ⊢
  have hentry := hlearn.get?_of_learn_dial hdial hp
  have hself : m.self = n.self := hdial.self_eq.trans hlearn.self_eq
  have hintro (conn : ConnId) : m.introductions conn = n.introductions conn := by
    rw [hdial.introductions_eq, hlearn.introductions_eq]
    simp [Move.frame?]
  have hfresh : n.introductions n.links.nextId.1 = [] := by
    rw [introductions, h.ordered.queuedOn_nextId]
    rfl
  refine ⟨hdial.ordered (hlearn.ordered h.ordered),
    hdial.isSome_registry?.trans (hlearn.isSome_registry?.trans h.center),
    hdial.size_roster_eq.trans hlearn.size_roster_eq ▸ h.size_roster, ?_, fun b hb => ?_,
    fun b hb => ?_, nodup_ids_concat.2 ⟨h.nodup, hnew⟩, fun b hb => ?_,
    fun id q hq hid hclient => ?_, fun conn hconn => ?_⟩
  · have hsize := hdial.size_links_of_dial
    have hbefore := h.size_links
    have hlearned : k.links.size = n.links.size := by cases hlearn; rfl
    rw [List.length_append, List.length_singleton]
    omega
  · refine hdial.admits (hlearn.admits ?_)
    obtain hb | hb := List.mem_append.1 hb
    · exact h.admits b hb
    · exact List.mem_singleton.1 hb ▸ ha
  · obtain hb | hb := List.mem_append.1 hb
    · exact h.readable b hb
    · exact List.mem_singleton.1 hb ▸ hread
  · rw [List.mem_append, List.mem_singleton] at hb
    obtain hb | rfl := hb
    · obtain ⟨q, conn, hq, hl, haddress, hhandle, hold⟩ := h.client b hb
      have hne := hnew b hb
      refine ⟨q, conn, by rw [hentry, if_neg hne, hq], hl, haddress, hhandle, ?_⟩
      rw [hintro, hold, if_neg hne, hself]
    · refine ⟨_, n.links.nextId.1, (hentry _).trans (if_pos rfl), rfl, rfl, rfl, ?_⟩
      rw [hintro, hfresh, if_pos rfl, List.map_nil]
  · have hne : id ≠ a.id := fun heq => hclient a (by simp) heq.symm
    rw [hentry, if_neg hne] at hq
    exact h.blank id q hq (hself ▸ hid) fun b hb => hclient b (List.mem_append_left _ hb)
  · rw [hintro]
    refine h.silent conn fun id q hq hl => ?_
    by_cases hid : id = a.id
    · rw [hid, hp, Option.some.injEq] at hq
      rw [← hq, hlink] at hl
      cases hl
    · exact hconn id q (by rw [hentry, if_neg hid, hq]) hl

end Gathered

end Node

end Meshwork
