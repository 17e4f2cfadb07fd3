import Mathlib.Data.List.Induction
import Meshwork.Proofs.Node.Gathering
import Meshwork.Proofs.Node.Queues

/-!
# A center introduces its clients to each other

Each node that registers is dialled, and the center tells it of all that are linked already and them
of it. Main statements: `introduced_of_run`, when clients have registered in any order each of them
was told of each other one once, by induction on the run with `Node.Assembled`; and
`gathering_of_registrations`, no link refuses a frame as long as clients do nothing but register and
no more of them than a link has places.
-/

namespace Meshwork

def Frame.Introduces (id : NodeId) (f : Frame) : Prop := ∃ a ∈ f.introduced?, a.id = id

instance (id : NodeId) (f : Frame) : Decidable (f.Introduces id) :=
  match h : f.introduced? with
  | none => isFalse (by simp [Frame.Introduces, h])
  | some a => decidable_of_iff (a.id = id) (by simp [Frame.Introduces, h])

namespace Routing

def registration? (r : Routing) (f : Frame) : Option Announcement :=
  match r.classify f with
  | .request _ (.register a) => some a
  | _ => none

theorem registration?_eq_some {r : Routing} {f : Frame} {a : Announcement}
    (h : r.registration? f = some a) :
    a.Readable ∧ ∃ source, r.classify f = .request source (.register a) := by
  unfold registration? at h
  split at h
  · rename_i source b hf
    cases h
    refine ⟨?_, source, hf⟩
    unfold classify at hf
    split at hf
    · cases hf
    split at hf
    · split at hf <;> cases hf
    split at hf
    · split at hf
      · cases hf
        exact Command.readable_of_parse ‹_› (.inl rfl)
      · cases hf
    split at hf <;> cases hf
  · cases h

end Routing

namespace Event

def frames : Event → List Frame
  | .link (.frames _ frames) => frames
  | _ => []

def isAccept : Event → Bool
  | .accept => true
  | _ => false

/-- What happens while clients gather: they connect, register, and ask for things and offer them. -/
def Gathers (r : Routing) : Event → Prop
  | .accept => True
  | .link (.frames _ frames) => ∀ f ∈ frames, (r.registration? f).isSome ∨ (r.classify f).IsPlain
  | e => e.IsPlain

end Event

def registrations (r : Routing) (events : List (Nat × Event)) : List Announcement :=
  events.flatMap fun x => x.2.frames.filterMap r.registration?

theorem registrations_append (r : Routing) (before after : List (Nat × Event)) :
    registrations r (before ++ after) = registrations r before ++ registrations r after :=
  List.flatMap_append

theorem registrations_singleton (r : Routing) (t : Nat) (e : Event) :
    registrations r [(t, e)] = e.frames.filterMap r.registration? :=
  List.flatMap_singleton ..

section Clients

variable {clients others : List Announcement} {told : NodeId → List Announcement}
  {a b : Announcement}
  {id : NodeId}

theorem filter_id_eq (hnodup : (clients.map (·.id)).Nodup)
    (hothers : others.Perm (clients.filter (·.id ≠ id))) (hb : b ∈ clients) (hne : b.id ≠ id) :
    others.filter (·.id = b.id) = [b] := by
  have hothers' : others.Nodup := hothers.nodup_iff.2 (hnodup.of_map.filter _)
  refine List.perm_singleton.1 <|
    (List.perm_ext_iff_of_nodup (hothers'.filter _) (List.nodup_singleton b)).2 fun c => ?_
  simp only [List.mem_filter, hothers.mem_iff, List.mem_singleton, decide_eq_true_eq]
  constructor
  · rintro ⟨⟨hc, -⟩, hid⟩
    exact List.inj_on_of_nodup_map hnodup hc hb hid
  · rintro rfl
    exact ⟨⟨hb, hne⟩, rfl⟩

theorem perm_append_news (hnodup : ((clients ++ [a]).map (·.id)).Nodup)
    (hothers : others.Perm ((clients ++ [a]).filter (·.id ≠ a.id)))
    (htold : ∀ b ∈ clients, (told b.id).Perm (clients.filter (·.id ≠ b.id))) :
    ∀ b ∈ clients ++ [a], ((if b.id = a.id then [] else told b.id) ++ news a others b.id).Perm
      ((clients ++ [a]).filter (·.id ≠ b.id)) := by
  intro b hb
  by_cases hid : b.id = a.id
  · simpa [news, hid] using hothers
  · have hold : b ∈ clients := by
      obtain hb | hb := List.mem_append.1 hb
      · exact hb
      · exact absurd (congrArg _ (List.mem_singleton.1 hb)) hid
    have hnews : news a others b.id = [a] := by
      rw [news, if_neg hid, filter_id_eq hnodup hothers hb hid]
      rfl
    rw [if_neg hid, hnews, List.filter_append, List.filter_cons_of_pos (by simpa using Ne.symm hid)]
    exact (htold b hold).append_right [a]

end Clients

namespace Node

variable {n m : Node} {a : Announcement} {conn : ConnId} {accepted : Nat}
  {clients : List Announcement}

/-- Each of the clients was told of each other one once. -/
def Assembled (n : Node) (accepted : Nat) (clients : List Announcement) : Prop :=
  ∃ told, n.Gathered accepted clients told ∧ ∀ a ∈ clients,
    (told a.id).Perm (clients.filter (·.id ≠ a.id))

theorem receive_of_registration? {f : Frame} (hcenter : n.registry?.isSome)
    (hf : n.routing.registration? f = some a) :
    n.receive f = (n.enroll a).introduce receiveOwn a.id := by
  obtain ⟨registry, hrole⟩ := exists_registry hcenter
  obtain ⟨-, source, hclass⟩ := Routing.registration?_eq_some hf
  have hsame : { n with role := .center registry } = n := by rw [← hrole]
  simp only [receive, receiveWith, hclass, serve, hrole, Registry.request, List.foldl_cons,
    List.foldl_nil, carryOut, hsame]

theorem step_via_of_gathers {r : Routing} {e : Event} (he : e.Gathers r) :
    n.Via (· ≠ .pardon) (n.step e) := by
  have hretains {m : Node} (hv : n.Via (fun a => a.Steady ∧ a.Retains) m) : n.Via (· ≠ .pardon) m :=
    hv.mono fun _ ha => ha.2.ne_pardon
  cases e with
  | accept => exact hretains (accept_steady n)
  | link e => exact hretains (linkEvent_steady n e)
  | tick => exact hretains (tick_steady n)
  | call request => exact hretains (call_steady n request)
  | written conn => exact Takes.via (.write (f := fun l => l.drain.2) fun _ => rfl) nofun
  | stopped conn => exact Takes.via (.write (f := Link.stop) fun _ => rfl) nofun
  | install name moduleId => exact (Takes.tend n.now _).via nofun
  | uninstall name => exact (Takes.tend n.now _).via nofun
  | _ => exact he.elim

namespace Assembled

theorem via (h : n.Assembled accepted clients) (hv : n.Via Move.Plain m) :
    m.Assembled accepted clients := by
  obtain ⟨told, hgathered, htold⟩ := h
  exact ⟨told, hgathered.via hv, htold⟩

theorem meshed (h : n.Assembled accepted clients) : n.Meshed := by
  obtain ⟨told, hgathered, -⟩ := h
  exact hgathered.meshed

theorem center (h : n.Assembled accepted clients) : n.registry?.isSome := by
  obtain ⟨told, hgathered, -⟩ := h
  exact hgathered.center

theorem hasRoom (h : n.Assembled accepted clients)
    (hlt : accepted + clients.length < n.profile.maxConnections) : n.links.hasRoom = true := by
  obtain ⟨told, hgathered, -⟩ := h
  have hcapacity := hgathered.ordered.wired.links.capacity
  simp only [Links.hasRoom, hcapacity, decide_eq_true_eq]
  exact Nat.lt_of_le_of_lt hgathered.size_links hlt

theorem accept (h : n.Assembled accepted clients) : n.accept.Assembled (accepted + 1) clients := by
  obtain ⟨told, hgathered, htold⟩ := h
  exact ⟨told, hgathered.accept, htold⟩

theorem register (h : n.Assembled accepted clients) {loop : Loopback} (hloop : loop.Tame)
    (ha : n.Admits a) (hread : a.Readable) (hnew : ∀ b ∈ clients, b.id ≠ a.id)
    (hroom : n.links.hasRoom = true)
    (hr : ((n.enroll a).introduce loop a.id).refused = []) :
    ((n.enroll a).introduce loop a.id).Assembled accepted (clients ++ [a]) := by
  obtain ⟨told, hgathered, htold⟩ := h
  have henroll := hgathered.enroll ha hread hnew hroom
  have hnews := perm_append_news henroll.nodup (henroll.perm_linkedBesides a.id) htold
  exact ⟨_, henroll.introduce hloop (List.mem_append_right _ (List.mem_singleton_self a)) hr, hnews⟩

theorem receive {r : Routing} (h : n.Assembled accepted clients) (hrouting : n.routing = r)
    {frames : List Frame}
    (hframes : ∀ f ∈ frames, (r.registration? f).isSome ∨ (r.classify f).IsPlain)
    (hnodup : ((clients ++ frames.filterMap r.registration?).map (·.id)).Nodup)
    (hadmits : ∀ a ∈ frames.filterMap r.registration?, n.Admits a)
    (hroom : accepted + (clients ++ frames.filterMap r.registration?).length ≤
      n.profile.maxConnections)
    (hr : (frames.foldl Node.receive n).refused = []) :
    (frames.foldl Node.receive n).Assembled accepted
      (clients ++ frames.filterMap r.registration?) := by
  -- each frame that registers a node moves it from the frames to come to the clients
  induction frames generalizing n clients with
  | nil => simpa using h
  | cons f rest ih =>
    rw [List.forall_mem_cons] at hframes
    rw [List.foldl_cons] at hr ⊢
    have hvia := receive_via n f
    have hrouting' := hvia.routing_eq.trans hrouting
    cases hreg : r.registration? f with
    | none =>
      rw [List.filterMap_cons_none hreg] at hnodup hadmits hroom ⊢
      have hplain : (n.routing.classify f).IsPlain := by
        rw [hrouting]
        exact hframes.1.resolve_left (by simp [hreg])
      exact ih (h.via (h.meshed.receive_via hplain)) hrouting' hframes.2 hnodup
        (fun a ha => hvia.admits (hadmits a ha)) (hvia.profile_eq ▸ hroom) hr
    | some a =>
      rw [List.filterMap_cons_some hreg, List.append_cons] at hnodup hroom ⊢
      rw [List.filterMap_cons_some hreg, List.forall_mem_cons] at hadmits
      have hkept : (n.receive f).refused = [] := by
        have hlater : (n.receive f).Via Move.Inner (rest.foldl Node.receive (n.receive f)) :=
          Via.foldl _ fun n f _ => receive_via n f
        exact hlater.refused_eq_nil_of_inner hr
      have hnew : ∀ b ∈ clients, b.id ≠ a.id := by
        rw [List.map_append] at hnodup
        exact (nodup_ids_concat.1 (List.nodup_append.1 hnodup).1).2
      have hlt : accepted + clients.length < n.profile.maxConnections := by
        simp only [List.length_append, List.length_singleton] at hroom
        omega
      refine ih ?_ hrouting' hframes.2 hnodup (fun b hb => hvia.admits (hadmits.2 b hb))
        (hvia.profile_eq ▸ hroom) hr
      rw [receive_of_registration? h.center (hrouting ▸ hreg)] at hkept ⊢
      obtain ⟨hread, -⟩ := Routing.registration?_eq_some hreg
      exact h.register receiveOwn_tame hadmits.1 hread hnew (h.hasRoom hlt) hkept

theorem stepAt (h : n.Assembled accepted clients) {e : Event} (t : Nat) (he : e.Gathers n.routing)
    (hnodup : ((clients ++ e.frames.filterMap n.routing.registration?).map (·.id)).Nodup)
    (hadmits : ∀ a ∈ e.frames.filterMap n.routing.registration?, n.Admits a)
    (hroom : accepted + (clients ++ e.frames.filterMap n.routing.registration?).length ≤
      n.profile.maxConnections)
    (hr : (n.stepAt t e).refused = []) :
    (n.stepAt t e).Assembled (accepted + e.isAccept.toNat)
      (clients ++ e.frames.filterMap n.routing.registration?) := by
  have htend : n.Takes .tend { n with now := t } := .tend t n.catalog
  have h' := h.via (htend.via trivial)
  have hplain {e : Event} (he : e.IsPlain) (hframes : e.frames = [])
      (haccept : e.isAccept = false) : (n.stepAt t e).Assembled (accepted + e.isAccept.toNat)
        (clients ++ e.frames.filterMap n.routing.registration?) := by
    rw [hframes, haccept, List.filterMap_nil, List.append_nil]
    exact h'.via (h'.meshed.step_via h'.center he)
  cases e with
  | accept =>
    have hnone : Event.accept.frames = [] := rfl
    rw [hnone, List.filterMap_nil, List.append_nil]
    exact h'.accept
  | link e =>
    cases e with
    | frames conn frames =>
      exact h'.receive htend.routing_eq he hnodup (fun a ha => htend.admits (hadmits a ha)) hroom hr
    | _ => exact hplain he rfl rfl
  | _ => exact hplain he rfl rfl

end Assembled

/-- A run of a center in which clients gather: all that happens is that they connect, register once
each, and ask for things and offer them. No link ends or refuses a frame, and there is room for
all. -/
structure Gathering (n : Node) (events : List (Nat × Event)) : Prop where
  gathers : ∀ x ∈ events, x.2.Gathers n.routing
  nodup : ((registrations n.routing events).map (·.id)).Nodup
  admits : ∀ a ∈ registrations n.routing events, n.Admits a
  room : events.countP (·.2.isAccept) + (registrations n.routing events).length ≤
    n.profile.maxConnections
  kept : (n.run events).refused = []

theorem Gathering.of_concat {before : List (Nat × Event)} {t : Nat} {e : Event}
    (h : n.Gathering (before ++ [(t, e)])) : n.Gathering before where
  gathers x hx := h.gathers x (List.mem_append_left _ hx)
  nodup := by
    have hnodup := h.nodup
    rw [registrations_append, List.map_append] at hnodup
    exact (List.nodup_append.1 hnodup).1
  admits a ha := h.admits a (by rw [registrations_append]; exact List.mem_append_left _ ha)
  room := by
    have hroom := h.room
    rw [registrations_append, List.countP_append, List.length_append] at hroom
    omega
  kept := by
    have hkept := h.kept
    rw [run_concat] at hkept
    have he := h.gathers (t, e) (List.mem_append_right _ (List.mem_singleton_self _))
    have hstep : (n.run before).Via (· ≠ .pardon) ((n.run before).stepAt t e) :=
      ((Takes.tend t (n.run before).catalog).via nofun).trans (step_via_of_gathers he)
    exact hstep.refused_eq_nil (fun _ ha => ha) hkept

theorem Assembled.run (h : n.Assembled 0 []) {events : List (Nat × Event)}
    (hg : n.Gathering events) :
      (n.run events).Assembled (events.countP (·.2.isAccept)) (registrations n.routing events) := by
  induction events using List.reverseRecOn with
  | nil => exact h
  | append_singleton before x ih =>
    obtain ⟨t, e⟩ := x
    have hbefore := ih hg.of_concat
    have hvia := run_via n before
    have hkept := hg.kept
    have hnodup := hg.nodup
    have hroom := hg.room
    have hadmits : ∀ a ∈ e.frames.filterMap n.routing.registration?, (n.run before).Admits a := by
      intro a ha
      refine hvia.admits (hg.admits a ?_)
      rw [registrations_append, registrations_singleton]
      exact List.mem_append_right _ ha
    have he : e.Gathers n.routing :=
      hg.gathers (t, e) (List.mem_append_right _ (List.mem_singleton_self _))
    rw [registrations_append, registrations_singleton, ← hvia.routing_eq] at hnodup hroom ⊢
    rw [← hvia.routing_eq] at hadmits he hbefore
    rw [run_concat] at hkept ⊢
    rw [List.countP_append] at hroom ⊢
    have hcount : List.countP (fun x => x.2.isAccept) [(t, e)] = e.isAccept.toNat := by
      cases ha : e.isAccept <;> simp [ha]
    rw [hcount] at hroom ⊢
    refine hbefore.stepAt t he hnodup hadmits ?_ hkept
    rw [hvia.profile_eq]
    omega

theorem filter_introduces (n : Node) (conn : ConnId) (id : NodeId) :
    (n.queuedOn conn).filter (·.Introduces id) =
      (n.introductions conn).filter (·.Introduces id) := by
  rw [introductions, List.filter_filter]
  refine List.filter_congr fun f _ => ?_
  cases hf : f.introduced? <;> simp [Frame.Introduces, hf]

theorem Gathered.filter_introduces {told : NodeId → List Announcement} {i : Announcement}
    (h : n.Gathered accepted clients told) (htold : ∀ b ∈ told i.id, b ∈ clients)
    (hintro :
      n.introductions conn = (told i.id).map fun b => (Command.address b).frame n.self i.handle)
    (id : NodeId) :
    (n.queuedOn conn).filter (·.Introduces id) =
      ((told i.id).filter (·.id = id)).map fun b => (Command.address b).frame n.self i.handle := by
  rw [Node.filter_introduces, hintro, List.filter_map]
  congr 1
  refine List.filter_congr fun b hb => ?_
  simp [Frame.Introduces, (h.readable b (htold b hb)).introduced?_frame]

def registering (self : NodeId) (conn : ConnId) (a : Announcement) : Event :=
  .link (.frames conn [(Command.register a).frame a.id ⟨self, centerModule⟩])

theorem registration?_of_registering {r : Routing} (hcenter : r.isCenter) (hread : a.Readable)
    (self : NodeId) :
    r.registration? ((Command.register a).frame a.id ⟨self, centerModule⟩) = some a := by
  have hne : centerModule ≠ meshModule := by decide
  simp [Routing.registration?, Routing.classify, Command.frame, hread.parse_register, hcenter, hne]

theorem registrations_map_registering {r : Routing} (hcenter : r.isCenter)
    (hread : ∀ a ∈ clients, a.Readable) (self : NodeId) (t : Nat) (conn : ConnId) :
    registrations r (clients.map fun a => (t, registering self conn a)) = clients := by
  induction clients with
  | nil => rfl
  | cons a rest ih =>
    rw [List.forall_mem_cons] at hread
    have hfirst : (registering self conn a).frames.filterMap r.registration? = [a] := by
      rw [registering, Event.frames,
        List.filterMap_cons_some (registration?_of_registering hcenter hread.1 self)]
      rfl
    rw [List.map_cons, registrations, List.flatMap_cons, hfirst]
    exact congrArg (a :: ·) (ih hread.2)

/-- Clients have registered and nothing was written yet: the link of each of them has all places but
those of the introductions, and no frame was refused. -/
structure Spacious (n : Node) (clients : List Announcement)
    (told : NodeId → List Announcement) : Prop where
  gathered : n.Gathered 0 clients told
  ledger : ∃ written, n.Ledger written
  kept : n.refused = []
  room : ∀ a ∈ clients, ∀ p conn, n.roster.get? a.id = some p → p.liveLink? = some conn →
    n.room conn + (told a.id).length = n.places

theorem Via.room_eq (ho : n.Ordered)
    (h : n.Via (fun a => a.Retains ∧ ∀ id f, a ≠ .queue id conn f) m) {id : NodeId} {p : Peer}
    (hp : m.roster.get? id = some p) (hl : p.liveLink? = some conn) :
    m.room conn = n.room conn := by
  have hroom : m.Ordered ∧ (m.Gone conn ∨ m.room conn = n.room conn) := by
    refine h.keeps (I := fun k => k.Ordered ∧ (k.Gone conn ∨ k.room conn = n.room conn)) ?_
      ⟨ho, .inr rfl⟩
    rintro k move l ⟨hk, hgone | hsame⟩ ⟨hretains, hne⟩ ht
    · exact ⟨ht.ordered hk, .inl (ht.gone hgone)⟩
    · exact ⟨ht.ordered hk, (ht.room_eq hk hretains hne).imp_right fun h => h.trans hsame⟩
  exact hroom.2.resolve_left fun hgone => hgone.link_ne id p hp (Peer.liveLink?_eq_some_iff.1 hl).1

namespace Spacious

variable {told : NodeId → List Announcement} {others : List Announcement} {b : Announcement}
  {loop : Loopback}

theorem tend (h : n.Spacious clients told) (t : Nat) :
    Spacious { n with now := t } clients told := by
  have htend : n.Takes .tend { n with now := t } := .tend t n.catalog
  obtain ⟨written, hledger⟩ := h.ledger
  exact ⟨h.gathered.takes htend trivial, ⟨written, htend.ledger hledger trivial⟩, h.kept, h.room⟩

theorem tell (h : n.Spacious clients told) (ha : a ∈ clients) (hb : b ∈ clients)
    (hlt : (told a.id).length < n.places) (loop : Loopback) :
    (n.tell loop a.handle (.address b)).Spacious clients
      fun id => told id ++ if id = a.id then [b] else [] := by
  have ho := h.gathered.ordered
  obtain ⟨written, hledger⟩ := h.ledger
  obtain ⟨p, conn, hp, hl, -⟩ := h.gathered.client a ha
  have hroom := h.room a ha p conn hp hl
  have hqueue : n.Takes (.queue a.id conn ((Command.address b).frame n.self a.handle))
      (n.tell loop a.handle (.address b)) := by
    refine (h.gathered.exists_tell ha hb hp hl loop).resolve_right fun hrefuse => ?_
    have hfull := (hrefuse.room_of_refuse hledger).1
    omega
  have hkept : (n.tell loop a.handle (.address b)).refused = [] := by
    generalize n.tell loop a.handle (.address b) = m at hqueue
    cases hqueue with
    | queue => exact h.kept
  refine ⟨h.gathered.tell ha hb hkept, ⟨written, hqueue.ledger hledger trivial⟩, hkept, ?_⟩
  intro c hc q conn' hq hl'
  -- only the link of `a` has one place less, and its node one introduction more
  obtain ⟨q', hq', halters⟩ := hqueue.alters hq
  have hlive' : q'.liveLink? = some conn' := (halters.keeps trivial).liveLink?.symm.trans hl'
  have hroom' := h.room c hc q' conn' hq' hlive'
  rw [hqueue.places_eq, List.length_append]
  by_cases hid : c.id = a.id
  · rw [hid, hp, Option.some.injEq] at hq'
    rw [← hq', hl, Option.some.injEq] at hlive'
    subst hlive'
    have htaken := hqueue.room_of_queue hledger
    rw [if_pos hid, List.length_singleton]
    omega
  · have hother : n.Via (fun a => a.Retains ∧ ∀ id f, a ≠ .queue id conn' f)
        (n.tell loop a.handle (.address b)) := by
      refine hqueue.via ⟨trivial, fun id f heq => ?_⟩
      cases heq
      exact hid (ho.wired.link_inj hq' hp (Peer.liveLink?_eq_some_iff.1 hlive').1
        (Peer.liveLink?_eq_some_iff.1 hl).1)
    rw [hother.room_eq ho hq hl', if_neg hid]
    exact hroom'

theorem foldl_acquaint (h : n.Spacious clients told) (hloop : loop.Tame) (ha : a ∈ clients)
    (hothers : ∀ b ∈ others, b ∈ clients ∧ b.id ≠ a.id)
    (hle : ∀ c ∈ clients, (told c.id ++ news a others c.id).length ≤ n.places) :
    (others.foldl (acquaint loop a) n).Spacious clients fun id => told id ++ news a others id := by
  induction others generalizing n told with
  | nil => simpa [news] using h
  | cons b rest ih =>
    rw [List.forall_mem_cons] at hothers
    obtain ⟨⟨hb, hne⟩, hrest⟩ := hothers
    rw [List.foldl_cons]
    simp only [news_cons hne, ← List.append_assoc] at hle ⊢
    have hplaces (k : Node) (dest : Handle) (c : Command) :
        (k.tell loop dest c).places = k.places :=
      (tell_via hloop k dest c).places_eq
    have hfirst : (told b.id).length < n.places := by
      have hbound := hle b hb
      simp only [if_true, List.length_append, List.length_singleton] at hbound
      omega
    have hsecond : (told a.id ++ if a.id = b.id then [a] else []).length < n.places := by
      have hbound := hle a ha
      simp only [if_true, List.length_append, List.length_singleton] at hbound ⊢
      omega
    have hpair := (h.tell hb ha hfirst loop).tell ha hb (by rwa [hplaces]) loop
    exact ih hpair hrest (by rwa [acquaint, hplaces, hplaces])

theorem enroll (h : n.Spacious clients told) (ha : n.Admits a) (hread : a.Readable)
    (hnew : ∀ b ∈ clients, b.id ≠ a.id) (hroom : n.links.hasRoom = true) :
    (n.enroll a).Spacious (clients ++ [a]) fun id => if id = a.id then [] else told id := by
  have ho := h.gathered.ordered
  obtain ⟨written, hledger⟩ := h.ledger
  obtain ⟨p, k, hp, hlink, hlearn, hdial⟩ := h.gathered.enroll_takes ha hnew hroom
  have hentry := hlearn.get?_of_learn_dial hdial hp
  have hvia (conn : ConnId) :
      n.Via (fun a => a.Retains ∧ ∀ id f, a ≠ .queue id conn f) (n.enroll a) :=
    (hlearn.via ⟨trivial, nofun⟩).trans (hdial.via ⟨trivial, nofun⟩)
  have hkept : (n.enroll a).refused = n.refused := by
    generalize n.enroll a = m at hdial
    cases hlearn
    cases hdial
    rfl
  have hledger' := hdial.ledger (hlearn.ledger hledger trivial) trivial
  refine ⟨h.gathered.enroll ha hread hnew hroom, ⟨written, hledger'⟩, hkept.trans h.kept, ?_⟩
  intro b hb q conn hq hl
  rw [(hvia conn).room_eq ho hq hl, hdial.places_eq, hlearn.places_eq]
  rw [hentry] at hq
  rw [List.mem_append, List.mem_singleton] at hb
  obtain hb | rfl := hb
  · rw [if_neg (hnew b hb)] at hq ⊢
    exact h.room b hb q conn hq hl
  · rw [if_pos rfl, Option.some.injEq] at hq
    obtain rfl : n.links.nextId.1 = conn := by rw [← hq] at hl; exact Option.some.inj hl
    simp [Node.room, ho.wired.links.get?_nextId_eq_none]

theorem register (h : n.Spacious clients told)
    (htold : ∀ b ∈ clients, (told b.id).Perm (clients.filter (·.id ≠ b.id))) (ha : n.Admits a)
    (hread : a.Readable) (hnew : ∀ b ∈ clients, b.id ≠ a.id)
    (hlt : clients.length < n.profile.maxConnections)
    (hle : clients.length ≤ n.places) (self : NodeId) (t : Nat) (conn : ConnId) :
    ∃ told', (n.stepAt t (registering self conn a)).Spacious (clients ++ [a]) told' ∧
      ∀ b ∈ clients ++ [a], (told' b.id).Perm ((clients ++ [a]).filter (·.id ≠ b.id)) := by
  have hroom : n.links.hasRoom = true :=
    Assembled.hasRoom ⟨told, h.gathered, htold⟩ (by rwa [Nat.zero_add])
  have htend : n.Takes .tend { n with now := t } := .tend t n.catalog
  have henroll := (h.tend t).enroll (htend.admits ha) hread hnew hroom
  have hplaces : (Node.enroll { n with now := t } a).places = n.places := (enroll_via _ a).places_eq
  have hstep : n.stepAt t (registering self conn a) =
      (Node.enroll { n with now := t } a).introduce receiveOwn a.id :=
    receive_of_registration? (n := { n with now := t }) h.gathered.center
      (registration?_of_registering h.gathered.center hread self)
  have hmem : a ∈ clients ++ [a] := List.mem_append_right _ (List.mem_singleton_self a)
  have hnews :=
    perm_append_news henroll.gathered.nodup (henroll.gathered.perm_linkedBesides a.id) htold
  rw [hstep, henroll.gathered.introduce_eq hmem]
  refine ⟨_, henroll.foldl_acquaint receiveOwn_tame hmem
    (fun b hb => henroll.gathered.mem_linkedBesides_iff.1 hb) (fun c hc => ?_), hnews⟩
  -- a client is told of all but itself
  have hfewer : ((clients ++ [a]).filter (·.id ≠ c.id)).length < (clients ++ [a]).length :=
    List.length_filter_lt_length_iff_exists.2 ⟨c, hc, by simp⟩
  rw [List.length_append, List.length_singleton] at hfewer
  rw [(hnews c hc).length_eq, hplaces]
  omega

end Spacious

section Start

variable {profile : Profile} {catalog : Catalog} {port : UInt16} {now : Nat}
  {result : Except Fault Handshake} {n₀ : Node}

theorem eq_idle_of_start (started : start profile catalog port now result = .ok n₀)
    (center : n₀.registry?.isSome) : n₀ = idle profile catalog port now := by
  obtain ⟨-, ⟨-, hidle⟩ | ⟨hm, hjoin⟩⟩ := start_cases started
  · exact hidle
  · have hvia := start_via started
    rw [hvia.isSome_registry?, hm] at center
    cases center

theorem gathered_of_start (started : start profile catalog port now result = .ok n₀)
    (center : n₀.registry?.isSome) : n₀.Gathered 0 [] fun _ => [] := by
  have ho : n₀.Ordered := ordered_of_run started []
  obtain rfl := eq_idle_of_start started center
  refine ⟨ho, center, ?_, ?_, nofun, nofun, .nil, nofun, fun id p hp hid _ => ?_, fun _ _ => rfl⟩
  · simp only [idle, Roster.setOwnHandle, Roster.ofSize, Roster.size, Array.size_modify,
      Array.size_replicate]
    omega
  · simp [idle, Links.ofCapacity, Links.size, Slots.ofCapacity, Slots.size]
  · obtain ⟨hstate, -, -, hblank⟩ := get?_idle hp
    exact ⟨hstate, by rw [hblank hid]⟩

theorem exists_spacious (started : start profile catalog port now result = .ok n₀)
    (center : n₀.registry?.isSome) {clients : List Announcement}
    (hnodup : (clients.map (·.id)).Nodup)
    (hadmits : ∀ a ∈ clients, n₀.Admits a) (hread : ∀ a ∈ clients, a.Readable)
    (hmax : clients.length ≤ n₀.profile.maxConnections) (hplaces : clients.length ≤ n₀.places + 1)
    (t : Nat)
    (conn : ConnId) :
    ∃ told, (n₀.run (clients.map fun a => (t, registering n₀.self conn a))).Spacious clients told ∧
      ∀ a ∈ clients, (told a.id).Perm (clients.filter (·.id ≠ a.id)) := by
  induction clients using List.reverseRecOn with
  | nil =>
    have hkept : n₀.refused = [] := by rw [eq_idle_of_start started center]; rfl
    exact ⟨_, ⟨gathered_of_start started center, ⟨_, ledger_of_run started []⟩, hkept, nofun⟩,
      nofun⟩
  | append_singleton before a ih =>
    obtain ⟨hdistinct, hnew⟩ := nodup_ids_concat.1 hnodup
    rw [List.length_append, List.length_singleton] at hmax hplaces
    rw [List.forall_mem_append, List.forall_mem_singleton] at hadmits hread
    obtain ⟨told, h, htold⟩ := ih hdistinct hadmits.1 hread.1 (by omega) (by omega)
    rw [List.map_append, List.map_singleton, run_concat]
    generalize before.map (fun a => (t, registering n₀.self conn a)) = events at h
    have hvia := run_via n₀ events
    have hplaces' : (n₀.run events).places = n₀.places := hvia.places_eq
    have hlt : before.length < (n₀.run events).profile.maxConnections := by
      rw [hvia.profile_eq]
      omega
    exact h.register htold (hvia.admits hadmits.2) hread.2 hnew hlt (by omega) n₀.self t conn

theorem gathering_of_registrations (started : start profile catalog port now result = .ok n₀)
    (center : n₀.registry?.isSome) (clients : List Announcement)
    (hnodup : (clients.map (·.id)).Nodup)
    (hadmits : ∀ a ∈ clients, n₀.Admits a) (hread : ∀ a ∈ clients, a.Readable)
    (hmax : clients.length ≤ n₀.profile.maxConnections) (hplaces : clients.length ≤ n₀.places + 1)
    (t : Nat)
    (conn : ConnId) : n₀.Gathering (clients.map fun a => (t, registering n₀.self conn a)) := by
  have hregistrations := registrations_map_registering (r := n₀.routing) center hread n₀.self t conn
  refine ⟨fun x hx => ?_, by rwa [hregistrations], by rwa [hregistrations], ?_, ?_⟩
  · obtain ⟨a, ha, rfl⟩ := List.mem_map.1 hx
    refine List.forall_mem_singleton.2 (.inl ?_)
    rw [registration?_of_registering center (hread a ha)]
    rfl
  · have hnone :
        (clients.map fun a => (t, registering n₀.self conn a)).countP (·.2.isAccept) = 0 := by
      rw [List.countP_map]
      exact List.countP_eq_zero.2 fun a _ => nofun
    rw [hnone, hregistrations, Nat.zero_add]
    exact hmax
  · obtain ⟨told, h, -⟩ := exists_spacious started center hnodup hadmits hread hmax hplaces t conn
    exact h.kept

/-- When clients have gathered at a center, in any order and whatever they asked for and offered
meanwhile, each of them is linked, and on its link each other one was introduced once, with the
address and the handle that it announced. No client was introduced on its own link, and nobody on a
link that is on no entry. -/
theorem introduced_of_run (started : start profile catalog port now result = .ok n₀)
    (center : n₀.registry?.isSome) (events : List (Nat × Event)) (gathering : n₀.Gathering events) :
    (∀ i ∈ registrations n₀.routing events, ∃ p conn,
      (n₀.run events).roster.get? i.id = some p ∧ p.liveLink? = some conn ∧
      (∀ j ∈ registrations n₀.routing events, j.id ≠ i.id →
        ((n₀.run events).queuedOn conn).filter (·.Introduces j.id) =
          [(Command.address j).frame n₀.self i.handle] ∧
        Command.parse (Command.address j).payload = .ok (.address j)) ∧
      ((n₀.run events).queuedOn conn).filter (·.Introduces i.id) = []) ∧
    ∀ conn, (∀ id p, (n₀.run events).roster.get? id = some p → p.link ≠ some conn) →
      ∀ id, ((n₀.run events).queuedOn conn).filter (·.Introduces id) = [] := by
  have hself : (n₀.run events).self = n₀.self := (run_via n₀ events).self_eq
  obtain ⟨told, h, htold⟩ := Assembled.run ⟨_, gathered_of_start started center, nofun⟩ gathering
  refine ⟨fun i hi => ?_, fun conn hconn id => by
    rw [filter_introduces, h.silent conn hconn, List.filter_nil]⟩
  obtain ⟨p, conn, hp, hl, -, -, hintro⟩ := h.client i hi
  have hperm := htold i hi
  have hlog := h.filter_introduces (fun b hb => (List.mem_filter.1 (hperm.subset hb)).1) hintro
  refine ⟨p, conn, hp, hl, fun j hj hne => ⟨?_, (h.readable j hj).parse_address⟩, ?_⟩
  · rw [hlog, filter_id_eq h.nodup hperm hj hne, hself]
    rfl
  · have hnone : (told i.id).filter (·.id = i.id) = [] := by
      refine List.filter_eq_nil_iff.2 fun b hb => ?_
      simpa using (List.mem_filter.1 (hperm.subset hb)).2
    rw [hlog, hnone, List.map_nil]

/-- Nodes 3 and 4 register with a center, and node 3 is told of node 4 once. -/
theorem introduced_of_run_pair :
    ∃ (n₀ : Node) (a b : Announcement) (events : List (Nat × Event)), a.id = ⟨3⟩ ∧ b.id = ⟨4⟩ ∧
      start {} {} 7100 0 (.error .closed) = .ok n₀ ∧ n₀.registry?.isSome ∧ n₀.Gathering events ∧
      registrations n₀.routing events = [a, b] ∧ ∃ p conn,
        (n₀.run events).roster.get? a.id = some p ∧
        p.liveLink? = some conn ∧
        ((n₀.run events).queuedOn conn).filter (·.Introduces b.id) =
          [(Command.address b).frame n₀.self a.handle] := by
  obtain ⟨a, ha⟩ :
      ∃ a : Announcement, a = ⟨⟨3⟩, { nodeHost := "lab", nodePort := 7103 }, ⟨⟨3⟩, meshModule⟩⟩ :=
    ⟨_, rfl⟩
  obtain ⟨b, hb⟩ :
      ∃ b : Announcement, b = ⟨⟨4⟩, { nodeHost := "lab", nodePort := 7104 }, ⟨⟨4⟩, meshModule⟩⟩ :=
    ⟨_, rfl⟩
  have started : start {} {} 7100 0 (.error .closed) = .ok (idle {} {} 7100 0) := rfl
  have center : (Node.registry? (idle {} {} 7100 0)).isSome := by decide +kernel
  have hhosts : ∀ host ∈ ["lab", "", ""], host ≠ noHost ∧ (host = "" ∨ Text.IsWord host) := by
    have hlab : Text.IsWord "lab" := Text.isWord_of_all (by decide) (by decide)
    simp only [List.forall_mem_cons]
    exact ⟨⟨by decide, .inr hlab⟩, ⟨by decide, .inl trivial⟩, ⟨by decide, .inl trivial⟩, nofun⟩
  have hread : ∀ c ∈ [a, b], c.Readable := by
    subst ha hb
    simp only [List.forall_mem_cons]
    exact ⟨⟨by decide, hhosts⟩, ⟨by decide, hhosts⟩, nofun⟩
  have hadmits : ∀ c ∈ [a, b], (idle {} {} 7100 0).Admits c := by
    subst ha hb
    simp only [List.forall_mem_cons]
    exact ⟨⟨by decide +kernel, by decide, by decide, rfl, by decide +kernel⟩,
      ⟨by decide +kernel, by decide, by decide, rfl, by decide +kernel⟩, nofun⟩
  have hne : b.id ≠ a.id := by rw [ha, hb]; decide
  have gathering :=
    gathering_of_registrations started center [a, b] (by simp [hne.symm]) hadmits hread
    (Nat.le_of_ble_eq_true rfl) (Nat.le_of_ble_eq_true rfl) 1 ⟨1⟩
  have hregistrations :=
    registrations_map_registering (r := (idle {} {} 7100 0).routing) center hread
    (idle {} {} 7100 0).self 1 ⟨1⟩
  obtain ⟨hclients, -⟩ := introduced_of_run started center _ gathering
  rw [hregistrations] at hclients
  obtain ⟨p, conn, hp, hl, hothers, -⟩ := hclients a (List.mem_cons_self ..)
  obtain ⟨hone, -⟩ := hothers b (by simp) hne
  exact ⟨_, a, b, _, by rw [ha], by rw [hb], started, center, gathering, hregistrations, p, conn,
    hp, hl, hone⟩

end Start

end Node

end Meshwork
