import Meshwork.Proofs.Node.Replay

/-!
# Who links the center

The entry of the center gets its link from a handshake, or it is dialled like that of any other
node. Main statement: `Lost.stepAt`, a lost center is dialled exactly when a frame registers it, or
names a module of it, while its entry is empty. Each session can end so: `Session.dials_of_loss`.
-/

namespace Meshwork.Node

variable {n m : Node} {a : Move} {conn : ConnId} {center : CenterLink} {directory : Handle}

def MayDial (n : Node) (id : NodeId) : Prop :=
  ∃ p ∈ n.roster.get? id, p.state = .empty ∧ p.address.endpoint?.isSome ∧ n.links.hasRoom = true

/-- While a list is gone through, `P` holds of an element and the node at that time. -/
def Hits {α : Type} (step : Node → α → Node) (P : Node → α → Prop) : Node → List α → Prop
  | _, [] => False
  | n, x :: rest => P n x ∨ Hits step P (step n x) rest

/-- A frame makes a node dial another one, which registers or has a module that is to be reached. -/
def Reaches (id : NodeId) (n : Node) (f : Frame) : Prop :=
  match n.routing.classify f with
  | .control _ (.register a) =>
    a.id = id ∧ MayDial { n with roster := n.roster.update a.id a.address a.handle } id
  | .control _ (.handle _ handle) => handle.node = id ∧ n.MayDial id
  | .control _ (.handles name handles) =>
    Hits (·.reach name ·) (fun n handle => handle.node = id ∧ n.MayDial id)
      (n.emit (.report (.batchBegin name))) handles
  | _ => False

/-- Among the frames that an event brings there is one by which the node dials another one. -/
def ReachedBy (n : Node) (id : NodeId) (t : Nat) (e : Event) : Prop :=
  Hits Node.receive (Reaches id) { n with now := t } (n.framesOf e)

/-- The center is known, and its entry has no link. -/
structure Lost (n : Node) (center : CenterLink) : Prop where
  ordered : n.Ordered
  known : n.center? = some center
  unlinked : ∀ p, n.roster.get? center.node = some p → p.link = none

def Dials (n : Node) (center : CenterLink) : Prop :=
  ∃ conn, n.Session conn center.directory ∧ n.Dialled conn

namespace Lost

theorem member (h : n.Lost center) : n.Member := ⟨h.ordered, registry?_of_center? h.known⟩

theorem centerLink? (h : n.Lost center) : n.centerLink? = none := by
  cases hl : n.centerLink? with
  | none => rfl
  | some conn =>
    obtain ⟨c, hc, hentry⟩ := Option.bind_eq_some_iff.1 hl
    obtain ⟨p, hp, hlive⟩ := Option.bind_eq_some_iff.1 hentry
    rw [h.known, Option.some.injEq] at hc
    rw [← hc] at hp
    have hnone := h.unlinked p hp
    rw [(Peer.liveLink?_eq_some_iff.1 hlive).1] at hnone
    cases hnone

end Lost

theorem lost_of_centerLink? (ho : n.Ordered) (hc : n.center? = some center)
    (hl : n.centerLink? = none) : n.Lost center := by
  refine ⟨ho, hc, fun p hp => ?_⟩
  have hlive : p.liveLink? = none := by
    simpa only [Node.centerLink?, hc, hp, Option.bind_some] using hl
  cases hlink : p.link with
  | none => rfl
  | some conn =>
    have hstate := (ho.wired.link_iff _ p hp).1 (by simp [hlink])
    rw [Peer.liveLink?_eq_some_iff.2 ⟨hlink, hstate⟩] at hlive
    cases hlive

theorem Takes.lost (h : n.Lost center) (ht : n.Takes a m) (ha : ¬ a.LinksTo center.node)
    (hj : ¬ a.Joins) : m.Lost center := by
  refine ⟨ht.ordered h.ordered, (ht.center?_eq hj).trans h.known, fun p hp => ?_⟩
  obtain ⟨q, hq, hsame | hnone | ⟨hlinks, -⟩⟩ := ht.link_cases hp
  · rw [hsame]
    exact h.unlinked q hq
  · exact hnone
  · exact absurd hlinks ha

theorem Via.lost {P : Move → Prop} (h : n.Via P m) (hn : n.Lost center)
    (hP : ∀ a, P a → ¬ a.LinksTo center.node ∧ ¬ a.Joins) : m.Lost center :=
  h.keeps (fun _ a _ hk ha ht => ht.lost hk (hP a ha).1 (hP a ha).2) hn

theorem Via.dials (h : n.Via Move.Inner m) (hn : n.Dials center) : m.Dials center := by
  obtain ⟨conn, hs, hd⟩ := hn
  exact ⟨conn, h.session hs, h.dialled hd⟩

theorem Ordered.dial_of_mayDial (ho : n.Ordered) {id : NodeId} (hid : id ≠ n.self)
    (hmay : n.MayDial id) :
    ∃ m, n.dial id = some m ∧ n.Takes (.dial id n.links.nextId.1) m := by
  obtain ⟨p, hp, hstate, hendpoint, hroom⟩ := hmay
  obtain ⟨endpoint, he⟩ := Option.isSome_iff_exists.1 hendpoint
  obtain ⟨i, links, hi⟩ := ho.wired.links.kept.nextId.exists_insert hroom
    (n.newLink n.links.nextId.1) (some id)
  have hp' : n.roster.get? id = some p := hp
  have hunlinked : ¬ p.Linked := by simp [Peer.linked_iff, hstate]
  have hshaking : p.state ≠ .handshaking := by simp [hstate]
  refine ⟨_, ?_, Takes.dial hid hp' hunlinked hshaking he hroom hi⟩
  simp only [dial, hp', hunlinked, if_false, hshaking, he, hroom, Bool.not_true, Bool.false_eq_true,
    hi]
  rfl

theorem Ordered.reach_of_mayDial (ho : n.Ordered) {handle : Handle} (hid : handle.node ≠ n.self)
    (hmay : n.MayDial handle.node) (name : String) :
    ∃ m, n.Takes (.dial handle.node n.links.nextId.1) m ∧
      m.Via (fun a => ∃ name handle, a = .bind name handle) (n.reach name handle) := by
  obtain ⟨p, hp, -⟩ := id hmay
  have hin := Roster.contains_of_get? hp
  obtain ⟨m, hdial, htakes⟩ := ho.dial_of_mayDial hid hmay
  have hreach : n.reach name handle =
      if m.roster.CanBind handle.node (handle.withNode handle.node) then
        emit { m with roster := m.roster.bind handle.node (handle.withNode handle.node) }
          (.report (.started name (handle.withNode handle.node)
            (((m.roster.get? handle.node).map (·.address)).getD {})))
      else m := by
    simp only [reach, hin.1, if_true, hin, not_true, if_false, hid, hdial]
  refine ⟨m, htakes, ?_⟩
  rw [hreach]
  split
  · rename_i hbind
    have hbound :=
      @Takes.bind m name (handle.withNode handle.node) hbind (.inr (linked_of_dial hdial hid))
    exact (hbound _).via ⟨_, _, rfl⟩
  · exact .refl m

namespace Lost

theorem dials_of_dial (h : n.Lost center) (ht : n.Takes (.dial center.node conn) m) :
    m.Dials center := by
  obtain ⟨-, -, hnode⟩ := h.ordered.seated.center center h.known
  have hcenter := (ht.center?_eq id).trans h.known
  obtain ⟨p, -, hentry⟩ := ht.entry_of_dial
  refine ⟨conn,
    ⟨ht.ordered h.ordered, by rw [hnode]; exact hcenter, _, by rw [hnode]; exact hentry, rfl⟩, ?_⟩
  cases ht with
  | @dial _ _ endpoint => exact ⟨endpoint, List.mem_append_right _ (List.mem_singleton_self _)⟩

theorem dial_eq_none (h : n.Lost center) (hmay : ¬ n.MayDial center.node) :
    n.dial center.node = none := by
  unfold dial
  split
  · rfl
  rename_i p hp
  have hunlinked : ¬ p.Linked := by simp [Peer.linked_iff, h.unlinked p hp]
  rw [if_neg hunlinked]
  split
  · rfl
  rename_i hshaking
  have hstate := h.ordered.wired.state_eq_empty hp hunlinked hshaking
  split
  · rfl
  rename_i endpoint he
  split
  · rfl
  rename_i hroom
  exact absurd ⟨p, hp, hstate, by simp [he], by simpa using hroom⟩ hmay

theorem reach_of_mayDial (h : n.Lost center) (hmay : n.MayDial center.node) (name : String)
    {handle : Handle} (hnode : handle.node = center.node) : (n.reach name handle).Dials center := by
  obtain ⟨-, hne, -⟩ := h.ordered.seated.center center h.known
  rw [← hnode] at hmay hne
  obtain ⟨m, hdial, hbind⟩ := h.ordered.reach_of_mayDial hne hmay name
  refine Via.dials (hbind.mono ?_) (h.dials_of_dial (hnode ▸ hdial))
  rintro _ ⟨_, _, rfl⟩
  trivial

theorem reach_of_not_mayDial (h : n.Lost center) (name : String) {handle : Handle}
    (hmay : ¬ (handle.node = center.node ∧ n.MayDial center.node)) :
    (n.reach name handle).Lost center := by
  obtain ⟨hin, hne, -⟩ := h.ordered.seated.center center h.known
  by_cases hnode : handle.node = center.node
  · have hdial := h.dial_eq_none fun hm => hmay ⟨hnode, hm⟩
    have hreach : n.reach name handle = n := by
      simp only [reach, hnode, hin.1, if_true, hin, not_true, if_false, hne, hdial]
    rw [hreach]
    exact h
  · exact (reach_via n name handle).lost h fun a ha =>
      ⟨fun hlink => hnode (ha.2 _ hlink).1.symm, ha.1.inner.not_joins⟩

theorem enroll_of_mayDial (h : n.Lost center) {a : Announcement} (hid : a.id = center.node)
    (hmay : MayDial { n with roster := n.roster.update a.id a.address a.handle } center.node) :
    (n.enroll a).Dials center := by
  obtain ⟨hin, hne, -⟩ := h.ordered.seated.center center h.known
  have hlearn : n.Takes (.learn a) { n with roster := n.roster.update a.id a.address a.handle } :=
    .learn (hid ▸ hne)
  have hlost := hlearn.lost h id id
  have hself : center.node ≠ (n.roster.update a.id a.address a.handle).self := by
    simpa [self] using hne
  obtain ⟨m, hdial, htakes⟩ := hlost.ordered.dial_of_mayDial hself hmay
  obtain ⟨q, hq, hstate, -⟩ := hmay
  obtain ⟨p, hp⟩ := Roster.exists_get? hin
  have hempty : p.state = .empty := by
    rw [Option.mem_def, Roster.get?_update, if_pos hid.symm, hid, hp, Option.map_some,
      Option.some.injEq] at hq
    rw [← hstate, ← hq]
  have henroll : n.enroll a = m := by
    rw [← hid] at hp hne hdial
    simp [enroll, hne, hp, Peer.linked_iff, h.unlinked p (hid ▸ hp), hempty, hdial]
  rw [henroll]
  exact hlost.dials_of_dial htakes

theorem enroll_of_not_mayDial (h : n.Lost center) {a : Announcement}
    (hmay : ¬ (a.id = center.node ∧
      MayDial { n with roster := n.roster.update a.id a.address a.handle } center.node)) :
    (n.enroll a).Lost center := by
  obtain ⟨hin, hne, -⟩ := h.ordered.seated.center center h.known
  by_cases hid : a.id = center.node
  · obtain ⟨p, hp⟩ := Roster.exists_get? hin
    have hlearn : n.Takes (.learn a) { n with roster := n.roster.update a.id a.address a.handle } :=
      .learn (hid ▸ hne)
    have hlost := hlearn.lost h id id
    have hdial := hlost.dial_eq_none fun hm => hmay ⟨hid, hm⟩
    rw [← hid] at hp hne hdial
    by_cases hskip : p.Linked ∨ p.state = .handshaking
    · have henroll : n.enroll a = n := by simp only [enroll, hne, if_false, hp, hskip, if_true]
      rw [henroll]
      exact h
    · have henroll : n.enroll a = { n with roster := n.roster.update a.id a.address a.handle } := by
        simp only [enroll, hne, if_false, hp, hskip, hdial, Option.getD_none]
      rw [henroll]
      exact hlost
  · exact (enroll_via n a).lost h fun b hb =>
      ⟨fun hlink => hid (hb.2 _ hlink).symm, hb.1.inner.not_joins⟩

end Lost

namespace Member

theorem request_via (h : n.Member) (loop : Loopback) (name : String) :
    n.Via (fun a => a.Inner ∧ ∀ id, ¬ a.LinksTo id) (n.request loop name) := by
  have hask {m : Node} (hm : m.Member) :
      m.Via (fun a => a.Inner ∧ ∀ id, ¬ a.LinksTo id) (m.askIfPossible loop (.subscribe name)) :=
    (hm.askIfPossible_via loop _).mono fun _ ha => ⟨ha.1, ha.2.2.1⟩
  unfold request
  dsimp only
  split
  · rename_i moduleId _
    -- a module of the node itself needs no link
    have hreach :=
      (reach_via n name ⟨n.self, moduleId⟩).mono (Q := fun a => a.Inner ∧ ∀ id, ¬ a.LinksTo id)
      fun a ha => ⟨ha.1.inner, fun id hlink => (ha.2 id hlink).2 (ha.2 id hlink).1⟩
    exact hreach.trans (hask (hreach.member h))
  · exact hask h

theorem subscribe_via (h : n.Member) (loop : Loopback) (name : String) :
    n.Via (fun a => a.Inner ∧ ∀ id, ¬ a.LinksTo id)
      (match n.subscribe loop name with
      | .ok m => m
      | .error _ => n) := by
  obtain ⟨-, he | he⟩ | ⟨hv, hw, he⟩ := subscribe_cases n loop name
  · rw [he]
    exact .refl n
  · rw [he]
    exact .refl n
  · have hwant := Takes.want hv hw
    rw [he]
    exact (hwant.via ⟨trivial, fun _ => id⟩).trans ((hwant.member h).request_via loop name)

theorem publish_via (h : n.Member) (loop : Loopback) (name : String) (handle : Handle) :
    n.Via (fun a => a.Inner ∧ ∀ id, ¬ a.LinksTo id)
      (match n.publish loop name handle with
      | .ok (_, m) => m
      | .error _ => n) := by
  obtain ⟨-, he | ⟨first, he⟩⟩ | ⟨hv, ho, he⟩ := publish_cases n loop name handle
  · rw [he]
    exact .refl n
  · rw [he]
    exact .refl n
  · have hoffer := Takes.offer hv ho (handle.node_withNode n.self)
    rw [he]
    exact (hoffer.via ⟨trivial, fun _ => id⟩).trans
      (((hoffer.member h).askIfPossible_via loop _).mono fun _ ha => ⟨ha.1, ha.2.2.1⟩)

end Member

section Hits

variable {α : Type} {step : Node → α → Node} {P : Node → α → Prop} {I D : Node → Prop}

/-- What begins where `P` holds and ends nowhere is there in the end exactly if `P` held at some
time. -/
theorem foldl_of_hits (hit : ∀ n x, I n → P n x → D (step n x))
    (miss : ∀ n x, I n → ¬ P n x → I (step n x)) (stay : ∀ n x, D n → D (step n x)) (hn : I n)
    (xs : List α) :
    (Hits step P n xs → D (xs.foldl step n)) ∧ (¬ Hits step P n xs → I (xs.foldl step n)) := by
  induction xs generalizing n with
  | nil => exact ⟨False.elim, fun _ => hn⟩
  | cons x rest ih =>
    by_cases hx : P n x
    · have hstay : D (rest.foldl step (step n x)) :=
        List.foldlRecOn rest step (hit n x hn hx) fun m hm y _ => stay m y hm
      exact ⟨fun _ => hstay, fun h => absurd (.inl hx) h⟩
    · have hrest := ih (miss n x hn hx)
      exact ⟨fun h => hrest.1 (h.resolve_left hx), fun h => hrest.2 fun hr => h (.inr hr)⟩

end Hits

namespace Lost

theorem reach_foldl (h : n.Lost center) (name : String) (handles : List Handle) :
    (Hits (·.reach name ·) (fun n handle => handle.node = center.node ∧ n.MayDial center.node)
        n handles →
      (handles.foldl (·.reach name ·) n).Dials center) ∧
    (¬ Hits (·.reach name ·) (fun n handle => handle.node = center.node ∧ n.MayDial center.node)
        n handles →
      (handles.foldl (·.reach name ·) n).Lost center) :=
  foldl_of_hits (I := fun k => k.Lost center) (D := fun k => k.Dials center)
    (fun _ _ hn hx => hn.reach_of_mayDial hx.2 name hx.1)
    (fun _ _ hn hx => hn.reach_of_not_mayDial name hx)
    (fun n handle hn => ((reach_via n name handle).mono fun _ ha => ha.1.inner).dials hn) h handles

theorem receive (h : n.Lost center) (f : Frame) :
    (n.Reaches center.node f → (n.receive f).Dials center) ∧
      (¬ n.Reaches center.node f → (n.receive f).Lost center) := by
  have hcalm {m : Node} (hvia : n.Via (fun a => a.Inner ∧ ∀ id, ¬ a.LinksTo id) m) :
      m.Lost center :=
    hvia.lost h fun _ ha => ⟨ha.2 _, ha.1.not_joins⟩
  cases hc : n.routing.classify f with
  | dropped =>
    simp only [Reaches, Node.receive, receiveWith, hc]
    exact ⟨False.elim, fun _ => h⟩
  | deliver d =>
    simp only [Reaches, Node.receive, receiveWith, hc]
    exact ⟨False.elim, fun _ => hcalm ((Takes.deliver d).via ⟨trivial, fun _ => id⟩)⟩
  | request source c =>
    simp only [Reaches, Node.receive, receiveWith, hc, h.member.serve_eq]
    exact ⟨False.elim, fun _ => h⟩
  | control source c =>
    have hobey : n.receive f = n.obey receiveOwn c := by simp only [Node.receive, receiveWith, hc]
    simp only [Reaches, hc, hobey]
    cases c with
    | register a => exact ⟨fun hr => h.enroll_of_mayDial hr.1 hr.2, h.enroll_of_not_mayDial⟩
    | handle name handle =>
      exact ⟨fun hr => h.reach_of_mayDial hr.2 name hr.1, h.reach_of_not_mayDial name⟩
    | handles name handles =>
      have hbegin : n.Takes (.bracket (.batchBegin name)) (n.emit (.report (.batchBegin name))) :=
        .bracket ⟨name, .inl rfl⟩
      have hend {m : Node} :
          m.Takes (.bracket (.batchEnd name)) (m.emit (.report (.batchEnd name))) :=
        .bracket ⟨name, .inr rfl⟩
      -- the brackets of the list change nothing, so it is about its handles one by one
      have hall := (hbegin.lost h id id).reach_foldl name handles
      exact ⟨fun hr => (hend.via trivial).dials (hall.1 hr), fun hr => hend.lost (hall.2 hr) id id⟩
    | address a =>
      exact ⟨False.elim, fun _ => hcalm ((noteAddress_via n a).mono fun _ ha => ⟨ha.1.inner, ha.2⟩)⟩
    | subscribe name =>
      exact ⟨False.elim, fun _ => hcalm (h.member.subscribe_via receiveOwn name)⟩
    | publish name handle =>
      exact ⟨False.elim, fun _ => hcalm (h.member.publish_via receiveOwn name handle)⟩
    | broadcast id =>
      simp only [obey, h.member.introduce_eq]
      exact ⟨False.elim, fun _ => h⟩
    | heartbeat => exact ⟨False.elim, fun _ => h⟩
    | unregister id => exact ⟨False.elim, fun _ => h⟩

theorem receive_foldl (h : n.Lost center) (frames : List Frame) :
    (Hits Node.receive (Reaches center.node) n frames →
      (frames.foldl Node.receive n).Dials center) ∧
        (¬ Hits Node.receive (Reaches center.node) n frames →
        (frames.foldl Node.receive n).Lost center) :=
  foldl_of_hits (I := fun k => k.Lost center) (D := fun k => k.Dials center)
    (fun _ f hn => (hn.receive f).1) (fun _ f hn => (hn.receive f).2)
    (fun n f hn => (receive_via n f).dials hn) h frames

end Lost

theorem Member.step_cases (h : n.Member) (e : Event) :
    n.step e = (n.framesOf e).foldl Node.receive n ∨
      n.framesOf e = [] ∧ (n.Via (fun a => ∀ id, ¬ a.LinksTo id) (n.step e) ∨
        ∃ result, e = .handshake result ∧ n.Awaits) := by
  by_cases hcall : e.MayCall
  · by_cases hpass : n.Passes e
    · obtain ⟨hvia, hnil, -⟩ := via_of_passes hpass
      exact .inr ⟨hnil, .inl (hvia.mono fun _ ha => ha.2.2)⟩
    · cases e with
      | link e =>
        cases e with
        | frames conn frames => exact .inl rfl
        | connected conn => exact hcall.elim
        | closed conn reason => exact hcall.elim
      | call r =>
        cases r with
        | send source dest kind payload => exact .inl (step_eq_foldl hpass)
        | subscribe name =>
          rw [step_subscribe]
          exact .inr ⟨rfl, .inl ((h.subscribe_via Node.receive name).mono fun _ ha => ha.2)⟩
        | publish name handle =>
          rw [step_publish]
          exact .inr ⟨rfl, .inl ((h.publish_via Node.receive name handle).mono fun _ ha => ha.2)⟩
        | tick => exact hcall.elim
      | _ => exact hcall.elim
  · refine .inr ⟨(calls_eq_nil hcall).1, ?_⟩
    by_cases hw : ∃ result, e = .handshake result ∧ n.Awaits
    · exact .inr hw
    · exact .inl ((h.step_via hcall fun result he ha => hw ⟨result, he, ha⟩).mono fun _ ha => ha.2)

/-- A lost center is dialled by an event exactly if a frame reaches it. Otherwise it stays lost,
unless a handshake is completed. -/
theorem Lost.stepAt (h : n.Lost center) (t : Nat) (e : Event) :
    n.ReachedBy center.node t e ∧ (n.stepAt t e).Dials center ∨
    ¬ n.ReachedBy center.node t e ∧ ((n.stepAt t e).Lost center ∨
      ∃ hs, e = .handshake (.ok hs) ∧ n.Awaits ∧ n.judge (.ok hs) = .ok hs) := by
  have htend : Takes n .tend { n with now := t } := .tend t n.catalog
  have h' := htend.lost h id id
  obtain hstep | ⟨hnil, hend⟩ := h'.member.step_cases e
  · have hall := h'.receive_foldl (n.framesOf e)
    rw [Node.stepAt, hstep]
    by_cases hreached : n.ReachedBy center.node t e
    · exact .inl ⟨hreached, hall.1 hreached⟩
    · exact .inr ⟨hreached, .inl (hall.2 hreached)⟩
  · have hnot : ¬ n.ReachedBy center.node t e := by
      have hnil : n.framesOf e = [] := hnil
      rw [ReachedBy, hnil]
      exact id
    refine .inr ⟨hnot, ?_⟩
    obtain hvia | ⟨result, rfl, hw⟩ := hend
    · exact .inl (hvia.lost h' fun _ ha => ⟨ha _, Move.not_joins_of_not_linksTo ha⟩)
    · cases hj : n.judge result with
      | error fault =>
        have hvia := finishHandshake_via_of_error h'.ordered hw hj
        exact .inl (hvia.lost h' fun _ ha => ⟨ha.2 _, ha.not_joins⟩)
      | ok hs =>
        obtain ⟨rfl, -⟩ := judge_eq_ok hj
        exact .inr ⟨hs, rfl, hw, hj⟩

theorem Takes.lost_of_lose (h : n.Session conn directory)
    (ht : n.Takes (.lose directory.node conn) m) :
    m.Lost ⟨directory.node, directory⟩ := by
  refine ⟨ht.ordered h.ordered, ?_, fun p hp => ?_⟩
  · cases ht with
    | lose => exact h.center
  · cases ht with
    | lose =>
      rw [Roster.get?_detach, if_pos rfl] at hp
      obtain ⟨q, -, rfl⟩ := Option.map_eq_some_iff.1 hp
      rfl

theorem Session.stepAt_cases (h : n.Session conn directory) (t : Nat) (e : Event) :
    (n.stepAt t e).Session conn directory ∨ (n.stepAt t e).Lost ⟨directory.node, directory⟩ := by
  have hkeep {k l : Node} {a : Move}
      (hk : k.Session conn directory ∨ k.Lost ⟨directory.node, directory⟩)
      (ha : ∀ id, ¬ a.LinksTo id) (ht : k.Takes a l) :
      l.Session conn directory ∨ l.Lost ⟨directory.node, directory⟩ := by
    obtain hs | hlost := hk
    · obtain hs | ⟨rfl, -⟩ := ht.session hs
      · exact .inl hs
      · exact .inr (ht.lost_of_lose hs)
    · exact .inr (ht.lost hlost (ha _) (Move.not_joins_of_not_linksTo ha))
  have hs := h.tend t
  obtain hstep | ⟨-, hvia | ⟨result, -, hw⟩⟩ := hs.member.step_cases e
  · rw [Node.stepAt, hstep]
    exact .inl ((Via.foldl _ fun n f _ => receive_via n f).session hs)
  · exact hvia.keeps (I := fun k => k.Session conn directory ∨ k.Lost ⟨directory.node, directory⟩)
      (fun _ _ _ hk ha ht => hkeep hk ha ht) (.inl hs)
  · exact absurd hw hs.not_awaits

theorem Takes.hasRoom_of_lose {id : NodeId} (hw : n.Wired) (ht : n.Takes (.lose id conn) m) :
    m.links.hasRoom = true := by
  cases ht with
  | lose he => exact hw.links.kept.hasRoom_erase he

theorem Session.lose (h : n.Session conn directory) :
    (n.lose conn).Lost ⟨directory.node, directory⟩ ∧ (n.lose conn).links.hasRoom = true ∧
      ∃ p, (n.lose conn).roster.get? directory.node = some p ∧ p.state = .empty := by
  obtain ⟨p, hp, hl⟩ := h.linked
  obtain ⟨m, htakes, heq⟩ := h.ordered.wired.exists_lose hp (Peer.liveLink?_eq_some_iff.1 hl).1
  have hlost := htakes.lost_of_lose h
  have hlose : n.lose conn = m := by
    rw [heq, hlost.member.not_center, hlost.known]
    simp
  rw [hlose]
  refine ⟨hlost, htakes.hasRoom_of_lose h.ordered.wired, ?_⟩
  cases htakes with
  | lose _ _ hp =>
    exact ⟨_, by rw [Roster.get?_detach, if_pos rfl, hp, Option.map_some], rfl⟩

/-- In each session one loss and one registration of the center are enough to have it dialled. -/
theorem Session.dials_of_loss (h : n.Session conn directory) (t t' : Nat) (reason : CloseReason)
    (c : ConnId) {f : Frame} {source : Handle} {a : Announcement}
    (hf : n.routing.classify f = .control source (.register a)) (hid : a.id = directory.node)
    (haddress : a.address.endpoint?.isSome) :
    (n.run [(t, .link (.closed conn reason)), (t', .link (.frames c [f]))]).Dials
      ⟨directory.node, directory⟩ := by
  have hs := h.tend t
  obtain ⟨hlost, hroom, p, hp, hstate⟩ := hs.lose
  have hlost' := (Takes.tend t' (Node.lose { n with now := t } conn).catalog).lost hlost id id
  have hself : (Node.lose { n with now := t } conn).self = n.self :=
    (hs.member.lose_via conn).self_eq
  have hroute : Node.routing { Node.lose { n with now := t } conn with now := t' } = n.routing := by
    rw [hlost'.member.routing_eq, h.member.routing_eq]
    exact congrArg (Routing.mk · false) hself
  have hreaches :
      Reaches directory.node { Node.lose { n with now := t } conn with now := t' } f := by
    simp only [Reaches, hroute, hf]
    refine ⟨hid, { p with address := a.address, handle := some a.handle }, ?_, hstate, haddress,
      hroom⟩
    rw [Option.mem_def, Roster.get?_update, if_pos hid.symm, hid, hp, Option.map_some]
  obtain ⟨-, hdials⟩ | ⟨hnot, -⟩ := hlost.stepAt t' (.link (.frames c [f]))
  · exact hdials
  · exact absurd (.inl hreaches) hnot

end Meshwork.Node
