import Meshwork.Proofs.Node.Sending
import Meshwork.Proofs.Registry

/-!
# The directory of a center

What a center does to its registry, event by event: `Node.eventCalls` and `Node.runCalls`. Main
statements: `Ordered.directs_step` and `directs_run`, the registry is what these calls make of it,
and whatever the center subscribed to or published is among them.
-/

namespace Meshwork

def Keyword.IsNotice (k : Keyword) : Prop := k = addr ∨ k = handle ∨ k = handles ∨ k = hb

instance (k : Keyword) : Decidable k.IsNotice := inferInstanceAs (Decidable (_ ∨ _))

def RegistryEffect.IsNotice : RegistryEffect → Prop
  | .register _ | .broadcast _ => True
  | .send _ c => c.keyword.IsNotice
  | .left _ => False

def Move.Nameless : Move → Prop
  | .want _ | .offer .. | .forget _ => False
  | .enter _ c => c.topic? = none
  | _ => True

theorem Move.Meets.nameless {a : Move} (h : a.Meets) : a.Nameless := by
  cases a <;> trivial

structure Move.Telling (P : Move → Prop) : Prop where
  meets : ∀ a, a.Meets → P a
  notice : ∀ id conn (frame : Frame) k, frame.keyword? = some k → k.IsNotice →
    P (.queue id conn frame)
  refuse : ∀ id conn, P (.refuse id conn)
  deliver : ∀ d, P (.deliver d)
  bracket : ∀ e, P (.bracket e)

theorem Move.telling_nameless : Telling Nameless where
  meets _ h := h.nameless
  notice _ _ _ _ _ _ := trivial
  refuse _ _ := trivial
  deliver _ := trivial
  bracket _ := trivial

namespace Registry

variable {r : Registry} {source : NodeId} {c : Command}

theorem request_of_topic (hc : c.topic? = none) : (r.request source c).1 = r := by
  cases c with
  | subscribe | publish => cases hc
  | _ => rfl

theorem isNotice_of_request (hc : ∀ id, c ≠ .unregister id) :
    ∀ e ∈ (r.request source c).2, e.IsNotice := by
  have htell (name : String) (handles : List Handle) : (tell name handles).keyword.IsNotice := by
    unfold tell
    split
    · exact .inr (.inl rfl)
    · exact .inr (.inr (.inl rfl))
  cases c with
  | register a => simp [request, RegistryEffect.IsNotice]
  | subscribe name => simp [request, subscribe, RegistryEffect.IsNotice, htell]
  | publish name handle =>
    rw [request, publish]
    split
    · simp
    · simp [RegistryEffect.IsNotice, Command.keyword, Keyword.IsNotice]
  | unregister id => exact absurd rfl (hc id)
  | _ => simp [request]

end Registry

theorem Routing.parse_of_classify {r : Routing} {f : Frame} {source : Handle} {c : Command}
    (h : r.classify f = .control source c ∨ r.classify f = .request source c) :
    Command.parse f.payload = .ok c := by
  unfold classify at h
  split at h
  · simp at h
  split at h
  · split at h
    · simp_all
    · simp at h
  split at h
  · split at h
    · simp_all
    · simp at h
  split at h <;> simp at h

namespace Node

variable {n m k : Node} {a : Move} {loop : Loopback} {c : Command} {f : Frame} {e : Event}
  {calls more : List Registry.Call}
  {id source : NodeId} {conn : ConnId}

/-- What a call of the node makes its own registry do, if it is new. -/
def ownCalls (n : Node) (c : Command) : List Registry.Call :=
  (n.interests.news? n.self c).toList.map (.request n.self)

/-- What a frame makes the registry do. The entries of a node that is linked are kept. -/
def frameCalls (n : Node) (f : Frame) : List Registry.Call :=
  match n.routing.classify f with
  | .request _ (.unregister id) =>
    if ∃ peer ∈ n.roster.get? id, peer.Linked then [] else [.forget id]
  | .request source c => [.request source.node c]
  | .control _ c => n.ownCalls c
  | .deliver _ | .dropped => []

def framesCalls : Node → List Frame → List Registry.Call
  | _, [] => []
  | n, f :: rest => n.frameCalls f ++ framesCalls (n.receive f) rest

/-- The node that a link leads to, if its entry has the link. -/
def leaver? (n : Node) (conn : ConnId) : Option NodeId :=
  (n.links.owner? conn).filter fun id => ∃ peer ∈ n.roster.get? id, peer.link = some conn

/-- What an event makes the registry of a center do. -/
def eventCalls (n : Node) : Event → List Registry.Call
  | .link (.closed conn _) => (n.leaver? conn).toList.map .forget
  | .refusal => (n.refused.head?.bind fun (conn, _) => n.leaver? conn).toList.map .forget
  | .call (.subscribe name) => n.ownCalls (.subscribe name)
  | .call (.publish name handle) => n.ownCalls (.publish name handle)
  | e => n.framesCalls (n.framesOf e)

def runCalls : Node → List (Nat × Event) → List Registry.Call
  | _, [] => []
  | n, (t, e) :: rest => eventCalls { n with now := t } e ++ runCalls (n.stepAt t e) rest

/-- From `n` to `m` the registry takes some calls, and each request that is remembered newly is
among them. -/
structure Directs (n : Node) (calls : List Registry.Call) (m : Node) : Prop where
  via : n.Via (fun _ => True) m
  registry : m.registry? = n.registry?.map (·.run calls)
  requests : ∀ c ∈ m.interests.requests, c ∈ n.interests.requests ∨ .request n.self c ∈ calls

theorem Takes.registry?_eq (ht : n.Takes a m) (ha : a.Nameless) : m.registry? = n.registry? := by
  cases ht with
  | want | offer | forget => exact ha.elim
  | enter hr source c => simp [hr, Registry.request_of_topic ha, Node.registry?]
  | join hm => exact hm.symm
  | _ => rfl

theorem Via.registry?_eq (h : n.Via Move.Nameless m) : m.registry? = n.registry? :=
  h.keeps (I := fun k => k.registry? = n.registry?)
    (fun _ _ _ hk ha ht => (ht.registry?_eq ha).trans hk) rfl

namespace Directs

theorem of_nameless (h : n.Via Move.Nameless m) : n.Directs [] m where
  via := h.mono fun _ _ => trivial
  registry := by
    rw [h.registry?_eq]
    exact Option.map_id'.symm
  requests c hc := by
    rw [h.interests_eq fun a ha => by cases a <;> first | exact id | exact fun _ => ha] at hc
    exact .inl hc

theorem refl (n : Node) : n.Directs [] n := .of_nameless (.refl n)

theorem trans (h : n.Directs calls m) (h' : m.Directs more k) : n.Directs (calls ++ more) k where
  via := h.via.trans h'.via
  registry := by
    rw [h'.registry, h.registry, Option.map_map]
    exact congrArg (fun g => n.registry?.map g) (funext fun r => List.foldl_append.symm)
  requests c hc := by
    obtain hc | hmore := h'.requests c hc
    · exact (h.requests c hc).imp_right fun hmem => List.mem_append_left _ hmem
    · exact .inr (List.mem_append_right _ (h.via.self_eq ▸ hmore))

theorem trans_nameless (h : n.Directs calls m) (h' : m.Via Move.Nameless k) :
    n.Directs calls k := by
  have hall := h.trans (.of_nameless h')
  rwa [List.append_nil] at hall

theorem isSome_iff (h : n.Directs calls m) : m.registry?.isSome = n.registry?.isSome := by
  rw [h.registry, Option.isSome_map]

end Directs

def NoticeLoop (P : Move → Prop) (loop : Loopback) : Prop :=
  ∀ (n : Node) (f : Frame) (k : Keyword), f.keyword? = some k → k.IsNotice → n.Via P (loop n f)

def NamelessLoop (loop : Loopback) : Prop := NoticeLoop Move.Nameless loop

section Telling

variable {P : Move → Prop}

theorem tell_telling (hP : Move.Telling P) (hloop : NoticeLoop P loop) (hc : c.keyword.IsNotice)
    (n : Node) (dest : Handle) : n.Via P (n.tell loop dest c) := by
  have hkeyword {f : Frame} (hf : f.payload = c.payload) : f.keyword? = some c.keyword :=
    Frame.keyword?_eq hf
  unfold tell
  split
  · rename_i hs
    unfold command post at hs
    split at hs
    · split at hs
      · cases hs
      · cases hs
        exact hloop _ _ _ (hkeyword rfl) hc
    · obtain ⟨_, _, -, -, -, hqueue | hrefuse⟩ := sendOver_takes hs
      · exact hqueue.via (hP.notice _ _ _ _ (hkeyword rfl) hc)
      · exact hrefuse.via (hP.refuse _ _)
  · exact .refl n

theorem introduce_telling (hP : Move.Telling P) (hloop : NoticeLoop P loop) (n : Node)
    (id : NodeId) :
    n.Via P (n.introduce loop id) := by
  have htell (n : Node) (dest : Handle) (a : Announcement) :
      n.Via P (n.tell loop dest (.address a)) :=
    tell_telling hP hloop (.inl rfl) n dest
  unfold introduce
  split
  · split
    · split
      · exact Via.foldl n fun n other _ => (htell ..).trans (htell ..)
      · exact .refl n
    · exact .refl n
  · exact .refl n

theorem carryOut_telling (hP : Move.Telling P) (hloop : NoticeLoop P loop) (n : Node)
    {e : RegistryEffect} (he : e.IsNotice) : n.Via P (n.carryOut loop e) := by
  cases e with
  | register a => exact (enroll_via n a).mono fun _ ha => hP.meets _ ha.1
  | broadcast id => exact introduce_telling hP hloop n id
  | send id c => exact tell_telling hP hloop he n _
  | left id => exact he.elim

theorem obey_telling (hP : Move.Telling P) (n : Node) (hc : c.topic? = none)
    (hloop : ∀ id, c = .broadcast id → NoticeLoop P loop) : n.Via P (n.obey loop c) := by
  cases c with
  | register a => exact (enroll_via n a).mono fun _ ha => hP.meets _ ha.1
  | address a => exact (noteAddress_via n a).mono fun _ ha => hP.meets _ ha.1
  | broadcast id => exact introduce_telling hP (hloop id rfl) n id
  | unregister id => exact .refl n
  | heartbeat => exact .refl n
  | handle name handle => exact (reach_via n name handle).mono fun _ ha => hP.meets _ ha.1
  | subscribe name => cases hc
  | publish name handle => cases hc
  | handles name handles =>
    have hbegin : n.Via P (n.emit (.report (.batchBegin name))) :=
      Takes.via (.bracket ⟨name, .inl rfl⟩) (hP.bracket _)
    have hall := Via.foldl (n.emit (.report (.batchBegin name)))
      (l := handles) fun n handle _ => (reach_via n name handle).mono fun _ ha => hP.meets _ ha.1
    exact (hbegin.trans hall).trans (Takes.via (.bracket ⟨name, .inr rfl⟩) (hP.bracket _))

theorem serve_notice (n : Node) (source : NodeId) (hc : c.keyword.IsNotice) :
    n.serve loop source c = n := by
  cases hr : n.role with
  | member center => simp [serve, hr]
  | center r =>
    have hsame : { n with role := .center r } = n := by rw [← hr]
    have hrequest : r.request source c = (r, []) := by
      cases c with
      | address | handle | handles | heartbeat => rfl
      | _ => simp [Command.keyword, Keyword.IsNotice] at hc
    simp only [serve, hr, hrequest, List.foldl_nil, hsame]

theorem isNotice_of_classify {k : Keyword} (hf : f.keyword? = some k) (hk : k.IsNotice)
    {source : Handle}
    (h : n.routing.classify f = .control source c ∨ n.routing.classify f = .request source c) :
    c.keyword.IsNotice := by
  rw [Frame.keyword?_of_parse (Routing.parse_of_classify h), Option.some.injEq] at hf
  rwa [hf]

theorem receiveWith_telling (hP : Move.Telling P) (loop : Loopback) :
    NoticeLoop P (receiveWith loop) :=
  fun n f k hf hk => by
  unfold receiveWith
  split
  · rename_i source c hc
    have hnotice := isNotice_of_classify hf hk (.inl hc)
    refine obey_telling hP n ?_ ?_
    · cases c with
      | subscribe | publish => simp [Command.keyword, Keyword.IsNotice] at hnotice
      | _ => rfl
    · rintro id rfl
      simp [Command.keyword, Keyword.IsNotice] at hnotice
  · rename_i source c hc
    rw [serve_notice n _ (isNotice_of_classify hf hk (.inr hc))]
    exact .refl n
  · exact Takes.via (.deliver _) (hP.deliver _)
  · exact .refl n

theorem tick_telling (hP : Move.Telling P) (hseek : P .seek) (n : Node) : n.Via P n.tick := by
  have hbeats := Via.foldl (P := P) n (l := n.roster.due n.now (n.profile.heartbeatInterval * 1000))
    fun n (x : NodeId × Handle) _ =>
      tell_telling hP (receiveWith_telling hP receiveOwn) (c := .heartbeat) (by decide) n x.2
  unfold tick
  dsimp only
  refine hbeats.trans ?_
  split
  · exact .refl _
  · refine (rejoin_via _).mono ?_
    rintro _ rfl
    exact hseek

end Telling

theorem receiveWith_nameless (loop : Loopback) : NamelessLoop (receiveWith loop) :=
  receiveWith_telling Move.telling_nameless loop

theorem serve_unregister (n : Node) (source id : NodeId) :
    n.serve loop source (.unregister id) =
      if ∃ peer ∈ n.roster.get? id, peer.Linked then n else n.forget id := by
  cases hr : n.role with
  | member center => simp [serve, forget, hr]
  | center r =>
    have hsame : { n with role := .center r } = n := by rw [← hr]
    simp only [serve, hr, Registry.request, List.foldl_cons, List.foldl_nil, carryOut, hsame]

theorem directs_serve (hloop : NamelessLoop loop) (center : n.registry?.isSome) (source : NodeId)
    (hc : ∀ id, c ≠ .unregister id) : n.Directs [.request source c] (n.serve loop source c) := by
  cases hr : n.role with
  | member => simp [hr, Node.registry?] at center
  | center r =>
    have henter : n.Directs [.request source c] { n with role := .center (r.request source c).1 } :=
      ⟨(Takes.enter hr source c).via trivial,
        by simp [hr, Registry.run, Registry.call, Node.registry?], fun _ hmem => .inl hmem⟩
    simp only [serve, hr]
    exact henter.trans_nameless (Via.foldl _ fun n e he =>
      carryOut_telling Move.telling_nameless hloop n (Registry.isNotice_of_request hc e he))

theorem directs_forget (hu : ∀ p ∈ n.roster.get? id, ¬ p.Linked) :
    n.Directs [.forget id] (n.forget id) where
  via := (forget_via hu).mono fun _ _ => trivial
  registry := by
    cases hr : n.role <;> simp [forget, Node.registry?, hr, Registry.run, Registry.call]
  requests c hc := by
    refine .inl ?_
    unfold forget at hc
    split at hc <;> exact hc

theorem directs_askIfPossible (hloop : NamelessLoop loop) (center : n.registry?.isSome)
    (hc : ∀ id, c ≠ .unregister id) : n.Directs [.request n.self c] (n.askIfPossible loop c) := by
  have hserve : n.askIfPossible loop c = n.serve loop n.self c := by
    cases hr : n.role with
    | member => simp [hr, Node.registry?] at center
    | center r => simp only [askIfPossible, ask, hr]
  rw [hserve]
  exact directs_serve hloop center n.self hc

theorem directs_request (hloop : NamelessLoop loop) (center : n.registry?.isSome) (name : String) :
    n.Directs [.request n.self (.subscribe name)] (n.request loop name) := by
  unfold Node.request
  simp only
  split
  · have hreach :=
      (reach_via n name ⟨n.self, ‹_›⟩).mono (Q := Move.Nameless) fun _ ha => ha.1.nameless
    have hask :=
      directs_askIfPossible hloop (hreach.registry?_eq ▸ center) (c := .subscribe name) nofun
    rw [hreach.self_eq] at hask
    exact (Directs.of_nameless hreach).trans hask
  · exact directs_askIfPossible hloop center nofun

theorem directs_of_old (h : n.interests.news? n.self c = none) : n.Directs (n.ownCalls c) n := by
  rw [ownCalls, h]
  exact .refl n

theorem directs_of_new {d : Command} (h : n.interests.news? n.self c = some d)
    (ht : n.Takes a { n with interests := n.interests.remember d })
    (hd : Directs { n with interests := n.interests.remember d } [.request n.self d] m) :
    n.Directs (n.ownCalls c) m := by
  rw [ownCalls, h]
  refine ⟨(ht.via trivial).trans hd.via, hd.registry, fun c' hc' => ?_⟩
  obtain hmem | hmem := hd.requests c' hc'
  · rw [(Interests.perm_requests_remember h).mem_iff, List.mem_append, List.mem_singleton] at hmem
    obtain hold | rfl := hmem
    · exact .inl hold
    · exact .inr (List.mem_singleton_self _)
  · exact .inr hmem

theorem directs_subscribe (hloop : NamelessLoop loop) (center : n.registry?.isSome)
    (name : String) :
    n.Directs (n.ownCalls (.subscribe name))
      (match n.subscribe loop name with
      | .ok m => m
      | .error _ => n) := by
  obtain ⟨hold, he | he⟩ | ⟨hv, hw, he⟩ := subscribe_cases n loop name
  · rw [he]
    exact directs_of_old hold
  · rw [he]
    exact directs_of_old hold
  · rw [he]
    have hnew : n.interests.news? n.self (.subscribe name) = some (.subscribe name) :=
      if_pos ⟨hv, hw⟩
    exact directs_of_new hnew (.want hv hw)
      (directs_request (n := { n with interests := n.interests.want name }) hloop center name)

theorem directs_publish (hloop : NamelessLoop loop) (center : n.registry?.isSome) (name : String)
    (handle : Handle) :
    n.Directs (n.ownCalls (.publish name handle))
      (match n.publish loop name handle with
      | .ok (_, m) => m
      | .error _ => n) := by
  obtain ⟨hold, he | ⟨first, he⟩⟩ | ⟨hv, ho, he⟩ := publish_cases n loop name handle
  · rw [he]
    exact directs_of_old hold
  · rw [he]
    exact directs_of_old hold
  · rw [he]
    have hnew : n.interests.news? n.self (.publish name handle) =
        some (.publish name (handle.withNode n.self)) := if_pos ⟨hv, ho⟩
    exact directs_of_new hnew (.offer hv ho (handle.node_withNode n.self)) (directs_askIfPossible
      (n := { n with interests := n.interests.offer name (handle.withNode n.self) }) hloop center
        nofun)

theorem receive_unregister {source : Handle}
    (hf : n.routing.classify f = .request source (.unregister id)) :
    n.receive f = if ∃ peer ∈ n.roster.get? id, peer.Linked then n else n.forget id := by
  simp only [receive, receiveWith, hf, serve_unregister]

theorem directs_receive (center : n.registry?.isSome) (f : Frame) :
    n.Directs (n.frameCalls f) (n.receive f) := by
  have hloop : NamelessLoop receiveOwn := receiveWith_nameless _
  unfold frameCalls
  split
  · rename_i source id hf
    rw [receive_unregister hf]
    split
    · exact .refl n
    · rename_i hu
      -- a node that is still linked is not forgotten
      exact directs_forget fun p hp hl => hu ⟨p, hp, hl⟩
  · rename_i source c hnot hf
    simp only [receive, receiveWith, hf]
    exact directs_serve hloop center source.node hnot
  · rename_i source c hf
    simp only [receive, receiveWith, hf]
    cases hc : c.topic? with
    | none =>
      have hold : n.interests.news? n.self c = none := by cases c <;> first | rfl | cases hc
      rw [ownCalls, hold]
      exact .of_nameless (obey_telling Move.telling_nameless n hc fun _ _ => hloop)
    | some topic =>
      cases c with
      | subscribe name => exact directs_subscribe hloop center name
      | publish name handle => exact directs_publish hloop center name handle
      | _ => cases hc
  · rename_i hf
    simp only [receive, receiveWith, hf]
    exact .of_nameless (Takes.via (.deliver _) trivial)
  · rename_i hf
    simp only [receive, receiveWith, hf]
    exact .refl n

theorem directs_frames (center : n.registry?.isSome) (frames : List Frame) :
    n.Directs (n.framesCalls frames) (frames.foldl receive n) := by
  induction frames generalizing n with
  | nil => exact .refl n
  | cons f rest ih =>
    have hfirst := directs_receive center f
    exact hfirst.trans (ih (hfirst.isSome_iff ▸ center))

theorem forget_mem_frameCalls_iff : .forget id ∈ n.frameCalls f ↔
    (∃ source, n.routing.classify f = .request source (.unregister id)) ∧
      ¬ ∃ peer ∈ n.roster.get? id, peer.Linked := by
  unfold frameCalls
  split
  · rename_i source id' hf
    split
    · rename_i hl
      simp only [List.not_mem_nil, hf, Arrival.request.injEq, Command.unregister.injEq, false_iff,
        not_and_or]
      by_cases hid : id' = id
      · exact .inr (not_not.2 (hid ▸ hl))
      · exact .inl fun ⟨_, _, h⟩ => hid h
    · rename_i hl
      simp only [List.mem_singleton, Registry.Call.forget.injEq, hf, Arrival.request.injEq,
        Command.unregister.injEq]
      exact ⟨by rintro rfl; exact ⟨⟨source, rfl, rfl⟩, hl⟩, fun ⟨⟨_, _, h⟩, _⟩ => h.symm⟩
  · rename_i source c hnot hf
    simp only [List.mem_singleton, reduceCtorEq, hf, Arrival.request.injEq, false_iff]
    exact fun ⟨⟨_, _, h⟩, _⟩ => hnot id h
  · rename_i hf
    simp [ownCalls, hf]
  all_goals
    rename_i hf
    simp [hf]

theorem eventCalls_of_closes (hc : n.Closes conn e) :
    n.eventCalls e = (n.leaver? conn).toList.map .forget := by
  cases e with
  | link e =>
    cases e with
    | closed c reason =>
      cases hc
      rfl
    | _ => exact hc.elim
  | refusal =>
    obtain ⟨reason, rest, hr⟩ := hc
    simp [eventCalls, hr]
  | _ => exact hc.elim

theorem mem_eventCalls {call : Registry.Call} (h : call ∈ n.eventCalls e) :
    (∃ conn id, n.Closes conn e ∧ n.leaver? conn = some id ∧ call = .forget id) ∨
      (∃ c, call ∈ n.ownCalls c) ∨
      call ∈ n.framesCalls (n.framesOf e) := by
  have hleaver {conn : ConnId} (hc : n.Closes conn e) :
      ∃ conn id, n.Closes conn e ∧ n.leaver? conn = some id ∧ call = .forget id := by
    rw [eventCalls_of_closes hc] at h
    obtain ⟨id, hid, rfl⟩ := List.mem_map.1 h
    exact ⟨conn, id, hc, Option.mem_toList.1 hid, rfl⟩
  unfold eventCalls at h
  split at h
  · exact .inl (hleaver rfl)
  · cases hr : n.refused with
    | nil => simp [hr] at h
    | cons first rest => exact .inl (hleaver ⟨first.2, rest, hr⟩)
  · exact .inr (.inl ⟨_, h⟩)
  · exact .inr (.inl ⟨_, h⟩)
  · exact .inr (.inr h)

theorem framesCalls_subset (n : Node) (e : Event) :
    n.framesCalls (n.framesOf e) ⊆ n.eventCalls e := by
  unfold eventCalls
  split
  case h_5 => exact List.Subset.refl _
  all_goals exact List.nil_subset _

theorem leaver?_eq_some_iff (hw : n.Wired) :
    n.leaver? conn = some id ↔ ∃ peer ∈ n.roster.get? id, peer.link = some conn := by
  simp only [leaver?, Option.filter_eq_some_iff, decide_eq_true_eq, and_iff_right_iff_imp]
  rintro ⟨peer, hp, hl⟩
  obtain ⟨record, hr, howner⟩ := hw.owner id peer conn hp hl
  simp [Links.owner?, hr, howner]

theorem directs_lose (hw : n.Wired) (center : n.registry?.isSome) (conn : ConnId) :
    n.Directs ((n.leaver? conn).toList.map .forget) (n.lose conn) := by
  cases hleaver : n.leaver? conn with
  | some id =>
    obtain ⟨p, hp, hl⟩ := (leaver?_eq_some_iff hw).1 hleaver
    obtain ⟨m, hlose, heq⟩ := hw.exists_lose hp hl
    have hfirst := Directs.of_nameless (hlose.via (P := Move.Nameless) trivial)
    rw [heq, if_pos (hfirst.isSome_iff ▸ center)]
    exact hfirst.trans (directs_forget hlose.not_linked_of_lose)
  | none =>
    obtain ⟨-, heq⟩ | hdrop | ⟨id, m, hlose, -⟩ := lose_cases n conn
    · rw [heq]
      exact .refl n
    · exact .of_nameless (hdrop.via trivial)
    · have hleft : n.leaver? conn = some id := by
        cases hlose with
        | lose _ _ hp hl => exact (leaver?_eq_some_iff hw).2 ⟨_, hp, hl⟩
      rw [hleaver] at hleft
      cases hleft

theorem Wired.directs_step (hw : n.Wired) (center : n.registry?.isSome) (e : Event) :
    n.Directs (n.eventCalls e) (n.step e) := by
  cases e with
  | accept =>
    refine .of_nameless ((accept_via n).mono ?_)
    rintro _ (rfl | ⟨conn, rfl⟩)
    · trivial
    · trivial
  | tick => exact .of_nameless (tick_telling Move.telling_nameless trivial n)
  | written conn =>
    exact .of_nameless (Takes.via (.write (f := fun l => l.drain.2) fun _ => rfl) trivial)
  | stopped conn => exact .of_nameless (Takes.via (.write (f := Link.stop) fun _ => rfl) trivial)
  | install name moduleId => exact .of_nameless ((Takes.tend n.now _).via trivial)
  | uninstall name => exact .of_nameless ((Takes.tend n.now _).via trivial)
  | handshake result =>
    -- a center joins no other, so it waits for no handshake
    have hnot : ¬ n.Awaits := fun h => by simp [h.not_center] at center
    have hdrop : n.finishHandshake result = { n with handshakes := n.handshakes - 1 } := by
      unfold finishHandshake
      exact if_pos hnot
    rw [step, hdrop]
    exact .of_nameless (Takes.answered.via trivial)
  | refusal =>
    simp only [step, eventCalls]
    cases hr : n.refused with
    | nil => exact .refl n
    | cons first rest =>
      have hpardon := Takes.pardon hr
      exact (Directs.of_nameless (hpardon.via (P := Move.Nameless) trivial)).trans
        (directs_lose (hpardon.wired hw) center first.1)
  | link e =>
    cases e with
    | connected conn =>
      refine .of_nameless ((connected_via n conn).mono ?_)
      rintro _ ⟨id, rfl⟩
      trivial
    | frames conn frames => exact directs_frames center frames
    | closed conn reason => exact directs_lose hw center conn
  | call r =>
    cases r with
    | tick => exact .of_nameless (tick_telling Move.telling_nameless trivial n)
    | subscribe name =>
      rw [step_subscribe]
      exact directs_subscribe (receiveWith_nameless _) center name
    | publish name handle =>
      rw [step_publish]
      exact directs_publish (receiveWith_nameless _) center name handle
    | send source dest kind payload =>
      by_cases hpass : n.Passes (.call (.send source dest kind payload))
      · obtain ⟨node, hdest⟩ := hpass
        simp only [step, call, post, hdest, eventCalls, framesOf, framesCalls]
        cases hs : n.sendOver node ⟨source.withNode n.self, dest.moduleId, kind, payload⟩ with
        | error e => exact .refl n
        | ok m =>
          obtain ⟨_, _, -, -, -, hqueue | hrefuse⟩ := sendOver_takes hs
          · exact .of_nameless (hqueue.via trivial)
          · exact .of_nameless (hrefuse.via trivial)
      · rw [step_eq_foldl hpass]
        exact directs_frames center _

theorem Wired.directs_stepAt (hw : n.Wired) (center : n.registry?.isSome) (t : Nat) (e : Event) :
    n.Directs (eventCalls { n with now := t } e) (n.stepAt t e) := by
  have htend : n.Takes .tend { n with now := t } := .tend t n.catalog
  exact (Directs.of_nameless (htend.via (P := Move.Nameless) trivial)).trans
    ((htend.wired hw).directs_step center e)

theorem Wired.directs_run (hw : n.Wired) (center : n.registry?.isSome)
    (events : List (Nat × Event)) :
    n.Directs (n.runCalls events) (n.run events) := by
  induction events generalizing n with
  | nil => exact .refl n
  | cons x rest ih =>
    have hfirst := hw.directs_stepAt center x.1 x.2
    exact hfirst.trans
      (ih (hfirst.via.keeps (fun _ _ _ hk _ ht => ht.wired hk) hw) (hfirst.isSome_iff ▸ center))

end Node

end Meshwork
