import Meshwork.Proofs.Interests
import Meshwork.Proofs.Node.Session

/-!
# Members

A member is a node that is not the center. It asks by sending frames to the directory, and only the
calls to subscribe and to publish make it ask: `Member.step_via`, all other events are quiet.
-/

namespace Meshwork

def Command.frame (c : Command) (self : NodeId) (directory : Handle) : Frame :=
  { source := ⟨self, meshModule⟩, dest := directory.moduleId, kind := textKind,
    payload := c.payload }

/-- The moves by which a member asks for something: a module of its own may be reported, and the
request is queued or refused. -/
def Move.Requests (self : NodeId) (c : Command) : Move → Prop
  | .bind .. | .refuse .. => True
  | .queue _ _ frame => ∃ directory, frame = c.frame self directory
  | _ => False

theorem Move.Requests.not_announces {a : Move} {self node : NodeId} {c : Command}
    (h : a.Requests self c) :
    ¬ a.Announces node := by
  cases a <;> first | exact id | exact fun _ => h

def Frame.call? (r : Routing) (f : Frame) : Option Command :=
  match r.classify f with
  | .control _ (.subscribe name) => some (.subscribe name)
  | .control _ (.publish name handle) => some (.publish name handle)
  | _ => none

theorem Routing.keyword?_of_classify {r : Routing} {f : Frame} {source : Handle} {c : Command}
    (h : r.classify f = .control source c) : f.keyword? = some c.keyword := by
  unfold classify at h
  split at h
  · cases h
  split at h
  · split at h
    · rename_i hc
      cases h
      exact Frame.keyword?_of_parse hc
    · cases h
  split at h
  · split at h
    · cases h
    · cases h
  split at h
  · cases h
  · cases h

def Event.MayCall : Event → Prop
  | .call .tick => False
  | .call _ | .link (.frames ..) => True
  | _ => False

instance (e : Event) : Decidable e.MayCall :=
  match e with
  | .call (.send ..) | .call (.subscribe _) | .call (.publish ..) | .link (.frames ..) =>
    isTrue trivial
  | .accept | .link (.connected _) | .link (.closed ..) | .refusal | .handshake _ | .call .tick |
    .tick
  | .written _ | .stopped _ | .install .. | .uninstall _ => isFalse id

namespace Node

variable {n m : Node} {a : Move} {loop : Loopback} {c : Command}

/-- A node that is not the center. -/
structure Member (n : Node) : Prop where
  ordered : n.Ordered
  not_center : n.registry? = none

theorem Takes.member (h : n.Member) (ht : n.Takes a m) : m.Member := by
  refine ⟨ht.ordered h.ordered, ?_⟩
  have hsame := ht.isSome_registry?
  rw [h.not_center] at hsame
  simpa using hsame

theorem Via.member {P : Move → Prop} (h : n.Via P m) (hn : n.Member) : m.Member :=
  h.keeps (fun _ _ _ hk _ ht => ht.member hk) hn

theorem Session.member {conn : ConnId} {directory : Handle} (h : n.Session conn directory) :
    n.Member :=
  ⟨h.ordered, h.not_center⟩

namespace Member

theorem routing_eq (h : n.Member) : n.routing = { self := n.self, isCenter := false } := by
  simp [routing, h.not_center]

theorem exists_role (h : n.Member) : ∃ center, n.role = .member center := by
  have hm := h.not_center
  unfold registry? at hm
  split at hm
  · cases hm
  · exact ⟨_, ‹_›⟩

theorem serve_eq (h : n.Member) (source : NodeId) (c : Command) : n.serve loop source c = n := by
  obtain ⟨center, hr⟩ := h.exists_role
  simp [serve, hr]

theorem introduce_eq (h : n.Member) (id : NodeId) : n.introduce loop id = n := by
  obtain ⟨center, hr⟩ := h.exists_role
  simp [introduce, hr]

theorem ask_eq (h : n.Member) (loop : Loopback) (c : Command) :
    n.ask loop c =
      match n.center? with
      | none => .error CenterTrouble.unknown.fault
      | some center => n.sendOver center.node (c.frame n.self center.directory) := by
  obtain ⟨center, hr⟩ := h.exists_role
  cases center with
  | none => simp [ask, center?, hr]
  | some center =>
    have hc : n.center? = some center := by simp [center?, hr]
    obtain ⟨hin, hne, hnode⟩ := h.ordered.seated.center center hc
    have hdest : n.routing.destination center.directory = .node center.node := by
      rw [Routing.destination, hnode, if_pos ⟨hin.1, hne⟩]
    simp only [ask, center?, hr, command, post, hdest]
    rfl

theorem obey_via (h : n.Member) (hsub : ∀ name, c ≠ .subscribe name)
    (hpub : ∀ name handle, c ≠ .publish name handle) :
    n.Via (fun a => a.Inner ∧ a.Quiet) (n.obey loop c) := by
  have hmeets {m : Node} {Q : Move → Prop} (hm : n.Via (fun a => a.Meets ∧ Q a) m) :
      n.Via (fun a => a.Inner ∧ a.Quiet) m :=
    hm.mono fun _ ha => ⟨ha.1.inner, ha.1.quiet⟩
  cases c with
  | register a => exact hmeets (enroll_via n a)
  | address a => exact hmeets (noteAddress_via n a)
  | broadcast id =>
    rw [obey, h.introduce_eq]
    exact .refl n
  | unregister id => exact .refl n
  | heartbeat => exact .refl n
  | handle name handle => exact hmeets (reach_via n name handle)
  | subscribe name => exact absurd rfl (hsub name)
  | publish name handle => exact absurd rfl (hpub name handle)
  | handles name handles =>
    have hbegin : n.Via (fun a => a.Inner ∧ a.Quiet) (n.emit (.report (.batchBegin name))) :=
      Takes.via (.bracket ⟨name, .inl rfl⟩) ⟨trivial, trivial⟩
    have hall := Via.foldl (P := fun a => a.Inner ∧ a.Quiet) (n.emit (.report (.batchBegin name)))
      (l := handles) fun n handle _ =>
        (reach_via n name handle).mono fun _ ha => ⟨ha.1.inner, ha.1.quiet⟩
    exact (hbegin.trans hall).trans (Takes.via (.bracket ⟨name, .inr rfl⟩) ⟨trivial, trivial⟩)

theorem receiveWith_via (h : n.Member) {f : Frame} (hf : f.call? n.routing = none) :
    n.Via (fun a => a.Inner ∧ a.Quiet) (n.receiveWith loop f) := by
  unfold receiveWith
  split
  · rename_i source c hc
    refine h.obey_via (fun name hname => ?_) fun name handle hname => ?_
    · simp [Frame.call?, hc, hname] at hf
    · simp [Frame.call?, hc, hname] at hf
  · rw [h.serve_eq]
    exact .refl n
  · exact Takes.via (.deliver _) ⟨trivial, trivial⟩
  · exact .refl n

theorem receive_heartbeat_via (h : n.Member) {f : Frame} (hf : f.keyword? = some .hb) :
    n.Via (fun a => a.Inner ∧ a.Calm) (n.receive f) := by
  unfold receive receiveWith
  split
  · rename_i source c hc
    have hk := Routing.keyword?_of_classify hc
    rw [hf, Option.some.injEq] at hk
    cases c with
    | heartbeat => exact .refl n
    | _ => cases hk
  · rw [h.serve_eq]
    exact .refl n
  · exact Takes.via (.deliver _) ⟨trivial, trivial, fun _ => id⟩
  · exact .refl n

theorem tell_heartbeat_via (h : n.Member) (dest : Handle) :
    n.Via (fun a => a.Inner ∧ a.Calm) (n.tell receive dest .heartbeat) := by
  have hkeyword {f : Frame} (hf : f.payload = Command.heartbeat.payload) : f.keyword? = some .hb :=
    Frame.keyword?_eq hf
  have hquiet {f : Frame} (hf : f.payload = Command.heartbeat.payload) : ¬ f.IsRequest :=
    mt (Frame.isRequest_iff hf).1 (by decide)
  unfold tell
  split
  · rename_i hp
    unfold command post at hp
    split at hp
    · split at hp
      · cases hp
      · cases hp
        exact h.receive_heartbeat_via (hkeyword rfl)
    · obtain ⟨_, _, -, -, -, hqueue | hrefuse⟩ := sendOver_takes hp
      · exact hqueue.via ⟨trivial, hquiet rfl, fun _ => id⟩
      · exact hrefuse.via ⟨trivial, trivial, fun _ => id⟩
  · exact .refl n

theorem askIfPossible_via (h : n.Member) (loop : Loopback) (c : Command) :
    n.Via (fun a => a.Inner ∧ ¬ a.Remembers ∧ (∀ id, ¬ a.LinksTo id) ∧
      (¬ c.keyword.IsRequest → a.Quiet)) (n.askIfPossible loop c) := by
  unfold askIfPossible
  rw [h.ask_eq]
  cases n.center? with
  | none => exact .refl n
  | some center =>
    dsimp only
    split
    · rename_i hs
      obtain ⟨_, _, -, -, -, hqueue | hrefuse⟩ := sendOver_takes hs
      · exact hqueue.via ⟨trivial, id, fun _ => id, fun hc => mt (Frame.isRequest_iff rfl).1 hc⟩
      · exact hrefuse.via ⟨trivial, id, fun _ => id, fun _ => trivial⟩
    · exact .refl n

theorem askIfPossible_requests (h : n.Member) (loop : Loopback) (c : Command) :
    n.Via (Move.Requests n.self c) (n.askIfPossible loop c) := by
  unfold askIfPossible
  rw [h.ask_eq]
  cases n.center? with
  | none => exact .refl n
  | some center =>
    dsimp only
    split
    · rename_i hs
      obtain ⟨_, _, -, -, -, hqueue | hrefuse⟩ := sendOver_takes hs
      · exact hqueue.via ⟨center.directory, rfl⟩
      · exact hrefuse.via trivial
    · exact .refl n

theorem request_requests (h : n.Member) (loop : Loopback) (name : String) :
    n.Via (Move.Requests n.self (.subscribe name)) (n.request loop name) := by
  unfold request
  dsimp only
  split
  · rename_i moduleId _
    have hreach :
        n.Via (Move.Requests n.self (.subscribe name)) (n.reach name ⟨n.self, moduleId⟩) := by
      refine (reach_moves n name ⟨n.self, moduleId⟩).mono ?_
      rintro _ (⟨handle, rfl⟩ | ⟨conn, rfl, hself⟩)
      · trivial
      · exact absurd rfl hself
    have hask := (hreach.member h).askIfPossible_requests loop (.subscribe name)
    rw [hreach.self_eq] at hask
    exact hreach.trans hask
  · exact h.askIfPossible_requests loop _

theorem lose_via (h : n.Member) (conn : ConnId) : n.Via Move.Calm (n.lose conn) := by
  obtain ⟨-, he⟩ | hdrop | ⟨node, m, hlose, he⟩ := lose_cases n conn
  · rw [he]
    exact .refl n
  · exact hdrop.via ⟨trivial, fun _ => id⟩
  · have hm := hlose.member h
    rw [he]
    refine (hlose.via ⟨trivial, fun _ => id⟩).trans ?_
    split
    · rename_i hr
      simp [hm.not_center] at hr
    · split
      · exact .refl m
      · exact (hm.askIfPossible_via receive _).mono fun _ ha =>
          ⟨ha.2.2.2 (by simp [Command.keyword, Keyword.IsRequest]), ha.2.2.1⟩

theorem heartbeats_via (h : n.Member) (due : List (NodeId × Handle)) :
    n.Via (fun a => a.Inner ∧ a.Calm)
      (due.foldl (fun n (_, handle) => n.tell receive handle .heartbeat) n) :=
  Via.foldl_of (P := fun a => a.Inner ∧ a.Calm) (fun _ _ _ hk _ ht => ht.member hk) h
    (f := fun n (x : NodeId × Handle) => n.tell receive x.2 .heartbeat)
    fun _ hn x _ => hn.tell_heartbeat_via x.2

theorem tick_via (h : n.Member) : n.Via Move.Calm n.tick := by
  have hbeats := (h.heartbeats_via (n.roster.due n.now (n.profile.heartbeatInterval * 1000))).mono
    fun _ ha => ha.2
  unfold tick
  dsimp only
  split
  · exact hbeats
  · refine hbeats.trans ((rejoin_via _).mono ?_)
    rintro _ rfl
    exact ⟨trivial, fun _ => id⟩

/-- An event that calls the node for nothing, unless it is the result of a handshake that is waited
for. -/
theorem step_via (h : n.Member) {e : Event} (he : ¬ e.MayCall)
    (hw : ∀ result, e = .handshake result → ¬ n.Awaits) : n.Via Move.Calm (n.step e) := by
  cases e with
  | accept =>
    refine (accept_via n).mono ?_
    rintro _ (rfl | ⟨conn, rfl⟩)
    · exact ⟨trivial, fun _ => id⟩
    · exact ⟨trivial, fun _ => id⟩
  | tick => exact h.tick_via
  | written conn =>
    exact Takes.via (.write (f := fun l => l.drain.2) fun _ => rfl) ⟨trivial, fun _ => id⟩
  | stopped conn => exact Takes.via (.write (f := Link.stop) fun _ => rfl) ⟨trivial, fun _ => id⟩
  | install name moduleId => exact (Takes.tend n.now _).via ⟨trivial, fun _ => id⟩
  | uninstall name => exact (Takes.tend n.now _).via ⟨trivial, fun _ => id⟩
  | refusal =>
    simp only [step]
    split
    · exact .refl n
    · rename_i conn reason rest hr
      have hpardon := Takes.pardon hr
      exact (hpardon.via ⟨trivial, fun _ => id⟩).trans ((hpardon.member h).lose_via conn)
  | handshake result =>
    have hdrop : n.finishHandshake result = { n with handshakes := n.handshakes - 1 } := by
      unfold finishHandshake
      exact if_pos (hw result rfl)
    rw [step, hdrop]
    exact Takes.answered.via ⟨trivial, fun _ => id⟩
  | link e =>
    cases e with
    | connected conn =>
      refine (connected_via n conn).mono ?_
      rintro _ ⟨id, rfl⟩
      exact ⟨trivial, fun _ => False.elim⟩
    | frames conn frames => exact absurd trivial he
    | closed conn reason => exact h.lose_via conn
  | call r =>
    cases r with
    | tick => exact h.tick_via
    | _ => exact absurd trivial he

end Member

theorem Ordered.entry_of_lose (ho : n.Ordered) {id : NodeId} {conn : ConnId} {p : Peer}
    (hp : n.roster.get? id = some p) (hl : p.link = some conn) :
    (n.lose conn).roster.get? id = some p.detached ∧
      (n.lose conn).moduleEvents = n.moduleEvents ++ p.bound.map .exited := by
  obtain ⟨k, hlose, heq⟩ := ho.wired.exists_lose hp hl
  have ho' := hlose.ordered ho
  have hk : k.roster.get? id = some p.detached ∧
      k.moduleEvents = n.moduleEvents ++ p.bound.map .exited := by
    cases hlose with
    | lose _ _ hp' =>
      rw [hp, Option.some.injEq] at hp'
      rw [← hp']
      exact ⟨by rw [Roster.get?_detach, if_pos rfl, hp, Option.map_some], moduleEvents_of_exits rfl⟩
  rw [heq]
  split
  · unfold forget
    split <;> exact hk
  · split
    · exact hk
    · rename_i hcenter hid
      have hm : k.Member := ⟨ho', by simpa using hcenter⟩
      unfold askIfPossible
      split
      · rename_i l hask
        rw [hm.ask_eq] at hask
        split at hask
        · cases hask
        · rename_i center hc
          have hne : center.node ≠ id := fun h => hid (by rw [hc, Option.map_some, h])
          obtain ⟨_, _, -, -, -, hq | hr⟩ := sendOver_takes hask
          · obtain ⟨q, hq', halters⟩ := hq.exists_alters hk.1
            have hevents : l.moduleEvents = k.moduleEvents := by cases hq; simp [moduleEvents]
            cases halters with
            | same => exact ⟨hq', hevents.trans hk.2⟩
            | queue => exact absurd rfl hne
          · cases hr with
            | refuse => exact hk
      · exact hk

end Node

end Meshwork
