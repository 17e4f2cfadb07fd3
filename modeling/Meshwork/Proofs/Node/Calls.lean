import Meshwork.Proofs.Interests
import Meshwork.Proofs.Node.Member

/-!
# What a member is called for

The calls of a member, by its owner or by the frames it gets, and what comes of them. Main
statement: `Member.answers_step`, a member remembers what an event calls it for and nothing else,
and during a session it asks the center for what is new, once and in the order of the calls.
-/

namespace Meshwork.Node

variable {n m k : Node} {loop : Loopback} {c : Command} {cs ds : List Command} {conn : ConnId}
  {directory : Handle}

/-- The frames that an event makes a node handle. What its owner sends to the node itself is one. -/
def framesOf (n : Node) : Event → List Frame
  | .link (.frames _ frames) => frames
  | .call (.send source dest kind payload) =>
    match n.routing.destination dest with
    | .here _ =>
      if n.wire.maxPayload < payload.length then []
      else [{ source := source.withNode n.self, dest := dest.moduleId, kind, payload }]
    | .node _ => []
  | _ => []

/-- What an event calls a node for, in order. -/
def calls (n : Node) : Event → List Command
  | .call (.subscribe name) => [.subscribe name]
  | .call (.publish name handle) => [.publish name handle]
  | e => (n.framesOf e).filterMap (·.call? n.routing)

def Fits (n : Node) (c : Command) : Prop := c.payload.length ≤ n.wire.maxPayload

/-- From `n` to `m` the node asks the center for `cs`: in a session these are the requests that it
queues, unless one is refused. -/
structure Asks (n : Node) (cs : List Command) (m : Node) : Prop where
  via : n.Via Move.Inner m
  log : ∀ conn directory, n.Session conn directory → (∀ c ∈ cs, n.Fits c) → ¬ m.Refuses conn →
    m.requestsOn conn = n.requestsOn conn ++ cs.map (·.frame n.self directory)

/-- From `n` to `m` the node takes calls: it remembers what is new to it, and asks the center for
that. -/
structure Answers (n : Node) (calls : List Command) (m : Node) : Prop where
  asks : n.Asks (n.interests.novel n.self calls) m
  interests : m.interests = n.interests.after n.self calls

theorem Via.fits_iff {P : Move → Prop} (h : n.Via P m) : m.Fits c ↔ n.Fits c := by
  rw [Fits, Fits, wire, wire, h.profile_eq]

namespace Asks

theorem of_quiet (h : n.Via (fun a => a.Inner ∧ a.Quiet) m) : n.Asks [] m where
  via := h.mono fun _ ha => ha.1
  log conn directory hs _ _ := by
    have hquiet := (h.mono fun _ ha => ha.2).requestsOn_eq hs.not_center conn
    simpa using hquiet

theorem refl (n : Node) : n.Asks [] n := .of_quiet (.refl n)

theorem trans (h : n.Asks cs m) (h' : m.Asks ds k) : n.Asks (cs ++ ds) k where
  via := h.via.trans h'.via
  log conn directory hs hfit hr := by
    rw [List.forall_mem_append] at hfit
    have hfirst :=
      h.log conn directory hs hfit.1 (mt (h'.via.mono fun _ ha => ha.retains).refuses hr)
    have hsecond := h'.log conn directory (h.via.session hs)
      (fun c hc => h.via.fits_iff.2 (hfit.2 c hc)) hr
    rw [hsecond, hfirst, h.via.self_eq, List.map_append, List.append_assoc]

end Asks

theorem Session.exists_ask (h : n.Session conn directory) (loop : Loopback) (hfit : n.Fits c) :
    ∃ m, n.ask loop c = .ok m ∧
      (n.Takes (.queue directory.node conn (c.frame n.self directory)) m ∨
        n.Takes (.refuse directory.node conn) m) := by
  obtain ⟨p, hp, hl⟩ := h.linked
  have hask : n.ask loop c = n.sendOver directory.node (c.frame n.self directory) := by
    simp only [h.member.ask_eq, h.center]
  rw [hask]
  exact h.ordered.wired.exists_sendOver hp hl hfit

namespace Member

theorem asks_askIfPossible (h : n.Member) (loop : Loopback) (hc : c.keyword.IsRequest) :
    n.Asks [c] (n.askIfPossible loop c) where
  via := (h.askIfPossible_via loop c).mono fun _ ha => ha.1
  log conn directory hs hfit hr := by
    obtain ⟨m, hask, htakes⟩ := hs.exists_ask loop (hfit c (List.mem_singleton_self c))
    have hm : n.askIfPossible loop c = m := by rw [askIfPossible, hask]
    rw [hm] at hr ⊢
    obtain hqueue | hrefuse := htakes
    · have hrequest : (c.frame n.self directory).IsRequest := (Frame.isRequest_iff rfl).2 hc
      rw [hqueue.requestsOn h.not_center]
      simp [Move.request?, hrequest]
    · cases hrefuse with
      | refuse => exact absurd ⟨_, List.mem_append_right _ (List.mem_singleton_self _)⟩ hr

theorem asks_request (h : n.Member) (loop : Loopback) (name : String) :
    n.Asks [.subscribe name] (n.request loop name) := by
  unfold request
  dsimp only
  split
  · have hreach := (reach_via n name ⟨n.self, ‹_›⟩).mono (Q := fun a => a.Inner ∧ a.Quiet)
      fun _ ha => ⟨ha.1.inner, ha.1.quiet⟩
    exact (Asks.of_quiet hreach).trans
      ((hreach.member h).asks_askIfPossible loop (.inr (.inl rfl)))
  · exact h.asks_askIfPossible loop (.inr (.inl rfl))

theorem interests_askIfPossible (h : n.Member) (loop : Loopback) (c : Command) :
    (n.askIfPossible loop c).interests = n.interests :=
  (h.askIfPossible_via loop c).interests_eq fun _ ha => ha.2.1

theorem interests_request (h : n.Member) (loop : Loopback) (name : String) :
    (n.request loop name).interests = n.interests := by
  unfold request
  dsimp only
  split
  · have hreach := reach_via n name ⟨n.self, ‹_›⟩
    rw [(hreach.member h).interests_askIfPossible]
    exact hreach.interests_eq fun _ ha => ha.1.quiet.not_remembers
  · exact h.interests_askIfPossible loop _

end Member

namespace Answers

theorem of_quiet (h : n.Via (fun a => a.Inner ∧ a.Quiet) m) : n.Answers [] m :=
  ⟨.of_quiet h, h.interests_eq fun _ ha => ha.2.not_remembers⟩

theorem trans {calls more : List Command} (h : n.Answers calls m) (h' : m.Answers more k) :
    n.Answers (calls ++ more) k := by
  have hself := h.asks.via.self_eq
  refine ⟨?_, ?_⟩
  · have hmore := h'.asks
    rw [h.interests, hself] at hmore
    rw [Interests.novel_append]
    exact h.asks.trans hmore
  · rw [h'.interests, h.interests, Interests.after_append, hself]

theorem of_old (h : n.interests.news? n.self c = none) : n.Answers [c] n := by
  refine ⟨?_, ?_⟩
  · rw [Interests.novel, h]
    exact .refl n
  · rw [Interests.after_cons, h]
    rfl

theorem of_new {d : Command} (h : n.interests.news? n.self c = some d) {a : Move}
    (ht : n.Takes a { n with interests := n.interests.remember d }) (ha : a.Remembers)
    (hasks : Asks { n with interests := n.interests.remember d } [d] m)
    (hi : m.interests = n.interests.remember d) : n.Answers [c] m := by
  refine ⟨?_, ?_⟩
  · rw [Interests.novel, h]
    refine ⟨(ht.via ?_).trans hasks.via, fun conn directory hs hfit hr => ?_⟩
    · cases a <;> trivial
    · obtain hsession | ⟨rfl, -⟩ := ht.session hs
      · exact hasks.log conn directory hsession hfit hr
      · exact ha.elim
  · rw [Interests.after_cons, h]
    exact hi

end Answers

theorem subscribe_cases (n : Node) (loop : Loopback) (name : String) :
    (n.interests.news? n.self (.subscribe name) = none ∧
      (n.subscribe loop name = .error (.invalidName name) ∨ n.subscribe loop name = .ok n)) ∨
    (ValidName name ∧ ¬ n.interests.Wants name ∧
      n.subscribe loop name =
        .ok ({ n with interests := n.interests.want name }.request loop name)) := by
  by_cases hv : ValidName name
  · by_cases hw : n.interests.Wants name
    · exact .inl ⟨by simp [Interests.news?, hw], .inr (by simp [subscribe, hv, hw])⟩
    · exact .inr ⟨hv, hw, by simp [subscribe, hv, hw]⟩
  · exact .inl ⟨by simp [Interests.news?, hv], .inl (by simp [subscribe, hv])⟩

theorem publish_cases (n : Node) (loop : Loopback) (name : String) (handle : Handle) :
    (n.interests.news? n.self (.publish name handle) = none ∧
      (n.publish loop name handle = .error (.invalidName name) ∨
        ∃ first, n.publish loop name handle = .ok (first, n))) ∨
    (ValidName name ∧ n.interests.offered? name = none ∧
      n.publish loop name handle = .ok (handle.withNode n.self,
        askIfPossible loop { n with interests := n.interests.offer name (handle.withNode n.self) }
          (.publish name (handle.withNode n.self)))) := by
  by_cases hv : ValidName name
  · cases ho : n.interests.offered? name with
    | none => exact .inr ⟨hv, rfl, by simp [publish, hv, ho]⟩
    | some first =>
      exact .inl ⟨by simp [Interests.news?, ho], .inr ⟨first, by simp [publish, hv, ho]⟩⟩
  · exact .inl ⟨by simp [Interests.news?, hv], .inl (by simp [publish, hv])⟩

namespace Member

theorem answers_subscribe (h : n.Member) (loop : Loopback) (name : String) :
    n.Answers [.subscribe name]
      (match n.subscribe loop name with
      | .ok m => m
      | .error _ => n) := by
  obtain ⟨hold, he | he⟩ | ⟨hv, hw, he⟩ := subscribe_cases n loop name
  · rw [he]
    exact .of_old hold
  · rw [he]
    exact .of_old hold
  · rw [he]
    have hnew : n.interests.news? n.self (.subscribe name) = some (.subscribe name) :=
      if_pos ⟨hv, hw⟩
    have hwant := Takes.want hv hw
    have hm := hwant.member h
    exact .of_new hnew hwant trivial (hm.asks_request loop name) (hm.interests_request loop name)

theorem answers_publish (h : n.Member) (loop : Loopback) (name : String) (handle : Handle) :
    n.Answers [.publish name handle]
      (match n.publish loop name handle with
      | .ok (_, m) => m
      | .error _ => n) := by
  obtain ⟨hold, he | ⟨first, he⟩⟩ | ⟨hv, ho, he⟩ := publish_cases n loop name handle
  · rw [he]
    exact .of_old hold
  · rw [he]
    exact .of_old hold
  · rw [he]
    have hnew : n.interests.news? n.self (.publish name handle) =
        some (.publish name (handle.withNode n.self)) := if_pos ⟨hv, ho⟩
    have hoffer := Takes.offer hv ho (handle.node_withNode n.self)
    have hm := hoffer.member h
    exact .of_new hnew hoffer trivial (hm.asks_askIfPossible loop (.inr (.inr rfl)))
      (hm.interests_askIfPossible loop _)

theorem answers_receiveWith (h : n.Member) (loop : Loopback) (f : Frame) :
    n.Answers (f.call? n.routing).toList (n.receiveWith loop f) := by
  cases hf : f.call? n.routing with
  | none => exact .of_quiet (h.receiveWith_via hf)
  | some c =>
    unfold Frame.call? at hf
    split at hf
    · rename_i source name hc
      cases hf
      simp only [receiveWith, hc, obey]
      exact h.answers_subscribe loop name
    · rename_i source name handle hc
      cases hf
      simp only [receiveWith, hc, obey]
      exact h.answers_publish loop name handle
    · cases hf

theorem answers_frames (h : n.Member) (frames : List Frame) :
    n.Answers (frames.filterMap (·.call? n.routing)) (frames.foldl receive n) := by
  induction frames generalizing n with
  | nil => exact .of_quiet (.refl n)
  | cons f rest ih =>
    have hfirst : n.Answers _ (n.receive f) := h.answers_receiveWith receiveOwn f
    have hm := hfirst.asks.via.member h
    have hrest := ih hm
    rw [hm.routing_eq, hfirst.asks.via.self_eq, ← h.routing_eq] at hrest
    rw [List.filterMap_cons]
    have hall := hfirst.trans hrest
    cases hf : f.call? n.routing with
    | none => simpa [hf] using hall
    | some c => simpa [hf] using hall

end Member

/-- The owner of the node sends a frame to another node. -/
def Passes (n : Node) : Event → Prop
  | .call (.send _ dest _ _) => ∃ id, n.routing.destination dest = .node id
  | _ => False

instance (n : Node) (e : Event) : Decidable (n.Passes e) :=
  match e with
  | .call (.send _ dest _ _) =>
    match h : n.routing.destination dest with
    | .here _ => isFalse (by simp [Passes, h])
    | .node id => isTrue ⟨id, h⟩
  | .accept | .link _ | .refusal | .handshake _ | .call (.subscribe _) | .call (.publish ..) |
    .call .tick
  | .tick | .written _ | .stopped _ | .install .. | .uninstall _ => isFalse id

theorem step_eq_foldl {source dest : Handle} {kind : UInt8} {payload : List UInt8}
    (hpass : ¬ n.Passes (.call (.send source dest kind payload))) :
    n.step (.call (.send source dest kind payload)) =
      (n.framesOf (.call (.send source dest kind payload))).foldl receive n := by
  simp only [step, call, post, framesOf]
  cases hdest : n.routing.destination dest with
  | node id => exact absurd ⟨id, hdest⟩ hpass
  | here moduleId =>
    by_cases hlen : n.wire.maxPayload < payload.length
    · simp only [hlen, if_true]
      rfl
    · simp only [hlen, if_false]
      rfl

theorem step_subscribe (n : Node) (name : String) :
    n.step (.call (.subscribe name)) =
      match n.subscribe receive name with
      | .ok m => m
      | .error _ => n := by
  cases h : n.subscribe receive name <;> simp only [step, call, h]

theorem step_publish (n : Node) (name : String) (handle : Handle) :
    n.step (.call (.publish name handle)) =
      match n.publish receive name handle with
      | .ok (_, m) => m
      | .error _ => n := by
  cases h : n.publish receive name handle <;> simp only [step, call, h]

namespace Member

/-- What an event calls a member for, it answers, unless the event passes a frame on. -/
theorem answers_step (h : n.Member) {e : Event} (hcall : e.MayCall) (hpass : ¬ n.Passes e) :
    n.Answers (n.calls e) (n.step e) := by
  cases e with
  | call r =>
    cases r with
    | tick => exact hcall.elim
    | subscribe name =>
      rw [step_subscribe]
      exact h.answers_subscribe receive name
    | publish name handle =>
      rw [step_publish]
      exact h.answers_publish receive name handle
    | send source dest kind payload =>
      rw [step_eq_foldl hpass]
      exact h.answers_frames _
  | link e =>
    cases e with
    | frames conn frames => exact h.answers_frames frames
    | connected conn => exact hcall.elim
    | closed conn reason => exact hcall.elim
  | _ => exact hcall.elim

end Member

theorem via_of_passes {e : Event} (hpass : n.Passes e) :
    n.Via (fun a => a.Inner ∧ ¬ a.Remembers ∧ ∀ id, ¬ a.LinksTo id) (n.step e) ∧ n.framesOf e = [] ∧
      n.calls e = [] := by
  cases e with
  | call r =>
    cases r with
    | send source dest kind payload =>
      obtain ⟨node, hdest⟩ := hpass
      simp only [calls, framesOf, step, call, post, hdest, List.filterMap_nil, and_true]
      cases hs : n.sendOver node
        { source := source.withNode n.self, dest := dest.moduleId, kind, payload } with
      | error e => exact .refl n
      | ok m =>
        obtain ⟨_, _, -, -, -, hqueue | hrefuse⟩ := sendOver_takes hs
        · exact hqueue.via ⟨trivial, id, fun _ => id⟩
        · exact hrefuse.via ⟨trivial, id, fun _ => id⟩
    | _ => exact hpass.elim
  | _ => exact hpass.elim

theorem calls_eq_nil {e : Event} (he : ¬ e.MayCall) : n.framesOf e = [] ∧ n.calls e = [] := by
  cases e with
  | call r =>
    cases r with
    | tick => exact ⟨rfl, rfl⟩
    | _ => exact absurd trivial he
  | link e =>
    cases e with
    | frames => exact absurd trivial he
    | _ => exact ⟨rfl, rfl⟩
  | _ => exact ⟨rfl, rfl⟩

end Meshwork.Node
