import Meshwork.Proofs.Node.Directory
import Meshwork.Proofs.Node.Introductions
import Meshwork.Proofs.RoundTrip

/-!
# The names of the center itself

A center enters what it subscribes to and publishes in its own registry, once. Main statement:
`own_names_of_run`, it stays there until somebody asks the directory to forget the center, which
nothing keeps anybody from: the entry of the center has no link. After that only a frame that seems
to come from the center itself enters a name again.
-/

namespace Meshwork

namespace Registry

variable {calls : List Call} {name : String} {handle : Handle} {id source : NodeId}

/-- What calls of a kind enter and one call takes away is gone exactly if it was taken away last. -/
theorem not_held_iff (held : List Call → Prop) (enters : Call → Prop) {f : Call}
    (hstep : ∀ calls c, held (calls ++ [c]) ↔ held calls ∧ c ≠ f ∨ enters c) (hf : ¬ enters f)
    (h : ∃ c ∈ calls, enters c) :
    ¬ held calls ↔ ∃ before since, calls = before ++ f :: since ∧ ∀ c ∈ since, ¬ enters c := by
  induction calls using List.reverseRecOn with
  | nil => simp at h
  | append_singleton calls c ih =>
    have hlast (hc : c ≠ f) :
        (∃ before since, calls ++ [c] = before ++ f :: since ∧ ∀ c ∈ since, ¬ enters c) ↔
        (∃ before since, calls = before ++ f :: since ∧ ∀ c ∈ since, ¬ enters c) ∧ ¬ enters c := by
      constructor
      · rintro ⟨before, since, heq, hnot⟩
        obtain rfl | ⟨since', last, rfl⟩ := List.eq_nil_or_concat since
        · exact absurd (List.append_inj' heq rfl).2 (by simpa using hc)
        · rw [List.concat_eq_append] at heq hnot
          rw [← List.cons_append, ← List.append_assoc] at heq
          obtain ⟨rfl, hlast⟩ := List.append_inj' heq rfl
          cases hlast
          exact ⟨⟨before, since', rfl, fun c hc => hnot c (List.mem_append_left _ hc)⟩,
            hnot c (by simp)⟩
      · rintro ⟨⟨before, since, rfl, hnot⟩, hc⟩
        refine ⟨before, since ++ [c], by simp, fun d hd => ?_⟩
        obtain hd | hd := List.mem_append.1 hd
        · exact hnot d hd
        · exact List.mem_singleton.1 hd ▸ hc
    rw [hstep]
    -- the last call takes away, enters, or leaves the history as it was
    by_cases hc : c = f
    · subst hc
      refine iff_of_true (by simp [hf]) ⟨calls, [], rfl, nofun⟩
    · rw [hlast hc]
      by_cases henters : enters c
      · simp [henters]
      · obtain ⟨d, hd, hdenters⟩ := h
        obtain hd | hd := List.mem_append.1 hd
        · rw [← ih ⟨d, hd, hdenters⟩]
          simp [hc, henters]
        · exact absurd (List.mem_singleton.1 hd ▸ hdenters) henters

theorem not_mem_subscribersOf_run_iff (h : .request id (.subscribe name) ∈ calls) :
    id ∉ (run {} calls).subscribersOf name ↔ ∃ before since, calls = before ++ .forget id :: since ∧
      .request id (.subscribe name) ∉ since := by
  have hiff := not_held_iff (fun calls => id ∈ (run {} calls).subscribersOf name)
    (· = .request id (.subscribe name)) (f := .forget id)
    (fun calls c => by rw [run_concat, mem_subscribersOf_call (neat_run calls)]) nofun ⟨_, h, rfl⟩
  rw [hiff]
  refine exists_congr fun before => exists_congr fun since => and_congr_right fun _ => ?_
  exact ⟨fun h hmem => h _ hmem rfl, fun h c hmem hc => h (hc ▸ hmem)⟩

theorem not_mem_publishersOf_run_iff (h : .request source (.publish name handle) ∈ calls) :
    handle ∉ (run {} calls).publishersOf name ↔
      ∃ before since, calls = before ++ .forget handle.node :: since ∧
      ∀ source, .request source (.publish name handle) ∉ since := by
  have hiff := not_held_iff (fun calls => handle ∈ (run {} calls).publishersOf name)
    (fun c => ∃ source, c = .request source (.publish name handle)) (f := .forget handle.node)
    (fun calls c => by rw [run_concat, mem_publishersOf_call (neat_run calls)]) (by simp)
      ⟨_, h, source, rfl⟩
  rw [hiff]
  refine exists_congr fun before => exists_congr fun since => and_congr_right fun _ => ?_
  exact ⟨fun h source hmem => h _ hmem ⟨source, rfl⟩, by
    rintro h _ hmem ⟨source, rfl⟩; exact h source hmem⟩

end Registry

theorem Interests.not_mem_requests_of_news? {i : Interests} {self : NodeId} {c d : Command}
    (h : i.news? self c = some d) : d ∉ i.requests := by
  obtain ⟨name, -, rfl, -, hw⟩ | ⟨name, handle, -, rfl, -, ho⟩ := news?_cases h
  · rw [Wants] at hw
    simpa [requests] using hw
  · rw [offered?_eq_none_iff] at ho
    simpa [requests] using fun hmem => ho (List.mem_map_of_mem hmem)

namespace Node

variable {n m : Node} {a : Move} {c : Command} {f : Frame} {e : Event} {id : NodeId}
  {events : List (Nat × Event)}

/-- A frame that comes with an event asks the directory for something. -/
def Brings (n : Node) (e : Event) (source : Handle) (c : Command) : Prop :=
  ∃ f ∈ n.framesOf e, n.routing.classify f = .request source c

/-- How the names of a center itself fare in its registry. -/
structure OwnNames (n₀ : Node) (events : List (Nat × Event)) : Prop where
  registry : Node.registry? (n₀.run events) = some (.run {} (n₀.runCalls events))
  /-- A name is missing exactly if it went with the center and was not entered again in its name
  since. -/
  wanted : ∀ name ∈ (n₀.run events).interests.wanted,
    (n₀.self ∉ (Registry.run {} (n₀.runCalls events)).subscribersOf name ↔
      ∃ before since, n₀.runCalls events = before ++ .forget n₀.self :: since ∧
        .request n₀.self (.subscribe name) ∉ since)
  offered : ∀ name handle, (name, handle) ∈ (n₀.run events).interests.offered →
    (handle ∉ (Registry.run {} (n₀.runCalls events)).publishersOf name ↔
      ∃ before since, n₀.runCalls events = before ++ .forget n₀.self :: since ∧
        ∀ source, .request source (.publish name handle) ∉ since)
  /-- The registry forgets the center exactly if somebody asks for it. -/
  forgets : .forget n₀.self ∈ n₀.runCalls events ↔
    ∃ x ∈ events, ∃ source, n₀.Brings x.2 source (.unregister n₀.self)
  /-- A name that is remembered is entered again exactly if a frame asks for it. -/
  restored : ∀ before t e c id, c ∈ (n₀.run before).interests.requests →
    (.request id c ∈ eventCalls { n₀.run before with now := t } e ↔
      ∃ source, source.node = id ∧ n₀.Brings e source c)
  kept : (∀ x ∈ events, ∀ source, ¬ n₀.Brings x.2 source (.unregister n₀.self)) →
    (∀ name ∈ (n₀.run events).interests.wanted,
      n₀.self ∈ (Registry.run {} (n₀.runCalls events)).subscribersOf name) ∧
    ∀ name handle, (name, handle) ∈ (n₀.run events).interests.offered →
      handle ∈ (Registry.run {} (n₀.runCalls events)).publishersOf name

theorem Via.framesOf_eq {P : Move → Prop} (h : n.Via P m) (e : Event) :
    m.framesOf e = n.framesOf e := by
  unfold framesOf
  rw [h.routing_eq, h.self_eq, wire, wire, h.profile_eq]

theorem Via.brings_iff {P : Move → Prop} (h : n.Via P m) {source : Handle} :
    m.Brings e source c ↔ n.Brings e source c := by
  rw [Brings, Brings, h.framesOf_eq, h.routing_eq]

theorem Ordered.self_not_linked (ho : n.Ordered) : ¬ ∃ p ∈ n.roster.get? n.self, p.Linked := by
  rintro ⟨p, hp, hl⟩
  have hlive := (Peer.linked_iff.1 hl).2
  rw [ho.seated.own_state p hp] at hlive
  simp at hlive

theorem Takes.mem_requests (ht : n.Takes a m) (hc : c ∈ n.interests.requests) :
    c ∈ m.interests.requests := by
  simp only [Interests.requests, List.mem_append, List.mem_map] at hc ⊢
  cases ht with
  | want hv hw =>
    rw [Interests.want, if_neg hw]
    refine hc.imp_left ?_
    rintro ⟨x, hx, heq⟩
    exact ⟨x, List.mem_append_left _ hx, heq⟩
  | offer hv ho =>
    rw [Interests.offer, ho]
    refine hc.imp_right ?_
    rintro ⟨x, hx, heq⟩
    exact ⟨x, List.mem_append_left _ hx, heq⟩
  | _ => exact hc

def OffersOwn (n : Node) : Prop := ∀ p ∈ n.interests.offered, p.2.node = n.self

theorem Takes.offersOwn (h : n.OffersOwn) (ht : n.Takes a m) : m.OffersOwn := by
  have hsame (hi : m.interests.offered = n.interests.offered) : m.OffersOwn := by
    rw [OffersOwn, hi, ht.self_eq]
    exact h
  cases ht with
  | want hv hw => exact hsame (by simp only [Interests.want, if_neg hw])
  | @offer name handle hv ho hn =>
    simp only [OffersOwn, Interests.offer, ho, Option.isSome_none, Bool.false_eq_true, if_false]
    refine List.forall_mem_append.2 ⟨h, List.forall_mem_singleton.2 hn⟩
  | _ => exact hsame rfl

theorem mem_framesCalls_iff {call : Registry.Call} {Q : Arrival → Prop} {I : Node → Prop}
    (hkeep : ∀ k a m, I k → Takes k a m → I m)
    (hframe : ∀ k, I k → ∀ f, call ∈ k.frameCalls f ↔ Q (k.routing.classify f)) (hn : I n)
    (frames : List Frame) :
    call ∈ n.framesCalls frames ↔ ∃ f ∈ frames, Q (n.routing.classify f) := by
  induction frames generalizing n with
  | nil => simp [framesCalls]
  | cons f rest ih =>
    have hvia := receive_via n f
    have hrest := ih (hvia.keeps (fun k a m hk _ ht => hkeep k a m hk ht) hn)
    rw [hvia.routing_eq] at hrest
    rw [framesCalls, List.mem_append, hframe n hn, hrest, List.exists_mem_cons_iff]

theorem Ordered.forget_self_mem_framesCalls_iff (ho : n.Ordered) (frames : List Frame) :
    .forget n.self ∈ n.framesCalls frames ↔
      ∃ f ∈ frames, ∃ source, n.routing.classify f = .request source (.unregister n.self) := by
  refine mem_framesCalls_iff (I := fun k => k.Ordered ∧ k.self = n.self)
    (Q := fun arrival => ∃ source, arrival = .request source (.unregister n.self))
    (fun k a m hk ht => ⟨ht.ordered hk.1, ht.self_eq.trans hk.2⟩)
    (fun k hk f => ?_) ⟨ho, rfl⟩ frames
  rw [← hk.2, forget_mem_frameCalls_iff, and_iff_left hk.1.self_not_linked]

theorem Ordered.forget_self_mem_eventCalls_iff (ho : n.Ordered) (e : Event) :
    .forget n.self ∈ n.eventCalls e ↔ ∃ source, n.Brings e source (.unregister n.self) := by
  have hframes : .forget n.self ∈ n.framesCalls (n.framesOf e) ↔
      ∃ source, n.Brings e source (.unregister n.self) := by
    rw [ho.forget_self_mem_framesCalls_iff]
    exact ⟨fun ⟨f, hf, source, h⟩ => ⟨source, f, hf, h⟩,
      fun ⟨source, f, hf, h⟩ => ⟨f, hf, source, h⟩⟩
  rw [← hframes]
  refine ⟨fun h => ?_, fun h => framesCalls_subset n e h⟩
  obtain ⟨conn, id, -, hleaver, heq⟩ | ⟨c, hown⟩ | hmem := mem_eventCalls h
  · cases heq
    obtain ⟨p, hp, hl⟩ := (leaver?_eq_some_iff ho.wired).1 hleaver
    exact absurd ⟨p, hp, (ho.wired.linked_iff hp).2 (by simp [hl])⟩ ho.self_not_linked
  · simp [ownCalls] at hown
  · exact hmem

theorem request_mem_frameCalls_iff (hc : c ∈ n.interests.requests) (f : Frame) :
    .request id c ∈ n.frameCalls f ↔
    ∃ source, source.node = id ∧ n.routing.classify f = .request source c := by
  unfold frameCalls
  split
  · rename_i source node hf
    have hnot : c ≠ .unregister node := by
      rintro rfl
      simp [Interests.requests] at hc
    split <;> simp [hf, hnot.symm]
  · rename_i source c' hnot hf
    simp only [List.mem_singleton, Registry.Call.request.injEq, hf, Arrival.request.injEq]
    constructor
    · rintro ⟨rfl, rfl⟩
      exact ⟨source, rfl, rfl, rfl⟩
    · rintro ⟨_, rfl, rfl, rfl⟩
      exact ⟨rfl, rfl⟩
  · rename_i source c' hf
    simp only [ownCalls, List.mem_map, Option.mem_toList, Registry.Call.request.injEq, hf,
      reduceCtorEq, and_false, exists_false, iff_false, not_exists, not_and]
    rintro d hd - rfl
    exact Interests.not_mem_requests_of_news? hd hc
  all_goals
    rename_i hf
    simp [hf]

theorem request_mem_framesCalls_iff (hc : c ∈ n.interests.requests) (frames : List Frame) :
    .request id c ∈ n.framesCalls frames ↔
      ∃ f ∈ frames, ∃ source, source.node = id ∧ n.routing.classify f = .request source c :=
  mem_framesCalls_iff (I := fun k => c ∈ k.interests.requests)
    (Q := fun arrival => ∃ source, source.node = id ∧ arrival = .request source c)
    (fun _ _ _ hk ht => ht.mem_requests hk)
    (fun _ hk f => request_mem_frameCalls_iff hk f) hc frames

theorem request_mem_eventCalls_iff (hc : c ∈ n.interests.requests) (e : Event) :
    .request id c ∈ n.eventCalls e ↔
    ∃ source, source.node = id ∧ n.Brings e source c := by
  have hframes : .request id c ∈ n.framesCalls (n.framesOf e) ↔
      ∃ source, source.node = id ∧ n.Brings e source c := by
    rw [request_mem_framesCalls_iff hc]
    exact ⟨fun ⟨f, hf, source, hid, h⟩ => ⟨source, hid, f, hf, h⟩,
      fun ⟨source, hid, f, hf, h⟩ => ⟨f, hf, source, hid, h⟩⟩
  rw [← hframes]
  refine ⟨fun h => ?_, fun h => framesCalls_subset n e h⟩
  obtain ⟨conn, node, -, -, heq⟩ | ⟨c', hown⟩ | hmem := mem_eventCalls h
  · cases heq
  · obtain ⟨d, hd, heq⟩ := List.mem_map.1 hown
    cases heq
    exact absurd hc (Interests.not_mem_requests_of_news? (Option.mem_toList.1 hd))
  · exact hmem

theorem wants_of_subscribe (n : Node) {name : String} (hv : ValidName name) :
    (n.step (.call (.subscribe name))).interests.Wants name := by
  rw [step_subscribe]
  obtain ⟨hold, he⟩ | ⟨-, hw, he⟩ := subscribe_cases n receive name
  · have hw : n.interests.Wants name := by simpa [Interests.news?, hv] using hold
    obtain he | he := he
    · rwa [he]
    · rwa [he]
  · have hnew : Command.subscribe name ∈ (n.interests.want name).requests := by
      simp [Interests.want, hw, Interests.requests]
    have hkept :=
      (request_via receive_tame { n with interests := n.interests.want name } name).keeps
      (I := fun k => .subscribe name ∈ k.interests.requests)
        (fun _ _ _ hk _ ht => ht.mem_requests hk) hnew
    rw [he]
    simpa [Interests.Wants, Interests.requests] using hkept

theorem Ordered.frameCalls_of_unregister (ho : n.Ordered) {source : Handle}
    (hf : n.routing.classify f = .request source (.unregister n.self)) :
    n.frameCalls f = [.forget n.self] := by
  simp only [frameCalls, hf]
  exact if_neg ho.self_not_linked

theorem Ordered.forget_self_mem_runCalls_iff (ho : n.Ordered) (events : List (Nat × Event)) :
    .forget n.self ∈ n.runCalls events ↔
      ∃ x ∈ events, ∃ source, n.Brings x.2 source (.unregister n.self) := by
  induction events generalizing n with
  | nil => simp [runCalls]
  | cons x rest ih =>
    obtain ⟨t, e⟩ := x
    have htend : n.Via (fun _ => True) { n with now := t } := (Takes.tend t n.catalog).via trivial
    have hvia := Node.stepAt_via n t e
    have hfirst := (ho.tend t).forget_self_mem_eventCalls_iff e
    have hrest := ih (hvia.ordered ho)
    simp only [htend.self_eq, htend.brings_iff] at hfirst
    simp only [hvia.self_eq, hvia.brings_iff] at hrest
    rw [runCalls, List.mem_append, hfirst, hrest, List.exists_mem_cons_iff]

section Start

variable {profile : Profile} {catalog : Catalog} {port : UInt16} {now : Nat}
  {result : Except Fault Handshake} {n₀ : Node}

theorem blank_of_start (started : start profile catalog port now result = .ok n₀)
    (center : n₀.registry?.isSome) : n₀.registry? = some {} ∧ n₀.interests = {} := by
  obtain rfl := eq_idle_of_start started center
  refine ⟨?_, rfl⟩
  unfold Node.registry? idle at center ⊢
  dsimp only at center ⊢
  split at center
  · rename_i hr
    split at hr
    · cases hr
      rfl
    · cases hr
  · cases center

/-- Whatever happens to a center, it finds its own names in its registry unless it was forgotten
there and nobody has entered them again in its name. -/
theorem own_names_of_run (started : start profile catalog port now result = .ok n₀)
    (center : n₀.registry?.isSome) (events : List (Nat × Event)) : OwnNames n₀ events := by
  have ho : n₀.Ordered := ordered_of_run started []
  obtain ⟨hregistry, hinterests⟩ := blank_of_start started center
  have hrun := ho.wired.directs_run center events
  have hcalls : ∀ c ∈ (n₀.run events).interests.requests,
      .request n₀.self c ∈ n₀.runCalls events := fun c hc =>
    (hrun.requests c hc).resolve_left (by simp [hinterests, Interests.requests])
  have hwanted : ∀ name ∈ (n₀.run events).interests.wanted,
      .request n₀.self (.subscribe name) ∈ n₀.runCalls events := fun name hname =>
    hcalls _ (by simp [Interests.requests, hname])
  have hoffered : ∀ name handle, (name, handle) ∈ (n₀.run events).interests.offered →
      .request n₀.self (.publish name handle) ∈ n₀.runCalls events := fun name handle hname =>
    hcalls _ (by simp [Interests.requests, hname])
  have hown : ∀ name handle, (name, handle) ∈ (n₀.run events).interests.offered →
      handle.node = n₀.self := by
    have hstart : n₀.OffersOwn := by simp [OffersOwn, hinterests]
    intro name handle hname
    exact (run_keeps (fun _ _ _ => Takes.offersOwn) hstart events _ hname).trans
      (run_via n₀ events).self_eq
  -- its names are its own requests, so a `forget` of the node itself is all that takes them out
  have hforgets := ho.forget_self_mem_runCalls_iff events
  have hsubscribers := fun name hname => Registry.not_mem_subscribersOf_run_iff (hwanted name hname)
  have hpublishers : ∀ name handle, (name, handle) ∈ (n₀.run events).interests.offered →
      (handle ∉ (Registry.run {} (n₀.runCalls events)).publishersOf name ↔ ∃ before since,
        n₀.runCalls events = before ++ .forget n₀.self :: since ∧
          ∀ source, .request source (.publish name handle) ∉ since) := by
    intro name handle hname
    rw [← hown name handle hname]
    exact Registry.not_mem_publishersOf_run_iff (hoffered name handle hname)
  have hnever (hnone : ∀ x ∈ events, ∀ source, ¬ n₀.Brings x.2 source (.unregister n₀.self)) :
      .forget n₀.self ∉ n₀.runCalls events := by
    rw [hforgets]
    rintro ⟨x, hx, source, hbrings⟩
    exact hnone x hx source hbrings
  refine ⟨?_, hsubscribers, hpublishers, hforgets, fun before t e c id hc => ?_,
    fun hnone => ⟨?_, ?_⟩⟩
  · rw [hrun.registry, hregistry, Option.map_some]
  · have hvia : n₀.Via (fun _ => True) { n₀.run before with now := t } :=
      (run_via n₀ before).trans ((Takes.tend t _).via trivial)
    simp only [request_mem_eventCalls_iff (n := { n₀.run before with now := t }) hc,
      hvia.brings_iff]
  · intro name hname
    by_contra hnot
    obtain ⟨before, since, heq, -⟩ := (hsubscribers name hname).1 hnot
    exact hnever hnone (by simp [heq])
  · intro name handle hname
    by_contra hnot
    obtain ⟨before, since, heq, -⟩ := (hpublishers name handle hname).1 hnot
    exact hnever hnone (by simp [heq])

/-- Node 3 asks for it, and the center will not hear of lamps any more. -/
theorem own_names_of_run_unregister :
    ∃ n₀ events r, start {} {} 7100 0 (.error .closed) = .ok n₀ ∧ n₀.registry?.isSome ∧
      "lamp" ∈ (n₀.run events).interests.wanted ∧ Node.registry? (n₀.run events) = some r ∧
      n₀.self ∉ r.subscribersOf "lamp" := by
  have hparse : Command.parse (Command.unregister ⟨1⟩).payload = .ok (.unregister ⟨1⟩) := by
    decide +kernel
  have hlamp : ValidName "lamp" :=
    validName_iff.2 ⟨Text.isWord_of_all (by decide) (by decide), by decide, by decide⟩
  have started : start {} {} 7100 0 (.error .closed) = .ok (idle {} {} 7100 0) := rfl
  have center : (Node.registry? (idle {} {} 7100 0)).isSome := rfl
  have hself : (idle {} {} 7100 0).self = ⟨1⟩ := rfl
  generalize idle {} {} 7100 0 = n₀ at started center hself
  obtain ⟨f, hf⟩ : ∃ f, f = (Command.unregister ⟨1⟩).frame ⟨3⟩ ⟨⟨1⟩, centerModule⟩ := ⟨_, rfl⟩
  have hasks : n₀.routing.classify f = .request ⟨⟨3⟩, meshModule⟩ (.unregister n₀.self) := by
    simp [hf, Routing.classify, Command.frame, hparse, routing, center, hself, meshModule,
      centerModule]
  obtain ⟨n, hn⟩ : ∃ n, n = n₀.stepAt 1 (.call (.subscribe "lamp")) := ⟨_, rfl⟩
  have hvia : n₀.Via (fun _ => True) { n with now := 2 } := by
    rw [hn]
    exact (stepAt_via n₀ 1 _).trans ((Takes.tend 2 _).via trivial)
  have ho : Ordered { n with now := 2 } :=
    hvia.ordered (ordered_of_run started [])
  have hforgets : frameCalls { n with now := 2 } f = [.forget n₀.self] := by
    rw [← hvia.self_eq] at hasks ⊢
    rw [← hvia.routing_eq] at hasks
    exact ho.frameCalls_of_unregister hasks
  have hown :=
    own_names_of_run started center [(1, .call (.subscribe "lamp")), (2, .link (.frames ⟨1⟩ [f]))]
  have hrun : n₀.run [(1, .call (.subscribe "lamp")), (2, .link (.frames ⟨1⟩ [f]))] =
      n.stepAt 2 (.link (.frames ⟨1⟩ [f])) := by
    simp only [run, List.foldl_cons, List.foldl_nil, ← hn]
  have hcalls : n₀.runCalls [(1, .call (.subscribe "lamp")), (2, .link (.frames ⟨1⟩ [f]))] =
      eventCalls { n₀ with now := 1 } (.call (.subscribe "lamp")) ++ .forget n₀.self :: [] := by
    rw [runCalls, runCalls, runCalls, ← hn, ← hforgets]
    simp [eventCalls, framesOf, framesCalls]
  have hwanted : "lamp" ∈ (n.stepAt 2 (.link (.frames ⟨1⟩ [f]))).interests.wanted := by
    have hfirst : Command.subscribe "lamp" ∈ n.interests.requests := by
      have hw := wants_of_subscribe { n₀ with now := 1 } hlamp
      rw [hn, stepAt]
      simpa [Interests.Wants, Interests.requests] using hw
    have hkept := (stepAt_via n 2 (.link (.frames ⟨1⟩ [f]))).keeps
      (I := fun k => .subscribe "lamp" ∈ k.interests.requests)
        (fun _ _ _ hk _ ht => ht.mem_requests hk) hfirst
    simpa [Interests.requests] using hkept
  rw [← hrun] at hwanted
  exact ⟨n₀, _, _, started, center, hwanted, hown.registry,
    (hown.wanted "lamp" hwanted).2 ⟨_, [], hcalls, List.not_mem_nil⟩⟩

end Start

end Node

end Meshwork
