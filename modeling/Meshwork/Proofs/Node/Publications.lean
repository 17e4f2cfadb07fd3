import Meshwork.Proofs.Node.Offers
import Meshwork.Proofs.Node.OwnNames
import Meshwork.Proofs.Node.Replay

/-!
# Published names

A name that a node publishes keeps the handle of the first publication. Main statement:
`one_handle_of_run`, all calls to publish a name are answered with this handle, and whenever the
node tells a directory of the name, it tells this handle.
-/

namespace Meshwork

namespace Node

variable {n m : Node} {c : Command} {f : Frame} {e : Event} {calls : List Command} {name : String}
  {handle : Handle}
  {id : NodeId} {events : List (Nat × Event)}

/-- The publication that a frame calls for. -/
def framePublications (n : Node) (f : Frame) : List Publication :=
  match f.call? n.routing with
  | some (.publish name handle) =>
    [⟨name, handle, (n.publish receiveOwn name handle).map fun (first, _) => some first⟩]
  | _ => []

def framesPublications : Node → List Frame → List Publication
  | _, [] => []
  | n, f :: rest => n.framePublications f ++ framesPublications (n.receive f) rest

def eventPublications (n : Node) : Event → List Publication
  | .call (.publish name handle) => [⟨name, handle, (n.call (.publish name handle)).2⟩]
  | e => n.framesPublications (n.framesOf e)

def publications : Node → List (Nat × Event) → List Publication
  | _, [] => []
  | n, (t, e) :: rest => eventPublications { n with now := t } e ++ publications (n.stepAt t e) rest

theorem map_publish (n : Node) (loop : Loopback) (name : String) (handle : Handle) :
    (n.publish loop name handle).map (fun (first, _) => some first) =
      n.interests.answer n.self name handle := by
  by_cases hv : ValidName name
  · cases ho : n.interests.offered? name <;> simp [publish, Interests.answer, hv, ho, Except.map]
  · simp [publish, Interests.answer, hv, Except.map]

theorem call_publish (n : Node) (name : String) (handle : Handle) :
    (n.call (.publish name handle)).2 = n.interests.answer n.self name handle := by
  rw [← map_publish n receive]
  cases hp : n.publish receive name handle <;> simp only [call, hp] <;> rfl

theorem framePublications_eq (n : Node) (f : Frame) :
    n.framePublications f =
      Interests.publications n.self n.interests (f.call? n.routing).toList := by
  unfold framePublications
  split
  · rename_i name handle hf
    rw [hf, map_publish]
    rfl
  · rename_i hf
    cases hc : f.call? n.routing with
    | none => rfl
    | some c =>
      cases c with
      | publish name handle => exact absurd hc (hf name handle)
      | _ => rfl

theorem Ordered.framesPublications_eq (ho : n.Ordered) (frames : List Frame) :
    n.framesPublications frames =
      Interests.publications n.self n.interests (frames.filterMap (·.call? n.routing)) := by
  induction frames generalizing n with
  | nil => rfl
  | cons f rest ih =>
    have hfirst := ho.offers_receive f
    rw [framesPublications, framePublications_eq, ih (hfirst.via.ordered ho),
      hfirst.via.self_eq, hfirst.via.routing_eq, hfirst.interests, ← Interests.publications_append]
    cases hf : f.call? n.routing <;> simp [hf]

theorem Ordered.eventPublications_eq (ho : n.Ordered) (e : Event) :
    n.eventPublications e = Interests.publications n.self n.interests (n.calls e) := by
  cases e with
  | call r =>
    cases r with
    | publish name handle =>
      rw [eventPublications, call_publish]
      rfl
    | subscribe name => rfl
    | send source dest kind payload => exact ho.framesPublications_eq _
    | tick => rfl
  | link e => exact ho.framesPublications_eq _
  | _ => rfl

theorem Ordered.stepAt (ho : n.Ordered) (t : Nat) (e : Event) : (n.stepAt t e).Ordered :=
  (Node.stepAt_via n t e).ordered ho

theorem OffersOne.stepAt (hn : n.OffersOne) (t : Nat) (e : Event) : (n.stepAt t e).OffersOne :=
  (Node.stepAt_via n t e).offersOne hn

theorem Ordered.interests_run (ho : n.Ordered) (hn : n.OffersOne) (events : List (Nat × Event)) :
    (n.run events).interests = n.interests.after n.self (n.callsIn events) := by
  induction events generalizing n with
  | nil => rfl
  | cons x rest ih =>
    obtain ⟨t, e⟩ := x
    rw [run_cons, ih (ho.stepAt t e) (hn.stepAt t e), ho.interests_stepAt hn,
      (Node.stepAt_via n t e).self_eq, callsIn, Interests.after_append]

theorem Ordered.publications_eq (ho : n.Ordered) (hn : n.OffersOne) (events : List (Nat × Event)) :
    n.publications events = Interests.publications n.self n.interests (n.callsIn events) := by
  induction events generalizing n with
  | nil => rfl
  | cons x rest ih =>
    obtain ⟨t, e⟩ := x
    have hevent : eventPublications { n with now := t } e =
        Interests.publications n.self n.interests (n.calls e) :=
      (ho.tend t).eventPublications_eq e
    rw [publications, hevent, ih (ho.stepAt t e) (hn.stepAt t e), ho.interests_stepAt hn,
      (Node.stepAt_via n t e).self_eq, callsIn, Interests.publications_append]

theorem Offers.vouched_of_mem (h : n.Offers calls m) {conn : ConnId}
    (hf : f ∈ (m.requestsOn conn).drop (n.requestsOn conn).length) : f.Vouched m.interests := by
  obtain ⟨es, he, hes⟩ := h.queued
  rw [requestsOn, requestsOn, queuedOn_eq, queuedOn_eq, he, List.filterMap_append,
    List.filter_append, List.drop_left, List.mem_filter, List.mem_filterMap] at hf
  obtain ⟨⟨e, hmem, hframe⟩, -⟩ := hf
  cases e with
  | queued c frame =>
    obtain ⟨rfl, rfl⟩ : c = conn ∧ frame = f := by simpa [Effect.frameOn?] using hframe
    exact hes c frame hmem
  | _ => cases hframe

theorem Ordered.vouched_run (ho : n.Ordered) (hn : n.OffersOne) (hf : f.Vouched n.interests) :
    f.Vouched (n.run events).interests := by
  intro name handle hparse
  rw [ho.interests_run hn]
  exact Interests.offered?_after_of_some _ _ (hf name handle hparse)

theorem Ordered.vouched_of_mem_ownRequests (ho : n.Ordered) (hn : n.OffersOne) {conn : ConnId}
    (hf : f ∈ n.ownRequests conn events) : f.Vouched (n.run events).interests := by
  induction events generalizing n with
  | nil => cases hf
  | cons x rest ih =>
    obtain ⟨t, e⟩ := x
    rw [run_cons]
    rw [ownRequests, List.mem_append] at hf
    obtain hf | hf := hf
    · split at hf
      · cases hf
      · rename_i hpass
        exact (ho.stepAt t e).vouched_run (hn.stepAt t e)
          ((ho.offers_stepAt hn t hpass).vouched_of_mem hf)
    · exact ih (ho.stepAt t e) (hn.stepAt t e) hf

theorem offered?_of_mem_ownCalls (h : .request id (.publish name handle) ∈ n.ownCalls c)
    (hm : m.interests = n.interests.after n.self [c]) :
    id = n.self ∧ m.interests.offered? name = some handle := by
  obtain ⟨d, hd, heq⟩ := List.mem_map.1 h
  cases heq
  exact ⟨rfl, by rw [hm, Interests.offered?_of_news? (Option.mem_toList.1 hd)]⟩

theorem Ordered.entered_of_mem_frameCalls (ho : n.Ordered)
    (h : .request id (.publish name handle) ∈ n.frameCalls f) :
      (∃ source, source.node = id ∧ n.routing.classify f = .request source (.publish name handle)) ∨
      id = n.self ∧ (n.receive f).interests.offered? name = some handle := by
  have hoffers := ho.offers_receive f
  unfold frameCalls at h
  split at h
  · split at h <;> simp at h
  · rename_i source c hnot hf
    cases List.mem_singleton.1 h
    exact .inl ⟨source, rfl, hf⟩
  · rename_i source c hf
    have hcall : f.call? n.routing = some c := by
      obtain ⟨d, hd, heq⟩ := List.mem_map.1 h
      cases heq
      obtain ⟨_, -, hsub, -⟩ | ⟨_, _, rfl, -⟩ := Interests.news?_cases (Option.mem_toList.1 hd)
      · cases hsub
      · simp [Frame.call?, hf]
    rw [hcall] at hoffers
    exact .inr (offered?_of_mem_ownCalls h hoffers.interests)
  · cases h
  · cases h

theorem Ordered.entered_of_mem_framesCalls (ho : n.Ordered) {frames : List Frame}
    (h : .request id (.publish name handle) ∈ n.framesCalls frames) :
    (∃ f ∈ frames,
      ∃ source, source.node = id ∧ n.routing.classify f = .request source (.publish name handle)) ∨
      id = n.self ∧ (frames.foldl receive n).interests.offered? name = some handle := by
  induction frames generalizing n with
  | nil => cases h
  | cons f rest ih =>
    have hfirst := ho.offers_receive f
    have ho' := hfirst.via.ordered ho
    rw [framesCalls, List.mem_append] at h
    obtain h | h := h
    · obtain ⟨source, hid, hf⟩ | ⟨hid, hoffered⟩ := ho.entered_of_mem_frameCalls h
      · exact .inl ⟨f, List.mem_cons_self .., source, hid, hf⟩
      · refine .inr ⟨hid, ?_⟩
        rw [List.foldl_cons, (ho'.offers_frames rest).interests]
        exact Interests.offered?_after_of_some _ _ hoffered
    · obtain ⟨g, hg, source, hid, hclassify⟩ | ⟨hid, hoffered⟩ := ih ho' h
      · rw [hfirst.via.routing_eq] at hclassify
        exact .inl ⟨g, List.mem_cons_of_mem f hg, source, hid, hclassify⟩
      · exact .inr ⟨hid.trans hfirst.via.self_eq, hoffered⟩

theorem Ordered.entered_of_mem_eventCalls (ho : n.Ordered) (hn : n.OffersOne)
    (h : .request id (.publish name handle) ∈ n.eventCalls e) :
    (∃ source, source.node = id ∧ n.Brings e source (.publish name handle)) ∨
      id = n.self ∧ (n.step e).interests.offered? name = some handle := by
  have hframes (hcalls : .request id (.publish name handle) ∈ n.framesCalls (n.framesOf e))
      (hstep : n.step e = (n.framesOf e).foldl receive n) :
      (∃ source, source.node = id ∧ n.Brings e source (.publish name handle)) ∨
        id = n.self ∧ (n.step e).interests.offered? name = some handle := by
    rw [hstep]
    refine (ho.entered_of_mem_framesCalls hcalls).imp_left ?_
    rintro ⟨f, hf, source, hid, hclassify⟩
    exact ⟨source, hid, f, hf, hclassify⟩
  cases e with
  | refusal => simp [eventCalls] at h
  | link e =>
    cases e with
    | frames conn frames => exact hframes h rfl
    | closed conn reason => simp [eventCalls] at h
    | connected conn => cases h
  | call r =>
    cases r with
    | subscribe name =>
      have hoffers := ho.offers_step (e := .call (.subscribe name)) hn fun h => h
      exact .inr (offered?_of_mem_ownCalls h hoffers.interests)
    | publish name handle =>
      have hoffers := ho.offers_step (e := .call (.publish name handle)) hn fun h => h
      exact .inr (offered?_of_mem_ownCalls h hoffers.interests)
    | send source dest kind payload =>
      by_cases hpass : n.Passes (.call (.send source dest kind payload))
      · have hnil := (via_of_passes hpass).2.1
        rw [eventCalls, hnil] at h
        · cases h
        all_goals simp
      · exact hframes h (step_eq_foldl hpass)
    | tick => cases h
  | _ => cases h

theorem Ordered.entered_of_mem_runCalls (ho : n.Ordered) (hn : n.OffersOne)
    (h : .request id (.publish name handle) ∈ n.runCalls events) :
    (∃ x ∈ events, ∃ source, source.node = id ∧ n.Brings x.2 source (.publish name handle)) ∨
      id = n.self ∧ (n.run events).interests.offered? name = some handle := by
  induction events generalizing n with
  | nil => cases h
  | cons x rest ih =>
    obtain ⟨t, e⟩ := x
    have htend : n.Via (fun _ => True) { n with now := t } := (Takes.tend t n.catalog).via trivial
    have hvia := Node.stepAt_via n t e
    rw [runCalls, List.mem_append] at h
    obtain h | h := h
    · obtain ⟨source, hid, hbrings⟩ | ⟨hid, hoffered⟩ :=
        (ho.tend t).entered_of_mem_eventCalls hn h
      · exact .inl ⟨(t, e), List.mem_cons_self .., source, hid, htend.brings_iff.1 hbrings⟩
      · refine .inr ⟨hid, ?_⟩
        rw [run_cons, (ho.stepAt t e).interests_run (hn.stepAt t e)]
        exact Interests.offered?_after_of_some _ _ hoffered
    · obtain ⟨y, hy, source, hid, hbrings⟩ | ⟨hid, hoffered⟩ := ih (ho.stepAt t e) (hn.stepAt t e) h
      · exact .inl ⟨y, List.mem_cons_of_mem _ hy, source, hid, hvia.brings_iff.1 hbrings⟩
      · exact .inr ⟨hid.trans hvia.self_eq, hoffered⟩

section Start

variable {profile : Profile} {catalog : Catalog} {port : UInt16} {now : Nat}
  {result : Except Fault Handshake}
  {n₀ : Node}

theorem offers_of_start (started : start profile catalog port now result = .ok n₀) :
    (idle profile catalog port now).Offers [] n₀ := by
  obtain ⟨-, ⟨-, rfl⟩ | ⟨hmember, -⟩⟩ := start_cases started
  · exact .refl _
  · have hsame := Via.isSome_registry? (start_via started)
    obtain ⟨h, m, -, ho, hjoin, hask⟩ := join_of_start started (by simpa [hmember] using hsame)
    have hm : m.Member := hjoin.member ⟨ho, hmember⟩
    have hregister := hm.offers_register
    rw [askIfPossible, hask] at hregister
    exact (Offers.of_mute (hjoin.via trivial)).trans hregister

/-- One handle for each name that a node publishes. -/
structure OneHandle (n₀ : Node) (events : List (Nat × Event)) : Prop where
  answered : ∀ p ∈ n₀.publications events, ValidName p.name → ∃ first,
    Interests.firstOf p.name (n₀.publications events) = some first ∧
      p.answer = .ok (some (first.handle.withNode n₀.self))
  /-- This handle is in all frames by which the node itself publishes the name, on whatever link. -/
  told : ∀ conn, ∀ f ∈ n₀.requestsOn conn ++ n₀.ownRequests conn events, ∀ name handle,
    Command.parse f.payload = .ok (.publish name handle) → ∃ first,
      Interests.firstOf name (n₀.publications events) = some first ∧
      handle = first.handle.withNode n₀.self
  /-- A center that publishes the name enters it under this handle, unless a frame asks for another
  one. -/
  entered : ∀ id name handle, .request id (.publish name handle) ∈ n₀.runCalls events →
    (∃ x ∈ events, ∃ source, source.node = id ∧ n₀.Brings x.2 source (.publish name handle)) ∨
      id = n₀.self ∧ ∃ first, Interests.firstOf name (n₀.publications events) = some first ∧
        handle = first.handle.withNode n₀.self
  registry : n₀.registry?.isSome →
    Node.registry? (n₀.run events) = some (.run {} (n₀.runCalls events))
  rejected : ∀ p ∈ n₀.publications events, ¬ ValidName p.name →
    p.answer = .error (.invalidName p.name)
  unchanged : ∀ name handle, ¬ ValidName name →
    (n₀.run events).call (.publish name handle) = (n₀.run events, .error (.invalidName name)) ∧
      ∀ f, f.call? n₀.routing = some (.publish name handle) →
        (n₀.run events).receive f = n₀.run events

theorem receive_of_call? (hf : f.call? n.routing = some (.publish name handle)) :
    n.receive f =
      match n.publish receiveOwn name handle with
      | .ok (_, m) => m
      | .error _ => n := by
  unfold Frame.call? at hf
  split at hf
  · cases hf
  · rename_i source name handle hc
    cases hf
    cases hp : n.publish receiveOwn name handle <;> simp only [receive, receiveWith, hc, obey, hp]
  · cases hf

/-- In a run of a node each name that it publishes has one handle, the one that was first. -/
theorem one_handle_of_run (started : start profile catalog port now result = .ok n₀)
    (events : List (Nat × Event)) :
    OneHandle n₀ events := by
  have ho : n₀.Ordered := ordered_of_run started []
  have hstart := offers_of_start started
  have hempty : n₀.interests = {} := hstart.interests
  have hone : n₀.OffersOne := by simp [OffersOne, hempty]
  have hpublications := ho.publications_eq hone events
  have hrun := ho.interests_run hone events
  rw [hempty] at hpublications hrun
  -- what is offered is what was first published, since no later call replaces it
  have hfirst {name : String} {handle : Handle}
      (h : (n₀.run events).interests.offered? name = some handle) :
      ∃ first, Interests.firstOf name (n₀.publications events) = some first ∧
        handle = first.handle.withNode n₀.self := by
    rw [hrun] at h
    rw [hpublications]
    exact Interests.exists_firstOf_of_offered? h
  refine ⟨?_, fun conn f hf name handle hparse => ?_, fun id name handle h => ?_, fun center => ?_,
    ?_, fun name handle hv => ⟨?_, fun f hf => ?_⟩⟩
  · rw [hpublications]
    exact fun p hp hv => Interests.exists_firstOf_of_mem hp hv
  · refine hfirst ?_
    obtain hf | hf := List.mem_append.1 hf
    · have hnone : (idle profile catalog port now).requestsOn conn = [] := rfl
      have hvouched : f.Vouched n₀.interests := hstart.vouched_of_mem (by rwa [hnone])
      exact ho.vouched_run hone hvouched name handle hparse
    · exact ho.vouched_of_mem_ownRequests hone hf name handle hparse
  · exact (ho.entered_of_mem_runCalls hone h).imp_right fun ⟨hid, hoffered⟩ =>
      ⟨hid, hfirst hoffered⟩
  · have hregistry := (ho.wired.directs_run center events).registry
    rw [hregistry, (blank_of_start started center).1, Option.map_some]
  · rw [hpublications]
    intro p hp hv
    rw [Interests.answer_of_mem hp, Interests.answer, if_neg hv]
  · simp only [call, publish, hv, not_false_eq_true, if_true]
  · rw [← (run_via n₀ events).routing_eq] at hf
    rw [receive_of_call? hf]
    simp only [publish, hv, not_false_eq_true, if_true]

/-- A module is published twice, the second time under another handle, and stays what it was. -/
theorem one_handle_of_run_twice :
    ∃ n₀ p q, start {} {} 7100 0 (.error .closed) = .ok n₀ ∧
      n₀.publications [(1, .call (.publish "db" ⟨⟨5⟩, 7⟩)), (2, .call (.publish "db" ⟨⟨6⟩, 9⟩))] =
        [p, q] ∧
      p.handle ≠ q.handle ∧ p.answer = .ok (some ⟨⟨1⟩, 7⟩) ∧ q.answer = .ok (some ⟨⟨1⟩, 7⟩) := by
  have started : start {} {} 7100 0 (.error .closed) = .ok (idle {} {} 7100 0) := rfl
  have hself : (idle {} {} 7100 0).self = ⟨1⟩ := rfl
  have hv : ValidName "db" :=
    validName_iff.2 ⟨Text.isWord_of_all (by decide) (by decide), by decide, by decide⟩
  generalize idle {} {} 7100 0 = n₀ at started hself
  have hone := one_handle_of_run started
    [(1, .call (.publish "db" ⟨⟨5⟩, 7⟩)), (2, .call (.publish "db" ⟨⟨6⟩, 9⟩))]
  obtain ⟨p, q, hlog, hp, hq, hpname, hqname⟩ : ∃ p q : Publication,
      n₀.publications [(1, .call (.publish "db" ⟨⟨5⟩, 7⟩)), (2, .call (.publish "db" ⟨⟨6⟩, 9⟩))] =
      [p, q] ∧
        p.handle = ⟨⟨5⟩, 7⟩ ∧ q.handle = ⟨⟨6⟩, 9⟩ ∧ p.name = "db" ∧ q.name = "db" :=
    ⟨_, _, rfl, rfl, rfl, rfl, rfl⟩
  have hanswer : ∀ r ∈ [p, q], r.name = "db" → r.answer = .ok (some ⟨⟨1⟩, 7⟩) := by
    intro r hr hname
    obtain ⟨first, hfirst, hanswer⟩ := hone.answered r (hlog ▸ hr) (hname ▸ hv)
    rw [hlog, hname, Interests.firstOf, List.find?_cons_of_pos (by simpa using hpname),
      Option.some.injEq] at hfirst
    rw [hanswer, ← hfirst, hp, hself]
    rfl
  exact ⟨n₀, p, q, started, hlog, by rw [hp, hq]; decide, hanswer p (by simp) hpname,
    hanswer q (by simp) hqname⟩

end Start

end Node

end Meshwork
