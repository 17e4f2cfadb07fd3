import Meshwork.Proofs.Node.CenterLink
import Meshwork.Proofs.Node.Waiting

/-!
# One attempt at a time

A handshake goes on apart from the node, which learns of the result by an event. Main statement:
`sole_attempt_of_run`, at most one handshake is in flight, exactly while the entry of the center
waits for it, and until the result is there nothing else that happens changes that.
-/

namespace Meshwork

def Event.isResult : Event → Bool
  | .handshake _ => true
  | _ => false

namespace Node

variable {n m : Node} {a : Move} {e : Event} {events later : List (Nat × Event)}

def results (events : List (Nat × Event)) : Nat := events.countP (·.2.isResult)

/-- The number of handshakes that a run began and that have no result in it. -/
def inFlight (n : Node) (events : List (Nat × Event)) : Nat :=
  (n.run events).sought.length - results events

/-- Every result that comes is that of a handshake in flight. -/
def Prompted (n : Node) (events : List (Nat × Event)) : Prop :=
  ∀ before t result after, events = before ++ (t, .handshake result) :: after →
    0 < n.inFlight before

/-- A run has at most one handshake in flight. -/
structure SoleAttempt (n : Node) (events : List (Nat × Event)) : Prop where
  le_one : n.inFlight events ≤ 1
  awaited : n.inFlight events = 1 ↔ (n.run events).Awaits
  taken : 0 < n.inFlight events → ∀ t result,
    (n.run events).stepAt t (.handshake result) =
      match Node.join { n.run events with now := t, handshakes := 0 } result with
      | (m, .error _) => m
      | (m, .ok ()) => m.interests.requests.foldl repeatRequest m
  /-- Until then no other event begins a handshake, or changes the state of the entry, or gives it a
  link. -/
  kept : 0 < n.inFlight events → ∀ later, results later = 0 →
    n.inFlight (events ++ later) = 1 ∧ (n.run (events ++ later)).sought = (n.run events).sought ∧
      ∃ center p,
        (n.run events).center? = some center ∧ (n.run (events ++ later)).center? = some center ∧
        (n.run (events ++ later)).roster.get? center.node = some p ∧
        p.state = .handshaking ∧ p.link = none

theorem results_append (events later : List (Nat × Event)) :
    results (events ++ later) = results events + results later := List.countP_append

theorem results_concat (events : List (Nat × Event)) (t : Nat) (e : Event) :
    results (events ++ [(t, e)]) = results events + if e.isResult then 1 else 0 := by
  simp [results]

theorem ne_handshake_of_isResult (he : e.isResult = false) (result : Except Fault Handshake) :
    e ≠ .handshake result := by
  rintro rfl
  cases he

theorem Takes.length_sought (ht : n.Takes a m) (ha : a.Steady) :
    m.sought.length + n.handshakes = n.sought.length + m.handshakes := by
  by_cases hs : a = .seek
  · subst hs
    cases ht with
    | seek =>
      simp only [sought, List.filterMap_append, List.length_append]
      simp only [Effect.sought?, List.filterMap_cons, List.filterMap_nil, List.length_singleton]
      omega
  · rw [ht.sought_eq hs, ht.handshakes_eq ha hs]

theorem Via.length_sought (hv : n.Via Move.Steady m) :
    m.sought.length + n.handshakes = n.sought.length + m.handshakes := by
  refine hv.keeps (I := fun k => k.sought.length + n.handshakes = n.sought.length + k.handshakes)
    (fun k a l hk ha ht => ?_) rfl
  have hmove := ht.length_sought ha
  omega

theorem Via.sought_eq {P : Move → Prop} (hv : n.Via P m) (hP : ∀ a, P a → a ≠ .seek) :
    m.sought = n.sought :=
  hv.keeps (I := fun k => k.sought = n.sought)
    (fun _ a _ hk ha ht => (ht.sought_eq (hP a ha)).trans hk) rfl

theorem Via.sought_eq_of_inner (hv : n.Via Move.Inner m) : m.sought = n.sought := by
  refine hv.sought_eq fun a ha => ?_
  rintro rfl
  exact ha

theorem Ordered.sought_finishHandshake (ho : n.Ordered) (result : Except Fault Handshake) :
    (n.finishHandshake result).sought = n.sought := by
  obtain ⟨-, heq⟩ | ⟨-, -, hrelease⟩ | ⟨h, m, -, -, hjoin, hinner⟩ :=
    ho.finishHandshake_cases result
  · rw [heq]
    rfl
  · exact hrelease.sought_eq nofun
  · exact hinner.sought_eq_of_inner.trans (hjoin.sought_eq nofun)

theorem Takes.awaits (hw : n.Awaits) (ho : n.Ordered) (ht : n.Takes a m) (ha : a.Steady) :
    m.Awaits ∧ m.center? = n.center? ∧ m.sought = n.sought := by
  have hs : a ≠ .seek := by
    rintro rfl
    exact ht.waits_of_seek.1 hw
  have hcenter := ht.center?_eq ha.not_joins
  refine ⟨?_, hcenter, ht.sought_eq hs⟩
  obtain ⟨center, hknown, hwaits⟩ := awaits_iff.1 hw
  exact awaits_iff.2 ⟨center, hcenter ▸ hknown, (ht.waits_iff ho.wired ha hs).2 hwaits⟩

theorem Via.awaits (hv : n.Via Move.Steady m) (hw : n.Awaits) (ho : n.Ordered) :
    m.Awaits ∧ m.center? = n.center? ∧ m.sought = n.sought := by
  have hkeep := hv.keeps
    (I := fun k => k.Ordered ∧ k.Awaits ∧ k.center? = n.center? ∧ k.sought = n.sought)
    (fun k a l hk ha ht => ?_) ⟨ho, hw, rfl, rfl⟩
  · exact hkeep.2
  · obtain ⟨hko, hkw, hcenter, hsought⟩ := hk
    obtain ⟨hw', hcenter', hsought'⟩ := ht.awaits hkw hko ha
    exact ⟨ht.ordered hko, hw', hcenter'.trans hcenter, hsought'.trans hsought⟩

theorem stepAt_steady (n : Node) (t : Nat) (he : e.isResult = false) :
    n.Via Move.Steady (n.stepAt t e) :=
  ((Takes.tend t n.catalog).via trivial).trans
    (step_via_of_ne_handshake _ (ne_handshake_of_isResult he))

theorem run_steady (n : Node) (hlater : results later = 0) : n.Via Move.Steady (n.run later) := by
  rw [results, List.countP_eq_zero] at hlater
  refine Via.foldl n fun n x hx => n.stepAt_steady x.1 ?_
  simpa using hlater x hx

theorem Prompted.of_append (h : n.Prompted (events ++ later)) : n.Prompted events := by
  intro before t result after heq
  exact h before t result (after ++ later) (by rw [heq, List.append_assoc, List.cons_append])

section Start

variable {profile : Profile} {catalog : Catalog} {port : UInt16} {now : Nat}
  {result : Except Fault Handshake} {n₀ : Node}

theorem sought_of_start (started : start profile catalog port now result = .ok n₀) :
    n₀.sought = [] := by
  obtain rfl | ⟨h, m, hjoin, hinner⟩ := exists_join_of_start started
  · rfl
  · exact hinner.sought_eq_of_inner.trans (hjoin.sought_eq nofun)

theorem length_sought_of_run (started : start profile catalog port now result = .ok n₀)
    (prompted : n₀.Prompted events) :
    (n₀.run events).sought.length = results events + (n₀.run events).handshakes := by
  induction events using List.reverseRecOn with
  | nil =>
    obtain ⟨⟨hw, -⟩ | ⟨-, hzero⟩, hnone⟩ := not_waits_of_start started
    · obtain ⟨center, -, hwaits⟩ := awaits_iff.1 hw
      exact absurd hwaits (hnone _)
    · rw [run_nil, sought_of_start started, hzero]
      rfl
  | append_singleton before x ih =>
    obtain ⟨t, e⟩ := x
    have hbefore := ih prompted.of_append
    rw [run_concat, results_concat]
    cases hresult : e.isResult with
    | false =>
      have hstep := ((n₀.run before).stepAt_steady t hresult).length_sought
      simp only [Bool.false_eq_true, if_false]
      omega
    | true =>
      cases e with
      | handshake r =>
        have ho := (ordered_of_run started before).tend t
        -- a result comes only from a handshake in flight, so the subtraction is exact
        have hflight := prompted before t r [] rfl
        have hsought : ((n₀.run before).stepAt t (.handshake r)).sought = (n₀.run before).sought :=
          ho.sought_finishHandshake r
        have hcount :
            ((n₀.run before).stepAt t (.handshake r)).handshakes = (n₀.run before).handshakes - 1 :=
          ho.handshakes_finishHandshake r
        rw [hsought, hcount]
        simp only [inFlight] at hflight
        simp only [if_true]
        omega
      | _ => cases hresult

/-- In every run of a started node at most one handshake is in flight, and exactly one while the
entry of the center waits. Its result is taken, and until then no tick, frame, link event or call
begins another one, changes the state of the entry or gives it a link. -/
theorem sole_attempt_of_run (started : start profile catalog port now result = .ok n₀)
    (prompted : n₀.Prompted events) : n₀.SoleAttempt events := by
  have ho := ordered_of_run started events
  have hcounted := (stranded_iff_of_run started events).1
  have hlength := length_sought_of_run started prompted
  have hflight : n₀.inFlight events = (n₀.run events).handshakes := by
    rw [inFlight]
    omega
  have hle : (n₀.run events).handshakes ≤ 1 := by
    obtain ⟨-, hone⟩ | ⟨-, hzero⟩ := hcounted <;> omega
  have hawaits (hpos : 0 < n₀.inFlight events) : (n₀.run events).Awaits :=
    hcounted.handshakes_eq_one_iff.1 (by omega)
  refine ⟨by omega, ?_, fun hpos t r => ?_, fun hpos later hlater => ?_⟩
  · rw [hflight]
    exact hcounted.handshakes_eq_one_iff
  · have hone : (n₀.run events).handshakes - 1 = 0 := by omega
    have hwait :
        ¬ ¬ Awaits { n₀.run events with now := t, handshakes := (n₀.run events).handshakes - 1 } :=
      not_not_intro (hawaits hpos)
    have htaken : (n₀.run events).stepAt t (.handshake r) =
        match Node.join
          { n₀.run events with now := t, handshakes := (n₀.run events).handshakes - 1 } r with
        | (m, .error _) => m
        | (m, .ok ()) => m.interests.requests.foldl repeatRequest m := by
      rw [Node.stepAt, step, finishHandshake]
      exact if_neg hwait
    rwa [hone] at htaken
  · obtain ⟨hw, hcenter, hsought⟩ := ((n₀.run events).run_steady hlater).awaits (hawaits hpos) ho
    rw [← run_append] at hw hcenter hsought
    obtain ⟨center, hknown, p, hp, hstate⟩ := hw
    refine ⟨?_, hsought, center, p, hcenter ▸ hknown, hknown, hp, hstate, ?_⟩
    · rw [inFlight, hsought, results_append, hlater]
      omega
    · exact (ordered_of_run started (events ++ later)).wired.link_eq_none hp
        (by simp [LinkState.Live, hstate])

/-- Node 2 has lost its center, and one tick has begun a handshake. -/
theorem sole_attempt_of_run_loss :
    ∃ n₀ events, start { nodeId := ⟨2⟩, center := .remote "hub:7100" } {} 7101 0
        (.ok ⟨.ofCenter ⟨1⟩, []⟩) = .ok n₀ ∧
      n₀.Prompted events ∧ n₀.inFlight events = 1 ∧ n₀.SoleAttempt events := by
  obtain ⟨n₀, started, member, -⟩ := exists_start_of_second
  obtain ⟨hopened, -⟩ := opened_of_start started member
  have hendpoint : n₀.profile.centerEndpoint? = some "hub:7100" :=
    congrArg Profile.centerEndpoint? (profile_of_run started [])
  obtain ⟨-, hawaits, -⟩ := hopened.session.awaits_of_loss hendpoint 1 2 .endOfStream
  have hrun (c : ConnId) : n₀.run [(1, .link (.closed c .endOfStream)), (2, .tick)] =
      (n₀.stepAt 1 (.link (.closed c .endOfStream))).stepAt 2 .tick := by
        rw [run_cons, run_cons, run_nil]
  rw [← hrun] at hawaits
  -- neither event brings a result
  have hprompted (c : ConnId) : n₀.Prompted [(1, .link (.closed c .endOfStream)), (2, .tick)] := by
    intro before t r after heq
    have hmem : (t, Event.handshake r) ∈ [(1, .link (.closed c .endOfStream)), (2, .tick)] := by
      rw [heq]
      exact List.mem_append_right _ (List.mem_cons_self ..)
    simp at hmem
  have hsole (c : ConnId) := sole_attempt_of_run started (hprompted c)
  exact ⟨n₀, _, started, hprompted _, (hsole _).awaited.2 hawaits, hsole _⟩

end Start

end Node

end Meshwork
