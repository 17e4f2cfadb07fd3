import Meshwork.Proofs.Node.Calls

/-!
# Completing a handshake

A handshake that is accepted brings a link, on which the node registers and repeats what it
remembers. Main statements: `opened_of_start`, for the handshake that a node starts with, and
`opened_of_handshake`, for every later one.
-/

namespace Meshwork.Node

variable {n m k l : Node} {a : Move} {c : Command} {cs : List Command} {conn : ConnId}
  {directory : Handle} {h : Handshake}

theorem isRequest_of_mem_requests {i : Interests} (hc : c ∈ i.requests) : c.keyword.IsRequest := by
  rw [Interests.requests, List.mem_append] at hc
  rcases hc with hc | hc
  · obtain ⟨name, -, rfl⟩ := List.mem_map.1 hc
    exact .inr (.inl rfl)
  · obtain ⟨p, -, rfl⟩ := List.mem_map.1 hc
    exact .inr (.inr rfl)

namespace Member

theorem asks_repeatRequest (h : n.Member) (hc : c.keyword.IsRequest) :
    n.Asks [c] (n.repeatRequest c) := by
  cases c with
  | subscribe name => exact h.asks_request receive name
  | _ => exact h.asks_askIfPossible receive hc

theorem interests_repeatRequest (h : n.Member) (c : Command) :
    (n.repeatRequest c).interests = n.interests := by
  cases c with
  | subscribe name => exact h.interests_request receive name
  | _ => exact h.interests_askIfPossible receive _

theorem repeatRequest_requests (h : n.Member) (c : Command) :
    n.Via (Move.Requests n.self c) (n.repeatRequest c) := by
  cases c with
  | subscribe name => exact h.request_requests receive name
  | _ => exact h.askIfPossible_requests receive _

theorem asks_replay (h : n.Member) (hcs : ∀ c ∈ cs, c.keyword.IsRequest) :
    n.Asks cs (cs.foldl repeatRequest n) ∧ (cs.foldl repeatRequest n).interests = n.interests := by
  induction cs generalizing n with
  | nil => exact ⟨.refl n, rfl⟩
  | cons c rest ih =>
    rw [List.forall_mem_cons] at hcs
    have hfirst := h.asks_repeatRequest hcs.1
    obtain ⟨hrest, hinterests⟩ := ih (hfirst.via.member h) hcs.2
    exact ⟨hfirst.trans hrest, hinterests.trans (h.interests_repeatRequest c)⟩

end Member

theorem Ordered.unnamed_nextId (ho : n.Ordered) {e : Effect} (he : e ∈ n.effects) :
    e.conn? ≠ some n.links.nextId.1 := fun hc =>
  Nat.lt_irrefl _ (ho.dated e he n.links.nextId.1 hc)

theorem Ordered.queuedOn_nextId (ho : n.Ordered) : n.queuedOn n.links.nextId.1 = [] := by
  rw [queuedOn_eq, List.filterMap_eq_nil_iff]
  intro e he
  have hne := ho.unnamed_nextId he
  cases e with
  | queued c frame => exact if_neg fun hc => hne (congrArg some hc)
  | _ => rfl

theorem Ordered.not_dialled_nextId (ho : n.Ordered) : ¬ n.Dialled n.links.nextId.1 := by
  rintro ⟨endpoint, he⟩
  exact ho.unnamed_nextId he rfl

theorem Takes.session_of_join (ho : n.Ordered) (ht : n.Takes (.join n.links.nextId.1 h) m) :
    m.Session n.links.nextId.1 h.greeting.center ∧ m.queuedOn n.links.nextId.1 = [] ∧
      ¬ m.Dialled n.links.nextId.1 ∧ m.interests = n.interests ∧ m.refused = n.refused := by
  have hordered := ht.ordered ho
  cases ht with
  | join hm hf hj hi =>
    obtain ⟨-, hin, -, -⟩ := judge_eq_ok hj
    obtain ⟨p, hp⟩ := Roster.exists_get? hin
    refine ⟨⟨hordered, rfl, ?_⟩, ?_, ?_, rfl, rfl⟩
    · exact ⟨_, by rw [Roster.get?_noteSent_attach_update, if_pos rfl, hp]; rfl, rfl⟩
    · rw [queuedOn_eq, List.filterMap_append, ← queuedOn_eq, ho.queuedOn_nextId]
      rfl
    · rintro ⟨endpoint, he⟩
      rw [List.mem_append, List.mem_singleton] at he
      rcases he with he | he
      · exact ho.not_dialled_nextId ⟨endpoint, he⟩
      · cases he

theorem Ordered.exists_join (ho : n.Ordered) (hm : n.registry? = none)
    (hf : n.center? = none ∨ n.Awaits) (hj : n.judge (.ok h) = .ok h) :
    ∃ m, n.Takes (.join n.links.nextId.1 h) m ∧
      ((∃ e, m.ask receive (.register m.announcement) = .error e ∧ n.join (.ok h) = (m, .error e)) ∨
        ∃ k, m.ask receive (.register m.announcement) = .ok k ∧ n.join (.ok h) = (k, .ok ())) := by
  obtain ⟨e, he, -⟩ | ⟨h', hj', ⟨e, he, -⟩ | ⟨m, htakes, he⟩⟩ := join_cases (n := n) (.ok h)
  · rw [hj] at he
    cases he
  · obtain ⟨i, links, hi⟩ := ho.wired.links.kept.nextId.exists_insert (judge_eq_ok hj').2.2.2
      (n.newLink n.links.nextId.1) (some h'.greeting.center.node)
    rw [hi] at he
    cases he
  · rw [hj, Except.ok.injEq] at hj'
    subst hj'
    have ht := htakes hm hf
    have hrole : m.role = .member (some ⟨h.greeting.center.node, h.greeting.center⟩) := by
      cases ht
      rfl
    have hask : m.ask receive (.register m.announcement) =
        m.command receive h.greeting.center (.register m.announcement) := by
      simp only [ask, hrole]
    refine ⟨m, ht, ?_⟩
    rw [hask]
    cases hc : m.command receive h.greeting.center (.register m.announcement) with
    | error e => exact .inl ⟨e, rfl, by rw [he, hc]⟩
    | ok k => exact .inr ⟨k, rfl, by rw [he, hc]⟩

theorem Takes.exists_ask_of_join (ho : n.Ordered) (ht : n.Takes (.join n.links.nextId.1 h) m)
    (hfit : m.Fits c) : ∃ k, m.ask receive c = .ok k ∧
      m.Takes (.queue h.greeting.center.node n.links.nextId.1 (c.frame m.self h.greeting.center))
        k := by
  obtain ⟨hs, -⟩ := ht.session_of_join ho
  obtain ⟨k, hk, hqueue | hrefuse⟩ := hs.exists_ask receive hfit
  · exact ⟨k, hk, hqueue⟩
  · cases ht with
    | join hm hf hj hi =>
      cases hrefuse with
      | @refuse _ _ _ record bytes reason hp hl hr hsend =>
        rw [ho.wired.links.kept.nextId.get?_insert hi] at hr
        have hid : (n.newLink n.links.nextId.1).id = n.links.nextId.1 := rfl
        rw [hid, if_pos rfl, Option.some.injEq] at hr
        rw [← hr, newLink, Link.send_ofBound] at hsend
        cases hsend

/-- A session has begun with a handshake: the registration was the first frame, and what the node
remembers was repeated, unless a frame was too long or refused. -/
structure Opened (n : Node) (conn : ConnId) (directory : Handle) : Prop where
  session : n.Session conn directory
  not_dialled : ¬ n.Dialled conn
  first : n.Fits (.register n.announcement) →
    (n.queuedOn conn).head? = some ((Command.register n.announcement).frame n.self directory)
  log : (∀ c ∈ .register n.announcement :: n.interests.requests, n.Fits c) → ¬ n.Refuses conn →
    n.requestsOn conn =
      (.register n.announcement :: n.interests.requests).map (·.frame n.self directory)

theorem Takes.opened_of_join (ho : n.Ordered) (ht : n.Takes (.join n.links.nextId.1 h) m)
    (hask : m.ask receive (.register m.announcement) = .ok k)
    (hreplay : k.Asks m.interests.requests l)
    (hi : l.interests = m.interests) : l.Opened n.links.nextId.1 h.greeting.center := by
  obtain ⟨hs, hempty, hundialled, -, -⟩ := ht.session_of_join ho
  have hregister : m.Asks [.register m.announcement] k := by
    have hasks := hs.member.asks_askIfPossible receive (c := .register m.announcement) (.inl rfl)
    rwa [askIfPossible, hask] at hasks
  have hall := hregister.trans hreplay
  have hself := hall.via.self_eq
  have hsame := hall.via.announcement_eq hs.ordered
  refine ⟨hall.via.session hs, ?_, fun hfit => ?_, fun hfit hr => ?_⟩
  · exact (hall.via.undialled ⟨hs.number_lt, hundialled⟩).2
  · rw [hsame] at hfit ⊢
    obtain ⟨k', hk', hqueue⟩ := ht.exists_ask_of_join ho (hall.via.fits_iff.1 hfit)
    rw [hask, Except.ok.injEq] at hk'
    subst hk'
    obtain ⟨frames, hframes⟩ := hreplay.via.queuedOn_eq_append n.links.nextId.1
    have hfirst : k.queuedOn n.links.nextId.1 =
        [(Command.register m.announcement).frame m.self h.greeting.center] := by
      cases hqueue
      rw [queuedOn_eq, List.filterMap_append, ← queuedOn_eq, hempty]
      simp [Effect.frameOn?]
    rw [hframes, hfirst, hself]
    rfl
  · rw [hi, hsame] at hfit ⊢
    have hlog := hall.log _ _ hs (fun c hc => hall.via.fits_iff.1 (hfit c hc)) hr
    have hnone : m.requestsOn n.links.nextId.1 = [] := by
      rw [Node.requestsOn, hempty, List.filter_nil]
    rw [hlog, hnone, hself]
    rfl

theorem opened_of_handshake (ho : n.Ordered) (hw : n.Awaits) (hj : n.judge (.ok h) = .ok h) :
    (n.finishHandshake (.ok h)).Opened n.links.nextId.1 h.greeting.center ∧
      (n.finishHandshake (.ok h)).interests = n.interests := by
  have ho' : Ordered { n with handshakes := n.handshakes - 1 } := Takes.answered.ordered ho
  have hwait : ¬ ¬ Awaits { n with handshakes := n.handshakes - 1 } := not_not_intro hw
  obtain ⟨m, hjoin, hask⟩ := ho'.exists_join hw.not_center (.inr hw) hj
  obtain ⟨hs, -, hundialled, hi, -⟩ := hjoin.session_of_join ho'
  obtain ⟨e, he, heq⟩ | ⟨k, hk, heq⟩ := hask
  · have hfinish : n.finishHandshake (.ok h) = m := (if_neg hwait).trans (by rw [heq])
    -- the registration is too long
    have hlong : ¬ m.Fits (.register m.announcement) := by
      intro hfit
      obtain ⟨k, hk, -⟩ := hs.exists_ask receive hfit
      rw [hk] at he
      cases he
    rw [hfinish]
    exact ⟨⟨hs, hundialled, fun hfit => absurd hfit hlong,
      fun hfit _ => absurd (hfit _ (List.mem_cons_self ..)) hlong⟩, hi⟩
  · have hfinish : n.finishHandshake (.ok h) = k.interests.requests.foldl repeatRequest k :=
      (if_neg hwait).trans (by rw [heq])
    have hvia := hs.member.askIfPossible_via receive (.register m.announcement)
    have hsame := hs.member.interests_askIfPossible receive (.register m.announcement)
    rw [askIfPossible, hk] at hvia hsame
    obtain ⟨hreplay, hsame'⟩ := (hvia.member hs.member).asks_replay
      fun c hc => isRequest_of_mem_requests (i := k.interests) hc
    rw [hsame] at hreplay hsame' hfinish
    have hopened := hjoin.opened_of_join ho' hk hreplay hsame'
    rw [hfinish]
    exact ⟨hopened, hsame'.trans hi⟩

/-- The entry of the center waits, and what the handshake brings can be linked. -/
def Accepts (n : Node) (h : Handshake) : Prop := n.Awaits ∧ n.judge (.ok h) = .ok h

theorem Accepts.exists_finish (haccepts : n.Accepts h) (ho : n.Ordered) :
    ∃ m, Takes { n with handshakes := n.handshakes - 1 } (.join n.links.nextId.1 h) m ∧
      ∃ k, k = m.askIfPossible receive (.register m.announcement) ∧
        (n.finishHandshake (.ok h) = k ∨
          n.finishHandshake (.ok h) = k.interests.requests.foldl repeatRequest k) := by
  obtain ⟨hw, hj⟩ := haccepts
  have hwait : ¬ ¬ Awaits { n with handshakes := n.handshakes - 1 } := not_not_intro hw
  have ho' : Ordered { n with handshakes := n.handshakes - 1 } := Takes.answered.ordered ho
  obtain ⟨m, htakes, ⟨e, he, heq⟩ | ⟨k, hk, heq⟩⟩ := ho'.exists_join hw.not_center (.inr hw) hj
  · refine ⟨m, htakes, m, by rw [askIfPossible, he], .inl ?_⟩
    exact (if_neg hwait).trans (by rw [heq])
  · refine ⟨m, htakes, k, by rw [askIfPossible, hk], .inr ?_⟩
    exact (if_neg hwait).trans (by rw [heq])

/-- A result that nothing waits for is dropped. Another one gives the entry of the center back, or
brings a link on which the node registers. -/
theorem Ordered.finishHandshake_cases (ho : n.Ordered) (result : Except Fault Handshake) :
    (¬ n.Awaits ∧ n.finishHandshake result = { n with handshakes := n.handshakes - 1 }) ∨
    (n.Awaits ∧ (∃ e, n.judge result = .error e) ∧
      Takes { n with handshakes := n.handshakes - 1 } .release (n.finishHandshake result)) ∨
    ∃ h m, result = .ok h ∧ n.Accepts h ∧
      Takes { n with handshakes := n.handshakes - 1 } (.join n.links.nextId.1 h) m ∧
      m.Via Move.Inner (n.finishHandshake result) := by
  by_cases hw : n.Awaits
  · have hwait : ¬ ¬ Awaits { n with handshakes := n.handshakes - 1 } := not_not_intro hw
    refine .inr ?_
    cases hj : n.judge result with
    | error e =>
      have hj' : judge { n with handshakes := n.handshakes - 1 } result = .error e := hj
      have hfinish :
          n.finishHandshake result = releaseCenter { n with handshakes := n.handshakes - 1 } :=
        (if_neg hwait).trans (by simp only [join, hj'])
      rw [hfinish]
      exact .inl ⟨hw, ⟨e, rfl⟩, releaseCenter_takes hw⟩
    | ok h =>
      obtain ⟨rfl, -⟩ := judge_eq_ok hj
      have haccepts : n.Accepts h := ⟨hw, hj⟩
      obtain ⟨m, htakes, k, hk, hfinish⟩ := haccepts.exists_finish ho
      have hregister : m.Via Move.Inner k := hk ▸ askIfPossible_via receive_tame m _
      refine .inr ⟨h, m, rfl, haccepts, htakes, ?_⟩
      obtain hfinish | hfinish := hfinish
      · rwa [hfinish]
      · rw [hfinish]
        exact hregister.trans (Via.foldl k fun n c _ => repeatRequest_via n c)
  · exact .inl ⟨hw, if_pos hw⟩

theorem Accepts.exists_join (haccepts : n.Accepts h) (ho : n.Ordered) (t : Nat) :
    ∃ m, Takes { n with now := t, handshakes := n.handshakes - 1 } (.join n.links.nextId.1 h) m ∧
      m.Via Move.Inner (n.stepAt t (.handshake (.ok h))) := by
  have ho' : Ordered { n with now := t } := (Takes.tend t n.catalog).ordered ho
  obtain ⟨hnot, -⟩ | ⟨-, ⟨e, hj⟩, -⟩ | ⟨h', m, heq, -, hjoin, hinner⟩ :=
    ho'.finishHandshake_cases (.ok h)
  · exact absurd haccepts.1 hnot
  · have hj' : n.judge (.ok h) = .error e := hj
    rw [haccepts.2] at hj'
    cases hj'
  · cases heq
    exact ⟨m, hjoin, hinner⟩

theorem Ordered.stepAt_via (ho : n.Ordered) (t : Nat) {e : Event}
    (he : ∀ h, e = .handshake (.ok h) → ¬ n.Accepts h) :
    n.Via (fun a => ¬ a.Joins) (n.stepAt t e) := by
  have htend : n.Takes .tend { n with now := t } := .tend t n.catalog
  refine (htend.via fun h => h).trans ?_
  by_cases hresult : ∃ result, e = .handshake result
  · obtain ⟨result, rfl⟩ := hresult
    have hanswered :
        Takes { n with now := t } .answered { n with now := t, handshakes := n.handshakes - 1 } :=
      .answered
    obtain ⟨-, heq⟩ | ⟨-, -, hrelease⟩ | ⟨h, m, rfl, haccepts, -⟩ :=
      (htend.ordered ho).finishHandshake_cases result
    · exact (hanswered.via fun h => h).trans (heq ▸ .refl _)
    · exact (hanswered.via fun h => h).trans (hrelease.via fun h => h)
    · exact absurd haccepts (he h rfl)
  · exact (step_via_of_ne_handshake _ fun result heq => hresult ⟨result, heq⟩).mono fun _ ha =>
      ha.not_joins

theorem finishHandshake_via_of_error (ho : n.Ordered) {result : Except Fault Handshake} {e : Fault}
    (hw : n.Awaits) (hj : n.judge result = .error e) :
    n.Via Move.Calm (n.finishHandshake result) := by
  obtain ⟨hnot, -⟩ | ⟨-, -, hrelease⟩ | ⟨h, -, rfl, ⟨-, hj'⟩, -⟩ := ho.finishHandshake_cases result
  · exact absurd hw hnot
  · exact (Takes.answered.via ⟨trivial, fun _ => id⟩).trans (hrelease.via ⟨trivial, fun _ => id⟩)
  · rw [hj] at hj'
    cases hj'

section Start

variable {profile : Profile} {catalog : Catalog} {port : UInt16} {now : Nat} {calls : List Command}
  {events : List (Nat × Event)}

theorem join_of_start {result : Except Fault Handshake}
    (started : start profile catalog port now result = .ok n) (hm : n.registry? = none) :
    ∃ h m, result = .ok h ∧ (idle profile catalog port now).Ordered ∧
      (idle profile catalog port now).Takes
        (.join (idle profile catalog port now).links.nextId.1 h) m ∧
      m.ask receive (.register m.announcement) = .ok n := by
  obtain ⟨hflaw, ⟨hcenter, rfl⟩ | ⟨hmember, hjoin⟩⟩ := start_cases started
  · simp [hm] at hcenter
  have ho : (idle profile catalog port now).Ordered := ordered_idle hflaw ..
  cases hj : (idle profile catalog port now).judge result with
  | error e =>
    obtain ⟨e', -, he⟩ | ⟨h', hj', -⟩ := join_cases (n := idle profile catalog port now) result
    · rw [hjoin] at he
      cases he
    · rw [hj] at hj'
      cases hj'
  | ok h =>
    obtain ⟨rfl, -⟩ := judge_eq_ok hj
    obtain ⟨m, ht, ⟨e, -, heq⟩ | ⟨k, hk, heq⟩⟩ := ho.exists_join hmember (.inl center?_idle) hj
    · rw [hjoin] at heq
      cases heq
    · rw [hjoin] at heq
      cases heq
      exact ⟨h, m, rfl, ho, ht, hk⟩

theorem exists_join_of_start {result : Except Fault Handshake}
    (started : start profile catalog port now result = .ok n) :
    n = idle profile catalog port now ∨ ∃ h m,
      (idle profile catalog port now).Takes (.join (idle profile catalog port now).links.nextId.1 h)
        m ∧
        m.Via Move.Inner n := by
  obtain ⟨-, ⟨-, rfl⟩ | ⟨hmember, -⟩⟩ := start_cases started
  · exact .inl rfl
  · have hsame := Via.isSome_registry? (start_via started)
    obtain ⟨h, m, -, -, hjoin, hask⟩ := join_of_start started (by simpa [hmember] using hsame)
    exact .inr ⟨h, m, hjoin, ask_via receive_tame hask⟩

theorem opened_of_start (started : start profile catalog port now (.ok h) = .ok n)
    (hm : n.registry? = none) :
    n.Opened (idle profile catalog port now).links.nextId.1 h.greeting.center ∧ n.interests = {} ∧
      n.Fits (.register n.announcement) := by
  obtain ⟨h', m, heq, ho, ht, hask⟩ := join_of_start started hm
  cases heq
  obtain ⟨hs, -, -, hi, -⟩ := ht.session_of_join ho
  have hnone : m.interests = {} := hi
  have hvia := hs.member.askIfPossible_via receive (.register m.announcement)
  have hsame := hs.member.interests_askIfPossible receive (.register m.announcement)
  have hfit : m.Fits (.register m.announcement) := by
    simp only [hs.member.ask_eq, hs.center] at hask
    obtain ⟨_, _, -, -, hlen, -⟩ := sendOver_takes hask
    exact hlen
  rw [askIfPossible, hask] at hvia hsame
  refine ⟨ht.opened_of_join ho hask (by rw [hnone]; exact .refl n) hsame, hsame.trans hnone, ?_⟩
  rw [hvia.announcement_eq hs.ordered]
  exact hvia.fits_iff.2 hfit

theorem exists_start (hflaw : profile.flaw? = none)
    (hm : Node.registry? (idle profile catalog port now) = none)
    (hj : (idle profile catalog port now).judge (.ok h) = .ok h)
    (hfit :
      (idle profile catalog port now).Fits
    (.register (idle profile catalog port now).announcement)) :
    ∃ n, start profile catalog port now (.ok h) = .ok n ∧ n.registry? = none ∧ n.refused = [] ∧
      n.announcement = (idle profile catalog port now).announcement := by
  have ho : (idle profile catalog port now).Ordered := ordered_idle hflaw ..
  obtain ⟨m, ht, hask⟩ := ho.exists_join hm (.inl center?_idle) hj
  obtain ⟨hs, -, -, -, hrefused⟩ := ht.session_of_join ho
  have hsame := ht.announcement_eq ho.seated
  obtain ⟨k, hk, hqueue⟩ := ht.exists_ask_of_join ho (c := .register m.announcement)
    (by rw [hsame]; exact (ht.via (P := fun _ => True) trivial).fits_iff.2 hfit)
  obtain ⟨e, he, -⟩ | ⟨k', hk', heq⟩ := hask
  · rw [hk] at he
    cases he
  · rw [hk, Except.ok.injEq] at hk'
    subst hk'
    have hk_refused : k.refused = m.refused := by
      cases hqueue
      rfl
    refine ⟨k, ?_, (hqueue.member hs.member).not_center, hk_refused.trans hrefused,
      (hqueue.announcement_eq hs.ordered.seated).trans hsame⟩
    simp only [start, hflaw, hm, heq]
    rfl

theorem exists_start_of_second :
    ∃ n, start { nodeId := ⟨2⟩, center := .remote "hub:7100" } {} 7101 0
        (.ok ⟨.ofCenter ⟨1⟩, []⟩) = .ok n ∧ n.registry? = none ∧ n.refused = [] := by
  have hj : (idle { nodeId := ⟨2⟩, center := .remote "hub:7100" } {} 7101 0).judge
      (.ok ⟨.ofCenter ⟨1⟩, []⟩) = .ok ⟨.ofCenter ⟨1⟩, []⟩ := by
    simp [judge, idle, Roster.Contains, Roster.ofSize, Roster.setOwnHandle, Links.hasRoom,
      Links.ofCapacity, Slots.ofCapacity, Slots.size, Slots.capacity, NodeId.Assigned,
      NodeId.unassigned, NodeId.index, self, Greeting.ofCenter]
  have hfit : (idle { nodeId := ⟨2⟩, center := .remote "hub:7100" } {} 7101 0).Fits
      (.register
          (idle { nodeId := ⟨2⟩, center := .remote "hub:7100" } {} 7101 0).announcement) := by
    unfold Fits
    decide +kernel
  obtain ⟨n, hn, hm, hrefused, -⟩ := exists_start (by decide) rfl hj hfit
  exact ⟨n, hn, hm, hrefused⟩

theorem interests_of_start {result : Except Fault Handshake}
    (started : start profile catalog port now result = .ok n) (hm : n.registry? = none) :
    n.interests = {} := by
  obtain ⟨h, -, rfl, -⟩ := join_of_start started hm
  exact (opened_of_start started hm).2.1

theorem not_center_of_run (hm : Node.registry? (n.run events) = none) : n.registry? = none := by
  have hsame := Via.isSome_registry? (run_via n events)
  rw [hm] at hsame
  simpa using hsame.symm

end Start

end Meshwork.Node
