import Mathlib.Data.List.Induction
import Meshwork.Proofs.Node.CenterSlot

/-!
# The link of the center

Main statement: `center_link_of_run`. The node has registered on the link of its center, and
repeated its requests, exactly if it did not dial that link; it dials a lost center exactly when a
frame reaches it; and while such a link stays, no handshake is begun.
-/

namespace Meshwork

def Effect.sought? : Effect → Option String
  | .shakeHands endpoint => some endpoint
  | _ => none

namespace Node

variable {n m : Node} {a : Move} {conn : ConnId} {directory : Handle} {f : Frame}
  {events : List (Nat × Event)}

/-- The endpoints to which handshakes were begun so far, oldest first. -/
def sought (n : Node) : List String := n.effects.filterMap (·.sought?)

theorem Takes.sought_eq (h : n.Takes a m) (ha : a ≠ .seek) : m.sought = n.sought := by
  have hadd {es : List Effect} (he : m.effects = n.effects ++ es)
      (hes : es.filterMap (·.sought?) = []) : m.sought = n.sought := by
    rw [sought, he, List.filterMap_append, hes, List.append_nil]
    rfl
  cases h with
  | deliver | bracket | bind | dial | queue | join => exact hadd rfl rfl
  | seek => exact absurd rfl ha
  | lose => exact hadd rfl (by simp [Effect.sought?, List.filterMap_map])
  | arrive _ _ _ hg =>
    obtain rfl | ⟨-, rfl⟩ := hg
    · exact hadd rfl rfl
    · exact hadd rfl rfl
  | _ => rfl

theorem Session.sought_run (h : n.Session conn directory) (events : List (Nat × Event))
    (hl : (n.run events).centerLink? = some conn) : (n.run events).sought = n.sought := by
  have hkeep : (n.run events).Session conn directory ∧ (n.run events).sought = n.sought ∨
      (n.run events).Gone conn := by
    refine run_keeps (I := fun k => k.Session conn directory ∧ k.sought = n.sought ∨ k.Gone conn)
      (fun k a l hk ht => ?_) (.inl ⟨h, rfl⟩) events
    obtain ⟨hs, heq⟩ | hgone := hk
    · obtain hs' | ⟨-, hgone⟩ := ht.session hs
      · have ha : a ≠ .seek := by
          rintro rfl
          exact hs.not_seek ht
        exact .inl ⟨hs', (ht.sought_eq ha).trans heq⟩
      · exact .inr hgone
    · exact .inr (ht.gone hgone)
  obtain ⟨-, heq⟩ | hgone := hkeep
  · exact heq
  · exact absurd hl hgone.centerLink?

theorem mem_queuedOn_of_ownRequests (hf : f ∈ n.ownRequests conn events) :
    f ∈ (n.run events).queuedOn conn := by
  induction events generalizing n with
  | nil => cases hf
  | cons x rest ih =>
    obtain ⟨t, e⟩ := x
    rw [ownRequests, List.mem_append] at hf
    rcases hf with hf | hf
    · have hqueued : f ∈ (n.stepAt t e).queuedOn conn := by
        split at hf
        · cases hf
        · exact (List.mem_filter.1 (List.mem_of_mem_drop hf)).1
      obtain ⟨frames, hframes⟩ := (run_via (n.stepAt t e) rest).queuedOn_eq_append conn
      rw [run_cons, hframes]
      exact List.mem_append_left _ hqueued
    · exact ih hf

section Start

variable {profile : Profile} {catalog : Catalog} {port : UInt16} {now : Nat} {calls : List Command}

/-- A link was brought by a completed handshake. The registration was the first frame on it, and
what the node remembers was asked for over it, unless a request was too long or a frame was
refused. -/
def Registered (profile : Profile) (catalog : Catalog) (port : UInt16) (now : Nat) (n : Node)
    (conn : ConnId) : Prop :=
  ∃ calls m directory later, Completes profile catalog port now calls m conn directory ∧
    n = m.run later ∧
    (n.queuedOn conn).head? = some ((Command.register n.announcement).frame n.self directory) ∧
    ((∀ c ∈ n.interests.requests, n.Fits c) → (∀ k, ¬ (m.run (later.take k)).Refuses conn) →
      ∀ c ∈ n.interests.requests, c.frame n.self directory ∈ n.queuedOn conn)

theorem Registered.not_dialled (h : Registered profile catalog port now n conn) :
    ¬ n.Dialled conn := by
  obtain ⟨calls, m, directory, later, hc, rfl, -⟩ := h
  obtain ⟨hopened, -⟩ := hc.opened
  exact ((run_via m later).undialled ⟨hopened.session.number_lt, hopened.not_dialled⟩).2

theorem Completes.registered (hc : Completes profile catalog port now calls m conn directory)
    (later : List (Nat × Event)) (hl : (m.run later).centerLink? = some conn) :
    Registered profile catalog port now (m.run later) conn := by
  obtain ⟨hopened, hfit, hi⟩ := hc.opened
  have hs := hopened.session
  have hvia := run_via m later
  obtain ⟨frames, hframes⟩ := hvia.queuedOn_eq_append conn
  refine ⟨calls, m, directory, later, hc, rfl, ?_, fun hfits hr c hmem => ?_⟩
  · rw [hframes, hvia.announcement_eq hs.ordered, hvia.self_eq, List.head?_append,
      hopened.first hfit, Option.some_or]
  · have hfits' : ∀ c ∈ (m.run later).interests.requests, m.Fits c :=
      fun c hc => hvia.fits_iff.1 (hfits c hc)
    have hempty : ({} : Interests).Distinct := ⟨List.nodup_nil, List.nodup_nil⟩
    obtain ⟨i, -, hperm, hlast⟩ := hs.exists_perm (hi ▸ hempty.after m.self calls) later
    have hlog := hopened.log
      (List.forall_mem_cons.2 ⟨hfit, fun c hc => hfits' c (hs.member.mem_requests_run hc)⟩) (hr 0)
    rw [← hlast hl, ← hperm.mem_iff, List.mem_append] at hmem
    rw [hvia.self_eq]
    rcases hmem with hmem | hmem
    · have hfirst : c.frame m.self directory ∈ m.requestsOn conn := by
        rw [hlog]
        exact List.mem_map_of_mem (List.mem_cons_of_mem _ hmem)
      rw [hframes]
      exact List.mem_append_left _ (List.mem_filter.1 hfirst).1
    · refine mem_queuedOn_of_ownRequests ?_
      rw [hs.ownRequests_eq hfits' hr]
      exact List.mem_map_of_mem hmem

/-- The center is lost, or was dialled, or has the link of a handshake that was completed some time
ago. -/
theorem phases_of_run {result : Except Fault Handshake} {n₀ : Node}
    (started : start profile catalog port now result = .ok n₀) (member : n₀.registry? = none)
    (events : List (Nat × Event)) :
    ∃ center, (n₀.run events).Lost center ∨ (n₀.run events).Dials center ∨
      ∃ conn calls m later, (n₀.run events).Session conn center.directory ∧
        Completes profile catalog port now calls m conn center.directory ∧
          n₀.run events = m.run later := by
  induction events using List.reverseRecOn with
  | nil =>
    obtain ⟨h, m, rfl, -⟩ := join_of_start started member
    have hc := Completes.first started member
    exact ⟨⟨h.greeting.center.node, h.greeting.center⟩,
      .inr (.inr ⟨_, _, n₀, [], hc.opened.1.session, hc, rfl⟩)⟩
  | append_singleton before x ih =>
    obtain ⟨t, e⟩ := x
    have hrun : n₀.run (before ++ [(t, e)]) = (n₀.run before).stepAt t e := run_append ..
    rw [hrun]
    obtain ⟨center, hlost | ⟨conn, hs, hd⟩ | ⟨conn, calls, m, later, hs, hc, heq⟩⟩ := ih
    · obtain ⟨-, hdials⟩ | ⟨-, hlost' | ⟨h, rfl, hw, hj⟩⟩ := hlost.stepAt t e
      · exact ⟨center, .inr (.inl hdials)⟩
      · exact ⟨center, .inl hlost'⟩
      · have hc := Completes.again started before t hw hj
        exact ⟨⟨h.greeting.center.node, h.greeting.center⟩,
          .inr (.inr ⟨_, _, _, [], hc.opened.1.session, hc, rfl⟩)⟩
    · obtain hs' | hlost := hs.stepAt_cases t e
      · exact ⟨center, .inr (.inl ⟨conn, hs', (stepAt_via _ t e).dialled hd⟩)⟩
      · exact ⟨_, .inl hlost⟩
    · obtain hs' | hlost := hs.stepAt_cases t e
      -- the handshake that was completed stays the same while its link does
      · refine ⟨center, .inr (.inr ⟨conn, calls, m, later ++ [(t, e)], hs', hc, ?_⟩)⟩
        rw [run_append, ← heq]
        rfl
      · exact ⟨_, .inl hlost⟩

/-- The link of the center was brought by a handshake, and the node has registered on it, exactly if
the node did not dial it. A lost center is dialled exactly by the events with a frame that reaches
it, and while the link stays no handshake is begun. -/
theorem center_link_of_run {result : Except Fault Handshake} {n₀ : Node}
    (started : start profile catalog port now result = .ok n₀) (member : n₀.registry? = none)
    (events : List (Nat × Event)) :
    ∃ center, (n₀.run events).center? = some center ∧
      (∀ conn, (n₀.run events).centerLink? = some conn →
        (Registered profile catalog port now (n₀.run events) conn ↔
          ¬ (n₀.run events).Dialled conn) ∧
        ∀ later, ((n₀.run events).run later).centerLink? = some conn →
          ((n₀.run events).run later).sought = (n₀.run events).sought) ∧
      ((n₀.run events).centerLink? = none → ∀ t e,
        ((∃ conn, ((n₀.run events).stepAt t e).centerLink? = some conn ∧
            ((n₀.run events).stepAt t e).Dialled conn) ↔
          (n₀.run events).ReachedBy center.node t e)) := by
  have ho := ordered_of_run started events
  have hphases := phases_of_run started member events
  have hcenter : ∃ center, (n₀.run events).center? = some center := by
    obtain ⟨center, hlost | ⟨conn, hs, -⟩ | ⟨conn, calls, m, later, hs, -⟩⟩ := hphases
    · exact ⟨center, hlost.known⟩
    · exact ⟨_, hs.center⟩
    · exact ⟨_, hs.center⟩
  obtain ⟨center, hknown⟩ := hcenter
  refine ⟨center, hknown,
    fun conn hl => ⟨⟨Registered.not_dialled, fun hd => ?_⟩, fun later hl' => ?_⟩, fun hl t e => ?_⟩
  · obtain ⟨_, hlost | ⟨conn', hs, hd'⟩ | ⟨conn', calls, m, later, hs, hc, heq⟩⟩ := hphases
    · rw [hlost.centerLink?] at hl
      cases hl
    · rw [hs.centerLink?, Option.some.injEq] at hl
      exact absurd (hl ▸ hd') hd
    · have hsame := hs.centerLink?
      rw [hl, Option.some.injEq] at hsame
      subst hsame
      rw [heq] at hl ⊢
      exact hc.registered later hl
  · obtain ⟨directory, hs⟩ := session_of_centerLink? ho hl
    exact hs.sought_run later hl'
  · have hlost := lost_of_centerLink? ho hknown hl
    obtain ⟨hreached, conn, hs, hd⟩ | ⟨hnot, hend⟩ := hlost.stepAt t e
    · exact ⟨fun _ => hreached, fun _ => ⟨conn, hs.centerLink?, hd⟩⟩
    · refine ⟨?_, fun hreached => absurd hreached hnot⟩
      rintro ⟨conn, hl', hd⟩
      -- a link that the event brings all the same is that of a handshake, and so not dialled
      obtain hlost' | ⟨h, rfl, hw, hj⟩ := hend
      · rw [hlost'.centerLink?] at hl'
        cases hl'
      · have hc := Completes.again started events t hw hj
        obtain ⟨hopened, -⟩ := hc.opened
        rw [hopened.session.centerLink?, Option.some.injEq] at hl'
        exact absurd (hl' ▸ hd) hopened.not_dialled

/-- Node 2 loses its center, which is node 1, and gets a frame that registers it. It then has a link
to the center on which it is not registered. -/
theorem center_link_of_run_register :
    ∃ n₀ events conn, start { nodeId := ⟨2⟩, center := .remote "hub:7100" } {} 7101 0
        (.ok ⟨.ofCenter ⟨1⟩, []⟩) = .ok n₀ ∧ n₀.registry? = none ∧
      (n₀.run events).centerLink? = some conn ∧ (n₀.run events).Dialled conn ∧
      ¬ Registered { nodeId := ⟨2⟩, center := .remote "hub:7100" } {} 7101 0
        (n₀.run events) conn := by
  obtain ⟨a, ha⟩ : ∃ a : Announcement,
      a = ⟨⟨1⟩, { nodeHost := "hub", nodePort := 7100 }, ⟨⟨1⟩, meshModule⟩⟩ := ⟨_, rfl⟩
  have hparse : Command.parse (Command.register a).payload = .ok (.register a) := by
    rw [ha]
    decide +kernel
  obtain ⟨n₀, started, member, -⟩ := exists_start_of_second
  obtain ⟨hopened, -⟩ := opened_of_start started member
  have hf : n₀.routing.classify ((Command.register a).frame ⟨1⟩ ⟨⟨2⟩, meshModule⟩) =
      .control ⟨⟨1⟩, meshModule⟩ (.register a) := by
    simp [Routing.classify, Command.frame, hparse]
  obtain ⟨conn, hs, hd⟩ := hopened.session.dials_of_loss 1 2 .endOfStream ⟨1⟩ hf
    (by rw [ha]; rfl) (by rw [ha]; rfl)
  obtain ⟨_, -, hlink, -⟩ := center_link_of_run started member _
  exact ⟨n₀, _, conn, started, member, hs.centerLink?, hd,
    fun hr => (hlink conn hs.centerLink?).1.1 hr hd⟩

end Start

end Node

end Meshwork
