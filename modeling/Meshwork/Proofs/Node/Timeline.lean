import Mathlib.Data.List.Induction
import Meshwork.Proofs.Node.Handshake
import Meshwork.Proofs.Node.Replay

/-!
# What a node did, and when

The effects of a run with their times. A link is touched when it is made and when a frame is queued
on it. Main statements: `lastSent_of_run`, the entry of a linked node has the time at which its link
was touched last, and `pairwise_touches`, while the clock does not go back the touches of a link are
in the order of their times.
-/

namespace Meshwork

/-- The moves that make a link or queue a frame on it. -/
def Move.Touches (conn : ConnId) : Move → Prop
  | .queue _ c _ | .dial _ c | .join c _ | .arrive c => c = conn
  | _ => False

theorem Move.Inner.ne_tend {a : Move} (h : a.Inner) : a ≠ .tend := by
  rintro rfl
  exact h

def Event.isTick : Event → Bool
  | .tick | .call .tick => true
  | _ => false

/-- An effect, when it came, and whether a tick brought it. -/
structure Mark where
  time : Nat
  ticked : Bool
  effect : Effect
deriving DecidableEq, Repr

namespace Node

variable {n m : Node} {a : Move} {e : Event} {conn : ConnId} {id : NodeId} {p : Peer}

theorem Takes.exists_effects (ht : n.Takes a m) :
    ∃ es, m.effects = n.effects ++ es ∧ ∀ conn, (∃ e ∈ es, e.conn? = some conn) ↔
      a.Touches conn := by
  cases ht with
  | arrive _ _ _ hg =>
    obtain rfl | ⟨-, rfl⟩ := hg <;> exact ⟨_, rfl, by simp [Effect.conn?, Move.Touches]⟩
  | lose => exact ⟨_, rfl, by simp [Effect.conn?, Move.Touches]⟩
  | deliver | bracket | bind | dial | queue | join | seek =>
    exact ⟨_, rfl, by simp [Effect.conn?, Move.Touches]⟩
  | _ => exact ⟨[], (List.append_nil _).symm, by simp [Move.Touches]⟩

theorem Takes.lastSent_of_touches (hw : n.Wired) (ht : n.Takes a m) (ha : a.Touches conn)
    (hp : m.roster.get? id = some p) (hl : p.link = some conn) : p.lastSent = some n.now := by
  cases ht with
  | @queue id' peer c record frame bytes link hp' hl' =>
    have hc : c = conn := ha
    subst hc
    rw [Roster.get?_noteSent] at hp
    split at hp
    · obtain ⟨q, -, rfl⟩ := Option.map_eq_some_iff.1 hp
      rfl
    · rename_i hid
      exact absurd (hw.link_inj hp hp' hl (Peer.liveLink?_eq_some_iff.1 hl').1) hid
  | dial =>
    have hc : n.links.nextId.1 = conn := ha
    subst hc
    rw [Roster.get?_noteSent_attach] at hp
    split at hp
    · obtain ⟨q, -, rfl⟩ := Option.map_eq_some_iff.1 hp
      rfl
    · exact absurd hl (hw.link_ne_nextId hp)
  | join =>
    have hc : n.links.nextId.1 = conn := ha
    subst hc
    rw [Roster.get?_noteSent_attach_update] at hp
    split at hp
    · obtain ⟨q, -, rfl⟩ := Option.map_eq_some_iff.1 hp
      rfl
    · exact absurd hl (hw.link_ne_nextId hp)
  | arrive =>
    -- no entry has a link that came in
    have hc : n.links.nextId.1 = conn := ha
    subst hc
    exact absurd hl (hw.link_ne_nextId hp)
  | _ => exact ha.elim

theorem Takes.lastSent_eq (ht : n.Takes a m) (ha : ¬ a.Touches conn)
    (hp : m.roster.get? id = some p) (hl : p.link = some conn) :
    ∃ q, n.roster.get? id = some q ∧ q.link = some conn ∧ q.lastSent = p.lastSent := by
  obtain ⟨q, hq, halters⟩ := ht.alters hp
  cases halters with
  | same | learn | bind | seek | establish => exact ⟨_, hq, hl, rfl⟩
  | @queue c frame =>
    cases ht with
    | queue hq' hl' =>
      rw [hq', Option.some.injEq] at hq
      subst hq
      have hlink := (Peer.liveLink?_eq_some_iff.1 hl').1
      exact absurd (Option.some.inj (hlink.symm.trans hl)) ha
  | dial | join => exact absurd (Option.some.inj hl) ha
  | release | lose => cases hl

theorem Via.lastSent_cases (hv : n.Via (· ≠ .tend) m) (ho : n.Ordered) :
    ∃ es, m.effects = n.effects ++ es ∧ ∀ id p conn, m.roster.get? id = some p →
      p.link = some conn →
      (∃ e ∈ es, e.conn? = some conn) ∧ p.lastSent = some n.now ∨
      (∀ e ∈ es, e.conn? ≠ some conn) ∧
        ∃ q, n.roster.get? id = some q ∧ q.link = some conn ∧ q.lastSent = p.lastSent := by
  -- the invariant is about all entries at once, as an entry may get and lose links on the way
  have hkeep :=
    hv.keeps (I := fun k => k.Ordered ∧ k.now = n.now ∧ ∃ es, k.effects = n.effects ++ es ∧
    ∀ id p conn, k.roster.get? id = some p → p.link = some conn →
      (∃ e ∈ es, e.conn? = some conn) ∧ p.lastSent = some n.now ∨
      (∀ e ∈ es, e.conn? ≠ some conn) ∧
        ∃ q, n.roster.get? id = some q ∧ q.link = some conn ∧ q.lastSent = p.lastSent)
    (fun k a l ⟨hk, hnow, es, hes, hentries⟩ ha ht => ?_)
    ⟨ho, rfl, [], (List.append_nil _).symm, fun id p conn hp hl => .inr ⟨nofun, p, hp, hl, rfl⟩⟩
  · exact hkeep.2.2
  obtain ⟨fs, hfs, htouches⟩ := ht.exists_effects
  have hnow' : l.now = n.now := by
    cases ht with
    | tend => exact absurd rfl ha
    | _ => exact hnow
  refine ⟨ht.ordered hk, hnow', es ++ fs, by rw [hfs, hes, List.append_assoc],
    fun id p conn hp hl => ?_⟩
  by_cases hmove : a.Touches conn
  · obtain ⟨f, hf, hconn⟩ := (htouches conn).2 hmove
    have hsent := ht.lastSent_of_touches hk.wired hmove hp hl
    rw [hnow] at hsent
    exact .inl ⟨⟨f, List.mem_append_right _ hf, hconn⟩, hsent⟩
  · have hnone : ∀ f ∈ fs, f.conn? ≠ some conn :=
      fun f hf hconn => hmove ((htouches conn).1 ⟨f, hf, hconn⟩)
    obtain ⟨q, hq, hlink, hsame⟩ := ht.lastSent_eq hmove hp hl
    obtain ⟨⟨f, hf, hconn⟩, hsent⟩ | ⟨hsilent, r, hr, hlink', hsame'⟩ := hentries id q conn hq hlink
    · exact .inl ⟨⟨f, List.mem_append_left _ hf, hconn⟩, hsame.symm.trans hsent⟩
    · refine .inr ⟨fun f hf => ?_, r, hr, hlink', hsame'.trans hsame⟩
      obtain hf | hf := List.mem_append.1 hf
      · exact hsilent f hf
      · exact hnone f hf

theorem call_via (n : Node) {r : Request} (hr : r ≠ .tick) : n.Via Move.Inner (n.call r).1 := by
  unfold call
  split
  · split
    · rename_i h
      exact post_via receive_tame h
    · exact .refl n
  · split
    · rename_i h
      exact subscribe_via receive_tame h
    · exact .refl n
  · split
    · rename_i h
      exact publish_via receive_tame h
    · exact .refl n
  · exact absurd rfl hr

theorem Ordered.step_via (ho : n.Ordered) (e : Event) :
    (n.step e).roster = n.roster ∧ (n.step e).effects = n.effects ∨
      n.Via (· ≠ .tend) (n.step e) := by
  have hlose (m : Node) (conn : ConnId) : m.Via (· ≠ .tend) (m.lose conn) := by
    refine (lose_via m conn).mono ?_
    rintro a (ha | rfl | ⟨id, rfl⟩)
    · exact ha.ne_tend
    · simp
    · simp
  have htick : n.Via (· ≠ .tend) n.tick := by
    refine n.tick_via.mono ?_
    rintro a (ha | rfl)
    · exact ha.ne_tend
    · simp
  cases e with
  | accept =>
    refine .inr (n.accept_via.mono ?_)
    rintro a (rfl | ⟨conn, rfl⟩) <;> simp
  | link e =>
    cases e with
    | connected conn =>
      refine .inr ((connected_via n conn).mono ?_)
      rintro a ⟨id, rfl⟩
      simp
    | frames conn frames =>
      exact .inr (Via.foldl n fun n f _ => (receive_via n f).mono fun _ ha => ha.ne_tend)
    | closed conn reason => exact .inr (hlose n conn)
  | refusal =>
    simp only [step]
    split
    · exact .inr (.refl n)
    · rename_i hr
      exact .inr (((Takes.pardon hr).via (by simp)).trans (hlose _ _))
  | handshake result =>
    have hanswered : n.Takes .answered { n with handshakes := n.handshakes - 1 } := .answered
    obtain ⟨-, heq⟩ | ⟨-, -, hrelease⟩ | ⟨h, m, rfl, -, hjoin, hinner⟩ :=
      ho.finishHandshake_cases result
    · have hstep : n.step (.handshake result) = { n with handshakes := n.handshakes - 1 } := heq
      rw [hstep]
      exact .inr (hanswered.via (by simp))
    · exact .inr ((hanswered.via (by simp)).trans (hrelease.via (by simp)))
    · exact .inr ((hanswered.via (by simp)).trans
        ((hjoin.via (by simp)).trans (hinner.mono fun _ ha => ha.ne_tend)))
  | call r =>
    by_cases hr : r = .tick
    · subst hr
      exact .inr htick
    · exact .inr ((call_via n hr).mono fun _ ha => ha.ne_tend)
  | tick => exact .inr htick
  | written conn => exact .inr ((Takes.write (f := fun l => l.drain.2) fun _ => rfl).via (by simp))
  | stopped conn => exact .inr ((Takes.write (f := Link.stop) fun _ => rfl).via (by simp))
  | install name moduleId => exact .inl ⟨rfl, rfl⟩
  | uninstall name => exact .inl ⟨rfl, rfl⟩

def stepEffects (n : Node) (t : Nat) (e : Event) : List Effect :=
  (n.stepAt t e).effects.drop n.effects.length

theorem effects_stepAt (n : Node) (t : Nat) (e : Event) :
    (n.stepAt t e).effects = n.effects ++ n.stepEffects t e := by
  obtain ⟨es, hes⟩ := (stepAt_via n t e).effects_eq_append
  rw [stepEffects, hes, List.drop_left]

theorem Ordered.lastSent_stepAt (ho : n.Ordered) (t : Nat) (e : Event)
    (hp : (n.stepAt t e).roster.get? id = some p) (hl : p.link = some conn) :
    (∃ f ∈ n.stepEffects t e, f.conn? = some conn) ∧ p.lastSent = some t ∨
      (∀ f ∈ n.stepEffects t e, f.conn? ≠ some conn) ∧
        ∃ q, n.roster.get? id = some q ∧ q.link = some conn ∧ q.lastSent = p.lastSent := by
  obtain ⟨hroster, heffects⟩ | hvia := (ho.tend t).step_via e
  · have hroster' : (n.stepAt t e).roster = n.roster := hroster
    have heffects' : (n.stepAt t e).effects = n.effects := heffects
    have hnone : n.stepEffects t e = [] := by rw [stepEffects, heffects', List.drop_length]
    rw [hroster'] at hp
    exact .inr ⟨by simp [hnone], p, hp, hl, rfl⟩
  · obtain ⟨es, hes, hentries⟩ := hvia.lastSent_cases (ho.tend t)
    have heffects : (n.stepAt t e).effects = n.effects ++ es := hes
    have hstep : n.stepEffects t e = es := by rw [stepEffects, heffects, List.drop_left]
    rw [hstep]
    exact hentries id p conn hp hl

def marks : Node → List (Nat × Event) → List Mark
  | _, [] => []
  | n, (t, e) :: rest => (n.stepEffects t e).map (⟨t, e.isTick, ·⟩) ++ marks (n.stepAt t e) rest

def timeline (n : Node) (events : List (Nat × Event)) : List Mark :=
  n.effects.map (⟨n.now, false, ·⟩) ++ n.marks events

/-- A link is made, and then frames are queued on it. -/
def touches (n : Node) (events : List (Nat × Event)) (conn : ConnId) : List Mark :=
  (n.timeline events).filter (·.effect.conn? = some conn)

variable {events before : List (Nat × Event)}

theorem marks_concat (n : Node) (before : List (Nat × Event)) (t : Nat) (e : Event) :
    n.marks (before ++ [(t, e)]) =
      n.marks before ++ ((n.run before).stepEffects t e).map (⟨t, e.isTick, ·⟩) := by
  induction before generalizing n with
  | nil => simp [marks, run_nil]
  | cons first rest ih =>
    obtain ⟨t', e'⟩ := first
    rw [List.cons_append, marks, ih, marks, run_cons, List.append_assoc]

theorem timeline_concat (n : Node) (before : List (Nat × Event)) (t : Nat) (e : Event) :
    n.timeline (before ++ [(t, e)]) =
      n.timeline before ++ ((n.run before).stepEffects t e).map (⟨t, e.isTick, ·⟩) := by
  rw [timeline, marks_concat, ← List.append_assoc, timeline]

theorem touches_concat (n : Node) (before : List (Nat × Event)) (t : Nat) (e : Event)
    (conn : ConnId) :
    n.touches (before ++ [(t, e)]) conn = n.touches before conn ++
      (((n.run before).stepEffects t e).filter (·.conn? = some conn)).map (⟨t, e.isTick, ·⟩) := by
  rw [touches, timeline_concat, List.filter_append, List.filter_map]
  rfl

theorem map_effect_timeline (n : Node) (events : List (Nat × Event)) :
    (n.timeline events).map (·.effect) = (n.run events).effects := by
  induction events using List.reverseRecOn with
  | nil => simp [timeline, marks, run_nil, Function.comp_def]
  | append_singleton before last ih =>
    obtain ⟨t, e⟩ := last
    rw [timeline_concat, List.map_append, ih, run_concat, effects_stepAt, List.map_map]
    simp [Function.comp_def]

def ClockRises (n : Node) (events : List (Nat × Event)) : Prop :=
  (n.now :: events.map (·.1)).Pairwise (· ≤ ·)

theorem time_of_mem_marks {x : Mark} (hx : x ∈ n.marks events) : x.time ∈ events.map (·.1) := by
  induction events generalizing n with
  | nil => cases hx
  | cons first rest ih =>
    obtain ⟨t, e⟩ := first
    rw [marks, List.mem_append, List.mem_map] at hx
    obtain ⟨f, -, rfl⟩ | hx := hx
    · exact List.mem_cons_self ..
    · exact List.mem_cons_of_mem _ (ih hx)

theorem time_of_mem_timeline {x : Mark} (hx : x ∈ n.timeline events) :
    x.time ∈ n.now :: events.map (·.1) := by
  rw [timeline, List.mem_append, List.mem_map] at hx
  obtain ⟨f, -, rfl⟩ | hx := hx
  · exact List.mem_cons_self ..
  · exact List.mem_cons_of_mem _ (time_of_mem_marks hx)

theorem ClockRises.of_append {more : List (Nat × Event)} (h : n.ClockRises (before ++ more)) :
    n.ClockRises before := by
  rw [ClockRises, List.map_append, ← List.cons_append] at h
  exact (List.pairwise_append.1 h).1

theorem ClockRises.time_le {t : Nat} {e : Event} (h : n.ClockRises (before ++ [(t, e)])) {x : Mark}
    (hx : x ∈ n.timeline before) : x.time ≤ t := by
  rw [ClockRises, List.map_append, ← List.cons_append] at h
  exact (List.pairwise_append.1 h).2.2 _ (time_of_mem_timeline hx) t (List.mem_singleton_self t)

theorem ClockRises.pairwise_timeline (h : n.ClockRises events) :
    (n.timeline events).Pairwise fun x y => x.time ≤ y.time := by
  induction events using List.reverseRecOn with
  | nil =>
    rw [timeline, marks, List.append_nil]
    exact List.pairwise_map.2 (List.pairwise_of_forall fun _ _ => Nat.le_refl _)
  | append_singleton before last ih =>
    obtain ⟨t, e⟩ := last
    rw [timeline_concat, List.pairwise_append]
    refine ⟨ih h.of_append, List.pairwise_map.2 (List.pairwise_of_forall fun _ _ => Nat.le_refl _),
      ?_⟩
    intro x hx y hy
    obtain ⟨f, -, rfl⟩ := List.mem_map.1 hy
    exact h.time_le hx

theorem ClockRises.pairwise_touches (h : n.ClockRises events) (conn : ConnId) :
    (n.touches events conn).Pairwise fun x y => x.time ≤ y.time :=
  h.pairwise_timeline.filter _

theorem exists_getLast?_mark {es : List Effect} (he : ∃ e ∈ es, e.conn? = some conn) (t : Nat)
    (ticked : Bool) :
    ∃ x, ((es.filter (·.conn? = some conn)).map (⟨t, ticked, ·⟩ : Effect → Mark)).getLast? =
      some x ∧
      x.time = t := by
  obtain ⟨e, he, hconn⟩ := he
  have hmem : e ∈ es.filter (·.conn? = some conn) := by simp [he, hconn]
  cases hlast : (es.filter (·.conn? = some conn)).getLast? with
  | none =>
    rw [List.getLast?_eq_none_iff.1 hlast] at hmem
    cases hmem
  | some f => exact ⟨⟨t, ticked, f⟩, by rw [List.getLast?_map, hlast]; rfl, rfl⟩

section Start

variable {profile : Profile} {catalog : Catalog} {port : UInt16} {now : Nat}
  {result : Except Fault Handshake} {n₀ : Node}

theorem Via.now_eq (hv : n.Via (· ≠ .tend) m) : m.now = n.now :=
  hv.keeps (I := fun k => k.now = n.now) (fun k a l hk ha ht => by
    cases ht with
    | tend => exact absurd rfl ha
    | _ => exact hk) rfl

theorem start_via_untimed (started : start profile catalog port now result = .ok n₀) :
    (idle profile catalog port now).Via (· ≠ .tend) n₀ := by
  obtain rfl | ⟨h, m, hjoin, hinner⟩ := exists_join_of_start started
  · exact .refl _
  · exact (hjoin.via nofun).trans (hinner.mono fun _ ha => ha.ne_tend)

/-- The entry of a linked node has the time at which its link was touched last. -/
theorem lastSent_of_run (started : start profile catalog port now result = .ok n₀)
    (events : List (Nat × Event)) (hp : (n₀.run events).roster.get? id = some p)
    (hl : p.link = some conn) :
    ∃ x, (n₀.touches events conn).getLast? = some x ∧ p.lastSent = some x.time := by
  induction events using List.reverseRecOn generalizing p with
  | nil =>
    have ho : (idle profile catalog port now).Ordered := ordered_idle (start_cases started).1 ..
    have hvia := start_via_untimed started
    obtain ⟨es, hes, hentries⟩ := hvia.lastSent_cases ho
    obtain ⟨htouched, hsent⟩ | ⟨-, q, hq, hlink, -⟩ := hentries id p conn hp hl
    · have heffects : n₀.effects = es := hes
      have htouches : n₀.touches [] conn =
          (es.filter (·.conn? = some conn)).map (⟨n₀.now, false, ·⟩ : Effect → Mark) := by
        rw [touches, timeline, marks, List.append_nil, heffects, List.filter_map]
        rfl
      obtain ⟨x, hx, htime⟩ := exists_getLast?_mark htouched n₀.now false
      exact ⟨x, htouches ▸ hx, by rw [htime, hvia.now_eq, hsent]⟩
    · rw [(get?_idle hq).2.1] at hlink
      cases hlink
  | append_singleton before last ih =>
    -- the last step touched the link, or what holds before it still does
    obtain ⟨t, e⟩ := last
    rw [run_concat] at hp
    rw [touches_concat]
    obtain ⟨htouched, hsent⟩ | ⟨hsilent, q, hq, hlink, hsame⟩ :=
      (ordered_of_run started before).lastSent_stepAt t e hp hl
    · obtain ⟨x, hx, htime⟩ := exists_getLast?_mark htouched t e.isTick
      exact ⟨x, by rw [List.getLast?_append, hx]; rfl, by rw [hsent, htime]⟩
    · have hnone : ((n₀.run before).stepEffects t e).filter (·.conn? = some conn) = [] := by
        simpa using hsilent
      obtain ⟨x, hx, hsent⟩ := ih hq hlink
      exact ⟨x, by rw [hnone, List.map_nil, List.append_nil, hx], hsame.symm.trans hsent⟩

end Start

end Node

end Meshwork
