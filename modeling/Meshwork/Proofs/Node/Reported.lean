import Meshwork.Proofs.Node.Departures

/-!
# Names under which modules are reported

A module is reported under the name that it was announced by, once, until it goes. Main statement:
`reported_of_path`, for every command that announces modules and for every handle in it. What is
remembered of a report is the handle and not the name, so a second name for the same handle is not
reported.
-/

namespace Meshwork

def Command.announced? : Command → Option (String × List Handle)
  | .handle name h => some (name, [h])
  | .handles name hs => some (name, hs)
  | _ => none

def ModuleEvent.Standing (name : String) (handle : Handle) (events : List ModuleEvent) : Prop :=
  ∃ before address after,
    events = before ++ .started name handle address :: after ∧ .exited handle ∉ after

namespace ModuleEvent

variable {name : String} {handle : Handle} {events : List ModuleEvent} {e : ModuleEvent}

theorem standing_concat : Standing name handle (events ++ [e]) ↔
    Standing name handle events ∧ e ≠ .exited handle ∨ ∃ address,
      e = .started name handle address := by
  constructor
  · rintro ⟨before, address, after, heq, hnot⟩
    obtain rfl | ⟨rest, last, rfl⟩ := List.eq_nil_or_concat after
    · obtain ⟨-, hlast⟩ := List.append_inj' heq rfl
      exact .inr ⟨address, List.singleton_inj.1 hlast⟩
    · rw [List.concat_eq_append, ← List.cons_append, ← List.append_assoc] at heq
      obtain ⟨hfirst, hlast⟩ := List.append_inj' heq rfl
      obtain rfl := List.singleton_inj.1 hlast
      rw [List.concat_eq_append, List.mem_append, not_or, List.mem_singleton] at hnot
      exact .inl ⟨⟨before, address, rest, hfirst, hnot.1⟩, fun h => hnot.2 h.symm⟩
  · rintro (⟨⟨before, address, after, rfl, hnot⟩, hne⟩ | ⟨address, rfl⟩)
    · refine ⟨before, address, after ++ [e], by simp, ?_⟩
      rw [List.mem_append, List.mem_singleton, not_or]
      exact ⟨hnot, fun h => hne h.symm⟩
    · exact ⟨events, address, [], rfl, List.not_mem_nil⟩

theorem about_eq_some_true (h : e.about handle = some true) :
    ∃ name address, e = .started name handle address := by
  cases e with
  | started name handle' address =>
    by_cases heq : handle' = handle
    · exact ⟨name, address, by rw [heq]⟩
    · simp [about, heq] at h
  | exited handle' =>
    by_cases heq : handle' = handle <;> simp [about, heq] at h
  | batchBegin | batchEnd => cases h

theorem about_eq_some_false (h : e.about handle = some false) : e = .exited handle := by
  cases e with
  | exited handle' =>
    by_cases heq : handle' = handle
    · rw [heq]
    · simp [about, heq] at h
  | started name handle' address => by_cases heq : handle' = handle <;> simp [about, heq] at h
  | batchBegin | batchEnd => cases h

def Last (name : String) (handle : Handle) (events : List ModuleEvent) : Prop :=
  ∃ before address after, events = before ++ .started name handle address :: after ∧
    ∀ e ∈ after, e.about handle = none

theorem standing_of_last (h : Last name handle events) : Standing name handle events := by
  obtain ⟨before, address, after, heq, hnone⟩ := h
  refine ⟨before, address, after, heq, fun hmem => ?_⟩
  have hsome := hnone _ hmem
  simp [about] at hsome

theorem last_of_standing (hturns : TakesTurns (events.filterMap (·.about handle)))
    (h : Standing name handle events) : Last name handle events := by
  obtain ⟨before, address, after, rfl, hnot⟩ := h
  refine ⟨before, address, after, rfl, fun e he => ?_⟩
  by_contra hsome
  have habout : about handle (.started name handle address) = some true := if_pos rfl
  rw [List.filterMap_append, List.filterMap_cons_some habout] at hturns
  cases hrest : after.filterMap (·.about handle) with
  | nil => exact hsome (List.filterMap_eq_nil_iff.1 hrest e he)
  | cons b rest =>
    have hb : b = true := by
      obtain ⟨e', he', hb⟩ := List.mem_filterMap.1 (hrest ▸ List.mem_cons_self (a := b) (l := rest))
      cases b with
      | true => rfl
      | false => exact absurd (about_eq_some_false hb ▸ he') hnot
    rw [hrest] at hturns
    have hfirst := hturns (before.filterMap (·.about handle)).length true (by simp)
    have hsecond := hturns ((before.filterMap (·.about handle)).length + 1) b (by simp)
    simp only [hb, true_eq_decide_iff] at hfirst hsecond
    omega

theorem Last.getLast? (h : Last name handle events) :
    (events.filterMap (·.about handle)).getLast? = some true ∧
      ∃ address, (events.filter fun e => (e.about handle).isSome).getLast? =
        some (.started name handle address) := by
  obtain ⟨before, address, after, rfl, hnone⟩ := h
  have hnil : after.filterMap (·.about handle) = [] := List.filterMap_eq_nil_iff.2 hnone
  have hnil' : (after.filter fun e => (e.about handle).isSome) = [] :=
    List.filter_eq_nil_iff.2 fun e he => by simp [hnone e he]
  have habout : about handle (.started name handle address) = some true := if_pos rfl
  refine ⟨?_, address, ?_⟩
  · rw [List.filterMap_append, List.filterMap_cons_some habout, hnil, List.getLast?_concat]
  · rw [List.filter_append, List.filter_cons_of_pos (by simp [habout]), hnil', List.getLast?_concat]

theorem exists_last (h : (events.filterMap (·.about handle)).getLast? = some true) :
    ∃ name, Last name handle events := by
  obtain ⟨rest, hrest⟩ := List.getLast?_eq_some_iff.1 h
  obtain ⟨before, after, rfl, -, hafter⟩ := List.filterMap_eq_append_iff.1 hrest
  obtain ⟨skipped, e, after', rfl, -, he, hnil⟩ := List.filterMap_eq_cons_iff.1 hafter
  obtain ⟨name, address, rfl⟩ := about_eq_some_true he
  exact ⟨name, before ++ skipped, address, after', by simp, List.filterMap_eq_nil_iff.1 hnil⟩

end ModuleEvent

namespace Node

variable {n m k : Node} {a : Move} {name other : String} {h handle : Handle} {id : NodeId}
  {conn : ConnId}
  {loop : Loopback}

/-- The module is reported under a name, and has not gone since. -/
def Reported (n : Node) (name : String) (handle : Handle) : Prop :=
  ModuleEvent.Standing name handle n.moduleEvents

def resolve (n : Node) (handle : Handle) : Handle :=
  handle.withNode (if handle.node.Assigned then handle.node else n.self)

/-- The modules of a node can be reached: it is the node itself, or it has a link. -/
def Attains (n : Node) (id : NodeId) : Prop := id = n.self ∨ n.LinkedTo id

/-- From `n` to `m` some handles were announced under a name. -/
structure Announced (n m : Node) (name : String) (handles : List Handle) : Prop where
  reported_iff : ∀ other handle, m.Reported other handle ↔ n.Reported other handle ∨
    other = name ∧ handle ∈ handles.map n.resolve ∧ m.Attains handle.node ∧
      ∀ earlier, ¬ n.Reported earlier handle
  /-- One that can be reached is reported under the name in the end, unless it was under another
  one. -/
  named_iff : ∀ handle ∈ handles.map n.resolve, m.Attains handle.node →
    (m.Reported name handle ↔ ∀ earlier, n.Reported earlier handle → earlier = name)
  sole : ∀ handle name name', m.Reported name handle → m.Reported name' handle → name = name'

theorem resolve_of_assigned (h : handle.node.Assigned) : n.resolve handle = handle := by
  rw [resolve, if_pos h]
  rfl

namespace Tracked

theorem exists_reported_iff (ht : n.Tracked) :
    (∃ name, n.Reported name handle) ↔ n.Binds handle := by
  rw [← ht.odd_iff, ← (ht.turns handle).getLast?_eq_some_true]
  constructor
  · rintro ⟨name, hname⟩
    exact (ModuleEvent.last_of_standing (ht.turns handle) hname).getLast?.1
  · intro hlast
    obtain ⟨name, hname⟩ := ModuleEvent.exists_last hlast
    exact ⟨name, ModuleEvent.standing_of_last hname⟩

theorem reported_unique (ht : n.Tracked) (hname : n.Reported name handle)
    (hother : n.Reported other handle) :
    name = other := by
  obtain ⟨_, hlast⟩ := (ModuleEvent.last_of_standing (ht.turns handle) hname).getLast?.2
  obtain ⟨_, hlast'⟩ := (ModuleEvent.last_of_standing (ht.turns handle) hother).getLast?.2
  rw [hlast] at hlast'
  cases hlast'
  rfl

end Tracked

/-- A node that has no link and cannot be dialled. -/
def Shut (n : Node) (id : NodeId) : Prop :=
  id ≠ n.self ∧ ∀ p, n.roster.get? id = some p →
    ¬ p.Linked ∧ (p.state = .handshaking ∨ p.address.endpoint? = none ∨ n.links.hasRoom = false)

theorem Shut.not_attains (hs : n.Shut id) : ¬ n.Attains id := by
  rintro (hself | ⟨p, hp, hl⟩)
  · exact hs.1 hself
  · exact (hs.2 p hp).1 hl

theorem Ordered.shut_of_dial (ho : n.Ordered) (hid : id ≠ n.self) (hd : n.dial id = none) :
    n.Shut id := by
  refine ⟨hid, fun p hp => ?_⟩
  simp only [dial, hp] at hd
  split at hd
  · cases hd
  rename_i hl
  refine ⟨hl, ?_⟩
  split at hd
  · exact .inl ‹_›
  split at hd
  · exact .inr (.inl ‹_›)
  split at hd
  · rename_i hroom
    exact .inr (.inr (by simpa using hroom))
  · rename_i hroom
    have hroom : n.links.hasRoom = true := by simpa using hroom
    obtain ⟨i, links, hi⟩ :=
      ho.wired.links.kept.nextId.exists_insert hroom (n.newLink n.links.nextId.1) (some id)
    simp only [hi] at hd
    cases hd

theorem Takes.shut (hs : n.Shut id) (ht : n.Takes a m)
    (ha : (∃ name h, a = .bind name h) ∨ ∃ id conn, a = .dial id conn) : m.Shut id := by
  refine ⟨ht.self_eq ▸ hs.1, fun p hp => ?_⟩
  obtain ⟨q, hq, halters⟩ := ht.alters hp
  obtain ⟨hl, hwhy⟩ := hs.2 q hq
  rcases ha with ⟨name, h, rfl⟩ | ⟨id', conn, rfl⟩
  · have hlinks : m.links = n.links := by cases ht; rfl
    rw [hlinks]
    cases halters with
    | same | bind => exact ⟨hl, hwhy⟩
  · cases ht with
    | dial _ hp' hl' hs' he hroom =>
      cases halters with
      | same =>
        rw [hroom] at hwhy
        exact ⟨hl, hwhy.imp_right fun h => .inl (h.resolve_right nofun)⟩
      | dial =>
        -- this is the node that is dialled
        rw [hq, Option.some.injEq] at hp'
        subst hp'
        simp [hs', he, hroom] at hwhy

def recorded (n : Node) (name : String) (handle : Handle) : Node :=
  if n.roster.CanBind handle.node handle then
    emit { n with roster := n.roster.bind handle.node handle }
      (.report (.started name handle (((n.roster.get? handle.node).map (·.address)).getD {})))
  else n

theorem reach_eq (n : Node) (name : String) (h : Handle) : n.reach name h =
    if ¬ n.roster.Contains (n.resolve h).node then n
    else
      match if (n.resolve h).node = n.self then some n else n.dial (n.resolve h).node with
      | none => n
      | some l => l.recorded name (n.resolve h) := rfl

theorem canBind_iff :
    n.roster.CanBind handle.node handle ↔ n.roster.Contains handle.node ∧ ¬ n.Binds handle := by
  constructor
  · rintro ⟨p, hp, hnot⟩
    refine ⟨Roster.contains_of_get? hp, ?_⟩
    rintro ⟨q, hq, hmem⟩
    obtain rfl := Option.some.inj (hp.symm.trans hq)
    exact hnot hmem
  · rintro ⟨hin, hnot⟩
    obtain ⟨p, hp⟩ := Roster.exists_get? hin
    exact ⟨p, hp, fun hmem => hnot ⟨p, hp, hmem⟩⟩

theorem recorded_cases (hin : n.roster.Contains handle.node) (ha : n.Attains handle.node) :
    n.Binds handle ∧ n.recorded name handle = n ∨
      ¬ n.Binds handle ∧ n.Takes (.bind name handle) (n.recorded name handle) := by
  by_cases hb : n.Binds handle
  · exact .inl ⟨hb, if_neg fun hc => (canBind_iff.1 hc).2 hb⟩
  · have hc : n.roster.CanBind handle.node handle := canBind_iff.2 ⟨hin, hb⟩
    rw [recorded, if_pos hc]
    exact .inr ⟨hb, .bind hc ha _⟩

theorem Ordered.exists_recorded (ho : n.Ordered) (name : String) (h : Handle) :
    (n.Shut (n.resolve h).node ∧ n.reach name h = n) ∨
    ∃ l, (l = n ∨ ∃ conn, n.Takes (.dial (n.resolve h).node conn) l) ∧
      l.roster.Contains (n.resolve h).node ∧
      l.Attains (n.resolve h).node ∧ n.reach name h = l.recorded name (n.resolve h) := by
  rw [reach_eq]
  generalize n.resolve h = k
  by_cases hin : n.roster.Contains k.node
  · rw [if_neg (not_not_intro hin)]
    by_cases hself : k.node = n.self
    · rw [if_pos hself]
      exact .inr ⟨n, .inl rfl, hin, .inl hself, rfl⟩
    · rw [if_neg hself]
      cases hd : n.dial k.node with
      | none => exact .inl ⟨ho.shut_of_dial hself hd, rfl⟩
      | some l =>
        obtain ⟨p, hp, hl, rfl⟩ | htakes := dial_eq_some hd
        · exact .inr ⟨l, .inl rfl, hin, .inr ⟨p, hp, hl⟩, rfl⟩
        · have ht := htakes hself
          exact .inr ⟨l, .inr ⟨_, ht⟩, ht.contains_iff.2 hin, .inr ht.linked_of_dial, rfl⟩
  · have hself : k.node ≠ n.self := fun h => hin (h ▸ ho.seated.own)
    exact .inl ⟨⟨hself, fun p hp => absurd (Roster.contains_of_get? hp) hin⟩, if_pos hin⟩

theorem Ordered.reach_cases (ho : n.Ordered) (name : String) (h : Handle) :
    (n.Shut (n.resolve h).node ∧ n.reach name h = n) ∨
    ∃ l, (l = n ∨ ∃ conn, n.Takes (.dial (n.resolve h).node conn) l) ∧
      l.Attains (n.resolve h).node ∧
      (l.Binds (n.resolve h) ∧ n.reach name h = l ∨
        ¬ l.Binds (n.resolve h) ∧ l.Takes (.bind name (n.resolve h)) (n.reach name h)) := by
  obtain hshut | ⟨l, hl, hin, hattains, hreach⟩ := ho.exists_recorded name h
  · exact .inl hshut
  · rw [hreach]
    exact .inr ⟨l, hl, hattains, recorded_cases hin hattains⟩

theorem Via.attains (hv : n.Via Move.Inner m) (ho : n.Ordered) (h : n.Attains id) :
    m.Attains id := by
  obtain rfl | ⟨p, hp, hl⟩ := h
  · exact .inl hv.self_eq.symm
  · obtain ⟨conn, hlive⟩ := hl.exists_link
    have hkeep : ∀ a : Move, a.Inner → a ≠ .lose id conn ∧ ¬ a.Joins :=
      fun a ha => ⟨by rintro rfl; exact ha, ha.not_joins⟩
    obtain ⟨q, hq, hlink⟩ := hv.link_kept ho hkeep hp (Peer.liveLink?_eq_some_iff.1 hlive).1
    have hm : m.Wired := (hv.ordered ho).wired
    exact .inr ⟨q, hq, (hm.linked_iff hq).2 (by simp [hlink])⟩

theorem reported_of_bind (ht : n.Takes (.bind name handle) m) {k : Handle} :
    m.Reported other k ↔ n.Reported other k ∨ other = name ∧ k = handle := by
  obtain ⟨address, hevents⟩ := ht.moduleEvents_of_bind
  rw [Reported, hevents, ModuleEvent.standing_concat, ← Reported]
  simp only [ne_eq, reduceCtorEq, not_false_eq_true, and_true, ModuleEvent.started.injEq]
  refine or_congr_right ⟨?_, ?_⟩
  · rintro ⟨_, rfl, rfl, -⟩
    exact ⟨rfl, rfl⟩
  · rintro ⟨rfl, rfl⟩
    exact ⟨address, rfl, rfl, rfl⟩

theorem reported_congr (h : m.moduleEvents = n.moduleEvents) :
    m.Reported other handle ↔ n.Reported other handle := by
  rw [Reported, h, ← Reported]

theorem Ordered.reported_reach_iff (ho : n.Ordered) (name : String) (h : Handle) {k : Handle} :
    (n.reach name h).Reported other k ↔ n.Reported other k ∨
      other = name ∧ k = n.resolve h ∧ (n.reach name h).Attains k.node ∧ ∀ earlier,
        ¬ n.Reported earlier k := by
  obtain ⟨hshut, hsame⟩ | ⟨l, hl, hattains, hcases⟩ := ho.reach_cases name h
  · rw [hsame]
    refine ⟨.inl, fun hr => hr.resolve_right ?_⟩
    rintro ⟨-, rfl, ha, -⟩
    exact hshut.not_attains ha
  · have hlo : l.Ordered ∧ l.moduleEvents = n.moduleEvents := by
      obtain rfl | ⟨conn, ht⟩ := hl
      · exact ⟨ho, rfl⟩
      · exact ⟨ht.ordered ho, ht.moduleEvents_of_dial⟩
    have hbinds : l.Binds (n.resolve h) ↔ ∃ earlier, n.Reported earlier (n.resolve h) := by
      simp only [← hlo.1.tracked.exists_reported_iff, reported_congr hlo.2]
    obtain ⟨hbound, hsame⟩ | ⟨hfresh, hbind⟩ := hcases
    · rw [hsame, reported_congr hlo.2]
      refine ⟨.inl, fun hr => hr.resolve_right ?_⟩
      rintro ⟨-, rfl, -, hnone⟩
      obtain ⟨earlier, hearlier⟩ := hbinds.1 hbound
      exact hnone earlier hearlier
    · rw [reported_of_bind hbind, reported_congr hlo.2]
      refine or_congr_right (and_congr_right fun _ => ⟨?_, fun hr => hr.1⟩)
      rintro rfl
      exact ⟨rfl, (hbind.via trivial).attains hlo.1 hattains, not_exists.1 (mt hbinds.2 hfresh)⟩

theorem Ordered.shut_reach (ho : n.Ordered) (name : String) (h : Handle) (hs : n.Shut id) :
    (n.reach name h).Shut id := by
  obtain ⟨-, hsame⟩ | ⟨l, hl, -, hcases⟩ := ho.reach_cases name h
  · rwa [hsame]
  · have hls : l.Shut id := by
      obtain rfl | ⟨conn, ht⟩ := hl
      · exact hs
      · exact ht.shut hs (.inr ⟨_, _, rfl⟩)
    obtain ⟨-, hsame⟩ | ⟨-, hbind⟩ := hcases
    · rwa [hsame]
    · exact hbind.shut hls (.inl ⟨_, _, rfl⟩)

theorem reach_inner (n : Node) (name : String) (h : Handle) : n.Via Move.Inner (n.reach name h) :=
  (reach_via n name h).mono fun _ ha => ha.1.inner

theorem foldl_reach_inner (n : Node) (name : String) (handles : List Handle) :
    n.Via Move.Inner (handles.foldl (·.reach name ·) n) :=
  Via.foldl n fun n h _ => reach_inner n name h

theorem resolve_reach (n : Node) (name : String) (h : Handle) :
    (n.reach name h).resolve = n.resolve := by
  funext k
  rw [resolve, resolve, (reach_inner n name h).self_eq]

theorem Ordered.not_attains_foldl_reach (ho : n.Ordered) (name : String) (hs : n.Shut id)
    (rest : List Handle) :
    ¬ (rest.foldl (·.reach name ·) n).Attains id := by
  induction rest generalizing n with
  | nil => exact hs.not_attains
  | cons h rest ih =>
    have ho' := (reach_inner n name h).ordered ho
    exact ih ho' (ho.shut_reach name h hs)

theorem Ordered.attains_reach (ho : n.Ordered) (name : String) (h : Handle) (rest : List Handle) :
    (rest.foldl (·.reach name ·) (n.reach name h)).Attains (n.resolve h).node ↔
      (n.reach name h).Attains (n.resolve h).node := by
  have ho' := (reach_inner n name h).ordered ho
  have hrest := foldl_reach_inner (n.reach name h) name rest
  refine ⟨fun hattains => ?_, hrest.attains ho'⟩
  obtain ⟨hshut, hsame⟩ | ⟨l, hl, hl', hcases⟩ := ho.reach_cases name h
  · rw [hsame] at hattains
    exact absurd hattains (ho.not_attains_foldl_reach name hshut rest)
  · obtain ⟨-, hsame⟩ | ⟨-, hbind⟩ := hcases
    · rwa [hsame]
    · have hlo : l.Ordered := by
        obtain rfl | ⟨conn, ht⟩ := hl
        · exact ho
        · exact ht.ordered ho
      exact (hbind.via trivial).attains hlo hl'

/-- Of the modules in a list those are reported that are reached in the end and were not reported
before. -/
theorem Ordered.reported_foldl_iff (ho : n.Ordered) (name : String) (hs : List Handle)
    {k : Handle} : (hs.foldl (·.reach name ·) n).Reported other k ↔ n.Reported other k ∨
      other = name ∧ k ∈ hs.map n.resolve ∧ (hs.foldl (·.reach name ·) n).Attains k.node ∧
        ∀ earlier, ¬ n.Reported earlier k := by
  induction hs generalizing n other with
  | nil => simp
  | cons h rest ih =>
    have hfirst {other : String} : (n.reach name h).Reported other k ↔ n.Reported other k ∨
        other = name ∧ k = n.resolve h ∧ (n.reach name h).Attains k.node ∧ ∀ earlier,
            ¬ n.Reported earlier k :=
      ho.reported_reach_iff name h
    have hattains := ho.attains_reach name h rest
    have ho' := (reach_inner n name h).ordered ho
    rw [List.foldl_cons, ih ho', resolve_reach, List.map_cons, List.mem_cons, hfirst]
    generalize rest.foldl (·.reach name ·) (n.reach name h) = m, n.reach name h = l
      at hfirst hattains
    constructor
    · rintro ((hold | ⟨rfl, rfl, hl, hnone⟩) | ⟨rfl, hmem, hm, hnone⟩)
      · exact .inl hold
      · exact .inr ⟨rfl, .inl rfl, hattains.2 hl, hnone⟩
      · exact .inr ⟨rfl, .inr hmem, hm, fun earlier he => hnone earlier (hfirst.2 (.inl he))⟩
    · rintro (hold | ⟨rfl, rfl | hmem, hm, hnone⟩)
      · exact .inl (.inl hold)
      · exact .inl (.inr ⟨rfl, rfl, hattains.1 hm, hnone⟩)
      · -- the handle may have stood in front as well
        by_cases hfront : l.Reported other k
        · exact .inl (hfirst.1 hfront)
        · refine .inr ⟨rfl, hmem, hm, fun earlier he => ?_⟩
          obtain hold | ⟨rfl, -⟩ := hfirst.1 he
          · exact hnone earlier hold
          · exact hfront he

theorem Ordered.announced (hm : m.Ordered) {hs : List Handle}
    (hreported : ∀ other handle, m.Reported other handle ↔ n.Reported other handle ∨
      other = name ∧ handle ∈ hs.map n.resolve ∧ m.Attains handle.node ∧ ∀ earlier,
        ¬ n.Reported earlier handle) :
    n.Announced m name hs where
  reported_iff := hreported
  named_iff handle hmem hattains := by
    constructor
    · intro hnamed earlier hearlier
      exact hm.tracked.reported_unique ((hreported earlier handle).2 (.inl hearlier)) hnamed
    · intro honly
      by_cases hfresh : ∀ earlier, ¬ n.Reported earlier handle
      · exact (hreported name handle).2 (.inr ⟨rfl, hmem, hattains, hfresh⟩)
      · obtain ⟨earlier, hearlier⟩ : ∃ earlier, n.Reported earlier handle := by
          simpa only [not_forall, not_not] using hfresh
        exact (hreported name handle).2 (.inl (honly earlier hearlier ▸ hearlier))
  sole _ _ _ := hm.tracked.reported_unique

theorem Takes.reported_of_bracket {e : ModuleEvent} (ht : n.Takes (.bracket e) m) :
    m.Reported other handle ↔ n.Reported other handle := by
  cases ht with
  | bracket he =>
    have hevents :
        moduleEvents { n with effects := n.effects ++ [.report e] } = n.moduleEvents ++ [e] := by
      simp [moduleEvents]
    rw [Reported, hevents, ModuleEvent.standing_concat, ← Reported]
    obtain ⟨list, rfl | rfl⟩ := he <;> simp

theorem Takes.attains_of_bracket {e : ModuleEvent} (ht : n.Takes (.bracket e) m) :
    m.Attains id ↔ n.Attains id := by
  cases ht with
  | bracket => exact Iff.rfl

theorem Ordered.announced_obey (ho : n.Ordered) {c : Command} {hs : List Handle}
    (hc : c.announced? = some (name, hs)) : n.Announced (n.obey loop c) name hs := by
  cases c with
  | handle name' h =>
    cases hc
    have hm := (reach_inner n name h).ordered ho
    exact hm.announced fun _ _ => ho.reported_foldl_iff name [h]
  | handles name' hs' =>
    cases hc
    have hbegin : n.Takes (.bracket (.batchBegin name)) (n.emit (.report (.batchBegin name))) :=
      .bracket ⟨name, .inl rfl⟩
    have hend : (hs.foldl (·.reach name ·) (n.emit (.report (.batchBegin name)))).Takes
        (.bracket (.batchEnd name)) (n.obey loop (.handles name hs)) := .bracket ⟨name, .inr rfl⟩
    have hfirst := hbegin.ordered ho
    have hlast := (foldl_reach_inner _ name hs).ordered hfirst
    refine (hend.ordered hlast).announced fun _ _ => ?_
    have hresolve : (n.emit (.report (.batchBegin name))).resolve = n.resolve := rfl
    rw [hend.reported_of_bracket, hfirst.reported_foldl_iff, hend.attains_of_bracket, hresolve]
    simp only [hbegin.reported_of_bracket]
  | _ => cases hc

section Start

variable {profile : Profile} {catalog : Catalog} {port : UInt16} {now : Nat}
  {result : Except Fault Handshake} {n₀ : Node} {moves : List Move}

/-- Whenever a command arrives that announces modules, those are reported that can be reached and
are not reported yet. A module that is reported under one name is not reported under another one. -/
theorem reported_of_path (started : start profile catalog port now result = .ok n₀)
    (events : List (Nat × Event)) (passed : (n₀.run events).Path moves n) {f : Frame}
    {source : Handle} {c : Command} {hs : List Handle}
    (hf : n.routing.classify f = .control source c) (hc : c.announced? = some (name, hs))
    (loop : Loopback) :
    n.Announced (n.receiveWith loop f) name hs := by
  have ho : n.Ordered := passed.ordered (ordered_of_run started events)
  have hreceive : n.receiveWith loop f = n.obey loop c := by simp only [receiveWith, hf]
  rw [hreceive]
  exact ho.announced_obey hc

/-- One module of a center is announced as `db` and then as `cache`: it is reported as `db` only. -/
theorem reported_of_path_second :
    ∃ n₀ f g h, start {} {} 7100 0 (.error .closed) = .ok n₀ ∧ h.node = n₀.self ∧
      n₀.routing.classify f = .control ⟨⟨2⟩, meshModule⟩ (.handle "db" h) ∧
      (n₀.receive f).routing.classify g = .control ⟨⟨2⟩, meshModule⟩ (.handle "cache" h) ∧
      ((n₀.receive f).receive g).Reported "db" h ∧
        ¬ ((n₀.receive f).receive g).Reported "cache" h := by
  have started : start {} {} 7100 0 (.error .closed) = .ok (idle {} {} 7100 0) := rfl
  have hframe (name : String) (hparse : Command.parse (Command.handle name ⟨⟨1⟩, 5⟩).payload =
      .ok (.handle name ⟨⟨1⟩, 5⟩)) (r : Routing) :
      r.classify ((Command.handle name ⟨⟨1⟩, 5⟩).frame ⟨2⟩ ⟨⟨1⟩, meshModule⟩) =
        .control ⟨⟨2⟩, meshModule⟩ (.handle name ⟨⟨1⟩, 5⟩) := by
    simp [Routing.classify, Command.frame, hparse]
  have hdb := hframe "db" (by decide +kernel)
  have hcache := hframe "cache" (by decide +kernel)
  have hself : (idle {} {} 7100 0).self = ⟨1⟩ := rfl
  have hfresh (name : String) : ¬ (idle {} {} 7100 0).Reported name ⟨⟨1⟩, 5⟩ := by
    rintro ⟨before, _, _, hnil, -⟩
    cases before <;> cases hnil
  generalize idle {} {} 7100 0 = n₀ at started hself hfresh
  refine ⟨n₀, _, _, _, started, hself.symm, hdb _, hcache _, ?_⟩
  have hfirst := reported_of_path started [] (.nil n₀) (hdb _) rfl receiveOwn
  obtain ⟨moves, passed, -⟩ :=
    receive_via n₀ ((Command.handle "db" ⟨⟨1⟩, 5⟩).frame ⟨2⟩ ⟨⟨1⟩, meshModule⟩)
  have hsecond := reported_of_path started [] passed (hcache _) rfl receiveOwn
  have hresolve (m : Node) : ⟨⟨1⟩, 5⟩ ∈ [(⟨⟨1⟩, 5⟩ : Handle)].map m.resolve :=
    List.mem_singleton.2 (resolve_of_assigned (by decide)).symm
  have hone : (n₀.receive ((Command.handle "db" ⟨⟨1⟩, 5⟩).frame ⟨2⟩ ⟨⟨1⟩, meshModule⟩)).Reported
      "db" ⟨⟨1⟩, 5⟩ :=
    (hfirst.named_iff _ (hresolve n₀) (.inl ((receive_via ..).self_eq.trans hself).symm)).2
      fun earlier h => absurd h (hfresh earlier)
  refine ⟨(hsecond.reported_iff ..).2 (.inl hone), fun hcached => ?_⟩
  have htwo := hsecond.sole _ _ _ hcached ((hsecond.reported_iff ..).2 (.inl hone))
  exact absurd htwo (by decide)

end Start

end Node

end Meshwork
