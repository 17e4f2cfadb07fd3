import Meshwork.Proofs.Node.Membership

/-!
# Modules come and go in turn

What a node reports about one handle. `Node.Tracked` is the invariant: coming and going take turns,
and the modules of another node are recorded only as long as it has a link. `Node.Ordered` has all
invariants of a node.
-/

namespace Meshwork

def ModuleEvent.about (h : Handle) : ModuleEvent → Option Bool
  | .started _ handle _ => if handle = h then some true else none
  | .exited handle => if handle = h then some false else none
  | .batchBegin _ => none
  | .batchEnd _ => none

/-- Coming and going take turns, and coming is first. -/
def TakesTurns (l : List Bool) : Prop := ∀ i b, l[i]? = some b → b = decide (i % 2 = 0)

namespace TakesTurns

variable {l : List Bool}

theorem nil : TakesTurns [] := by
  intro i b h
  simp at h

theorem concat (h : TakesTurns l) {b : Bool} (hb : b = decide (l.length % 2 = 0)) :
    TakesTurns (l ++ [b]) := by
  intro i c hc
  by_cases hi : i < l.length
  · rw [List.getElem?_append_left hi] at hc
    exact h i c hc
  · rw [List.getElem?_append_right (Nat.le_of_not_lt hi), List.getElem?_singleton] at hc
    split at hc
    · have heq : i = l.length := by omega
      rw [Option.some.injEq] at hc
      rw [← hc, hb, heq]
    · cases hc

theorem getLast?_eq_some_true (h : TakesTurns l) : l.getLast? = some true ↔ l.length % 2 = 1 := by
  rw [List.getLast?_eq_getElem?]
  constructor
  · intro hlast
    have hlt := (List.getElem?_eq_some_iff.1 hlast).1
    have heven := h _ _ hlast
    simp only [Bool.true_eq, decide_eq_true_eq] at heven
    omega
  · intro hodd
    have hlt : l.length - 1 < l.length := by omega
    have hlast := List.getElem?_eq_getElem hlt
    have heven : (l.length - 1) % 2 = 0 := by omega
    rw [hlast, h _ _ hlast, heven]
    rfl

end TakesTurns

namespace Node

variable {n m : Node} {a : Move} {h : Handle}

/-- The reports about a handle so far, oldest first. -/
def lifecycle (n : Node) (h : Handle) : List Bool := n.moduleEvents.filterMap (·.about h)

/-- The entry of the node of the handle has the handle as a module that was started. -/
def Binds (n : Node) (h : Handle) : Prop := ∃ p ∈ n.roster.get? h.node, h ∈ p.bound

theorem lifecycle_of_report {e : ModuleEvent} (he : m.effects = n.effects ++ [.report e]) :
    m.lifecycle h = n.lifecycle h ++ (e.about h).toList := by
  cases ha : e.about h <;> simp [lifecycle, moduleEvents, he, ha]

theorem Takes.moduleEvents_of_bind {name : String} (ht : n.Takes (.bind name h) m) :
    ∃ address, m.moduleEvents = n.moduleEvents ++ [.started name h address] := by
  cases ht with
  | bind _ _ address => exact ⟨address, by simp [moduleEvents]⟩

theorem Takes.moduleEvents_of_dial {id : NodeId} {conn : ConnId} (ht : n.Takes (.dial id conn) m) :
    m.moduleEvents = n.moduleEvents := by
  cases ht with
  | dial => simp [moduleEvents]

theorem Takes.lifecycle_of_bind {name : String} (ht : n.Takes (.bind name h) m) :
    m.lifecycle h = n.lifecycle h ++ [true] := by
  obtain ⟨address, hevents⟩ := ht.moduleEvents_of_bind
  rw [lifecycle, hevents, List.filterMap_append, ← lifecycle]
  simp [ModuleEvent.about]

theorem moduleEvents_of_exits {bound : List Handle}
    (he : m.effects = n.effects ++ bound.map fun h => .report (.exited h)) :
    m.moduleEvents = n.moduleEvents ++ bound.map .exited := by
  rw [moduleEvents, he, List.filterMap_append, List.filterMap_map, ← moduleEvents]
  congr 1
  exact congrFun List.filterMap_eq_map bound

theorem lifecycle_of_exits {bound : List Handle} (hn : bound.Nodup)
    (he : m.moduleEvents = n.moduleEvents ++ bound.map .exited) :
    m.lifecycle h = n.lifecycle h ++ if h ∈ bound then [false] else [] := by
  rw [lifecycle, he, List.filterMap_append, List.filterMap_map, ← lifecycle]
  congr 1
  clear he
  induction bound with
  | nil => rfl
  | cons k rest ih =>
    rw [List.nodup_cons] at hn
    rw [List.filterMap_cons, ih hn.2]
    by_cases hk : k = h
    · subst hk
      simp [ModuleEvent.about, hn.1]
    · have hk' : h ≠ k := fun heq => hk heq.symm
      simp [ModuleEvent.about, hk, hk']

/-- The modules in the entries are those whose last report is that they came. -/
structure Tracked (n : Node) : Prop where
  nodup : ∀ id p, n.roster.get? id = some p → p.bound.Nodup
  node_eq : ∀ id p, n.roster.get? id = some p → ∀ h ∈ p.bound, h.node = id
  link : ∀ id p, n.roster.get? id = some p → id ≠ n.self → p.bound ≠ [] → p.link.isSome
  turns : ∀ h, TakesTurns (n.lifecycle h)
  odd_iff : ∀ h, (n.lifecycle h).length % 2 = 1 ↔ n.Binds h

namespace Tracked

theorem of_modify (ht : n.Tracked) (hself : m.self = n.self)
    (hl : ∀ h, m.lifecycle h = n.lifecycle h) {id : NodeId} {f : Peer → Peer}
    (hr : ∀ id', m.roster.get? id' = if id' = id then (n.roster.get? id).map f
      else n.roster.get? id')
    (hf : ∀ p, n.roster.get? id = some p → (f p).bound = p.bound ∧
      (id ≠ n.self → p.bound ≠ [] → p.link.isSome → (f p).link.isSome)) : m.Tracked := by
  have hget : ∀ id' p, m.roster.get? id' = some p → ∃ q, n.roster.get? id' = some q ∧
      p.bound = q.bound ∧ (id' ≠ n.self → q.bound ≠ [] → q.link.isSome → p.link.isSome) := by
    intro id' p hp
    rw [hr] at hp
    split at hp
    · rename_i hid
      obtain ⟨q, hq, rfl⟩ := Option.map_eq_some_iff.1 hp
      exact ⟨q, hid ▸ hq, (hf q hq).1, hid ▸ (hf q hq).2⟩
    · exact ⟨p, hp, rfl, fun _ _ hlink => hlink⟩
  refine ⟨fun id' p hp => ?_, fun id' p hp => ?_, fun id' p hp hne hb => ?_, fun h => ?_,
    fun h => ?_⟩
  · obtain ⟨q, hq, hbound, -⟩ := hget id' p hp
    rw [hbound]
    exact ht.nodup id' q hq
  · obtain ⟨q, hq, hbound, -⟩ := hget id' p hp
    rw [hbound]
    exact ht.node_eq id' q hq
  · obtain ⟨q, hq, hbound, hlink⟩ := hget id' p hp
    rw [hself] at hne
    rw [hbound] at hb
    exact hlink hne hb (ht.link id' q hq hne hb)
  · rw [hl]
    exact ht.turns h
  · rw [hl, ht.odd_iff, Binds, Binds, hr]
    split
    · rename_i hid
      rw [hid]
      constructor
      · rintro ⟨p, hp, hb⟩
        exact ⟨f p, Option.map_eq_some_iff.2 ⟨p, hp, rfl⟩, (hf p hp).1 ▸ hb⟩
      · rintro ⟨p, hp, hb⟩
        obtain ⟨q, hq, rfl⟩ := Option.map_eq_some_iff.1 hp
        exact ⟨q, hq, (hf q hq).1 ▸ hb⟩
    · exact .rfl

theorem of_same (ht : n.Tracked) (hroster : m.roster = n.roster)
    (hl : ∀ h, m.lifecycle h = n.lifecycle h) : m.Tracked :=
  ht.of_modify (f := fun p => p) (by simp [self, hroster]) hl
    (fun id' => by simp +contextual [hroster] : ∀ id', _ = if id' = n.self then _ else _)
    fun _ _ => ⟨rfl, fun _ _ hlink => hlink⟩

/-- One entry is changed. A handle keeps its reports, and stays in its entry or out of it, or one
report turns it over. -/
theorem of_entry (ht : n.Tracked) (hself : m.self = n.self) {id : NodeId} {p : Peer}
    (hr : ∀ id', m.roster.get? id' = if id' = id then some p else n.roster.get? id')
    (hnodup : p.bound.Nodup) (hnode : ∀ h ∈ p.bound, h.node = id)
    (hlink : id ≠ n.self → p.bound ≠ [] → p.link.isSome)
    (hturn : ∀ h, m.lifecycle h = n.lifecycle h ∧ (m.Binds h ↔ n.Binds h) ∨
      ∃ came, m.lifecycle h = n.lifecycle h ++ [came] ∧ (n.Binds h ↔ came = false) ∧
        (m.Binds h ↔ came = true)) : m.Tracked := by
  refine ⟨fun id' q hq => ?_, fun id' q hq => ?_, fun id' q hq hne hbound => ?_, fun h => ?_,
    fun h => ?_⟩
  · rw [hr] at hq
    split at hq
    · cases hq
      exact hnodup
    · exact ht.nodup id' q hq
  · rw [hr] at hq
    split at hq
    · rename_i hid
      cases hq
      rw [hid]
      exact hnode
    · exact ht.node_eq id' q hq
  · rw [hself] at hne
    rw [hr] at hq
    split at hq
    · rename_i hid
      cases hq
      rw [hid] at hne
      exact hlink hne hbound
    · exact ht.link id' q hq hne hbound
  · obtain ⟨hsame, -⟩ | ⟨came, hlife, hbefore, -⟩ := hturn h
    · rw [hsame]
      exact ht.turns h
    · rw [hlife]
      -- the number of reports is odd exactly if the handle is bound, so this one has its turn
      refine (ht.turns h).concat ?_
      have hodd := ht.odd_iff h
      cases came with
      | false => simp [hodd.2 (hbefore.2 rfl)]
      | true =>
        have heven : ¬ (n.lifecycle h).length % 2 = 1 :=
          fun hl => by simpa using hbefore.1 (hodd.1 hl)
        simp [Nat.mod_two_ne_one.1 heven]
  · obtain ⟨hsame, hbinds⟩ | ⟨came, hlife, hbefore, hafter⟩ := hturn h
    · rw [hsame, hbinds]
      exact ht.odd_iff h
    · rw [hlife, hafter, List.length_append, List.length_singleton]
      have hodd := ht.odd_iff h
      rw [hbefore] at hodd
      cases came with
      | false =>
        have hlen := hodd.2 rfl
        simp only [Bool.false_eq_true, iff_false]
        omega
      | true =>
        simp only [Bool.true_eq_false, iff_false] at hodd
        simp only [iff_true]
        omega

theorem of_bind (ht : n.Tracked) {name : String} {handle : Handle} {address : Address}
    (hb : n.roster.CanBind handle.node handle)
    (hl : handle.node = n.self ∨ ∃ p ∈ n.roster.get? handle.node, p.link.isSome)
    (hroster : m.roster = n.roster.bind handle.node handle)
    (he : m.effects = n.effects ++ [.report (.started name handle address)]) : m.Tracked := by
  obtain ⟨p, hp, hfresh⟩ := hb
  have hp' : n.roster.get? handle.node = some p := hp
  have hr : ∀ id, m.roster.get? id =
      if id = handle.node then some { p with bound := p.bound ++ [handle] }
      else n.roster.get? id := by
    intro id
    rw [hroster, Roster.get?_bind ⟨p, hp, hfresh⟩, hp', Option.map_some]
  refine ht.of_entry (by simp [self, hroster]) hr ?_ (fun h hmem => ?_) (fun hne _ => ?_) fun h =>
    ?_
  · rw [List.nodup_append]
    refine ⟨ht.nodup _ p hp, by simp, ?_⟩
    rintro k hmem k' hlast rfl
    rw [List.mem_singleton] at hlast
    exact hfresh (hlast ▸ hmem)
  · rw [List.mem_append, List.mem_singleton] at hmem
    rcases hmem with hmem | rfl
    · exact ht.node_eq _ p hp h hmem
    · rfl
  · rcases hl with hown | ⟨q, hq, hlink⟩
    · exact absurd hown hne
    · rw [hp, Option.mem_some] at hq
      exact hq ▸ hlink
  · rw [lifecycle_of_report he]
    by_cases heq : handle = h
    · subst heq
      refine .inr ⟨true, by simp [ModuleEvent.about], ?_, ?_⟩
      · simp [Binds, hp', hfresh]
      · simp [Binds, hr]
    · have hne : h ≠ handle := fun h' => heq h'.symm
      refine .inl ⟨by simp [ModuleEvent.about, heq], ?_⟩
      rw [Binds, Binds, hr]
      split
      · rename_i hid
        simp [hid, hp', hne]
      · exact .rfl

theorem of_detach (ht : n.Tracked) {id : NodeId} {p : Peer}
    (hp : n.roster.get? id = some p) (hroster : m.roster = n.roster.detach id)
    (he : m.moduleEvents = n.moduleEvents ++ p.bound.map .exited) : m.Tracked := by
  have hr : ∀ id', m.roster.get? id' =
      if id' = id then some p.detached else n.roster.get? id' := by
    intro id'
    rw [hroster, Roster.get?_detach, hp, Option.map_some]
  refine ht.of_entry (by simp [self, hroster]) hr List.nodup_nil (fun _ hmem => nomatch hmem)
    (fun _ hne => absurd rfl hne) fun h => ?_
  rw [lifecycle_of_exits (ht.nodup id p hp) he]
  by_cases hmem : h ∈ p.bound
  · have hnode := ht.node_eq id p hp h hmem
    refine .inr ⟨false, by simp [hmem], ?_, ?_⟩
    · simp [Binds, hnode, hp, hmem]
    · simp [Binds, hnode, hr, Peer.detached]
  · refine .inl ⟨by simp [hmem], ?_⟩
    rw [Binds, Binds, hr]
    split
    · rename_i hid
      simp [hid, hp, hmem, Peer.detached]
    · exact .rfl

end Tracked

theorem Takes.tracked (hw : n.Wired) (hs : n.Seated) (ht : n.Tracked) (h : n.Takes a m) :
    m.Tracked := by
  cases h with
  | tend | pardon | answered | want | offer | enter | forget | refuse | mint | drop | write =>
    exact ht.of_same rfl fun _ => rfl
  | deliver => exact ht.of_same rfl fun _ => by simp [lifecycle, moduleEvents]
  | bracket he =>
    obtain ⟨name, rfl | rfl⟩ := he
    · exact ht.of_same rfl fun _ => by rw [lifecycle_of_report rfl]; simp [ModuleEvent.about]
    · exact ht.of_same rfl fun _ => by rw [lifecycle_of_report rfl]; simp [ModuleEvent.about]
  | arrive _ _ _ hg =>
    obtain rfl | ⟨-, rfl⟩ := hg
    · exact ht.of_same rfl fun _ => by simp [lifecycle, moduleEvents]
    · exact ht.of_same rfl fun _ => by simp [lifecycle, moduleEvents]
  | learn =>
    exact ht.of_modify (by simp [self]) (fun _ => rfl) (fun id' => Roster.get?_update _ _ _ _ id')
      fun p _ => ⟨rfl, fun _ _ hlink => hlink⟩
  | bind hb hl =>
    refine ht.of_bind hb (hl.imp_right ?_) rfl rfl
    rintro ⟨p, hp, hlinked⟩
    exact ⟨p, hp, (hw.linked_iff hp).1 hlinked⟩
  | establish hp =>
    exact ht.of_modify (by simp [self]) (fun _ => rfl) (fun id' => Roster.get?_modify _ _ _ id')
      fun p _ => ⟨rfl, fun _ _ hlink => hlink⟩
  | seek =>
    exact ht.of_modify (by simp [self]) (fun _ => by simp [lifecycle, moduleEvents])
      (fun id' => Roster.get?_modify _ _ _ id') fun p _ => ⟨rfl, fun _ _ hlink => hlink⟩
  | queue =>
    exact ht.of_modify (by simp [self]) (fun _ => by simp [lifecycle, moduleEvents])
      (fun id' => Roster.get?_noteSent _ _ _ id') fun p _ => ⟨rfl, fun _ _ hlink => hlink⟩
  | @release center peer hc hp hstate =>
    refine ht.of_modify (by simp [self]) (fun _ => rfl) (fun id' => Roster.get?_detach _ _ id')
      fun p hp' => ?_
    -- the entry waits for a handshake, so it has no link and no modules
    rw [hp, Option.some.injEq] at hp'
    subst hp'
    have hlink := hw.link_eq_none hp (by simp [hstate, LinkState.Live])
    have hbound : peer.bound = [] := by
      apply Classical.byContradiction
      intro hne
      have hsome := ht.link _ peer hp (hs.center center hc).2.1 hne
      rw [hlink] at hsome
      cases hsome
    exact ⟨hbound.symm, fun _ hne => absurd hbound hne⟩
  | dial =>
    exact ht.of_modify (by simp [self]) (fun _ => by simp [lifecycle, moduleEvents])
      (fun id' => Roster.get?_noteSent_attach _ _ _ _ _ id') fun p _ => ⟨rfl, fun _ _ _ => rfl⟩
  | join =>
    exact ht.of_modify (by simp [self]) (fun _ => by simp [lifecycle, moduleEvents])
      (fun id' => Roster.get?_noteSent_attach_update _ _ _ _ _ _ _ id')
      fun p _ => ⟨rfl, fun _ _ _ => rfl⟩
  | lose _ _ hp =>
    exact ht.of_detach hp rfl (moduleEvents_of_exits rfl)

theorem tracked_idle (profile : Profile) (catalog : Catalog) (port : UInt16) (now : Nat) :
    (idle profile catalog port now).Tracked where
  nodup id p hp := by simp [(get?_idle hp).2.2.1]
  node_eq id p hp h hmem := by
    rw [(get?_idle hp).2.2.1] at hmem
    cases hmem
  link id p hp _ hb := absurd (get?_idle hp).2.2.1 hb
  turns h := .nil
  odd_iff h := by
    have hnot : ¬ (idle profile catalog port now).Binds h := by
      rintro ⟨p, hp, hmem⟩
      rw [(get?_idle hp).2.2.1] at hmem
      cases hmem
    have hnil : (idle profile catalog port now).lifecycle h = [] := rfl
    simp [hnot, hnil]

/-- The invariants of a node together. -/
structure Ordered (n : Node) : Prop where
  wired : n.Wired
  seated : n.Seated
  tracked : n.Tracked
  dated : n.Dated

theorem Takes.ordered (h : n.Ordered) (ht : n.Takes a m) : m.Ordered :=
  ⟨ht.wired h.wired, ht.seated h.seated, ht.tracked h.wired h.seated h.tracked,
    ht.dated h.wired h.dated⟩

theorem Path.ordered (h : n.Ordered) {moves : List Move} (hp : n.Path moves m) : m.Ordered :=
  hp.keeps (fun _ _ _ hk ht => ht.ordered hk) h

theorem Via.ordered {P : Move → Prop} (h : n.Ordered) (hv : n.Via P m) : m.Ordered :=
  hv.keeps (fun _ _ _ hk _ ht => ht.ordered hk) h

theorem Ordered.tend (h : n.Ordered) (t : Nat) : Ordered { n with now := t } :=
  (Takes.tend t n.catalog).ordered h

theorem ordered_idle {profile : Profile} (hflaw : profile.flaw? = none) (catalog : Catalog)
    (port : UInt16) (now : Nat) : (idle profile catalog port now).Ordered where
  wired := wired_idle ..
  seated := seated_idle hflaw ..
  tracked := tracked_idle ..
  dated _ he := nomatch he

section Start

variable {profile : Profile} {catalog : Catalog} {port : UInt16} {now : Nat}
  {result : Except Fault Handshake} {n₀ : Node}

theorem ordered_of_run (started : start profile catalog port now result = .ok n₀)
    (events : List (Nat × Event)) : (n₀.run events).Ordered :=
  run_keeps (fun _ _ _ => Takes.ordered) (start_keeps (fun _ _ _ => Takes.ordered)
    (ordered_idle (start_cases started).1 ..) started) events

end Start

end Node

end Meshwork
