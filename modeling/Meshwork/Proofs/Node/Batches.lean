import Meshwork.Proofs.Node.Admission
import Meshwork.Proofs.Node.Reported

/-!
# Lists of modules

A list of modules is gone through from left to right, and each module changes what the next one
finds: its node has a link, there is room for one link less, it is recorded itself. Main statement:
`bracketed_of_path`, which modules are reported between the two ends of a list, and which nodes are
dialled for it, in terms of the node as it was before. A node is dialled where it is first named,
while there is room.
-/

namespace Meshwork

theorem nodup_eraseDups {α : Type} [BEq α] [LawfulBEq α] (l : List α) : l.eraseDups.Nodup := by
  cases l with
  | nil => exact List.nodup_nil
  | cons a l =>
    rw [List.eraseDups_cons, List.nodup_cons, List.mem_eraseDups]
    exact ⟨by simp, nodup_eraseDups _⟩
termination_by l.length
decreasing_by exact Nat.lt_succ_of_le (List.length_filter_le ..)

namespace Node

variable {n m k : Node} {name : String} {h g : Handle} {handles : List Handle} {id i : NodeId}
  {conn : ConnId}
  {loop : Loopback}

def Dialable (n : Node) (id : NodeId) : Prop :=
  id ≠ n.self ∧ ∃ p ∈ n.roster.get? id, p.state = .empty ∧ p.address.endpoint?.isSome

instance (n : Node) (id : NodeId) : Decidable (n.Dialable id) :=
  inferInstanceAs (Decidable (_ ∧ ∃ p ∈ n.roster.get? id, _))

instance (n : Node) (id : NodeId) : Decidable (n.Attains id) := inferInstanceAs (Decidable (_ ∨ _))

instance (n : Node) (h : Handle) : Decidable (n.Binds h) :=
  inferInstanceAs (Decidable (∃ p ∈ n.roster.get? h.node, _))

def vacancies (n : Node) : Nat := n.links.slots.capacity - n.links.size

/-- A link to the node can be opened now. -/
def Opens (n : Node) (id : NodeId) : Prop := n.Dialable id ∧ 0 < n.vacancies

instance (n : Node) (id : NodeId) : Decidable (n.Opens id) := inferInstanceAs (Decidable (_ ∧ _))

/-- The module is to be reported if it is named now: its node has an entry and can be reached, or
linked, and the module is not recorded. -/
def Starts (n : Node) (h : Handle) : Prop :=
  n.roster.Contains h.node ∧ (n.Attains h.node ∨ n.Opens h.node) ∧ ¬ n.Binds h

instance (n : Node) (h : Handle) : Decidable (n.Starts h) := inferInstanceAs (Decidable (_ ∧ _ ∧ _))

def addressOf (n : Node) (id : NodeId) : Address := ((n.roster.get? id).map (·.address)).getD {}

def linkOf? (n : Node) (id : NodeId) : Option ConnId := (n.roster.get? id).bind (·.link)

/-- The nodes that are dialled for a list of modules: the first ones in it that can be, as many as
there is room for. -/
def dialledFor (n : Node) (handles : List Handle) : List NodeId :=
  ((handles.map fun h => (n.resolve h).node).filter n.Dialable).eraseDups.take n.vacancies

/-- The modules in a list that are reported, in that order. -/
def startedFor (n : Node) (handles : List Handle) : List Handle :=
  ((handles.map n.resolve).filter fun h =>
    n.roster.Contains h.node ∧ (n.Attains h.node ∨ h.node ∈ n.dialledFor handles) ∧
      ¬ n.Binds h).eraseDups

structure Dialling (n m : Node) (handles : List Handle) : Prop where
  connects : m.connects =
      n.connects ++ ((n.dialledFor handles).zipIdx n.links.nextNumber).filterMap fun (id, number) =>
    (n.addressOf id).endpoint?.map (⟨number⟩, ·)
  nextNumber : m.links.nextNumber = n.links.nextNumber + (n.dialledFor handles).length
  link : ∀ id, m.linkOf? id = match (n.dialledFor handles).idxOf? id with
    | some i => some ⟨n.links.nextNumber + i⟩
    | none => n.linkOf? id

/-- From `n` to `m` a list of modules was announced under a name. -/
structure Bracketed (n m : Node) (name : String) (handles : List Handle) : Prop
    extends n.Dialling m handles where
  events : m.moduleEvents = n.moduleEvents ++ .batchBegin name ::
    ((n.startedFor handles).map fun h => .started name h (n.addressOf h.node)) ++ [.batchEnd name]
  /-- Where a module stands in the list, it is reported exactly if it is to be at that point. -/
  turn : ∀ before h after k, handles = before ++ h :: after →
    k = before.foldl (·.reach name ·) (n.emit (.report (.batchBegin name))) →
    (k.reach name h).moduleEvents = k.moduleEvents ++
      if k.Starts (n.resolve h) then [.started name (n.resolve h) (n.addressOf (n.resolve h).node)]
        else []
  nodup : (n.startedFor handles).Nodup ∧ (n.dialledFor handles).Nodup
  endpoint : ∀ id ∈ n.dialledFor handles, (n.addressOf id).endpoint?.isSome

theorem hasRoom_iff (n : Node) : n.links.hasRoom = true ↔ 0 < n.vacancies := by
  rw [Links.hasRoom, decide_eq_true_iff, vacancies, Nat.sub_pos_iff_lt, Links.size]

theorem not_opens_of_attains (ha : n.Attains id) : ¬ n.Opens id := by
  rintro ⟨⟨hid, p, hp, hstate, -⟩, -⟩
  obtain rfl | ⟨q, hq, hl⟩ := ha
  · exact hid rfl
  · obtain rfl := Option.some.inj (hp.symm.trans hq)
    simp [Peer.linked_iff, hstate] at hl

theorem Opens.endpoint (h : n.Opens id) : (n.addressOf id).endpoint?.isSome := by
  obtain ⟨⟨-, p, hp, -, hendpoint⟩, -⟩ := h
  rwa [addressOf, Option.mem_def.1 hp]

theorem Shut.not_opens (hs : n.Shut id) : ¬ n.Opens id := by
  rintro ⟨⟨-, p, hp, hstate, hendpoint⟩, hroom⟩
  obtain ⟨-, hshaking | hnone | hfull⟩ := hs.2 p hp
  · rw [hstate] at hshaking
    cases hshaking
  · rw [hnone] at hendpoint
    cases hendpoint
  · rw [← hasRoom_iff, hfull] at hroom
    cases hroom

section Dial

variable (ht : n.Takes (.dial id conn) m)

include ht

theorem Takes.get?_of_dial (i : NodeId) : m.roster.get? i = (n.roster.get? i).map fun p =>
    if i = id then { p with link := some conn, state := .connecting, lastSent := some n.now }
      else p := by
  cases ht with
  | dial =>
    rw [Roster.get?_noteSent_attach]
    split
    · rename_i hi
      rw [hi]
    · simp

theorem Takes.opens_of_dial (hw : n.Wired) :
    n.Opens id ∧ ¬ n.Attains id ∧ conn = n.links.nextId.1 := by
  cases ht with
  | dial hid hp hl hs he hroom =>
    refine ⟨⟨⟨hid, _, hp, hw.state_eq_empty hp hl hs, by simp [he]⟩, (hasRoom_iff n).1 hroom⟩, ?_,
      rfl⟩
    rintro (hself | ⟨q, hq, hlinked⟩)
    · exact hid hself
    · obtain rfl := Option.some.inj (hp.symm.trans hq)
      exact hl hlinked

theorem Takes.dialable_of_dial : m.Dialable i ↔ n.Dialable i ∧ i ≠ id := by
  simp only [Dialable, ht.self_eq, ht.get?_of_dial, Option.mem_def, Option.map_eq_some_iff,
    exists_exists_and_eq_and]
  by_cases hi : i = id <;> simp [hi]

theorem Takes.attains_of_dial : m.Attains i ↔ n.Attains i ∨ i = id := by
  have hlinked := ht.linked_of_dial
  rw [Attains, Attains, LinkedTo, LinkedTo, ht.self_eq]
  by_cases hi : i = id
  · subst hi
    simpa using .inr hlinked
  · simp [ht.get?_of_dial, hi]

theorem Takes.binds_of_dial : m.Binds g ↔ n.Binds g := by
  simp only [Binds, ht.get?_of_dial, Option.mem_def, Option.map_eq_some_iff,
    exists_exists_and_eq_and]
  refine exists_congr fun p => and_congr_right fun _ => ?_
  split <;> rfl

theorem Takes.addressOf_of_dial : m.addressOf = n.addressOf := by
  funext i
  rw [addressOf, addressOf, ht.get?_of_dial, Option.map_map]
  congr 2
  funext p
  simp only [Function.comp_apply]
  split <;> rfl

theorem Takes.linkOf?_of_dial (i : NodeId) :
    m.linkOf? i = if i = id then some conn else n.linkOf? i := by
  rw [linkOf?, linkOf?]
  split
  · rename_i hi
    obtain ⟨p, -, hp⟩ := ht.entry_of_dial
    rw [hi, hp]
    rfl
  · rename_i hi
    rw [ht.get?_of_dial]
    simp [hi]

theorem Takes.vacancies_of_dial (hw : n.Wired) : n.vacancies = m.vacancies + 1 := by
  cases ht with
  | dial _ _ _ _ _ hroom hi =>
    have hnew : n.links.nextId.2.get? (n.newLink n.links.nextId.1).id = none :=
      hw.links.get?_nextId_eq_none
    have hsize := hw.links.kept.nextId.size_insert hnew hi
    have hcapacity := Links.capacity_insert hi
    have hvacant := (hasRoom_iff n).1 hroom
    have hsame : n.links.nextId.2.slots = n.links.slots ∧ n.links.nextId.2.size = n.links.size :=
      ⟨rfl, rfl⟩
    rw [hsame.1] at hcapacity
    rw [hsame.2] at hsize
    simp only [vacancies, hcapacity, hsize] at hvacant ⊢
    omega

theorem Takes.nextNumber_of_dial : m.links.nextNumber = n.links.nextNumber + 1 := by
  cases ht with
  | dial _ _ _ _ _ _ hi => exact Links.nextNumber_insert hi

end Dial

theorem get?_recorded (n : Node) (name : String) (h : Handle) (i : NodeId) :
    (n.recorded name h).roster.get? i = (n.roster.get? i).map fun p =>
      if i = h.node ∧ h ∉ p.bound then { p with bound := p.bound ++ [h] } else p := by
  unfold recorded
  split
  · rename_i hb
    rw [emit, Roster.get?_bind hb]
    obtain ⟨p, hp, hnot⟩ := hb
    split
    · rename_i hi
      rw [hi, Option.mem_def.1 hp]
      simp [hnot]
    · rename_i hi
      simp [hi]
  · rename_i hb
    cases hp : n.roster.get? i with
    | none => rfl
    | some p =>
      rw [Option.map_some, if_neg]
      rintro ⟨rfl, hnot⟩
      exact hb ⟨p, hp, hnot⟩

theorem links_recorded (n : Node) (name : String) (h : Handle) :
    (n.recorded name h).links = n.links := by
  unfold recorded
  split <;> rfl

theorem self_recorded (n : Node) (name : String) (h : Handle) :
    (n.recorded name h).self = n.self := by
  unfold recorded
  split
  · simp [self, emit]
  · rfl

theorem contains_recorded : (n.recorded name h).roster.Contains i ↔ n.roster.Contains i := by
  unfold recorded
  split
  · simp [emit]
  · rfl

theorem connects_recorded (n : Node) (name : String) (h : Handle) :
    (n.recorded name h).connects = n.connects := by
  unfold recorded
  split
  · simp [connects, emit]
  · rfl

theorem dialable_recorded : (n.recorded name h).Dialable i ↔ n.Dialable i := by
  simp only [Dialable, self_recorded, get?_recorded, Option.mem_def, Option.map_eq_some_iff,
    exists_exists_and_eq_and]
  refine and_congr_right fun _ => exists_congr fun p => and_congr_right fun _ => ?_
  split <;> rfl

theorem attains_recorded : (n.recorded name h).Attains i ↔ n.Attains i := by
  simp only [Attains, LinkedTo, self_recorded, get?_recorded, Option.mem_def,
    Option.map_eq_some_iff, exists_exists_and_eq_and]
  refine or_congr_right (exists_congr fun p => and_congr_right fun _ => ?_)
  split <;> rfl

theorem binds_recorded (hin : n.roster.Contains h.node) :
    (n.recorded name h).Binds g ↔ n.Binds g ∨ g = h := by
  obtain ⟨q, hq⟩ := Roster.exists_get? hin
  simp only [Binds, get?_recorded, Option.mem_def, Option.map_eq_some_iff, exists_exists_and_eq_and]
  by_cases hg : g = h
  · subst hg
    refine iff_of_true ⟨q, hq, ?_⟩ (.inr rfl)
    split
    · simp
    · simp_all
  · simp only [hg, or_false]
    refine exists_congr fun p => and_congr_right fun _ => ?_
    split <;> simp [hg]

theorem addressOf_recorded (n : Node) (name : String) (h : Handle) :
    (n.recorded name h).addressOf = n.addressOf := by
  funext i
  rw [addressOf, addressOf, get?_recorded, Option.map_map]
  congr 2
  funext p
  simp only [Function.comp_apply]
  split <;> rfl

theorem linkOf?_recorded (n : Node) (name : String) (h : Handle) :
    (n.recorded name h).linkOf? = n.linkOf? := by
  funext i
  rw [linkOf?, linkOf?, get?_recorded, Option.bind_map]
  congr 1
  funext p
  simp only [Function.comp_apply]
  split <;> rfl

theorem moduleEvents_recorded (hin : n.roster.Contains h.node) : (n.recorded name h).moduleEvents =
    n.moduleEvents ++ if n.Binds h then [] else [.started name h (n.addressOf h.node)] := by
  rw [recorded]
  by_cases hb : n.Binds h
  · rw [if_neg fun hc => (canBind_iff.1 hc).2 hb, if_pos hb, List.append_nil]
  · rw [if_pos (canBind_iff.2 ⟨hin, hb⟩), if_neg hb]
    simp [moduleEvents, emit, addressOf]

structure Tried (n m : Node) (name : String) (h : Handle) : Prop where
  self_eq : m.self = n.self
  contains : ∀ id, m.roster.Contains id ↔ n.roster.Contains id
  dialable : ∀ id, m.Dialable id ↔ n.Dialable id ∧ ¬ (n.Opens h.node ∧ id = h.node)
  vacancies : n.vacancies = m.vacancies + if n.Opens h.node then 1 else 0
  attains : ∀ id, m.Attains id ↔ n.Attains id ∨ n.Opens h.node ∧ id = h.node
  binds : ∀ k, m.Binds k ↔ n.Binds k ∨ n.Starts h ∧ k = h
  address : m.addressOf = n.addressOf
  link : ∀ id, m.linkOf? id = if n.Opens h.node ∧ id = h.node then some n.links.nextId.1
    else n.linkOf? id
  nextNumber : m.links.nextNumber = n.links.nextNumber + if n.Opens h.node then 1 else 0
  connects : m.connects = n.connects ++
    if n.Opens h.node then ((n.addressOf h.node).endpoint?.map (n.links.nextId.1, ·)).toList else []
  events : m.moduleEvents = n.moduleEvents ++
    if n.Starts h then [.started name h (n.addressOf h.node)] else []

theorem tried_of_attains (hin : n.roster.Contains h.node) (ha : n.Attains h.node) :
    n.Tried (n.recorded name h) name h := by
  have hopens := not_opens_of_attains ha
  have hstarts : n.Starts h ↔ ¬ n.Binds h := by simp [Starts, hin, ha]
  exact {
    self_eq := self_recorded ..
    contains := fun _ => contains_recorded
    dialable := fun _ => by simp [dialable_recorded, hopens]
    vacancies := by simp [Node.vacancies, links_recorded, hopens]
    attains := fun _ => by simp [attains_recorded, hopens]
    binds := fun k => by
      rw [binds_recorded hin, hstarts]
      by_cases hk : k = h
      · subst hk
        simp [Classical.em]
      · simp [hk]
    address := addressOf_recorded ..
    link := fun _ => by simp [linkOf?_recorded, hopens]
    nextNumber := by simp [links_recorded, hopens]
    connects := by simp [connects_recorded, hopens]
    events := by
      rw [moduleEvents_recorded hin]
      simp [hstarts] }

theorem Takes.tried_of_dial (hw : n.Wired) (ht : n.Takes (.dial h.node conn) m)
    (hin : m.roster.Contains h.node) :
    n.Tried (m.recorded name h) name h := by
  have hin' : n.roster.Contains h.node := ht.contains_iff.1 hin
  obtain ⟨hopens, hnot, rfl⟩ := ht.opens_of_dial hw
  have hm : m.Tried (m.recorded name h) name h :=
    tried_of_attains hin (ht.attains_of_dial.2 (.inr rfl))
  have hstill := not_opens_of_attains (ht.attains_of_dial.2 (.inr rfl))
  have hstarts : m.Starts h ↔ n.Starts h := by
    simp [Starts, hin, hin', hopens, ht.attains_of_dial, ht.binds_of_dial]
  have hconnects : m.connects = n.connects ++
      ((n.addressOf h.node).endpoint?.map (n.links.nextId.1, ·)).toList := by
    obtain ⟨-, p, hp, -, hendpoint⟩ := hopens.1
    obtain ⟨endpoint, he⟩ := Option.isSome_iff_exists.1 hendpoint
    simp [ht.connects_of_dial hp he, addressOf, Option.mem_def.1 hp, he]
  exact {
    self_eq := hm.self_eq.trans ht.self_eq
    contains := fun _ => (hm.contains _).trans ht.contains_iff
    dialable := fun _ => by simp [hm.dialable, hstill, ht.dialable_of_dial, hopens]
    vacancies := by rw [ht.vacancies_of_dial hw, hm.vacancies, if_neg hstill, if_pos hopens]
    attains := fun _ => by simp [hm.attains, hstill, ht.attains_of_dial, hopens]
    binds := fun _ => by rw [hm.binds, ht.binds_of_dial, hstarts]
    address := hm.address.trans ht.addressOf_of_dial
    link := fun _ => by simp [hm.link, hstill, ht.linkOf?_of_dial, hopens]
    nextNumber := by rw [hm.nextNumber, if_neg hstill, ht.nextNumber_of_dial, if_pos hopens]
    connects := by rw [hm.connects, if_neg hstill, List.append_nil, hconnects, if_pos hopens]
    events := by
      rw [hm.events, ht.moduleEvents_of_dial, ht.addressOf_of_dial]
      simp only [hstarts] }

theorem Shut.tried (hs : n.Shut h.node) : n.Tried n name h := by
  have hopens := hs.not_opens
  have hstarts : ¬ n.Starts h := fun hstarts => hstarts.2.1.elim hs.not_attains hopens
  constructor <;> simp [hopens, hstarts]

theorem Ordered.tried (ho : n.Ordered) (name : String) (h : Handle) :
    n.Tried (n.reach name h) name (n.resolve h) := by
  obtain ⟨hshut, hsame⟩ | ⟨l, hl, hin, hattains, hreach⟩ := ho.exists_recorded name h
  · rw [hsame]
    exact hshut.tried
  · rw [hreach]
    obtain rfl | ⟨conn, ht⟩ := hl
    · exact tried_of_attains hin hattains
    · exact ht.tried_of_dial ho.wired hin

theorem Tried.resolve_eq (ht : n.Tried m name h) : m.resolve = n.resolve := by
  funext k
  rw [resolve, resolve, ht.self_eq]

theorem dialledFor_cons (ht : n.Tried m name (n.resolve h)) (rest : List Handle) :
    n.dialledFor (h :: rest) =
      if n.Opens (n.resolve h).node then (n.resolve h).node :: m.dialledFor rest
        else m.dialledFor rest := by
  have hvacancies := ht.vacancies
  have hdialable := ht.dialable
  simp only [dialledFor, List.map_cons, ht.resolve_eq]
  generalize (rest.map fun h => (n.resolve h).node) = nodes, (n.resolve h).node = id
    at hvacancies hdialable
  by_cases hopens : n.Opens id
  · simp only [hopens, true_and, if_true] at hdialable hvacancies ⊢
    rw [List.filter_cons_of_pos (by simpa using hopens.1), List.eraseDups_cons, hvacancies,
      List.take_succ_cons, List.filter_filter]
    congr 4
    funext i
    rw [Bool.eq_iff_iff]
    simp [hdialable, and_comm]
  · simp only [hopens, false_and, not_false_eq_true, and_true, if_false, Nat.add_zero]
      at hdialable hvacancies ⊢
    simp only [hdialable, hvacancies]
    by_cases hd : n.Dialable id
    · -- there is no room, not even for this one
      have hnone : m.vacancies = 0 := by
        have := mt (And.intro hd) hopens
        omega
      rw [hnone, List.take_zero, List.take_zero]
    · rw [List.filter_cons_of_neg (by simpa using hd)]

theorem Tried.attains_or_mem_iff (ht : n.Tried m name (n.resolve h)) (rest : List Handle) :
    n.Attains i ∨ i ∈ n.dialledFor (h :: rest) ↔ m.Attains i ∨ i ∈ m.dialledFor rest := by
  rw [dialledFor_cons ht, ht.attains]
  split <;> simp_all [or_assoc]

theorem opens_of_mem_dialledFor (hid : id ∈ n.dialledFor handles) : n.Opens id := by
  have hmem := List.mem_of_mem_take hid
  rw [List.mem_eraseDups, List.mem_filter, decide_eq_true_eq] at hmem
  refine ⟨hmem.2, Nat.pos_of_ne_zero fun hnone => ?_⟩
  rw [dialledFor, hnone] at hid
  cases hid

theorem startedFor_cons (ht : n.Tried m name (n.resolve h)) (rest : List Handle) :
    n.startedFor (h :: rest) =
      (if n.Starts (n.resolve h) then [n.resolve h] else []) ++ m.startedFor rest := by
  have hhead : n.Starts (n.resolve h) ↔ n.roster.Contains (n.resolve h).node ∧
      (n.Attains (n.resolve h).node ∨ (n.resolve h).node ∈ n.dialledFor (h :: rest)) ∧
      ¬ n.Binds (n.resolve h) := by
    refine and_congr_right fun _ => and_congr_left fun _ => or_congr_right ?_
    refine ⟨fun hopens => ?_, opens_of_mem_dialledFor⟩
    rw [dialledFor_cons ht, if_pos hopens]
    exact List.mem_cons_self
  have hrest (k : Handle) :
      (m.roster.Contains k.node ∧ (m.Attains k.node ∨ k.node ∈ m.dialledFor rest) ∧ ¬ m.Binds k) ↔
      (n.roster.Contains k.node ∧ (n.Attains k.node ∨ k.node ∈ n.dialledFor (h :: rest)) ∧
        ¬ n.Binds k) ∧ ¬ (n.Starts (n.resolve h) ∧ k = n.resolve h) := by
    rw [ht.contains, ht.attains_or_mem_iff, ht.binds, not_or]
    tauto
  simp only [startedFor, List.map_cons, ht.resolve_eq, hrest]
  by_cases hstarts : n.Starts (n.resolve h)
  · rw [List.filter_cons_of_pos (by simpa using hhead.1 hstarts), List.eraseDups_cons,
      if_pos hstarts, List.singleton_append, List.filter_filter]
    congr 3
    funext k
    rw [Bool.eq_iff_iff]
    simp [hstarts, and_comm]
  · rw [List.filter_cons_of_neg (by simpa using mt hhead.2 hstarts), if_neg hstarts,
      List.nil_append]
    simp only [hstarts, false_and, not_false_eq_true, and_true]

/-- From `n` to `m` the modules of a list were tried, one after the other. -/
structure Passed (n m : Node) (name : String) (handles : List Handle) : Prop
    extends n.Dialling m handles where
  events : m.moduleEvents = n.moduleEvents ++
    (n.startedFor handles).map fun h => .started name h (n.addressOf h.node)
  address : m.addressOf = n.addressOf

theorem passed_nil (n : Node) (name : String) : n.Passed n name [] := by
  have hdialled : n.dialledFor [] = [] := by simp [dialledFor]
  have hstarted : n.startedFor [] = [] := by simp [startedFor]
  exact {
    connects := by simp [hdialled]
    nextNumber := by simp [hdialled]
    link := by simp [hdialled]
    events := by simp [hstarted]
    address := rfl }

theorem Tried.passed (ht : n.Tried m name (n.resolve h)) {rest : List Handle}
    (hrest : m.Passed k name rest) :
    n.Passed k name (h :: rest) where
  events := by
    rw [hrest.events, ht.events, startedFor_cons ht, ht.address]
    split <;> simp
  address := hrest.address.trans ht.address
  connects := by
    rw [hrest.connects, ht.connects, ht.nextNumber, dialledFor_cons ht, ht.address]
    split
    · rename_i hopens
      obtain ⟨endpoint, he⟩ := Option.isSome_iff_exists.1 hopens.endpoint
      simp [he, List.zipIdx_cons, Links.nextId]
    · simp
  nextNumber := by
    rw [hrest.nextNumber, ht.nextNumber, dialledFor_cons ht]
    split
    · rw [List.length_cons]
      omega
    · rfl
  link id := by
    rw [hrest.link, dialledFor_cons ht, ht.nextNumber]
    by_cases hopens : n.Opens (n.resolve h).node
    · rw [if_pos hopens, if_pos hopens, List.idxOf?_cons]
      by_cases hid : (n.resolve h).node = id
      · -- no node is dialled twice
        have hnot : id ∉ m.dialledFor rest := fun hmem =>
          ((ht.dialable id).1 (opens_of_mem_dialledFor hmem).1).2 ⟨hopens, hid.symm⟩
        rw [List.idxOf?_eq_none_iff.2 hnot, if_pos (by simpa using hid)]
        exact (ht.link id).trans (if_pos ⟨hopens, hid.symm⟩)
      · rw [if_neg (by simpa using hid)]
        cases (m.dialledFor rest).idxOf? id with
        | none => simp [ht.link, Ne.symm hid]
        | some i =>
          simp only [Option.map_some, Option.some.injEq, ConnId.mk.injEq]
          omega
    · simp [hopens, ht.link]

theorem Ordered.passed_foldl (ho : n.Ordered) (name : String) (handles : List Handle) :
    n.Passed (handles.foldl (·.reach name ·) n) name handles := by
  induction handles generalizing n with
  | nil => exact passed_nil n name
  | cons h rest ih => exact (ho.tried name h).passed (ih ((reach_inner n name h).ordered ho))

theorem Ordered.bracketed_obey (ho : n.Ordered) (name : String) (handles : List Handle) :
    n.Bracketed (n.obey loop (.handles name handles)) name handles := by
  have hbegin : n.Takes (.bracket (.batchBegin name)) (n.emit (.report (.batchBegin name))) :=
    .bracket ⟨name, .inl rfl⟩
  -- where the list begins and where it ends, nothing else changes
  have hl := hbegin.ordered ho
  have hall := hl.passed_foldl name handles
  have hconnects {l : Node} {e : ModuleEvent} : (l.emit (.report e)).connects = l.connects := by
    simp [connects, emit]
  have hevents {l : Node} {e : ModuleEvent} :
      (l.emit (.report e)).moduleEvents = l.moduleEvents ++ [e] := by
    simp [moduleEvents, emit]
  exact {
    connects := by
      have hc := hall.connects
      rw [hconnects] at hc
      exact hconnects.trans hc
    nextNumber := hall.nextNumber
    link := hall.link
    events := by
      have he := hall.events
      rw [hevents] at he
      rw [obey, hevents, he, List.append_assoc n.moduleEvents, List.singleton_append]
      rfl
    turn := by
      rintro before h after k rfl rfl
      have hbefore := hl.passed_foldl name before
      have hvia := foldl_reach_inner (n.emit (.report (.batchBegin name))) name before
      have hturn := ((hvia.ordered hl).tried name h).events
      have hresolve : (before.foldl (·.reach name ·)
          (n.emit (.report (.batchBegin name)))).resolve = n.resolve := by
        funext k
        rw [resolve, resolve, hvia.self_eq]
        rfl
      rw [hresolve, hbefore.address] at hturn
      exact hturn
    nodup := ⟨nodup_eraseDups _, (nodup_eraseDups _).sublist (List.take_sublist ..)⟩
    endpoint := fun id hid => (opens_of_mem_dialledFor hid).endpoint }

section Start

variable {profile : Profile} {catalog : Catalog} {port : UInt16} {now : Nat}
  {result : Except Fault Handshake} {n₀ : Node} {moves : List Move}

/-- Whenever a list of modules arrives, those in it are reported, between a begin and an end, whose
nodes can be reached or dialled and which are not reported yet, and only the nodes for them are
dialled. -/
theorem bracketed_of_path (started : start profile catalog port now result = .ok n₀)
    (events : List (Nat × Event)) (passed : (n₀.run events).Path moves n) {f : Frame}
    {source : Handle}
    (hf : n.routing.classify f = .control source (.handles name handles)) (loop : Loopback) :
    n.Bracketed (n.receiveWith loop f) name handles := by
  have ho : n.Ordered := passed.ordered (ordered_of_run started events)
  have hreceive : n.receiveWith loop f = n.obey loop (.handles name handles) := by
    simp only [receiveWith, hf]
  rw [hreceive]
  exact ho.bracketed_obey name handles

/-- A center has room for one link, and has the addresses of two nodes. Of a list that names a
module of its own, one of either node, and the first two again, it reports the first two. -/
theorem bracketed_of_path_full :
    ∃ n₀ events f, start { maxConnections := 1 } {} 7100 0 (.error .closed) = .ok n₀ ∧
      (n₀.run events).routing.classify f =
        .control ⟨⟨2⟩, meshModule⟩
          (.handles "db" [⟨⟨1⟩, 5⟩, ⟨⟨2⟩, 7⟩, ⟨⟨3⟩, 7⟩, ⟨⟨0⟩, 5⟩, ⟨⟨2⟩, 7⟩]) ∧
      (Node.receive (n₀.run events) f).moduleEvents =
        [.batchBegin "db", .started "db" ⟨⟨1⟩, 5⟩ { nodeHost := "127.0.0.1", nodePort := 7100 },
          .started "db" ⟨⟨2⟩, 7⟩ { nodeHost := "10.0.0.2", nodePort := 7100 }, .batchEnd "db"] ∧
      (Node.receive (n₀.run events) f).connects = [(⟨1⟩, ⟨"10.0.0.2", 7100⟩)] := by
  have started : start { maxConnections := 1 } {} 7100 0 (.error .closed) =
      .ok (idle { maxConnections := 1 } {} 7100 0) := rfl
  have hparse : Command.parse
      (Command.handles "db" [⟨⟨1⟩, 5⟩, ⟨⟨2⟩, 7⟩, ⟨⟨3⟩, 7⟩, ⟨⟨0⟩, 5⟩, ⟨⟨2⟩, 7⟩]).payload =
        .ok (.handles "db" [⟨⟨1⟩, 5⟩, ⟨⟨2⟩, 7⟩, ⟨⟨3⟩, 7⟩, ⟨⟨0⟩, 5⟩, ⟨⟨2⟩, 7⟩]) := by decide +kernel
  have hf (r : Routing) : r.classify ((Command.handles "db"
      [⟨⟨1⟩, 5⟩, ⟨⟨2⟩, 7⟩, ⟨⟨3⟩, 7⟩, ⟨⟨0⟩, 5⟩, ⟨⟨2⟩, 7⟩]).frame ⟨2⟩ ⟨⟨1⟩, meshModule⟩) =
        .control ⟨⟨2⟩, meshModule⟩
            (.handles "db" [⟨⟨1⟩, 5⟩, ⟨⟨2⟩, 7⟩, ⟨⟨3⟩, 7⟩, ⟨⟨0⟩, 5⟩, ⟨⟨2⟩, 7⟩]) := by
    simp [Routing.classify, Command.frame, hparse]
  -- two nodes tell their addresses first
  have hall := bracketed_of_path started
    [(0, .link (.frames ⟨0⟩ ([(⟨2⟩, "10.0.0.2"), (⟨3⟩, "10.0.0.3")].map fun x =>
      (Command.address ⟨x.1, { nodeHost := x.2, nodePort := 7100 }, ⟨x.1, meshModule⟩⟩).frame x.1
        ⟨⟨1⟩, meshModule⟩)))]
    (.nil _) (hf _) receiveOwn
  refine ⟨_, _, _, started, hf _, hall.events.trans ?_, hall.connects.trans ?_⟩
  · decide +kernel
  · decide +kernel

end Start

end Node

end Meshwork
