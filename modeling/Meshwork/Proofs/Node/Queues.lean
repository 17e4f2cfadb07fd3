import Meshwork.Proofs.Node.Replay

/-!
# Queues of links

A link queues a bounded number of frames, and writes all that waits at once. Main statement:
`ledger_of_run`, on a link that was made for a node all frames that were queued are written or still
wait, in their order.
-/

namespace Meshwork

def Event.Writes : Event → Prop
  | .written _ | .stopped _ => True
  | _ => False

namespace Node

variable {n m : Node} {a : Move} {id : NodeId} {conn : ConnId} {frame : Frame}
  {written : ConnId → List UInt8}

def places (n : Node) : Nat := max 1 n.profile.writeQueueFrames

/-- The number of frames that a link takes before some are written. A link that is not there yet is
empty. -/
def room (n : Node) (conn : ConnId) : Nat :=
  match n.links.get? conn with
  | some r => if r.link.running then n.places - r.link.queue.length else 0
  | none => n.places

def writes (n : Node) (conn : ConnId) : Event → List UInt8
  | .written c => if c = conn then (n.links.get? conn).elim [] fun r => r.link.drain.1 else []
  | _ => []

def writtenOn (conn : ConnId) : Node → List (Nat × Event) → List UInt8
  | _, [] => []
  | n, (t, e) :: rest => n.writes conn e ++ writtenOn conn (n.stepAt t e) rest

/-- A node that has taken up an event and has done nothing about it yet. -/
def turned (n : Node) (t : Nat) : Event → Node
  | .refusal => { n with now := t, refused := n.refused.tail }
  | _ => { n with now := t }

/-- The books on links that were made for nodes: with `written` given, what was queued on a link is
what was written on it and what still waits. -/
structure Ledger (n : Node) (written : ConnId → List UInt8) : Prop where
  ordered : n.Ordered
  record : ∀ conn r, n.links.get? conn = some r → r.owner.isSome →
    r.link.bound = n.places ∧ r.link.queue.length ≤ n.places ∧
      (n.queuedOn conn).flatMap Frame.bytes = written conn ++ r.link.queue.flatten
  unwritten : ∀ conn, n.links.nextNumber ≤ conn.number → written conn = []

theorem Ordered.gone_of_owner? (ho : n.Ordered) (hlt : conn.number < n.links.nextNumber)
    (hnone : n.links.owner? conn = none) : n.Gone conn := by
  refine ⟨ho, hlt, fun id p hp hl => ?_⟩
  obtain ⟨r, hr, howner⟩ := ho.wired.owner id p conn hp hl
  rw [Links.owner?, hr, Option.bind_some, howner] at hnone
  cases hnone

theorem Takes.owner?_of_arrive (hw : n.Wired) (ht : n.Takes (.arrive conn) m) :
    m.links.owner? conn = none := by
  cases ht with
  | arrive _ hid hi => rw [hw.links.kept.nextId.owner?_insert hi, hid, if_pos rfl]

theorem Takes.places_eq (ht : n.Takes a m) : m.places = n.places := by
    rw [places, places, ht.profile_eq]

theorem Via.places_eq {P : Move → Prop} (h : n.Via P m) : m.places = n.places := by
  rw [places, places, h.profile_eq]

/-- A move that does not queue a frame on a link leaves the link the room it had, or no entry has
the link from then on. -/
theorem Takes.room_eq (ho : n.Ordered) (ht : n.Takes a m) (ha : a.Retains)
    (hne : ∀ id frame, a ≠ .queue id conn frame) : m.Gone conn ∨ m.room conn = n.room conn := by
  have ho' := ht.ordered ho
  have htreats := ht.treats ho.wired conn
  simp only [room, ht.places_eq]
  generalize hr : n.links.get? conn = r, hr' : m.links.get? conn = r' at htreats
  cases htreats with
  | same => exact .inr rfl
  | queue => exact absurd rfl (hne _ _)
  | write => exact ha.elim
  | @insert _ r _ _ made =>
    cases howner : r.owner with
    | some id => exact .inr (by simp [made (by simp [howner]), newLink, Link.ofBound, places])
    | none =>
      refine .inl (ho'.gone_of_owner? (ho'.wired.links.fresh conn r hr') ?_)
      rw [Links.owner?, hr', Option.bind_some, howner]
  | @erase _ r =>
    refine .inl (ho'.gone_of_owner? ?_ (by rw [Links.owner?, hr', Option.bind_none]))
    exact Nat.lt_of_lt_of_le (ho.wired.links.fresh conn r hr) ht.nextNumber_le

theorem Takes.room_of_queue (hl : n.Ledger written) (ht : n.Takes (.queue id conn frame) m) :
    n.room conn = m.room conn + 1 := by
  have hw := hl.ordered.wired
  obtain ⟨r, hr, howner⟩ : ∃ r, n.links.get? conn = some r ∧ r.owner = some id := by
    cases ht with
    | queue hp hlive => exact hw.exists_record hp hlive
  obtain ⟨hbound, -⟩ := hl.record conn r hr (by simp [howner])
  have htreats := ht.treats hw conn
  simp only [room, ht.places_eq, hr] at htreats ⊢
  generalize m.links.get? conn = r' at htreats ⊢
  cases htreats with
  | same silent => exact absurd rfl (silent id frame)
  | queue running hroom =>
    simp only [running, if_true, List.length_append, List.length_singleton]
    omega
  | erase ends => simp at ends

theorem Takes.room_of_refuse (hl : n.Ledger written) (ht : n.Takes (.refuse id conn) m) :
    n.room conn = 0 ∧ m.room conn = 0 := by
  have hroom : n.room conn = 0 := by
    cases ht with
    | @refuse _ _ _ r _ _ hp hlive hr hs =>
      obtain ⟨r', hr', howner⟩ := hl.ordered.wired.exists_record hp hlive
      rw [hr, Option.some.injEq] at hr'
      subst hr'
      obtain ⟨hbound, -⟩ := hl.record conn r hr (by simp [howner])
      simp only [room, hr]
      rcases Link.full_of_send hs with hrun | hfull
      · simp [hrun]
      · split
        · omega
        · rfl
  have hsame : m.room conn = n.room conn := by cases ht; rfl
  exact ⟨hroom, hsame.trans hroom⟩

theorem Takes.ledger (hl : n.Ledger written) (ht : n.Takes a m) (ha : a.Retains) :
    m.Ledger written := by
  have ho := ht.ordered hl.ordered
  refine ⟨ho, fun conn r hr howner => ?_,
    fun conn hle => hl.unwritten conn (Nat.le_trans ht.nextNumber_le hle)⟩
  have harrive : a ≠ .arrive conn := by
    rintro rfl
    have hnone := ht.owner?_of_arrive hl.ordered.wired
    rw [Links.owner?, hr, Option.bind_some] at hnone
    simp [hnone] at howner
  have htreats := ht.treats hl.ordered.wired conn
  rw [ht.queuedOn fun h => absurd h harrive, ht.places_eq]
  rw [hr] at htreats
  generalize hr' : n.links.get? conn = r' at htreats
  cases htreats with
  | same silent =>
    rw [Move.frame?_eq_none silent, Option.toList_none, List.append_nil]
    exact hl.record conn r hr' howner
  | @queue id frame r running room =>
    obtain ⟨hbound, hlen, hbytes⟩ := hl.record conn r hr' howner
    refine ⟨hbound, ?_, ?_⟩
    · simp only [List.length_append, List.length_singleton]
      omega
    · simp [Move.frame?, hbytes]
  | write => exact ha.elim
  | insert silent number made =>
    have hempty : n.queuedOn conn = [] := number ▸ hl.ordered.queuedOn_nextId
    have hwritten : written conn = [] := hl.unwritten conn (by simp [number])
    rw [made howner, hempty, hwritten, Move.frame?_eq_none silent]
    simp [newLink, Link.ofBound, places]

theorem Via.ledger (h : n.Via Move.Retains m) (hl : n.Ledger written) : m.Ledger written :=
  h.keeps (fun _ _ _ hk ha ht => ht.ledger hk ha) hl

theorem via_turned (n : Node) (t : Nat) (e : Event) : n.Via (fun _ => True) (n.turned t e) := by
  have htend : n.Via (fun _ => True) { n with now := t } := (Takes.tend t n.catalog).via trivial
  cases e with
  | refusal =>
    cases hr : n.refused with
    | nil => simpa [turned, hr] using htend
    | cons first rest =>
      have hpardon : Takes { n with now := t } .pardon { n with now := t, refused := rest } :=
        .pardon hr
      simpa [turned, hr] using htend.trans (hpardon.via trivial)
  | _ => exact htend

theorem Ordered.turned (ho : n.Ordered) (t : Nat) (e : Event) : (n.turned t e).Ordered :=
  (via_turned n t e).ordered ho

theorem turned_via (n : Node) (t : Nat) {e : Event} (he : ¬ e.Writes) :
    (n.turned t e).Via Move.Retains (n.stepAt t e) := by
  cases e with
  | accept => exact (accept_steady _).mono fun _ ha => ha.2
  | link e => exact (linkEvent_steady _ e).mono fun _ ha => ha.2
  | handshake result => exact finishHandshake_via _ result
  | call r => exact (call_steady _ r).mono fun _ ha => ha.2
  | tick => exact (tick_steady _).mono fun _ ha => ha.2
  | install name moduleId => exact (Takes.tend t _).via trivial
  | uninstall name => exact (Takes.tend t _).via trivial
  | written conn => exact absurd trivial he
  | stopped conn => exact absurd trivial he
  | refusal =>
    simp only [turned, stepAt, step]
    split
    · rename_i hr
      rw [hr]
      exact .refl _
    · rename_i conn reason rest hr
      rw [hr]
      exact (lose_steady _ conn).mono fun _ ha => ha.2

theorem Ledger.turned (hl : n.Ledger written) (t : Nat) (e : Event) :
    (n.turned t e).Ledger written :=
  ⟨hl.ordered.turned t e, by cases e <;> exact hl.record, by cases e <;> exact hl.unwritten⟩

theorem writes_eq_nil {e : Event} (he : ¬ e.Writes) : n.writes conn e = [] := by
  cases e with
  | written => exact absurd trivial he
  | _ => rfl

theorem Ledger.of_write (hl : n.Ledger written) (t : Nat) {c : ConnId} {f : Link → Link}
    {taken : ConnId → List UInt8}
    (hf : ∀ l, (f l).id = l.id ∧ (f l).bound = l.bound ∧ (f l).queue.length ≤ l.queue.length)
    (htaken :
      ∀ r, n.links.get? c = some r → taken c ++ (f r.link).queue.flatten = r.link.queue.flatten)
    (hother : ∀ conn, n.links.get? conn = none ∨ c ≠ conn → taken conn = []) :
    Ledger { n with now := t, links := n.links.modify c f } fun conn =>
      written conn ++ taken conn := by
  have hkept := hl.ordered.wired.links.kept
  have htend : Ordered { n with now := t } := hl.ordered.tend t
  have hwrite :
      Takes { n with now := t } (.write c) { n with now := t, links := n.links.modify c f } :=
    .write fun l => (hf l).1
  refine ⟨hwrite.ordered htend, fun conn r hr howner => ?_, fun conn hle => ?_⟩
  · rw [hkept.get?_modify] at hr
    split at hr
    · rename_i hc
      subst hc
      obtain ⟨old, hold, rfl⟩ := Option.map_eq_some_iff.1 hr
      obtain ⟨hbound, hlen, hbytes⟩ := hl.record conn old hold howner
      obtain ⟨-, hsame, hless⟩ := hf old.link
      exact ⟨hsame.trans hbound, Nat.le_trans hless hlen,
        hbytes.trans (by rw [List.append_assoc, htaken old hold])⟩
    · rename_i hc
      obtain ⟨hbound, hlen, hbytes⟩ := hl.record conn r hr howner
      exact ⟨hbound, hlen,
        hbytes.trans (by rw [hother conn (.inr fun h => hc h.symm), List.append_nil])⟩
  · rw [Links.nextNumber_modify] at hle
    -- a number that is not in use yet belongs to no link
    have hnone : n.links.get? conn = none := by
      cases hr : n.links.get? conn with
      | none => rfl
      | some r => exact absurd (hl.ordered.wired.links.fresh conn r hr) (Nat.not_lt.2 hle)
    rw [hl.unwritten conn hle, hother conn (.inl hnone), List.append_nil]

theorem Ledger.stepAt (hl : n.Ledger written) (t : Nat) (e : Event) :
    (n.stepAt t e).Ledger fun conn => written conn ++ n.writes conn e := by
  by_cases he : e.Writes
  · cases e with
    | written c =>
      refine hl.of_write t (f := fun l => l.drain.2) (fun _ => ⟨rfl, rfl, Nat.zero_le _⟩)
        (fun r hr => ?_) fun conn hconn => ?_
      · simp [writes, hr, Link.drain]
      · obtain hnone | hne := hconn
        · simp [writes, hnone]
        · exact if_neg hne
    | stopped c =>
      exact hl.of_write t (fun _ => ⟨rfl, rfl, Nat.le_refl _⟩) (fun _ _ => List.nil_append _)
        fun _ _ => rfl
    | _ => exact he.elim
  · simp only [writes_eq_nil he, List.append_nil]
    exact (turned_via n t he).ledger (hl.turned t e)

theorem Ledger.run (hl : n.Ledger written) (events : List (Nat × Event)) :
    (n.run events).Ledger fun conn => written conn ++ n.writtenOn conn events := by
  induction events generalizing n written with
  | nil => simpa [writtenOn, run_nil] using hl
  | cons x rest ih =>
    obtain ⟨t, e⟩ := x
    simpa only [writtenOn, run_cons, List.append_assoc] using ih (hl.stepAt t e)

/-- After every run of a started node a link that was made for a node has written what was queued on
it, but for what still waits, and no more waits than there are places. -/
theorem ledger_of_run {profile : Profile} {catalog : Catalog} {port : UInt16} {now : Nat}
    {result : Except Fault Handshake} {n₀ : Node}
    (started : start profile catalog port now result = .ok n₀) (events : List (Nat × Event)) :
    (n₀.run events).Ledger fun conn => n₀.writtenOn conn events := by
  have hidle : (idle profile catalog port now).Ledger fun _ => [] := by
    refine ⟨ordered_idle (start_cases started).1 .., fun conn r hr => ?_, fun _ _ => rfl⟩
    rw [get?_links_idle] at hr
    cases hr
  simpa only [List.nil_append] using ((start_via started).ledger hidle).run events

end Node

end Meshwork
