import Meshwork.Proofs.Node.Directory
import Meshwork.Proofs.Node.Introductions

/-!
# What a center tells of its nodes can be read

All that a center knows of another node it was told in a command that it could read: nothing else
fills an entry of a center. Main statement: `legible_of_run`, whatever a center tells of a node can
be read again, and says the same.
-/

namespace Meshwork

def Move.Heard : Move → Prop
  | .learn a => a.Readable
  | _ => True

def Command.Heard : Command → Prop
  | .register a | .address a => a.Readable
  | _ => True

theorem Command.heard_of_parse {payload : List UInt8} {c : Command}
    (h : Command.parse payload = .ok c) : c.Heard := by
  cases c with
  | register a => exact readable_of_parse h (.inl rfl)
  | address a => exact readable_of_parse h (.inr rfl)
  | _ => trivial

def Loopback.Heard (loop : Loopback) : Prop := ∀ n f, Node.Via Move.Heard n (loop n f)

theorem Registry.eq_register_of_mem_request {r : Registry} {source : NodeId} {c : Command}
    {a : Announcement} (h : .register a ∈ (r.request source c).2) : c = .register a := by
  cases c with
  | register b => simpa [request, eq_comm] using h
  | subscribe name => simp [request, subscribe] at h
  | publish name handle =>
    simp only [request, publish] at h
    split at h <;> simp at h
  | _ => simp [request] at h

namespace Node

variable {n m : Node} {a : Move} {c : Command} {loop : Loopback} {name : String}

/-- The announcements of other nodes could be read. -/
def Legible (n : Node) : Prop :=
  ∀ id p h, id ≠ n.self → n.roster.get? id = some p → p.handle = some h →
    Announcement.Readable ⟨id, p.address, h⟩

theorem Takes.legible (hn : n.Legible) (center : n.registry?.isSome) (ha : a.Heard)
    (ht : n.Takes a m) : m.Legible := by
  intro id p h hid hp hh
  rw [ht.self_eq] at hid
  obtain ⟨q, hq, halters⟩ := ht.alters hp
  cases halters with
  | same => exact hn id p h hid hq hh
  | bind | dial | queue | seek | establish => exact hn id q h hid hq hh
  | @learn b hnode =>
    cases hh
    subst hnode
    exact ha
  | join =>
    cases ht with
    | join hm => simp [hm] at center
  | release | lose => cases hh

theorem Via.legible {P : Move → Prop} (hv : n.Via P m) (hP : ∀ a, P a → a.Heard)
    (center : n.registry?.isSome) (hn : n.Legible) : m.Legible :=
  (hv.keeps (I := fun k => k.registry?.isSome ∧ k.Legible)
    (fun _ _ _ hk ha ht => ⟨ht.isSome_registry?.trans hk.1, ht.legible hk.2 hk.1 (hP _ ha)⟩)
      ⟨center, hn⟩).2

theorem post_heard (hloop : loop.Heard) {source dest : Handle} {kind : UInt8} {payload : List UInt8}
    (h : n.post loop source dest kind payload = .ok m) : n.Via Move.Heard m := by
  unfold post at h
  split at h
  · split at h
    · cases h
    · cases h
      exact hloop ..
  · obtain ⟨_, _, -, -, -, hq | hr⟩ := sendOver_takes h
    · exact hq.via trivial
    · exact hr.via trivial

theorem tell_heard (hloop : loop.Heard) (n : Node) (dest : Handle) (c : Command) :
    n.Via Move.Heard (n.tell loop dest c) := by
  unfold tell
  split
  · rename_i h
    exact post_heard hloop h
  · exact .refl n

theorem reach_heard (n : Node) (name : String) (handle : Handle) :
    n.Via Move.Heard (n.reach name handle) := by
  refine (reach_moves n name handle).mono ?_
  rintro _ (⟨h, rfl⟩ | ⟨conn, rfl, -⟩) <;> trivial

theorem enroll_heard {a : Announcement} (ha : a.Readable) (n : Node) :
    n.Via Move.Heard (n.enroll a) := by
  refine (enroll_moves n a).mono ?_
  rintro _ (rfl | ⟨conn, rfl⟩)
  · exact ha
  · trivial

theorem noteAddress_heard {a : Announcement} (ha : a.Readable) (n : Node) :
    n.Via Move.Heard (n.noteAddress a) := by
  refine (noteAddress_moves n a).mono ?_
  rintro _ rfl
  exact ha

theorem introduce_heard (hloop : loop.Heard) (n : Node) (id : NodeId) :
    n.Via Move.Heard (n.introduce loop id) := by
  unfold introduce
  split
  · split
    · split
      · exact Via.foldl n fun n other _ => (tell_heard hloop ..).trans (tell_heard hloop ..)
      · exact .refl n
    · exact .refl n
  · exact .refl n

theorem forget_heard {id : NodeId} (hu : ∀ p ∈ n.roster.get? id, ¬ p.Linked) :
    n.Via Move.Heard (n.forget id) := by
  unfold forget
  split
  · rename_i registry hr
    exact (Takes.forget hr hu).via trivial
  · exact .refl n

theorem carryOut_heard (hloop : loop.Heard) (n : Node) {e : RegistryEffect}
    (he : ∀ a, e = .register a → a.Readable) : n.Via Move.Heard (n.carryOut loop e) := by
  cases e with
  | register a => exact enroll_heard (he a rfl) n
  | broadcast id => exact introduce_heard hloop n id
  | send id c => exact tell_heard hloop n _ c
  | left id =>
    simp only [carryOut]
    split
    · exact .refl n
    · rename_i hu
      exact forget_heard fun p hp hl => hu ⟨p, hp, hl⟩

theorem serve_heard (hloop : loop.Heard) (hc : c.Heard) (n : Node) (source : NodeId) :
    n.Via Move.Heard (n.serve loop source c) := by
  unfold serve
  split
  · rename_i registry hr
    refine ((Takes.enter hr source c).via trivial).trans
      (Via.foldl _ fun n e he => carryOut_heard hloop n ?_)
    rintro a rfl
    rwa [Registry.eq_register_of_mem_request he] at hc
  · exact .refl n

theorem ask_heard (hloop : loop.Heard) (hc : c.Heard) (h : n.ask loop c = .ok m) :
    n.Via Move.Heard m := by
  unfold ask at h
  split at h
  · cases h
    exact serve_heard hloop hc ..
  · cases h
  · exact post_heard hloop h

theorem askIfPossible_heard (hloop : loop.Heard) (hc : c.Heard) (n : Node) :
    n.Via Move.Heard (n.askIfPossible loop c) := by
  unfold askIfPossible
  split
  · rename_i h
    exact ask_heard hloop hc h
  · exact .refl n

theorem subscribe_heard (hloop : loop.Heard) (h : n.subscribe loop name = .ok m) :
    n.Via Move.Heard m := by
  unfold subscribe at h
  split at h
  · cases h
  rename_i hv
  split at h
  · cases h
    exact .refl _
  · rename_i hw
    cases h
    refine (Takes.via (.want (Decidable.not_not.1 hv) hw) trivial).trans ?_
    unfold request
    dsimp only
    split
    · exact (reach_heard ..).trans (askIfPossible_heard hloop (c := .subscribe name) trivial _)
    · exact askIfPossible_heard hloop (c := .subscribe name) trivial _

theorem publish_heard (hloop : loop.Heard) {handle first : Handle}
    (h : n.publish loop name handle = .ok (first, m)) : n.Via Move.Heard m := by
  unfold publish at h
  split at h
  · cases h
  rename_i hv
  split at h
  · cases h
    exact .refl _
  · rename_i ho
    cases h
    exact (Takes.via (.offer (Decidable.not_not.1 hv) ho (Handle.node_withNode handle n.self))
      trivial).trans
        (askIfPossible_heard hloop (c := .publish name (handle.withNode n.self)) trivial _)

theorem obey_heard (hloop : loop.Heard) (hc : c.Heard) (n : Node) :
    n.Via Move.Heard (n.obey loop c) := by
  cases c with
  | register a => exact enroll_heard hc n
  | address a => exact noteAddress_heard hc n
  | broadcast id => exact introduce_heard hloop n id
  | unregister id => exact .refl n
  | heartbeat => exact .refl n
  | handle name handle => exact reach_heard n name handle
  | subscribe name =>
    simp only [obey]
    split
    · rename_i h
      exact subscribe_heard hloop h
    · exact .refl n
  | publish name handle =>
    simp only [obey]
    split
    · rename_i h
      exact publish_heard hloop h
    · exact .refl n
  | handles name handles =>
    have hbegin : n.Via Move.Heard (n.emit (.report (.batchBegin name))) :=
      Takes.via (.bracket ⟨name, .inl rfl⟩) trivial
    have hall := Via.foldl (n.emit (.report (.batchBegin name))) (l := handles) fun n handle _ =>
      reach_heard n name handle
    exact (hbegin.trans hall).trans (Takes.via (.bracket ⟨name, .inr rfl⟩) trivial)

theorem receiveWith_heard (hloop : loop.Heard) : Loopback.Heard (receiveWith loop) := by
  intro n f
  unfold receiveWith
  split
  · exact obey_heard hloop (Command.heard_of_parse (Routing.parse_of_classify (.inl ‹_›))) n
  · exact serve_heard hloop (Command.heard_of_parse (Routing.parse_of_classify (.inr ‹_›))) ..
  · exact Takes.via (.deliver _) trivial
  · exact .refl n

theorem receive_heard : Loopback.Heard receive :=
  receiveWith_heard (receiveWith_heard fun n _ => Via.refl n)

theorem lose_heard (n : Node) (conn : ConnId) : n.Via Move.Heard (n.lose conn) := by
  obtain ⟨-, h⟩ | hdrop | ⟨id, m, hlose, h⟩ := lose_cases n conn
  · rw [h]
    exact .refl n
  · exact hdrop.via trivial
  · rw [h]
    refine (hlose.via trivial).trans ?_
    split
    · exact forget_heard hlose.not_linked_of_lose
    · split
      · exact .refl m
      · exact askIfPossible_heard receive_heard (c := .unregister id) trivial m

theorem tick_heard (n : Node) : n.Via Move.Heard n.tick := by
  unfold tick
  dsimp only
  have hbeats := Via.foldl n (l := n.roster.due n.now (n.profile.heartbeatInterval * 1000))
    fun n (x : NodeId × Handle) _ => tell_heard receive_heard n x.2 .heartbeat
  refine hbeats.trans ?_
  split
  · exact .refl _
  · refine (rejoin_via _).mono ?_
    rintro _ rfl
    trivial

theorem call_heard (n : Node) (r : Request) : n.Via Move.Heard (n.call r).1 := by
  cases r with
  | tick => exact tick_heard n
  | send source dest kind payload =>
    simp only [call]
    split
    · rename_i h
      exact post_heard receive_heard h
    · exact .refl n
  | subscribe name =>
    simp only [call]
    split
    · rename_i h
      exact subscribe_heard receive_heard h
    · exact .refl n
  | publish name handle =>
    simp only [call]
    split
    · rename_i h
      exact publish_heard receive_heard h
    · exact .refl n

theorem finishHandshake_of_center (center : n.registry?.isSome) (result : Except Fault Handshake) :
    n.finishHandshake result = { n with handshakes := n.handshakes - 1 } := by
  unfold finishHandshake
  refine if_pos fun hw => ?_
  have hawaits : n.Awaits := hw
  simp [hawaits.not_center] at center

theorem step_heard (center : n.registry?.isSome) (e : Event) : n.Via Move.Heard (n.step e) := by
  cases e with
  | accept =>
    refine (accept_via n).mono ?_
    rintro _ (rfl | ⟨conn, rfl⟩) <;> trivial
  | link e =>
    cases e with
    | connected conn =>
      refine (connected_via n conn).mono ?_
      rintro _ ⟨id, rfl⟩
      trivial
    | frames conn frames => exact Via.foldl n fun n f _ => receive_heard n f
    | closed conn reason => exact lose_heard n conn
  | handshake result =>
    have hstep : n.step (.handshake result) = { n with handshakes := n.handshakes - 1 } :=
      finishHandshake_of_center center result
    rw [hstep]
    exact Takes.answered.via trivial
  | call r => exact call_heard n r
  | tick => exact tick_heard n
  | written conn => exact Takes.via (.write (f := fun l => l.drain.2) fun _ => rfl) trivial
  | stopped conn => exact Takes.via (.write (f := Link.stop) fun _ => rfl) trivial
  | install name moduleId => exact (Takes.tend n.now _).via trivial
  | uninstall name => exact (Takes.tend n.now _).via trivial
  | refusal =>
    simp only [step]
    split
    · exact .refl n
    · rename_i hr
      exact ((Takes.pardon hr).via trivial).trans (lose_heard ..)

section Start

variable {profile : Profile} {catalog : Catalog} {port : UInt16} {now : Nat}
  {result : Except Fault Handshake} {n₀ : Node}

/-- Whatever a center tells of another node can be read. -/
theorem legible_of_run (started : start profile catalog port now result = .ok n₀)
    (center : n₀.registry?.isSome) (events : List (Nat × Event)) : (n₀.run events).Legible := by
  induction events using List.reverseRecOn with
  | nil =>
    obtain rfl := eq_idle_of_start started center
    intro id p h hid hp hh
    obtain ⟨-, -, -, hblank⟩ := get?_idle hp
    rw [hblank hid] at hh
    cases hh
  | append_singleton before x ih =>
    obtain ⟨t, e⟩ := x
    have hvia := run_via n₀ before
    have hcenter : (Node.registry? (n₀.run before)).isSome := by rw [hvia.isSome_registry?, center]
    have htend : (n₀.run before).Via Move.Heard { n₀.run before with now := t } :=
      (Takes.tend t (n₀.run before).catalog).via trivial
    have hstep := htend.trans (step_heard (n := { n₀.run before with now := t }) hcenter e)
    rw [run_concat]
    exact hstep.legible (fun _ => id) hcenter ih

end Start

end Node

end Meshwork
