import Meshwork.Proofs.Announcement
import Meshwork.Proofs.Node.Linkage

/-!
# Nodes with nobody left to dial

Requests and the answers to them make nodes known to each other by the names of their modules only.
As long as each other node is linked or has no address they are handled by plain moves, which
introduce nobody and open no link: `Meshed.receive_via`, and `Meshed.step_via` for the events that
bring no frames.
-/

namespace Meshwork

def Keyword.IsPlain (k : Keyword) : Prop := k ≠ reg ∧ k ≠ addr ∧ k ≠ broadcast

instance (k : Keyword) : Decidable k.IsPlain := inferInstanceAs (Decidable (_ ∧ _))

def Arrival.IsPlain : Arrival → Prop
  | .control _ c | .request _ c => c.keyword.IsPlain
  | .deliver _ | .dropped => True

def RegistryEffect.IsPlain : RegistryEffect → Prop
  | .send _ c => c.keyword.IsPlain
  | .left _ => True
  | .register _ | .broadcast _ => False

def Event.IsPlain : Event → Prop
  | .tick | .call .tick | .link (.connected _) | .written _ | .stopped _ | .install ..
  | .uninstall _ => True
  | _ => False

namespace Move

def Settled : Move → Prop
  | .learn _ | .dial .. | .join .. | .release | .seek | .lose .. => False
  | _ => True

/-- The settled moves by which no link begins or ends, no refusal is taken up and nobody is
introduced. -/
def Plain : Move → Prop
  | .learn _ | .dial .. | .join .. | .release | .seek | .lose .. | .drop _ | .arrive _ | .pardon =>
    False
  | .queue _ _ frame => frame.introduced? = none
  | _ => True

theorem Plain.settled {a : Move} (h : a.Plain) : a.Settled := by
  cases a <;> trivial

end Move

theorem Registry.isPlain_of_request (r : Registry) (source : NodeId) {c : Command}
    (hc : c.keyword.IsPlain) :
    ∀ e ∈ (r.request source c).2, e.IsPlain := by
  have htell (name : String) (handles : List Handle) : (tell name handles).keyword.IsPlain := by
    have hhandle : Keyword.IsPlain .handle := by decide
    have hhandles : Keyword.IsPlain .handles := by decide
    unfold tell
    split
    · exact hhandle
    · exact hhandles
  cases c with
  | register a => exact absurd rfl hc.1
  | subscribe name => simp [request, subscribe, RegistryEffect.IsPlain, htell]
  | publish name handle =>
    rw [request, publish]
    split
    · simp
    · simp [RegistryEffect.IsPlain, Command.keyword, Keyword.IsPlain]
  | unregister id => simp [request, RegistryEffect.IsPlain]
  | _ => simp [request]

theorem Routing.isPlain_of_keyword? (r : Routing) {f : Frame} {k : Keyword}
    (hf : f.keyword? = some k) (hk : k.IsPlain) : (r.classify f).IsPlain := by
  have hparse {c : Command} (h : Command.parse f.payload = .ok c) : c.keyword.IsPlain := by
    rw [Frame.keyword?_of_parse h, Option.some.injEq] at hf
    rwa [hf]
  unfold classify
  split
  · trivial
  split
  · split
    · exact hparse ‹_›
    · trivial
  split
  · split
    · exact hparse ‹_›
    · trivial
  split <;> trivial

structure Peer.Keeps (q p : Peer) : Prop where
  liveLink? : p.liveLink? = q.liveLink?
  link : p.link = q.link
  address : p.address = q.address
  handle : p.handle = q.handle
  empty : q.state = .empty → p.state = .empty

namespace Node

variable {n m : Node} {a : Move} {loop : Loopback} {c : Command}

/-- There is nobody left to dial: each other node is linked or cannot be reached. -/
def Meshed (n : Node) : Prop :=
  ∀ id p, id ≠ n.self → n.roster.get? id = some p → p.Linked ∨ p.address.endpoint? = none

theorem Alters.keeps {id : NodeId} {q p : Peer} (h : n.Alters id q a p) (ha : a.Settled) :
    q.Keeps p := by
  cases h with
  | same | bind | queue => exact ⟨rfl, rfl, rfl, rfl, fun hempty => hempty⟩
  | establish state =>
    refine ⟨by simp [Peer.liveLink?, state], rfl, rfl, rfl, fun hempty => ?_⟩
    rw [state] at hempty
    cases hempty
  | _ => exact ha.elim

theorem Takes.meshed (h : n.Meshed) (ht : n.Takes a m) (ha : a.Settled) : m.Meshed := by
  intro id p hid hp
  obtain ⟨q, hq, halters⟩ := ht.alters hp
  have hkeeps := halters.keeps ha
  rw [Peer.Linked, hkeeps.liveLink?, hkeeps.address]
  exact h id q (ht.self_eq ▸ hid) hq

def PlainLoop (loop : Loopback) : Prop :=
  ∀ (n : Node) (f : Frame) (k : Keyword), n.Meshed → f.keyword? = some k → k.IsPlain →
    n.Via Move.Plain (loop n f)

theorem Via.meshed (h : n.Via Move.Plain m) (hn : n.Meshed) : m.Meshed :=
  h.keeps (fun _ _ _ hk ha ht => ht.meshed hk ha.settled) hn

namespace Meshed

theorem command_via (h : n.Meshed) (hloop : PlainLoop loop) (hc : c.keyword.IsPlain) {dest : Handle}
    (hs : n.command loop dest c = .ok m) : n.Via Move.Plain m := by
  have hkeyword {f : Frame} (hf : f.payload = c.payload) : f.keyword? = some c.keyword :=
    Frame.keyword?_eq hf
  unfold command post at hs
  split at hs
  · split at hs
    · cases hs
    · cases hs
      exact hloop _ _ _ h (hkeyword rfl) hc
  · obtain ⟨_, _, -, -, -, hqueue | hrefuse⟩ := sendOver_takes hs
    · refine hqueue.via (Frame.introduced?_eq_none ?_)
      rw [hkeyword rfl]
      exact fun heq => hc.2.1 (Option.some.inj heq)
    · exact hrefuse.via trivial

theorem tell_via (h : n.Meshed) (hloop : PlainLoop loop) (hc : c.keyword.IsPlain) (dest : Handle) :
    n.Via Move.Plain (n.tell loop dest c) := by
  unfold tell
  split
  · exact h.command_via hloop hc ‹_›
  · exact .refl n

theorem dial_eq (h : n.Meshed) {id : NodeId} (hid : id ≠ n.self) (hd : n.dial id = some m) :
    m = n := by
  obtain ⟨-, -, -, rfl⟩ | htakes := dial_eq_some hd
  · rfl
  · have hdial := htakes hid
    cases hdial with
    | dial _ hp hl _ he =>
      obtain hlinked | hnone := h id _ hid hp
      · exact absurd hlinked hl
      · rw [hnone] at he
        cases he

theorem reach_via (h : n.Meshed) (name : String) (handle : Handle) :
    n.Via Move.Plain (n.reach name handle) := by
  unfold reach
  simp only
  generalize (if handle.node.Assigned then handle.node else n.self) = id
  split
  · exact .refl n
  split
  · exact .refl n
  rename_i k hk
  obtain ⟨rfl, hreached⟩ : k = n ∧ (id = n.self ∨ ∃ p ∈ n.roster.get? id, p.Linked) := by
    split at hk
    · cases hk
      exact ⟨rfl, .inl ‹_›⟩
    · rename_i hself
      obtain rfl := h.dial_eq hself hk
      exact ⟨rfl, .inr (linked_of_dial hk hself)⟩
  split
  · rename_i hb
    have hbind := @Takes.bind k name (handle.withNode id) hb hreached
    exact (hbind _).via trivial
  · exact .refl k

theorem carryOut_via (h : n.Meshed) (hloop : PlainLoop loop) {e : RegistryEffect} (he : e.IsPlain) :
    n.Via Move.Plain (n.carryOut loop e) := by
  cases e with
  | register a => exact he.elim
  | broadcast id => exact he.elim
  | send id c => exact h.tell_via hloop he _
  | left id =>
    simp only [carryOut, forget]
    split
    · exact .refl n
    · rename_i hu
      split
      · rename_i registry hr
        exact (Takes.forget hr fun p hp hl => hu ⟨p, hp, hl⟩).via trivial
      · exact .refl n

theorem serve_via (h : n.Meshed) (hloop : PlainLoop loop) (source : NodeId)
    (hc : c.keyword.IsPlain) :
    n.Via Move.Plain (n.serve loop source c) := by
  unfold serve
  split
  · rename_i registry hr
    have henter := Takes.enter hr source c
    refine (henter.via trivial).trans (Via.foldl_of (fun _ _ _ hk ha ht => ht.meshed hk ha.settled)
      (henter.meshed h trivial) fun k hk e he => ?_)
    exact hk.carryOut_via hloop (registry.isPlain_of_request source hc e he)
  · exact .refl n

theorem askIfPossible_via (h : n.Meshed) (hloop : PlainLoop loop) (hc : c.keyword.IsPlain) :
    n.Via Move.Plain (n.askIfPossible loop c) := by
  unfold askIfPossible ask
  split
  · rename_i hask
    split at hask
    · cases hask
      exact h.serve_via hloop _ hc
    · cases hask
    · exact h.command_via hloop hc hask
  · exact .refl n

theorem request_via (h : n.Meshed) (hloop : PlainLoop loop) (name : String) :
    n.Via Move.Plain (n.request loop name) := by
  have hsub : Keyword.IsPlain .sub := by decide
  unfold request
  simp only
  split
  · have hreach := h.reach_via name ⟨n.self, ‹_›⟩
    exact hreach.trans ((hreach.meshed h).askIfPossible_via hloop hsub)
  · exact h.askIfPossible_via hloop hsub

theorem subscribe_via (h : n.Meshed) (hloop : PlainLoop loop) {name : String}
    (hs : n.subscribe loop name = .ok m) : n.Via Move.Plain m := by
  unfold Node.subscribe at hs
  split at hs
  · cases hs
  rename_i hv
  split at hs
  · cases hs
    exact .refl _
  rename_i hw
  cases hs
  have hwant := Takes.want (Decidable.not_not.1 hv) hw
  exact (hwant.via trivial).trans ((hwant.meshed h trivial).request_via hloop name)

theorem publish_via (h : n.Meshed) (hloop : PlainLoop loop) {name : String} {handle first : Handle}
    (hs : n.publish loop name handle = .ok (first, m)) : n.Via Move.Plain m := by
  unfold Node.publish at hs
  split at hs
  · cases hs
  rename_i hv
  split at hs
  · cases hs
    exact .refl _
  rename_i ho
  cases hs
  have hpub : Keyword.IsPlain .pub := by decide
  have hoffer := Takes.offer (Decidable.not_not.1 hv) ho (Handle.node_withNode handle n.self)
  exact (hoffer.via trivial).trans ((hoffer.meshed h trivial).askIfPossible_via hloop hpub)

theorem obey_via (h : n.Meshed) (hloop : PlainLoop loop) (hc : c.keyword.IsPlain) :
    n.Via Move.Plain (n.obey loop c) := by
  cases c with
  | register a => exact absurd rfl hc.1
  | address a => exact absurd rfl hc.2.1
  | broadcast id => exact absurd rfl hc.2.2
  | unregister id => exact .refl n
  | heartbeat => exact .refl n
  | handle name handle => exact h.reach_via name handle
  | subscribe name =>
    simp only [obey]
    split
    · exact h.subscribe_via hloop ‹_›
    · exact .refl n
  | publish name handle =>
    simp only [obey]
    split
    · exact h.publish_via hloop ‹_›
    · exact .refl n
  | handles name handles =>
    have hbegin : n.Takes (.bracket (.batchBegin name)) (n.emit (.report (.batchBegin name))) :=
      .bracket ⟨name, .inl rfl⟩
    have hall :=
      Via.foldl_of (P := Move.Plain) (l := handles) (f := fun n handle => n.reach name handle)
      (fun _ _ _ hk ha ht => ht.meshed hk ha.settled) (hbegin.meshed h trivial)
      fun _ hn handle _ => hn.reach_via name handle
    exact ((hbegin.via trivial).trans hall).trans (Takes.via (.bracket ⟨name, .inr rfl⟩) trivial)

theorem receiveWith_via (h : n.Meshed) (hloop : PlainLoop loop) {f : Frame}
    (hf : (n.routing.classify f).IsPlain) : n.Via Move.Plain (n.receiveWith loop f) := by
  unfold receiveWith
  split
  · rename_i hc
    rw [hc] at hf
    exact h.obey_via hloop hf
  · rename_i hc
    rw [hc] at hf
    exact h.serve_via hloop _ hf
  · exact Takes.via (.deliver _) trivial
  · exact .refl n

theorem receiveOwn_plain : PlainLoop receiveOwn := fun _ _ _ hn hf hk =>
  hn.receiveWith_via (fun n _ _ _ _ _ => .refl n) (Routing.isPlain_of_keyword? _ hf hk)

theorem receive_via (h : n.Meshed) {f : Frame} (hf : (n.routing.classify f).IsPlain) :
    n.Via Move.Plain (n.receive f) :=
  h.receiveWith_via receiveOwn_plain hf

theorem receive_plain : PlainLoop receive := fun _ _ _ hn hf hk =>
  hn.receive_via (Routing.isPlain_of_keyword? _ hf hk)

theorem tick_via (h : n.Meshed) (hcenter : n.registry?.isSome) : n.Via Move.Plain n.tick := by
  have hbeats :=
    Via.foldl_of (P := Move.Plain) (l := n.roster.due n.now (n.profile.heartbeatInterval * 1000))
    (f := fun n (x : NodeId × Handle) => n.tell receive x.2 .heartbeat)
    (fun _ _ _ hk ha ht => ht.meshed hk ha.settled) h fun _ hn x _ =>
      hn.tell_via receive_plain (by decide) x.2
  have hcenter' := hbeats.keeps (I := fun k => k.registry?.isSome)
    (fun _ _ _ hk _ ht => ht.isSome_registry?.trans hk) hcenter
  unfold tick
  dsimp only
  split
  · exact hbeats
  · exact absurd hcenter' ‹_›

theorem step_via (h : n.Meshed) (hcenter : n.registry?.isSome) {e : Event} (he : e.IsPlain) :
    n.Via Move.Plain (n.step e) := by
  cases e with
  | tick => exact h.tick_via hcenter
  | written conn => exact Takes.via (.write (f := fun l => l.drain.2) fun _ => rfl) trivial
  | stopped conn => exact Takes.via (.write (f := Link.stop) fun _ => rfl) trivial
  | install name moduleId => exact (Takes.tend n.now _).via trivial
  | uninstall name => exact (Takes.tend n.now _).via trivial
  | call r =>
    cases r with
    | tick => exact h.tick_via hcenter
    | _ => exact he.elim
  | link e =>
    cases e with
    | connected conn =>
      refine (connected_via n conn).mono ?_
      rintro _ ⟨id, rfl⟩
      trivial
    | _ => exact he.elim
  | _ => exact he.elim

end Meshed

end Node

end Meshwork
