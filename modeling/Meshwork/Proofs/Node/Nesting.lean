import Mathlib.Logic.Function.Iterate
import Meshwork.Proofs.Node.Announced
import Meshwork.Proofs.Node.Directory

/-!
# Frames within frames

While a node handles a frame it may send frames to itself, which it handles before it goes on. Main
statement: `nested_of_path`, this ends, whatever the state and the frame: what a node sends to
itself are notices, and a notice makes it send nothing to itself.
-/

namespace Meshwork

/-- The handling ends, whatever comes of the frames that the node sends to itself on the way: there
are finitely many of them, one after the other, all of a kind. -/
inductive Ends (P : Node → Frame → Prop) : (handling : Loopback → Node) → Prop where
  | done (n : Node) : Ends P fun _ => n
  | enter {n : Node} {f : Frame} {g : Node → Loopback → Node} (sent : P n f)
      (next : ∀ m, Ends P (g m)) : Ends P fun loop => g (loop n f) loop

abbrev EndsAlone (handling : Loopback → Node) : Prop := Ends (fun _ _ => False) handling

namespace Ends

variable {P : Node → Frame → Prop} {handling : Loopback → Node} {loop loop' : Loopback}

theorem bind {g : Node → Loopback → Node} (h : Ends P handling) (hg : ∀ n, Ends P (g n)) :
    Ends P fun loop => g (handling loop) loop := by
  induction h with
  | done n => exact hg n
  | @enter n f k sent _ ih => exact .enter (g := fun m loop => g (k m loop) loop) sent ih

theorem foldl {α : Type} {g : Loopback → Node → α → Node} {l : List α} (n : Node)
    (h : ∀ n, ∀ x ∈ l, Ends P fun loop => g loop n x) : Ends P fun loop => l.foldl (g loop) n := by
  induction l generalizing n with
  | nil => exact .done n
  | cons x rest ih =>
    exact (h n x (List.mem_cons_self ..)).bind (g := fun m loop => rest.foldl (g loop) m) fun m =>
      ih m fun n y hy => h n y (List.mem_cons_of_mem x hy)

theorem eq_of_agree (h : Ends P handling) (hagree : ∀ n f, P n f → loop n f = loop' n f) :
    handling loop = handling loop' := by
  induction h with
  | done n => rfl
  | @enter n f g sent _ ih =>
    have hsame : loop n f = loop' n f := hagree n f sent
    simp only [hsame, ih]

end Ends

theorem EndsAlone.eq {handling : Loopback → Node} (h : EndsAlone handling) (loop loop' : Loopback) :
    handling loop = handling loop' :=
  Ends.eq_of_agree h fun _ _ => False.elim

namespace Node

variable {n : Node} {c : Command} {f : Frame}

/-- The frame is a notice from the mesh endpoint of the node to a module of the node. -/
def Notifies (n : Node) (f : Frame) : Prop :=
  ∃ (dest : Handle) (c : Command),
    n.routing.destination dest = .here dest.moduleId ∧ c.keyword.IsNotice ∧ f = c.frame n.self dest

def Murmurs (n : Node) (f : Frame) : Prop := n.Notifies f ∧ EndsAlone (n.receiveWith · f)

theorem endsAlone_obey (n : Node) (hc : c.keyword.IsNotice) : EndsAlone (n.obey · c) := by
  cases c with
  | address a => exact .done _
  | handle name handle => exact .done _
  | handles name handles => exact .done _
  | heartbeat => exact .done n
  | _ => simp [Command.keyword, Keyword.IsNotice] at hc

theorem endsAlone_receiveWith (n : Node) {k : Keyword} (hf : f.keyword? = some k)
    (hk : k.IsNotice) :
    EndsAlone (n.receiveWith · f) := by
  cases hc : n.routing.classify f with
  | control source c =>
    simp only [receiveWith, hc]
    exact endsAlone_obey n (isNotice_of_classify hf hk (.inl hc))
  | request source c =>
    simp only [receiveWith, hc, serve_notice n _ (isNotice_of_classify hf hk (.inr hc))]
    exact .done n
  | deliver d =>
    simp only [receiveWith, hc]
    exact .done _
  | dropped =>
    simp only [receiveWith, hc]
    exact .done n

theorem Notifies.murmurs (h : n.Notifies f) : n.Murmurs f := by
  refine ⟨h, ?_⟩
  obtain ⟨dest, c, -, hc, rfl⟩ := h
  exact endsAlone_receiveWith n (Frame.keyword?_eq rfl) hc

theorem ends_tell (n : Node) (dest : Handle) (hc : c.keyword.IsNotice) :
    Ends Murmurs fun loop => n.tell loop dest c := by
  cases hdest : n.routing.destination dest with
  | node id =>
    simp only [tell, command, post, hdest]
    exact .done _
  | here moduleId =>
    by_cases hlong : n.wire.maxPayload < c.payload.length
    · simp only [tell, command, post, hdest, if_pos hlong]
      exact .done n
    · have hid : moduleId = dest.moduleId := by
        unfold Routing.destination at hdest
        split at hdest
        · cases hdest
        · exact (Destination.here.inj hdest).symm
      have hsent : n.Notifies (c.frame n.self dest) := ⟨dest, c, hid ▸ hdest, hc, rfl⟩
      simp only [tell, command, post, hdest, if_neg hlong]
      exact .enter (g := fun m _ => m) hsent.murmurs .done

theorem ends_introduce (n : Node) (id : NodeId) : Ends Murmurs fun loop => n.introduce loop id := by
  cases hr : n.role with
  | member center =>
    simp only [introduce, hr]
    exact .done n
  | center r =>
    cases hp : n.roster.get? id with
    | none =>
      simp only [introduce, hr, hp]
      exact .done n
    | some peer =>
      cases hh : peer.handle with
      | none =>
        simp only [introduce, hr, hp, hh]
        exact .done n
      | some handle =>
        by_cases hl : peer.Linked
        · simp only [introduce, hr, hp, hh, if_pos hl]
          exact Ends.foldl n fun k other _ => (ends_tell k other.handle (.inl rfl)).bind
            (g := fun m loop => m.tell loop handle (.address other)) fun m =>
              ends_tell m handle (.inl rfl)
        · simp only [introduce, hr, hp, hh, if_neg hl]
          exact .done n

theorem ends_carryOut (n : Node) {e : RegistryEffect} (he : e.IsNotice) :
    Ends Murmurs fun loop => n.carryOut loop e := by
  cases e with
  | register a => exact .done _
  | broadcast id => exact ends_introduce n id
  | send id c => exact ends_tell n _ he
  | left id => exact he.elim

theorem ends_serve (n : Node) (source : NodeId) (c : Command) :
    Ends Murmurs fun loop => n.serve loop source c := by
  by_cases hleave : ∃ id, c = .unregister id
  · obtain ⟨id, rfl⟩ := hleave
    simp only [serve_unregister]
    exact .done _
  · cases hr : n.role with
    | member center =>
      simp only [serve, hr]
      exact .done n
    | center r =>
      simp only [serve, hr]
      exact Ends.foldl _ fun k e he =>
        ends_carryOut k (Registry.isNotice_of_request (fun id h => hleave ⟨id, h⟩) e he)

theorem Ordered.ends_askIfPossible (ho : n.Ordered) (c : Command) :
    Ends Murmurs fun loop => n.askIfPossible loop c := by
  cases hr : n.role with
  | center r =>
    simp only [askIfPossible, ask, hr]
    exact ends_serve n n.self c
  | member center =>
    have hm : n.Member := ⟨ho, by simp [hr, registry?]⟩
    simp only [askIfPossible, hm.ask_eq]
    exact .done _

theorem Ordered.ends_request (ho : n.Ordered) (name : String) :
    Ends Murmurs fun loop => n.request loop name := by
  cases hname : n.catalog.find? name with
  | none =>
    simp only [request, hname]
    exact ho.ends_askIfPossible _
  | some moduleId =>
    have ho' : (n.reach name ⟨n.self, moduleId⟩).Ordered :=
      (reach_via n name ⟨n.self, moduleId⟩).ordered ho
    simp only [request, hname]
    exact ho'.ends_askIfPossible _

theorem Ordered.ends_obey (ho : n.Ordered) (c : Command) :
    Ends Murmurs fun loop => n.obey loop c := by
  cases c with
  | register a => exact .done _
  | address a => exact .done _
  | broadcast id => exact ends_introduce n id
  | unregister id => exact .done n
  | handle name handle => exact .done _
  | handles name handles => exact .done _
  | heartbeat => exact .done n
  | subscribe name =>
    by_cases hnew : ValidName name ∧ ¬ n.interests.Wants name
    · simp only [obey, subscribe, hnew.1, hnew.2, not_true_eq_false, if_false]
      exact ((Takes.want hnew.1 hnew.2).ordered ho).ends_request name
    · by_cases hv : ValidName name
      · have hw : n.interests.Wants name := by simpa [hv] using hnew
        simp only [obey, subscribe, hv, hw, not_true_eq_false, if_false, if_true]
        exact .done n
      · simp only [obey, subscribe, hv, not_false_eq_true, if_true]
        exact .done n
  | publish name handle =>
    by_cases hv : ValidName name
    · cases hoffered : n.interests.offered? name with
      | some first =>
        simp only [obey, publish, hv, hoffered, not_true_eq_false, if_false]
        exact .done n
      | none =>
        have htakes := Takes.offer hv hoffered (handle.node_withNode n.self)
        simp only [obey, publish, hv, hoffered, not_true_eq_false, if_false]
        exact (htakes.ordered ho).ends_askIfPossible _
    · simp only [obey, publish, hv, not_false_eq_true, if_true]
      exact .done n

theorem Ordered.ends_receiveWith (ho : n.Ordered) (f : Frame) :
    Ends Murmurs (n.receiveWith · f) := by
  cases hc : n.routing.classify f with
  | control source c =>
    simp only [receiveWith, hc]
    exact ho.ends_obey c
  | request source c =>
    simp only [receiveWith, hc]
    exact ends_serve n source.node c
  | deliver d =>
    simp only [receiveWith, hc]
    exact .done _
  | dropped =>
    simp only [receiveWith, hc]
    exact .done n

/-- What is done two levels down does not matter, since nothing is sent there. -/
theorem eq_of_cut {handling : Loopback → Node} (h : Ends Murmurs handling) (loop loop' : Loopback) :
    handling (receiveWith loop) = handling (receiveWith loop') :=
  h.eq_of_agree fun _ _ hsent => hsent.2.eq loop loop'

/-- How the handling of a frame ends. -/
structure Nested (n : Node) (f : Frame) : Prop where
  /-- What the node sends to itself on the way are notices, and the handling of each of them ends
  with nothing sent to itself. -/
  ends : Ends (fun k g => k.Notifies g ∧ EndsAlone (k.receiveWith · g)) (n.receiveWith · f)
  /-- Wherever the nesting is cut off below the first level, the result is the same. -/
  unrolled : ∀ (depth : Nat) (loop : Loopback), receiveWith^[depth + 2] loop n f = n.receive f
  receive_eq : n.receive f = n.receiveWith receive f

section Start

variable {profile : Profile} {catalog : Catalog} {port : UInt16} {now : Nat}
  {result : Except Fault Handshake}
  {n₀ : Node} {moves : List Move}

/-- In each state that a node comes to, the handling of each frame ends, at most one level deep. -/
theorem nested_of_path (started : start profile catalog port now result = .ok n₀)
    (events : List (Nat × Event)) (path : (n₀.run events).Path moves n) (f : Frame) :
    Nested n f := by
  have ho : n.Ordered := path.ordered (ordered_of_run started events)
  have hends := ho.ends_receiveWith f
  refine ⟨hends, fun depth loop => ?_, ?_⟩
  · rw [Function.iterate_succ_apply', Function.iterate_succ_apply']
    exact eq_of_cut hends _ _
  · exact eq_of_cut hends _ _

/-- Somebody subscribes in the name of the center, which answers itself, and it matters what becomes
of that. -/
theorem nested_of_path_self :
    ∃ n₀ f, start {} {} 7100 0 (.error .closed) = .ok n₀ ∧ Nested n₀ f ∧
      ∃ loop loop', n₀.receiveWith loop f ≠ n₀.receiveWith loop' f := by
  have started : start {} {} 7100 0 (.error .closed) = .ok (idle {} {} 7100 0) := rfl
  have hrole : (idle {} {} 7100 0).role = .center {} := rfl
  have hself : (idle {} {} 7100 0).self = ⟨1⟩ := rfl
  have hlimit : (idle {} {} 7100 0).wire.maxPayload = payloadLimit := by decide +kernel
  generalize idle {} {} 7100 0 = n₀ at started hrole hself hlimit
  obtain ⟨f, hf⟩ : ∃ f, f = (Command.subscribe "lamp").frame ⟨1⟩ ⟨⟨1⟩, centerModule⟩ := ⟨_, rfl⟩
  have hclassify : n₀.routing.classify f = .request ⟨⟨1⟩, meshModule⟩ (.subscribe "lamp") := by
    have hparse : Command.parse (Command.subscribe "lamp").payload = .ok (.subscribe "lamp") := by
      decide +kernel
    have hr : n₀.routing.isCenter = true := by simp [routing, registry?, hrole]
    have hsame : n₀.routing.self = ⟨1⟩ := hself
    have hframe := Routing.classify_frame hr (.subscribe "lamp") ⟨1⟩
    rw [hsame, hparse] at hframe
    rw [hf, hframe]
  have hshort : ¬ payloadLimit < (Command.handles "lamp" []).payload.length := by decide +kernel
  have hreceive (loop : Loopback) : n₀.receiveWith loop f =
      loop { n₀ with role := .center (({} : Registry).request ⟨1⟩ (.subscribe "lamp")).1 }
        ((Command.handles "lamp" []).frame ⟨1⟩ ⟨⟨1⟩, meshModule⟩) := by
    have hanswer :
        (({} : Registry).request ⟨1⟩ (.subscribe "lamp")).2 = [.send ⟨1⟩ (.handles "lamp" [])] :=
      rfl
    obtain ⟨m, hm⟩ :
        ∃ m, m = { n₀ with role := .center (({} : Registry).request ⟨1⟩ (.subscribe "lamp")).1 } :=
      ⟨_, rfl⟩
    have hid : m.self = ⟨1⟩ := by rw [hm]; exact hself
    have hhere : m.routing.destination ⟨⟨1⟩, meshModule⟩ = .here meshModule :=
      if_neg fun h => h.2 hid.symm
    have hmlimit : m.wire.maxPayload = payloadLimit := by rw [hm]; exact hlimit
    simp only [receiveWith, hclassify, serve, hrole, hanswer, List.foldl_cons, List.foldl_nil,
      carryOut, ← hm, tell, command, post, hhere, hmlimit, hshort, if_false, meshHandle, hid,
      Command.frame]
    rfl
  refine ⟨n₀, f, started, nested_of_path started [] (.nil _) f, fun n _ => n,
    fun n _ => { n with now := n.now + 1 }, ?_⟩
  rw [hreceive, hreceive]
  intro h
  exact absurd (congrArg Node.now h) (by simp)

end Start

end Node

end Meshwork
