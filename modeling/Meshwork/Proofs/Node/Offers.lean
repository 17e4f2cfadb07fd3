import Meshwork.Proofs.Node.Directory
import Meshwork.Proofs.Node.Handshake
import Meshwork.Proofs.Node.Introductions
import Meshwork.Proofs.Publication
import Meshwork.Proofs.RoundTrip

/-!
# What a node tells of the names that it publishes

Main statement: `Ordered.offers_stepAt`, at each event a node remembers what it is called for,
whatever its role is, and the frames in which it publishes a name have the handle that it remembers.
-/

namespace Meshwork

/-- What the frame tells of a name is what the name is offered with. -/
def Frame.Vouched (f : Frame) (i : Interests) : Prop :=
  ∀ name handle, Command.parse f.payload = .ok (.publish name handle) →
    i.offered? name = some handle

def Command.Vouched (c : Command) (i : Interests) : Prop :=
  ∀ name handle, c = .publish name handle → ValidName name ∧ i.offered? name = some handle

theorem Frame.vouched_of_keyword? {f : Frame} (hf : f.keyword? ≠ some .pub) (i : Interests) :
    f.Vouched i :=
  fun _ _ hparse => absurd (Frame.keyword?_of_parse hparse) hf

theorem Command.Vouched.frame {c : Command} {i : Interests} (hc : c.Vouched i) (self : NodeId)
    (directory : Handle) : (c.frame self directory).Vouched i := by
  intro name handle hparse
  have hkeyword : c.keyword = .pub := by
    have hread := Frame.keyword?_of_parse hparse
    rw [Frame.keyword?_eq rfl, Option.some.injEq] at hread
    exact hread
  cases c with
  | publish name' handle' =>
    obtain ⟨hv, hoffered⟩ := hc name' handle' rfl
    have hpayload :
        Command.parse (Command.publish name' handle').payload = .ok (.publish name' handle') :=
      (Command.representable_of_validName rfl hv).parse_payload
    have hsame :
        Command.parse (Command.publish name' handle').payload = .ok (.publish name handle) := hparse
    rw [hpayload, Except.ok.injEq] at hsame
    cases hsame
    exact hoffered
  | _ => cases hkeyword

theorem Greeting.keyword?_frame (id : NodeId) : (Greeting.frame id).keyword? = none := by
  have hhead : (Text.words (Greeting.ofCenter id).text).head? =
      some (Numeral.decimal (Greeting.ofCenter id).center.number) :=
    Text.head?_words_unwords (Numeral.isWord_decimal _) _
  simp [Frame.keyword?, Greeting.frame, Frame.ofText, Text.ofUtf8?_utf8, hhead,
    Numeral.ofText?_decimal]

def Move.Mute : Move → Prop
  | .want _ | .offer .. => False
  | .queue _ _ frame => frame.keyword? ≠ some .pub
  | _ => True

theorem Move.telling_mute : Telling Mute where
  meets a h := by cases a <;> trivial
  notice _ _ _ k hf hk := by
    rw [Mute, hf, ne_eq, Option.some.injEq]
    rintro rfl
    exact absurd hk (by decide)
  refuse _ _ := trivial
  deliver _ := trivial
  bracket _ := trivial

namespace Node

variable {n m k : Node} {a : Move} {loop : Loopback} {c : Command} {f : Frame} {e : Event}
  {calls more : List Command}
  {name : String} {handle : Handle} {P : Move → Prop}

/-- From `n` to `m` the node takes calls: it remembers what is new to it, and the frames that it
queues vouch. -/
structure Offers (n : Node) (calls : List Command) (m : Node) : Prop where
  via : n.Via (fun _ => True) m
  interests : m.interests = n.interests.after n.self calls
  queued : ∃ es, m.effects = n.effects ++ es ∧ ∀ conn f, .queued conn f ∈ es → f.Vouched m.interests

theorem Takes.exists_queued (ht : n.Takes a m) :
    ∃ es, m.effects = n.effects ++ es ∧ ∀ conn f, .queued conn f ∈ es →
      (∃ id, a = .queue id conn f) ∨ f.keyword? = none := by
  cases ht with
  | @queue id => exact ⟨_, rfl, fun conn f h => .inl ⟨id, by simpa [eq_comm, and_comm] using h⟩⟩
  | arrive _ _ _ hg =>
    refine ⟨_, rfl, fun conn f h => .inr ?_⟩
    obtain rfl | ⟨-, rfl⟩ := hg
    · simp at h
    · obtain ⟨-, rfl⟩ : conn = _ ∧ f = Greeting.frame n.self := by simpa using h
      exact Greeting.keyword?_frame _
  | deliver | bracket | bind | dial | join | seek | lose =>
    exact ⟨_, rfl, fun _ _ h => by simp at h⟩
  | _ => exact ⟨[], (List.append_nil _).symm, nofun⟩

namespace Offers

theorem of_via (h : n.Via P m) (hP : ∀ a, P a → ¬ a.Remembers)
    (hqueue : ∀ id conn f, P (.queue id conn f) → f.Vouched n.interests) : n.Offers [] m := by
  have hi : m.interests = n.interests := h.interests_eq hP
  refine ⟨h.mono fun _ _ => trivial, hi, ?_⟩
  rw [hi]
  refine h.keeps (I := fun k => ∃ es, k.effects = n.effects ++ es ∧
    ∀ conn f, .queued conn f ∈ es → f.Vouched n.interests) (fun k a l hk ha ht => ?_) ⟨[], by simp⟩
  obtain ⟨es, he, hes⟩ := hk
  obtain ⟨es', he', hes'⟩ := ht.exists_queued
  refine ⟨es ++ es', by rw [he', he, List.append_assoc], fun conn f hmem => ?_⟩
  obtain hmem | hmem := List.mem_append.1 hmem
  · exact hes conn f hmem
  · obtain ⟨id, rfl⟩ | hnone := hes' conn f hmem
    · exact hqueue id conn f ha
    · exact Frame.vouched_of_keyword? (by simp [hnone]) _

theorem of_mute (h : n.Via Move.Mute m) : n.Offers [] m :=
  of_via h (fun a ha => by cases a <;> first | exact id | exact ha.elim)
    fun _ _ _ hmute => Frame.vouched_of_keyword? hmute _

theorem of_requests (h : n.Via (Move.Requests n.self c) m) (hc : c.Vouched n.interests) :
    n.Offers [] m := by
  refine of_via h (fun a ha => by cases a <;> first | exact id | exact ha.elim) ?_
  rintro id conn _ ⟨directory, rfl⟩
  exact hc.frame n.self directory

theorem refl (n : Node) : n.Offers [] n := of_mute (.refl n)

theorem vouched (h : n.Offers calls m) (hf : f.Vouched n.interests) : f.Vouched m.interests := by
  intro name handle hparse
  rw [h.interests]
  exact Interests.offered?_after_of_some _ _ (hf name handle hparse)

theorem trans (h : n.Offers calls m) (h' : m.Offers more k) : n.Offers (calls ++ more) k where
  via := h.via.trans h'.via
  interests := by rw [h'.interests, h.interests, h.via.self_eq, Interests.after_append]
  queued := by
    obtain ⟨es, he, hes⟩ := h.queued
    obtain ⟨es', he', hes'⟩ := h'.queued
    refine ⟨es ++ es', by rw [he', he, List.append_assoc], fun conn f hmem => ?_⟩
    obtain hmem | hmem := List.mem_append.1 hmem
    · exact h'.vouched (hes conn f hmem)
    · exact hes' conn f hmem

theorem of_old (h : n.interests.news? n.self c = none) : n.Offers [c] n := by
  refine ⟨.refl n, ?_, ⟨[], by simp⟩⟩
  rw [Interests.after_cons, h]
  rfl

theorem of_new {d : Command} (h : n.interests.news? n.self c = some d)
    (ht : n.Takes a { n with interests := n.interests.remember d })
    (hd : Offers { n with interests := n.interests.remember d } [] m) : n.Offers [c] m := by
  refine ⟨(ht.via trivial).trans hd.via, ?_, hd.queued⟩
  rw [Interests.after_cons, h]
  exact hd.interests

end Offers

theorem forget_mute {id : NodeId} (hu : ∀ p ∈ n.roster.get? id, ¬ p.Linked) :
    n.Via Move.Mute (n.forget id) := by
  unfold forget
  split
  · rename_i registry hr
    exact (Takes.forget hr hu).via trivial
  · exact .refl n

theorem serve_mute (hloop : NoticeLoop Move.Mute loop) (n : Node) (source : NodeId) (c : Command) :
    n.Via Move.Mute (n.serve loop source c) := by
  by_cases hleave : ∃ id, c = .unregister id
  · obtain ⟨id, rfl⟩ := hleave
    rw [serve_unregister]
    split
    · exact .refl n
    · rename_i hu
      exact forget_mute fun p hp hl => hu ⟨p, hp, hl⟩
  · unfold serve
    split
    · rename_i registry hr
      exact ((Takes.enter hr source c).via trivial).trans (Via.foldl _ fun k e he =>
        carryOut_telling Move.telling_mute hloop k
          (Registry.isNotice_of_request (fun id h => hleave ⟨id, h⟩) e he))
    · exact .refl n

theorem Ordered.offers_askIfPossible (ho : n.Ordered) (hloop : NoticeLoop Move.Mute loop)
    (hc : c.Vouched n.interests) : n.Offers [] (n.askIfPossible loop c) := by
  cases hr : n.role with
  | center r =>
    have hserve : n.askIfPossible loop c = n.serve loop n.self c := by
      simp only [askIfPossible, ask, hr]
    rw [hserve]
    exact .of_mute (serve_mute hloop n n.self c)
  | member center =>
    have hm : n.Member := ⟨ho, by simp [hr, registry?]⟩
    exact .of_requests (hm.askIfPossible_requests loop c) hc

theorem Ordered.offers_request (ho : n.Ordered) (hloop : NoticeLoop Move.Mute loop)
    (name : String) :
    n.Offers [] (n.request loop name) := by
  unfold request
  dsimp only
  split
  · have hreach := reach_via n name ⟨n.self, ‹_›⟩
    have ho' := hreach.ordered ho
    exact (Offers.of_mute (hreach.mono fun a ha => Move.telling_mute.meets a ha.1)).trans
      (ho'.offers_askIfPossible hloop nofun)
  · exact ho.offers_askIfPossible hloop nofun

theorem Ordered.offers_subscribe (ho : n.Ordered) (hloop : NoticeLoop Move.Mute loop)
    (name : String) :
    n.Offers [.subscribe name]
      (match n.subscribe loop name with
      | .ok m => m
      | .error _ => n) := by
  obtain ⟨hold, he | he⟩ | ⟨hv, hw, he⟩ := subscribe_cases n loop name
  · rw [he]
    exact .of_old hold
  · rw [he]
    exact .of_old hold
  · rw [he]
    have hwant := Takes.want hv hw
    exact .of_new (if_pos ⟨hv, hw⟩) hwant ((hwant.ordered ho).offers_request hloop name)

theorem Ordered.offers_publish (ho : n.Ordered) (hloop : NoticeLoop Move.Mute loop) (name : String)
    (handle : Handle) :
    n.Offers [.publish name handle]
      (match n.publish loop name handle with
      | .ok (_, m) => m
      | .error _ => n) := by
  obtain ⟨hold, he | ⟨first, he⟩⟩ | ⟨hv, hnone, he⟩ := publish_cases n loop name handle
  · rw [he]
    exact .of_old hold
  · rw [he]
    exact .of_old hold
  · rw [he]
    have hoffer := Takes.offer hv hnone (handle.node_withNode n.self)
    refine .of_new (if_pos ⟨hv, hnone⟩) hoffer ((hoffer.ordered ho).offers_askIfPossible hloop ?_)
    intro name' handle' heq
    cases heq
    exact ⟨hv, by rw [← Interests.remember, Interests.offered?_remember_publish hnone, if_pos rfl]⟩

theorem Ordered.offers_receiveWith (ho : n.Ordered) (hloop : NoticeLoop Move.Mute loop)
    (f : Frame) :
    n.Offers (f.call? n.routing).toList (n.receiveWith loop f) := by
  cases hf : n.routing.classify f with
  | control source c =>
    simp only [receiveWith, hf]
    cases hc : c.topic? with
    | none =>
      have hnone : f.call? n.routing = none := by
        cases c with
        | subscribe | publish => cases hc
        | _ => simp [Frame.call?, hf]
      rw [hnone]
      exact .of_mute (obey_telling Move.telling_mute n hc fun _ _ => hloop)
    | some topic =>
      cases c with
      | subscribe name =>
        have hcall : f.call? n.routing = some (.subscribe name) := by simp [Frame.call?, hf]
        rw [hcall]
        exact ho.offers_subscribe hloop name
      | publish name handle =>
        have hcall : f.call? n.routing = some (.publish name handle) := by simp [Frame.call?, hf]
        rw [hcall]
        exact ho.offers_publish hloop name handle
      | _ => cases hc
  | request source c =>
    have hnone : f.call? n.routing = none := by simp [Frame.call?, hf]
    simp only [receiveWith, hf, hnone]
    exact .of_mute (serve_mute hloop n source.node c)
  | deliver d =>
    have hnone : f.call? n.routing = none := by simp [Frame.call?, hf]
    simp only [receiveWith, hf, hnone]
    exact .of_mute (Takes.via (.deliver d) trivial)
  | dropped =>
    have hnone : f.call? n.routing = none := by simp [Frame.call?, hf]
    simp only [receiveWith, hf, hnone]
    exact .refl n

theorem Ordered.offers_receive (ho : n.Ordered) (f : Frame) :
    n.Offers (f.call? n.routing).toList (n.receive f) :=
  ho.offers_receiveWith (receiveWith_telling Move.telling_mute _) f

theorem Ordered.offers_frames (ho : n.Ordered) (frames : List Frame) :
    n.Offers (frames.filterMap (·.call? n.routing)) (frames.foldl receive n) := by
  induction frames generalizing n with
  | nil => exact .refl n
  | cons f rest ih =>
    have hfirst := ho.offers_receive f
    have hrest := ih (hfirst.via.ordered ho)
    rw [hfirst.via.routing_eq] at hrest
    have hall := hfirst.trans hrest
    cases hf : f.call? n.routing with
    | none => simpa [hf] using hall
    | some c => simpa [hf] using hall

/-- A name that is offered is valid, and offered with one handle only. -/
def OffersOne (n : Node) : Prop :=
  ∀ name handle, (name, handle) ∈ n.interests.offered →
    ValidName name ∧ n.interests.offered? name = some handle

theorem Takes.offersOne (hn : n.OffersOne) (ht : n.Takes a m) : m.OffersOne := by
  cases ht with
  | want hv hw =>
    simp only [Interests.want, if_neg hw]
    exact hn
  | @offer name handle hv hnone =>
    have hlookup (name' : String) : (n.interests.offer name handle).offered? name' =
        if name' = name then some handle else n.interests.offered? name' :=
      Interests.offered?_remember_publish hnone name'
    intro name' handle' hmem
    simp only [Interests.offer, hnone, Option.isSome_none, Bool.false_eq_true, if_false,
      List.mem_append, List.mem_singleton] at hmem
    obtain hmem | heq := hmem
    · obtain ⟨hv', hoffered⟩ := hn name' handle' hmem
      refine ⟨hv', (hlookup name').trans ?_⟩
      rw [if_neg, hoffered]
      rintro rfl
      rw [hnone] at hoffered
      cases hoffered
    · cases heq
      exact ⟨hv, (hlookup _).trans (if_pos rfl)⟩
  | _ => exact hn

theorem Via.offersOne (hn : n.OffersOne) (hv : n.Via P m) : m.OffersOne :=
  hv.keeps (fun _ _ _ hk _ ht => ht.offersOne hk) hn

theorem OffersOne.vouched (hn : n.OffersOne) (hc : c ∈ n.interests.requests) :
    c.Vouched n.interests := by
  rintro name handle rfl
  exact hn name handle (by simpa [Interests.requests] using hc)

theorem Ordered.offers_lose (ho : n.Ordered) (conn : ConnId) : n.Offers [] (n.lose conn) := by
  obtain ⟨-, he⟩ | hdrop | ⟨id, m, hlose, he⟩ := lose_cases n conn
  · rw [he]
    exact .refl n
  · exact .of_mute (hdrop.via trivial)
  · have hfirst : n.Offers [] m := .of_mute (hlose.via trivial)
    rw [he]
    split
    · exact hfirst.trans (.of_mute (forget_mute hlose.not_linked_of_lose))
    · split
      · exact hfirst
      · exact hfirst.trans ((hlose.ordered ho).offers_askIfPossible
          (receiveWith_telling Move.telling_mute _) nofun)

theorem offers_tick (n : Node) : n.Offers [] n.tick :=
  .of_mute (tick_telling Move.telling_mute trivial n)

theorem Member.offers_replay (hm : n.Member) {cs : List Command}
    (hcs : ∀ c ∈ cs, c.Vouched n.interests) :
    n.Offers [] (cs.foldl repeatRequest n) := by
  induction cs generalizing n with
  | nil => exact .refl n
  | cons c rest ih =>
    rw [List.forall_mem_cons] at hcs
    have hvia := hm.repeatRequest_requests c
    have hfirst : n.Offers [] (n.repeatRequest c) := .of_requests hvia hcs.1
    refine hfirst.trans (ih (hvia.member hm) fun d hd => ?_)
    rw [hm.interests_repeatRequest]
    exact hcs.2 d hd

theorem Member.offers_register (hm : n.Member) :
    n.Offers [] (n.askIfPossible receive (.register n.announcement)) :=
  .of_requests (hm.askIfPossible_requests receive _) nofun

theorem Ordered.offers_finishHandshake (ho : n.Ordered) (hn : n.OffersOne)
    (result : Except Fault Handshake) :
    n.Offers [] (n.finishHandshake result) := by
  have hanswered : n.Takes .answered { n with handshakes := n.handshakes - 1 } := .answered
  have hfirst : n.Offers [] { n with handshakes := n.handshakes - 1 } :=
    .of_mute (hanswered.via trivial)
  obtain ⟨-, heq⟩ | ⟨-, -, hrelease⟩ | ⟨h, -, rfl, haccepts, -⟩ := ho.finishHandshake_cases result
  · rwa [heq]
  · exact hfirst.trans (.of_mute (hrelease.via trivial))
  · obtain ⟨m, hjoin, k, rfl, hfinish⟩ := haccepts.exists_finish ho
    have hm : m.Member := hjoin.member ⟨hanswered.ordered ho, haccepts.1.not_center⟩
    have hregister := hm.offers_register
    have hall := (hfirst.trans (.of_mute (hjoin.via trivial))).trans hregister
    obtain hfinish | hfinish := hfinish
    · rwa [hfinish]
    · have hone := hall.via.offersOne hn
      rw [hfinish]
      exact hall.trans ((hregister.via.member hm).offers_replay fun c hc => hone.vouched hc)

/-- What an event calls a node for it remembers, and what it tells a directory by itself vouches. -/
theorem Ordered.offers_step (ho : n.Ordered) (hn : n.OffersOne) {e : Event} (hpass : ¬ n.Passes e) :
    n.Offers (n.calls e) (n.step e) := by
  cases e with
  | accept =>
    refine .of_mute ((accept_via n).mono ?_)
    rintro _ (rfl | ⟨conn, rfl⟩) <;> trivial
  | tick => exact offers_tick n
  | written conn =>
    exact .of_mute (Takes.via (.write (f := fun l => l.drain.2) fun _ => rfl) trivial)
  | stopped conn => exact .of_mute (Takes.via (.write (f := Link.stop) fun _ => rfl) trivial)
  | install name moduleId => exact .of_mute ((Takes.tend n.now _).via trivial)
  | uninstall name => exact .of_mute ((Takes.tend n.now _).via trivial)
  | handshake result => exact ho.offers_finishHandshake hn result
  | refusal =>
    simp only [step]
    split
    · exact .refl n
    · rename_i hr
      have hpardon := Takes.pardon hr
      exact (Offers.of_mute (hpardon.via trivial)).trans ((hpardon.ordered ho).offers_lose _)
  | link e =>
    cases e with
    | connected conn =>
      refine .of_mute ((connected_via n conn).mono ?_)
      rintro _ ⟨id, rfl⟩
      trivial
    | frames conn frames => exact ho.offers_frames frames
    | closed conn reason => exact ho.offers_lose conn
  | call r =>
    cases r with
    | tick => exact offers_tick n
    | subscribe name =>
      rw [step_subscribe]
      exact ho.offers_subscribe (receiveWith_telling Move.telling_mute _) name
    | publish name handle =>
      rw [step_publish]
      exact ho.offers_publish (receiveWith_telling Move.telling_mute _) name handle
    | send source dest kind payload =>
      rw [step_eq_foldl hpass]
      exact ho.offers_frames _

theorem Ordered.offers_stepAt (ho : n.Ordered) (hn : n.OffersOne) (t : Nat) (hpass : ¬ n.Passes e) :
    n.Offers (n.calls e) (n.stepAt t e) := by
  have htend : n.Takes .tend { n with now := t } := .tend t n.catalog
  exact (Offers.of_mute (htend.via trivial)).trans
    ((ho.tend t).offers_step hn hpass)

theorem Ordered.interests_stepAt (ho : n.Ordered) (hn : n.OffersOne) (t : Nat) (e : Event) :
    (n.stepAt t e).interests = n.interests.after n.self (n.calls e) := by
  by_cases hpass : n.Passes e
  · obtain ⟨hvia, -, hnil⟩ := via_of_passes (n := { n with now := t }) hpass
    have hnil : n.calls e = [] := hnil
    rw [hnil]
    exact hvia.interests_eq fun _ ha => ha.2.1
  · exact (ho.offers_stepAt hn t hpass).interests

end Node

end Meshwork
