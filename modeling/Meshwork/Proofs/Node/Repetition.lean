import Meshwork.Proofs.Node.Attempts
import Meshwork.Proofs.Node.Sending

/-!
# Requests are repeated once in each session

A link refuses no request as long as there is room in its queue, and a new link has all its room.
Main statement: `requests_of_session`, the requests on a link of the center are the registration,
what was remembered when the handshake was completed, and what was new since then, each once and in
order.
-/

namespace Meshwork.Node

variable {n m : Node} {a : Move} {c : Command} {cs : List Command} {conn : ConnId}
  {directory : Handle} {h : Handshake} {written : ConnId → List UInt8} {spare : Nat}

/-- The link of the center has refused nothing, and takes some more frames. -/
structure Roomy (n : Node) (conn : ConnId) (directory : Handle) (spare : Nat) : Prop where
  session : n.Session conn directory
  ledger : ∃ written, n.Ledger written
  room : spare ≤ n.room conn
  unrefused : ¬ n.Refuses conn

def RefusesOld (n : Node) : Prop := ∀ x ∈ n.refused, x.1.number < n.links.nextNumber

theorem Takes.refusesOld (hw : n.Wired) (hn : n.RefusesOld) (ht : n.Takes a m) : m.RefusesOld := by
  have hle := ht.nextNumber_le
  have hold {conn : ConnId} {reason : CloseReason} (hmem : (conn, reason) ∈ n.refused) :
      conn.number < m.links.nextNumber := Nat.lt_of_lt_of_le (hn _ hmem) hle
  rintro ⟨conn, reason⟩ hmem
  cases ht with
  | pardon hr => exact hold (hr ▸ List.mem_cons_of_mem _ hmem)
  | refuse _ _ hr =>
    obtain hmem | hmem := List.mem_append.1 hmem
    · exact hold hmem
    · cases List.mem_singleton.1 hmem
      exact hw.links.fresh _ _ hr
  | _ => exact hold hmem

theorem Takes.not_refuses (ht : n.Takes a m) (ha : ¬ a.Sends) (hn : ¬ n.Refuses conn) :
    ¬ m.Refuses conn := by
  cases ht with
  | pardon hr =>
    rintro ⟨reason, hmem⟩
    exact hn ⟨reason, hr ▸ List.mem_cons_of_mem _ hmem⟩
  | refuse => exact absurd trivial ha
  | _ => exact hn

namespace Roomy

theorem mono {more : Nat} (hn : n.Roomy conn directory more) (hle : spare ≤ more) :
    n.Roomy conn directory spare :=
  ⟨hn.session, hn.ledger, Nat.le_trans hle hn.room, hn.unrefused⟩

theorem tend (hn : n.Roomy conn directory spare) (t : Nat) :
    Roomy { n with now := t } conn directory spare := by
  obtain ⟨written, hl⟩ := hn.ledger
  exact ⟨hn.session.tend t, ⟨written, hl.turned t .tick⟩, hn.room, hn.unrefused⟩

theorem via (hn : n.Roomy conn directory spare) (hv : n.Via (fun a => a.Inner ∧ ¬ a.Sends) m) :
    m.Roomy conn directory spare := by
  refine hv.keeps (I := fun k => k.Roomy conn directory spare) (fun k a l hk ha ht => ?_) hn
  obtain ⟨written, hl⟩ := hk.ledger
  have hs := (ht.via ha.1).session hk.session
  refine ⟨hs, ⟨written, ht.ledger hl ha.1.retains⟩, ?_, ht.not_refuses ha.2 hk.unrefused⟩
  have hne : ∀ id frame, a ≠ .queue id conn frame := by
    rintro id frame rfl
    exact ha.2 trivial
  obtain hgone | hroom := ht.room_eq hk.session.ordered ha.1.retains hne
  · exact absurd hs.centerLink? hgone.centerLink?
  · rw [hroom]
    exact hk.room

theorem askIfPossible (hn : n.Roomy conn directory (spare + 1)) (loop : Loopback)
    (hfit : n.Fits c) : (n.askIfPossible loop c).Roomy conn directory spare := by
  obtain ⟨written, hl⟩ := hn.ledger
  have hroom := hn.room
  obtain ⟨m, hask, hqueue | hrefuse⟩ := hn.session.exists_ask loop hfit
  · have hm : n.askIfPossible loop c = m := by rw [Node.askIfPossible, hask]
    have hone := hqueue.room_of_queue hl
    have hsame : m.refused = n.refused := by cases hqueue; rfl
    rw [hm]
    refine ⟨(hqueue.via (P := Move.Inner) trivial).session hn.session,
      ⟨written, hqueue.ledger hl trivial⟩, ?_, ?_⟩
    · omega
    · rw [Refuses, hsame]
      exact hn.unrefused
  · have hzero := (hrefuse.room_of_refuse hl).1
    omega

theorem request (hn : n.Roomy conn directory (spare + 1)) (loop : Loopback) {name : String}
    (hfit : n.Fits (.subscribe name)) : (n.request loop name).Roomy conn directory spare := by
  unfold Node.request
  dsimp only
  split
  · have hreach := (reach_moves n name ⟨n.self, ‹_›⟩).mono (Q := fun a => a.Inner ∧ ¬ a.Sends) (by
      rintro _ (⟨handle, rfl⟩ | ⟨conn, rfl, -⟩)
      · exact ⟨trivial, id⟩
      · exact ⟨trivial, id⟩)
    exact (hn.via hreach).askIfPossible loop (hreach.fits_iff.2 hfit)
  · exact hn.askIfPossible loop hfit

theorem repeatRequest (hn : n.Roomy conn directory (spare + 1)) (hfit : n.Fits c) :
    (n.repeatRequest c).Roomy conn directory spare := by
  cases c with
  | subscribe name => exact hn.request Node.receive hfit
  | _ => exact hn.askIfPossible Node.receive hfit

theorem replay (hn : n.Roomy conn directory (cs.length + spare)) (hfit : ∀ c ∈ cs, n.Fits c) :
    (cs.foldl Node.repeatRequest n).Roomy conn directory spare := by
  induction cs generalizing n with
  | nil => simpa using hn
  | cons c rest ih =>
    rw [List.forall_mem_cons] at hfit
    have hfirst : (n.repeatRequest c).Roomy conn directory (rest.length + spare) :=
      repeatRequest (hn.mono (by rw [List.length_cons]; omega)) hfit.1
    exact ih hfirst fun d hd => (repeatRequest_via n c).fits_iff.2 (hfit.2 d hd)

theorem stepAt_subscribe (hn : n.Roomy conn directory (spare + 1)) (t : Nat) {name : String}
    (hfit : n.Fits (.subscribe name)) :
    (n.stepAt t (.call (.subscribe name))).Roomy conn directory spare := by
  have hn' := hn.tend t
  rw [stepAt, step_subscribe]
  obtain ⟨-, he | he⟩ | ⟨hv, hw, he⟩ := subscribe_cases { n with now := t } Node.receive name
  · rw [he]
    exact hn'.mono (Nat.le_succ _)
  · rw [he]
    exact hn'.mono (Nat.le_succ _)
  · have hwant := Takes.want hv hw
    rw [he]
    exact (hn'.via (hwant.via ⟨trivial, id⟩)).request Node.receive hfit

end Roomy

theorem Takes.roomy_of_join (hl : n.Ledger written) (hn : n.RefusesOld)
    (ht : n.Takes (.join n.links.nextId.1 h) m) :
    m.Roomy n.links.nextId.1 h.greeting.center n.places := by
  have ho := hl.ordered
  obtain ⟨hs, -, -, -, hrefused⟩ := ht.session_of_join ho
  refine ⟨hs, ⟨written, ht.ledger hl trivial⟩, ?_, ?_⟩
  · have hempty : n.room n.links.nextId.1 = n.places := by
      simp only [room, ho.wired.links.get?_nextId_eq_none]
    obtain hgone | hroom := ht.room_eq ho trivial (by simp)
    · exact absurd hs.centerLink? hgone.centerLink?
    · exact Nat.le_of_eq (hroom.trans hempty).symm
  · rintro ⟨reason, hmem⟩
    rw [hrefused] at hmem
    exact Nat.lt_irrefl _ (hn _ hmem)

/-- A handshake that is accepted has nothing refused, if what the node tells its center fits the
queue. -/
theorem Accepts.roomy (haccepts : n.Accepts h) (hl : n.Ledger written) (hn : n.RefusesOld)
    (hfit : ∀ c ∈ .register n.announcement :: n.interests.requests, n.Fits c)
    (hroom : n.interests.requests.length + 1 + spare ≤ n.places) (t : Nat) :
    (n.stepAt t (.handshake (.ok h))).Roomy n.links.nextId.1 h.greeting.center spare := by
  rw [List.forall_mem_cons] at hfit
  have hl' : Ledger { n with now := t } written := hl.turned t .tick
  obtain ⟨m, hjoin, k, rfl, hfinish⟩ :=
    Accepts.exists_finish (n := { n with now := t }) haccepts hl'.ordered
  have hanswered :
      Takes { n with now := t } .answered { n with now := t, handshakes := n.handshakes - 1 } :=
    .answered
  have hstart := hanswered.ledger hl' trivial
  have hmade : n.Via (fun _ => True) m :=
    (((Takes.tend t n.catalog).via trivial).trans (hanswered.via trivial)).trans (hjoin.via trivial)
  have hsame := hmade.announcement_eq hl.ordered
  obtain ⟨hs, -, -, hinterests, -⟩ := hjoin.session_of_join hstart.ordered
  have hkept : (m.askIfPossible receive (.register m.announcement)).interests = n.interests :=
    (hs.member.interests_askIfPossible receive _).trans hinterests
  have hasked := hmade.trans ((askIfPossible_via receive_tame m (.register m.announcement)).mono
    fun _ _ => trivial)
  have hregister : (m.askIfPossible receive (.register m.announcement)).Roomy n.links.nextId.1
      h.greeting.center (n.interests.requests.length + spare) :=
    ((hjoin.roomy_of_join hstart hn).mono (by rw [Nat.add_right_comm]; exact hroom)).askIfPossible
      receive (hmade.fits_iff.2 (hsame ▸ hfit.1))
  rw [stepAt, step]
  obtain hfinish | hfinish := hfinish
  · rw [hfinish]
    exact hregister.mono (Nat.le_add_left ..)
  · rw [hfinish, hkept]
    exact hregister.replay fun c hc => hasked.fits_iff.2 (hfit.2 c hc)

section Start

variable {profile : Profile} {catalog : Catalog} {port : UInt16} {now : Nat} {calls : List Command}

theorem refusesOld_of_run {result : Except Fault Handshake} {n₀ : Node}
    (started : start profile catalog port now result = .ok n₀) (events : List (Nat × Event)) :
    (n₀.run events).RefusesOld := by
  have hstep (k : Node) (a : Move) (l : Node) (hk : k.Ordered ∧ k.RefusesOld) (ht : k.Takes a l) :
      l.Ordered ∧ l.RefusesOld := ⟨ht.ordered hk.1, ht.refusesOld hk.1.wired hk.2⟩
  have hidle :
      (idle profile catalog port now).Ordered ∧ (idle profile catalog port now).RefusesOld :=
    ⟨ordered_idle (start_cases started).1 .., nofun⟩
  exact (run_keeps hstep (start_keeps hstep hidle started) events).2

theorem Member.hasRoom_stepAt (hm : n.Member) (hroom : n.links.hasRoom = true) (t : Nat)
    {r : Request} (hr : (∃ name, r = .subscribe name) ∨ ∃ name handle, r = .publish name handle) :
    (n.stepAt t (.call r)).links.hasRoom = true := by
  have hm' : Member { n with now := t } := (Takes.tend t n.catalog).member hm
  have hkeep {k : Node}
      (hv : Node.Via (fun a => a.Inner ∧ ∀ id, ¬ a.LinksTo id) { n with now := t } k) :
      k.links.hasRoom = true :=
    hv.keeps (I := fun k => k.links.hasRoom = true) (fun _ _ _ hk ha ht => ht.hasRoom ha.1 ha.2 hk)
      hroom
  obtain ⟨name, rfl⟩ | ⟨name, handle, rfl⟩ := hr
  · rw [Node.stepAt, step_subscribe]
    exact hkeep (hm'.subscribe_via receive name)
  · rw [Node.stepAt, step_publish]
    exact hkeep (hm'.publish_via receive name handle)

section Second

variable {n₀ : Node}

theorem accepts_of_second
    (started : start { nodeId := ⟨2⟩, center := .remote "hub:7100" } {} 7101 0
      (.ok ⟨.ofCenter ⟨1⟩, []⟩) = .ok n₀) (member : n₀.registry? = none) :
    (n₀.run [(1, .link (.closed ⟨1⟩ .endOfStream)), (2, .tick), (3, .call (.subscribe "lamp")),
      (4, .call (.publish "db" ⟨⟨5⟩, 7⟩))]).Accepts ⟨.ofCenter ⟨1⟩, []⟩ := by
  have hendpoint : n₀.profile.centerEndpoint? = some "hub:7100" :=
    congrArg Profile.centerEndpoint? (profile_of_run started [])
  have hself : n₀.self = ⟨2⟩ := (start_via started).self_eq
  have hin : n₀.roster.Contains ⟨1⟩ := (contains_of_run started [] ⟨1⟩).2 (by decide +kernel)
  have hsession := (opened_of_start started member).1.session
  have hfirst (profile : Profile) : (idle profile {} 7101 0).links.nextId.1 = ⟨1⟩ := rfl
  rw [hfirst] at hsession
  obtain ⟨hlost, hawaits, hroom⟩ := hsession.awaits_of_loss hendpoint 1 2 .endOfStream
  have hlose : n₀.Via (fun _ => True)
      ((n₀.stepAt 1 (.link (.closed ⟨1⟩ .endOfStream))).stepAt 2 .tick) :=
    (stepAt_via n₀ 1 _).trans (stepAt_via _ 2 _)
  rw [run_cons, run_cons, run_cons, run_cons, run_nil]
  generalize (n₀.stepAt 1 (.link (.closed ⟨1⟩ .endOfStream))).stepAt 2 .tick = k at *
  have hm := hlost.member
  have hcalled := (k.stepAt_steady 3 (e := .call (.subscribe "lamp")) rfl).trans
    (stepAt_steady _ 4 (e := .call (.publish "db" ⟨⟨5⟩, 7⟩)) rfl)
  have hroom' := (hm.stepAt 3 _).hasRoom_stepAt
    (hm.hasRoom_stepAt hroom 3 (.inl ⟨"lamp", rfl⟩)) 4 (.inr ⟨"db", ⟨⟨5⟩, 7⟩, rfl⟩)
  refine ⟨(hcalled.awaits hawaits hlost.ordered).1, judge_of_contains ?_ ?_ hroom'⟩
  · exact (hlose.trans (hcalled.mono fun _ _ => trivial)).keeps
      (I := fun l => l.roster.Contains ⟨1⟩) (fun _ _ _ hk _ ht => ht.contains_iff.2 hk) hin
  · rw [hcalled.self_eq, hlose.self_eq, hself]
    decide

theorem roomy_of_second {before : List (Nat × Event)} {result : Except Fault Handshake}
    (started : start { nodeId := ⟨2⟩, center := .remote "hub:7100" } {} 7101 0 result = .ok n₀)
    (haccepts : (n₀.run before).Accepts h)
    (hcalls : n₀.callsIn before = [.subscribe "lamp", .publish "db" ⟨⟨5⟩, 7⟩])
    (n : Node) (hn : n = (n₀.run before).stepAt 5 (.handshake (.ok h))) :
    n.self = ⟨2⟩ ∧
      n.interests = ({} : Interests).after ⟨2⟩ [.subscribe "lamp", .publish "db" ⟨⟨5⟩, 7⟩] ∧
      (∀ c : Command, c.payload.length ≤ payloadLimit → n.Fits c) ∧
      n.Roomy (n₀.run before).links.nextId.1 h.greeting.center 2 := by
  have hcompleted := Completes.again started before 5 haccepts.1 haccepts.2
  have hvia := stepAt_via (n₀.run before) 5 (.handshake (.ok h))
  have hself : n₀.self = ⟨2⟩ := (start_via started).self_eq
  have hm : n₀.Member := ⟨ordered_of_run started [], not_center_of_run haccepts.1.not_center⟩
  have hnone := interests_of_start started hm.not_center
  have hremembered :
      (n₀.run before).interests.requests = [.subscribe "lamp", .publish "db" ⟨⟨2⟩, 7⟩] := by
    rw [hm.interests_run, hnone, hcalls, hself]
    decide +kernel
  have hfits (c : Command) (hc : c.payload.length ≤ payloadLimit) : (n₀.run before).Fits c := by
    rw [Fits, wire, profile_of_run started before]
    exact hc
  obtain ⟨-, hregister, hinterests⟩ := hcompleted.opened
  rw [hvia.announcement_eq (ordered_of_run started before), hvia.fits_iff] at hregister
  rw [hvia.self_eq, (run_via n₀ before).self_eq, hself, hcalls] at hinterests
  subst hn
  refine ⟨hvia.self_eq.trans ((run_via n₀ before).self_eq.trans hself), hinterests,
    fun c hc => hvia.fits_iff.2 (hfits c hc), ?_⟩
  refine haccepts.roomy (ledger_of_run started before) (refusesOld_of_run started before) ?_ ?_ 5
  · rw [hremembered]
    simp only [List.forall_mem_cons, List.not_mem_nil, false_imp_iff, implies_true, and_true]
    exact ⟨hregister, hfits _ (by decide +kernel), hfits _ (by decide +kernel)⟩
  · rw [hremembered, places, profile_of_run started before]
    decide

theorem newRequests_of_second (hn : n.Roomy conn directory 2) (hself : n.self = ⟨2⟩)
    (hinterests :
      n.interests = ({} : Interests).after ⟨2⟩ [.subscribe "lamp", .publish "db" ⟨⟨5⟩, 7⟩])
    (hfits : ∀ c : Command, c.payload.length ≤ payloadLimit → n.Fits c) :
    (∀ c ∈ (n.run [(6, .call (.subscribe "lamp")),
        (7, .call (.subscribe "fan"))]).interests.requests, n.Fits c) ∧
      (∀ k, ¬ (n.run ([(6, .call (.subscribe "lamp")),
        (7, .call (.subscribe "fan"))].take k)).Refuses conn) ∧
      n.newRequests conn [(6, .call (.subscribe "lamp")), (7, .call (.subscribe "fan"))] =
        [.subscribe "fan"] := by
  have hm := hn.session.member
  have hone := hn.stepAt_subscribe 6 (hfits (.subscribe "lamp") (by decide +kernel))
  have hfan : (n.stepAt 6 (.call (.subscribe "lamp"))).Fits (.subscribe "fan") :=
    (stepAt_via n 6 _).fits_iff.2 (hfits _ (by decide +kernel))
  have htwo := hone.stepAt_subscribe 7 hfan
  have hcall (k : Node) (name : String) : k.calls (.call (.subscribe name)) = [.subscribe name] :=
    rfl
  refine ⟨?_, fun k => ?_, ?_⟩
  · have hcalls : n.callsIn [(6, .call (.subscribe "lamp")), (7, .call (.subscribe "fan"))] =
        [.subscribe "lamp", .subscribe "fan"] := rfl
    have hlast : ((({} : Interests).after ⟨2⟩ [.subscribe "lamp", .publish "db" ⟨⟨5⟩, 7⟩]).after ⟨2⟩
        [.subscribe "lamp", .subscribe "fan"]).requests =
          [.subscribe "lamp", .subscribe "fan", .publish "db" ⟨⟨2⟩, 7⟩] := by
      decide +kernel
    rw [hm.interests_run, hinterests, hself, hcalls, hlast]
    simp only [List.forall_mem_cons, List.not_mem_nil, false_imp_iff, implies_true, and_true]
    exact ⟨hfits _ (by decide +kernel), hfits _ (by decide +kernel), hfits _ (by decide +kernel)⟩
  · match k with
    | 0 => exact hn.unrefused
    | 1 => exact hone.unrefused
    | k + 2 => simpa [run_cons, run_nil] using htwo.unrefused
  · rw [newRequests, newRequests, newRequests, if_pos hn.session.centerLink?,
      if_pos hone.session.centerLink?, hm.interests_stepAt, (stepAt_via n 6 _).self_eq, hself,
      hinterests, hcall, hcall]
    decide +kernel

end Second

/-- The requests that a node queues on a link of a completed handshake, if no request is too long
and the link refuses no frame: the node registers, repeats what it was called for before, and asks
for what is new while the link is that of the center. No name is asked for twice, and none is left
out. -/
theorem requests_of_session (completed : Completes profile catalog port now calls n conn directory)
    (events : List (Nat × Event))
    (fits : ∀ c ∈ (n.run events).interests.requests, n.Fits c)
    (unrefused : ∀ k, ¬ (n.run (events.take k)).Refuses conn) :
    n.interests = ({} : Interests).after n.self calls ∧
    n.requestsOn conn ++ n.ownRequests conn events =
      (.register n.announcement :: n.interests.requests ++ n.newRequests conn events).map
        (·.frame n.self directory) ∧
    ((n.interests.requests ++ n.newRequests conn events).map Command.topic?).Nodup ∧
    ((n.run events).centerLink? = some conn →
      (n.interests.requests ++ n.newRequests conn events).Perm
        (n.run events).interests.requests) := by
  obtain ⟨hopened, hfit, hi⟩ := completed.opened
  have hs := hopened.session
  have hlog := hopened.log
    (List.forall_mem_cons.2 ⟨hfit, fun c hc => fits c (hs.member.mem_requests_run hc)⟩)
      (unrefused 0)
  have hempty : ({} : Interests).Distinct := ⟨List.nodup_nil, List.nodup_nil⟩
  have hdistinct : n.interests.Distinct := hi ▸ hempty.after n.self calls
  obtain ⟨i, hi', hperm, hlast⟩ := hs.exists_perm hdistinct events
  refine ⟨hi, ?_, ?_, fun hl => hlast hl ▸ hperm⟩
  · rw [hlog, hs.ownRequests_eq fits unrefused, List.map_append]
  · exact (hperm.map Command.topic?).nodup_iff.2 hi'.nodup_topics

/-- Node 2 loses its center, which is node 1. While the center is lost it subscribes to one name and
publishes another one, and after it has joined the center again it subscribes to the first name once
more, and to a third. -/
theorem requests_of_session_again :
    ∃ n₀ n conn directory, start { nodeId := ⟨2⟩, center := .remote "hub:7100" } {} 7101 0
        (.ok ⟨.ofCenter ⟨1⟩, []⟩) = .ok n₀ ∧
      n = (n₀.run
        [(1, .link (.closed ⟨1⟩ .endOfStream)), (2, .tick), (3, .call (.subscribe "lamp")),
        (4, .call (.publish "db" ⟨⟨5⟩, 7⟩))]).stepAt 5 (.handshake (.ok ⟨.ofCenter ⟨1⟩, []⟩)) ∧
      Completes { nodeId := ⟨2⟩, center := .remote "hub:7100" } {} 7101 0
        [.subscribe "lamp", .publish "db" ⟨⟨5⟩, 7⟩] n conn directory ∧
      n.requestsOn conn ++
          n.ownRequests conn [(6, .call (.subscribe "lamp")), (7, .call (.subscribe "fan"))] =
        [Command.register n.announcement, .subscribe "lamp", .publish "db" ⟨⟨2⟩, 7⟩,
          .subscribe "fan"].map (·.frame ⟨2⟩ directory) := by
  obtain ⟨n₀, started, member, -⟩ := exists_start_of_second
  have haccepts := accepts_of_second started member
  have hcalls : n₀.callsIn [(1, .link (.closed ⟨1⟩ .endOfStream)), (2, .tick),
      (3, .call (.subscribe "lamp")), (4, .call (.publish "db" ⟨⟨5⟩, 7⟩))] =
        [.subscribe "lamp", .publish "db" ⟨⟨5⟩, 7⟩] := rfl
  have hcompleted := Completes.again started _ 5 haccepts.1 haccepts.2
  obtain ⟨n, hn⟩ : ∃ n, n = (n₀.run [(1, .link (.closed ⟨1⟩ .endOfStream)), (2, .tick),
    (3, .call (.subscribe "lamp")), (4, .call (.publish "db" ⟨⟨5⟩, 7⟩))]).stepAt 5
      (.handshake (.ok ⟨.ofCenter ⟨1⟩, []⟩)) := ⟨_, rfl⟩
  obtain ⟨hself, hinterests, hfits, hroomy⟩ := roomy_of_second started haccepts hcalls n hn
  rw [hcalls, ← hn] at hcompleted
  obtain ⟨hall, hunrefused, hnew⟩ := newRequests_of_second hroomy hself hinterests hfits
  have hrepeated : n.interests.requests = [.subscribe "lamp", .publish "db" ⟨⟨2⟩, 7⟩] := by
    rw [hinterests]
    decide +kernel
  obtain ⟨-, hlog, -⟩ := requests_of_session hcompleted
    [(6, .call (.subscribe "lamp")), (7, .call (.subscribe "fan"))] hall hunrefused
  rw [hnew, hrepeated, hself] at hlog
  exact ⟨n₀, n, _, _, started, hn, hcompleted, hlog⟩

end Start

end Meshwork.Node
