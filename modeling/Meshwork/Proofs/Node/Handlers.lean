import Meshwork.Proofs.Node.Move

/-!
# Every handler is a path of moves

One lemma for each function of a node. Main statements: `receive_via`, a frame that arrives is
handled by inner moves only, and `run_keeps`, what each move keeps holds after every run.
-/

namespace Meshwork

/-- What a node sends to itself is handled by inner moves. -/
def Loopback.Tame (loop : Loopback) : Prop := ∀ n f, Node.Via Move.Inner n (loop n f)

namespace Node

variable {n m : Node} {loop : Loopback}

theorem sendOver_takes {id : NodeId} {frame : Frame} (h : n.sendOver id frame = .ok m) :
    ∃ peer conn, n.roster.get? id = some peer ∧ peer.liveLink? = some conn ∧
      frame.payload.length ≤ n.wire.maxPayload ∧
      (n.Takes (.queue id conn frame) m ∨ n.Takes (.refuse id conn) m) := by
  unfold sendOver at h
  split at h
  · cases h
  rename_i peer hp
  split at h
  · cases h
  rename_i conn hl
  split at h
  · cases h
  rename_i record hr
  split at h
  · cases h
  rename_i bytes he
  refine ⟨peer, conn, hp, hl, (Wire.encode_eq_ok_iff.1 he).1, ?_⟩
  split at h
  · rename_i reason hs
    cases h
    exact .inr (.refuse hp hl hr hs)
  · rename_i link hs
    cases h
    exact .inl (.queue hp hl hr he hs)

theorem sendOver_via {id : NodeId} {frame : Frame} (h : n.sendOver id frame = .ok m) :
    n.Via Move.Inner m := by
  obtain ⟨_, _, -, -, -, hq | hr⟩ := sendOver_takes h
  · exact hq.via trivial
  · exact hr.via trivial

theorem post_via (hloop : loop.Tame) {source dest : Handle} {kind : UInt8} {payload : List UInt8}
    (h : n.post loop source dest kind payload = .ok m) : n.Via Move.Inner m := by
  unfold post at h
  split at h
  · split at h
    · cases h
    · cases h
      exact hloop ..
  · exact sendOver_via h

theorem tell_via (hloop : loop.Tame) (n : Node) (dest : Handle) (c : Command) :
    n.Via Move.Inner (n.tell loop dest c) := by
  unfold tell
  split
  · rename_i h
    exact post_via hloop h
  · exact .refl n

theorem Takes.entry_of_queue {id id' : NodeId} {conn : ConnId} {frame : Frame} {q : Peer}
    (ht : n.Takes (.queue id conn frame) m) (hq : n.roster.get? id' = some q) :
    ∃ p, m.roster.get? id' = some p ∧ p.state = q.state ∧ p.handle = q.handle ∧
      p.link = q.link := by
  obtain ⟨p, hp, halters⟩ := ht.exists_alters hq
  cases halters with
  | same => exact ⟨q, hp, rfl, rfl, rfl⟩
  | queue => exact ⟨_, hp, rfl, rfl, rfl⟩

theorem dial_eq_some {id : NodeId} (h : n.dial id = some m) :
    (∃ peer, n.roster.get? id = some peer ∧ peer.Linked ∧ m = n) ∨
      (id ≠ n.self → n.Takes (.dial id n.links.nextId.1) m) := by
  unfold dial at h
  split at h
  · cases h
  rename_i peer hp
  split at h
  · rename_i hl
    cases h
    exact .inl ⟨peer, hp, hl, rfl⟩
  rename_i hl
  split at h
  · cases h
  rename_i hs
  split at h
  · cases h
  rename_i endpoint he
  split at h
  · cases h
  rename_i hroom
  simp only at h
  split at h
  · cases h
  rename_i i links hi
  cases h
  exact .inr fun hid => .dial hid hp hl hs he (by simpa using hroom) hi

theorem Takes.entry_of_dial {id : NodeId} {conn : ConnId} (ht : n.Takes (.dial id conn) m) :
    ∃ peer, n.roster.get? id = some peer ∧ m.roster.get? id =
      some { peer with link := some conn, state := .connecting, lastSent := some n.now } := by
  cases ht with
  | @dial _ peer _ _ _ _ hp =>
    exact ⟨peer, hp, by rw [Roster.get?_noteSent_attach, if_pos rfl, hp, Option.map_some]⟩

theorem Takes.linked_of_dial {id : NodeId} {conn : ConnId} (ht : n.Takes (.dial id conn) m) :
    ∃ peer ∈ m.roster.get? id, peer.Linked := by
  obtain ⟨peer, -, hentry⟩ := ht.entry_of_dial
  exact ⟨_, hentry, by simp [Peer.linked_iff]⟩

theorem linked_of_dial {id : NodeId} (h : n.dial id = some m) (hid : id ≠ n.self) :
    ∃ peer ∈ m.roster.get? id, peer.Linked := by
  obtain ⟨peer, hp, hl, rfl⟩ | htakes := dial_eq_some h
  · exact ⟨peer, hp, hl⟩
  · exact (htakes hid).linked_of_dial

/-- To reach a module, its node may be dialled and the module recorded. -/
theorem reach_moves (n : Node) (name : String) (handle : Handle) :
    n.Via (fun a => (∃ h, a = .bind name h) ∨ ∃ conn, a = .dial handle.node conn ∧
      handle.node ≠ n.self)
      (n.reach name handle) := by
  unfold reach
  simp only
  generalize hid : (if handle.node.Assigned then handle.node else n.self) = id
  split
  · exact .refl n
  split
  · exact .refl n
  rename_i m hm
  have hreached : n.Via (fun a => (∃ h, a = .bind name h) ∨
      ∃ conn, a = .dial handle.node conn ∧ handle.node ≠ n.self) m ∧
      (id = m.self ∨ ∃ p ∈ m.roster.get? id, p.Linked) := by
    split at hm
    · rename_i hself
      cases hm
      exact ⟨.refl _, .inl hself⟩
    · rename_i hself
      have hnode : handle.node = id := by
        split at hid
        · exact hid
        · exact absurd hid.symm hself
      refine ⟨?_, .inr (linked_of_dial hm hself)⟩
      obtain ⟨-, -, -, rfl⟩ | htakes := dial_eq_some hm
      · exact .refl _
      · rw [hnode]
        exact (htakes hself).via (.inr ⟨_, rfl, hself⟩)
  split
  · rename_i hb
    have hbind := @Takes.bind m name (handle.withNode id) hb hreached.2
    exact hreached.1.trans ((hbind _).via (.inl ⟨_, rfl⟩))
  · exact hreached.1

theorem reach_via (n : Node) (name : String) (handle : Handle) :
    n.Via (fun a => a.Meets ∧ ∀ id, a.LinksTo id → id = handle.node ∧ id ≠ n.self)
      (n.reach name handle) := by
  refine (reach_moves n name handle).mono ?_
  rintro _ (⟨h, rfl⟩ | ⟨conn, rfl, hself⟩)
  · exact ⟨trivial, fun _ => False.elim⟩
  · refine ⟨trivial, ?_⟩
    rintro _ rfl
    exact ⟨rfl, hself⟩

theorem enroll_moves (n : Node) (a : Announcement) :
    n.Via (fun b => b = .learn a ∨ ∃ conn, b = .dial a.id conn) (n.enroll a) := by
  unfold enroll
  split
  · exact .refl n
  rename_i hid
  split
  · exact .refl n
  split
  · exact .refl n
  have hlearn : n.Via (fun b => b = .learn a ∨ ∃ conn, b = .dial a.id conn)
      { n with roster := n.roster.update a.id a.address a.handle } :=
        (Takes.learn hid).via (.inl rfl)
  refine hlearn.trans ?_
  dsimp only
  cases hd : dial { n with roster := n.roster.update a.id a.address a.handle } a.id with
  | none => exact .refl _
  | some m =>
    have hself : a.id ≠ (n.roster.update a.id a.address a.handle).self := by simpa [self] using hid
    obtain ⟨-, -, -, rfl⟩ | htakes := dial_eq_some hd
    · exact .refl _
    · exact (htakes hself).via (.inr ⟨_, rfl⟩)

theorem enroll_via (n : Node) (a : Announcement) :
    n.Via (fun b => b.Meets ∧ ∀ id, b.LinksTo id → id = a.id) (n.enroll a) := by
  refine (enroll_moves n a).mono ?_
  rintro _ (rfl | ⟨conn, rfl⟩)
  · exact ⟨trivial, fun _ => False.elim⟩
  · exact ⟨trivial, fun _ hlink => hlink.symm⟩

theorem noteAddress_moves (n : Node) (a : Announcement) :
    n.Via (· = .learn a) (n.noteAddress a) := by
  unfold noteAddress
  split
  · exact .refl n
  · rename_i hid
    exact (Takes.learn hid).via rfl

theorem noteAddress_via (n : Node) (a : Announcement) :
    n.Via (fun b => b.Meets ∧ ∀ id, ¬ b.LinksTo id) (n.noteAddress a) := by
  refine (noteAddress_moves n a).mono ?_
  rintro _ rfl
  exact ⟨trivial, fun _ => id⟩

theorem introduce_via (hloop : loop.Tame) (n : Node) (id : NodeId) :
    n.Via Move.Inner (n.introduce loop id) := by
  unfold introduce
  split
  · split
    · split
      · exact Via.foldl n fun n other _ => (tell_via hloop ..).trans (tell_via hloop ..)
      · exact .refl n
    · exact .refl n
  · exact .refl n

theorem forget_via {id : NodeId} (hu : ∀ p ∈ n.roster.get? id, ¬ p.Linked) :
    n.Via Move.Inner (n.forget id) := by
  unfold forget
  split
  · rename_i registry hr
    exact (Takes.forget hr hu).via trivial
  · exact .refl n

theorem carryOut_via (hloop : loop.Tame) (n : Node) (e : RegistryEffect) :
    n.Via Move.Inner (n.carryOut loop e) := by
  cases e with
  | register a => exact (enroll_via n a).mono fun _ ha => ha.1.inner
  | broadcast id => exact introduce_via hloop n id
  | send id c => exact tell_via hloop n _ c
  | left id =>
    simp only [carryOut]
    split
    · exact .refl n
    · rename_i hu
      exact forget_via fun p hp hl => hu ⟨p, hp, hl⟩

theorem serve_via (hloop : loop.Tame) (n : Node) (source : NodeId) (c : Command) :
    n.Via Move.Inner (n.serve loop source c) := by
  unfold serve
  split
  · rename_i registry hr
    exact ((Takes.enter hr source c).via trivial).trans
      (Via.foldl _ fun n e _ => carryOut_via hloop n e)
  · exact .refl n

theorem ask_via (hloop : loop.Tame) {c : Command} (h : n.ask loop c = .ok m) :
    n.Via Move.Inner m := by
  unfold ask at h
  split at h
  · cases h
    exact serve_via hloop ..
  · cases h
  · exact post_via hloop h

theorem askIfPossible_via (hloop : loop.Tame) (n : Node) (c : Command) :
    n.Via Move.Inner (n.askIfPossible loop c) := by
  unfold askIfPossible
  split
  · rename_i h
    exact ask_via hloop h
  · exact .refl n

theorem request_via (hloop : loop.Tame) (n : Node) (name : String) :
    n.Via Move.Inner (n.request loop name) := by
  unfold request
  simp only
  split
  · exact ((reach_via ..).mono fun _ ha => ha.1.inner).trans (askIfPossible_via hloop ..)
  · exact askIfPossible_via hloop ..

theorem subscribe_via (hloop : loop.Tame) {name : String} (h : n.subscribe loop name = .ok m) :
    n.Via Move.Inner m := by
  unfold subscribe at h
  split at h
  · cases h
  rename_i hv
  split at h
  · cases h
    exact .refl _
  · rename_i hw
    cases h
    exact (Takes.via (.want (Decidable.not_not.1 hv) hw) trivial).trans (request_via hloop ..)

theorem publish_via (hloop : loop.Tame) {name : String} {handle first : Handle}
    (h : n.publish loop name handle = .ok (first, m)) : n.Via Move.Inner m := by
  unfold publish at h
  split at h
  · cases h
  rename_i hv
  split at h
  · cases h
    exact .refl _
  · rename_i ho
    cases h
    exact (Takes.via (.offer (Decidable.not_not.1 hv) ho (Handle.node_withNode handle n.self))
      trivial).trans (askIfPossible_via hloop ..)

theorem obey_via (hloop : loop.Tame) (n : Node) (c : Command) :
    n.Via Move.Inner (n.obey loop c) := by
  cases c with
  | register a => exact (enroll_via n a).mono fun _ ha => ha.1.inner
  | address a => exact (noteAddress_via n a).mono fun _ ha => ha.1.inner
  | broadcast id => exact introduce_via hloop n id
  | unregister id => exact .refl n
  | heartbeat => exact .refl n
  | handle name handle => exact (reach_via n name handle).mono fun _ ha => ha.1.inner
  | subscribe name =>
    simp only [obey]
    split
    · rename_i h
      exact subscribe_via hloop h
    · exact .refl n
  | publish name handle =>
    simp only [obey]
    split
    · rename_i h
      exact publish_via hloop h
    · exact .refl n
  | handles name handles =>
    have hbegin : n.Via Move.Inner (n.emit (.report (.batchBegin name))) :=
      Takes.via (.bracket ⟨name, .inl rfl⟩) trivial
    have hall := Via.foldl (n.emit (.report (.batchBegin name)))
      (l := handles) fun n handle _ => (reach_via n name handle).mono fun _ ha => ha.1.inner
    exact (hbegin.trans hall).trans (Takes.via (.bracket ⟨name, .inr rfl⟩) trivial)

theorem receiveWith_via (hloop : loop.Tame) (n : Node) (f : Frame) :
    n.Via Move.Inner (n.receiveWith loop f) := by
  unfold receiveWith
  split
  · exact obey_via hloop ..
  · exact serve_via hloop ..
  · exact Takes.via (.deliver _) trivial
  · exact .refl n

theorem receiveOwn_tame : Loopback.Tame receiveOwn :=
  fun n f => receiveWith_via (fun n _ => Via.refl n) n f

theorem receive_via (n : Node) (f : Frame) : n.Via Move.Inner (n.receive f) :=
  receiveWith_via receiveOwn_tame n f

theorem receive_tame : Loopback.Tame receive := receive_via

theorem greeted_cases {conn : ConnId} {link : Link}
    (h : (if n.registry?.isSome then
        match n.wire.encode (Greeting.frame n.self) with
        | .ok bytes => ((n.newLink conn).send bytes).toOption
        | .error _ => none
      else none) = some link) : n.registry?.isSome ∧ link.id = conn := by
  split at h
  · rename_i hr
    refine ⟨hr, ?_⟩
    split at h
    · rename_i bytes _
      cases hs : (n.newLink conn).send bytes with
      | error e => simp [hs, Except.toOption] at h
      | ok l =>
        simp only [hs, Except.toOption, Option.some.injEq] at h
        rw [← h, Link.id_send hs]
        rfl
    · cases h
  · cases h

theorem accept_cases (n : Node) :
    n.accept = n ∨ n.Takes .mint n.accept ∨ ∃ conn, n.Takes (.arrive conn) n.accept := by
  unfold accept
  split
  · exact .inl rfl
  rename_i hroom
  have hroom : n.links.hasRoom = true := by simpa using hroom
  simp only
  generalize hg : (if n.registry?.isSome = true then _ else none : Option Link) = greeted
  split
  · exact .inr (.inl .mint)
  rename_i i links hi
  refine .inr (.inr ⟨n.links.nextId.1, ?_⟩)
  cases greeted with
  | none =>
    have hid : (n.newLink n.links.nextId.1).id = n.links.nextId.1 := rfl
    simpa [emit] using Takes.arrive hroom hid hi (.inl rfl)
  | some link =>
    obtain ⟨hr, hid⟩ := greeted_cases hg
    simpa [emit, self] using Takes.arrive hroom hid hi (.inr ⟨hr, rfl⟩)

theorem accept_via (n : Node) : n.Via (fun a => a = .mint ∨ ∃ conn, a = .arrive conn) n.accept := by
  obtain hsame | hmint | ⟨conn, harrive⟩ := n.accept_cases
  · rw [hsame]
    exact .refl n
  · exact hmint.via (.inl rfl)
  · exact harrive.via (.inr ⟨conn, rfl⟩)

theorem judge_eq_ok {result : Except Fault Handshake} {h : Handshake}
    (hj : n.judge result = .ok h) :
    result = .ok h ∧ n.roster.Contains h.greeting.center.node ∧ h.greeting.center.node ≠ n.self ∧
      n.links.hasRoom = true := by
  unfold judge at hj
  split at hj
  · cases hj
  rename_i h'
  simp only at hj
  split at hj
  · cases hj
  rename_i hid
  split at hj
  · cases hj
  rename_i hroom
  cases hj
  simp only [not_or, Decidable.not_not] at hid
  exact ⟨rfl, hid.1, hid.2, by simpa using hroom⟩

theorem judge_of_contains {h : Handshake} (hin : n.roster.Contains h.greeting.center.node)
    (hne : h.greeting.center.node ≠ n.self) (hroom : n.links.hasRoom = true) :
    n.judge (.ok h) = .ok h := by
  simp [judge, hin, hne, hroom]

theorem registry?_of_center? {center : CenterLink} (h : n.center? = some center) :
    n.registry? = none := by
  unfold center? at h
  unfold registry?
  split at h
  · cases h
  · rfl

theorem Awaits.not_center (h : n.Awaits) : n.registry? = none := by
  obtain ⟨center, hc, -⟩ := h
  exact registry?_of_center? hc

theorem releaseCenter_takes (h : n.Awaits) : n.Takes .release n.releaseCenter := by
  obtain ⟨center, hc, peer, hp, hs⟩ := h
  have hc' : n.center? = some center := hc
  simp only [releaseCenter, hc']
  exact .release hc hp hs

theorem join_cases (result : Except Fault Handshake) :
    (∃ e, n.judge result = .error e ∧ n.join result = (n.releaseCenter, .error e)) ∨
    ∃ h, n.judge result = .ok h ∧
      ((∃ e, n.links.nextId.2.insert (n.newLink n.links.nextId.1) (some h.greeting.center.node) =
        .error e ∧
        (n.join result).1 = { n with links := n.links.nextId.2 }) ∨
      ∃ m, (n.registry? = none → n.center? = none ∨ n.Awaits →
          n.Takes (.join n.links.nextId.1 h) m) ∧
        n.join result =
          match m.command receive h.greeting.center (.register m.announcement) with
          | .error e => (m, .error e)
          | .ok k => (k, .ok ())) := by
  unfold join
  cases hj : n.judge result with
  | error e => exact .inl ⟨e, rfl, rfl⟩
  | ok h =>
    refine .inr ⟨h, rfl, ?_⟩
    dsimp only
    cases hi : n.links.nextId.2.insert (n.newLink n.links.nextId.1)
        (some h.greeting.center.node) with
    | error e => exact .inl ⟨e, rfl, rfl⟩
    | ok p =>
      refine .inr ⟨_, fun hm hf => ?_, rfl⟩
      obtain ⟨rfl, -⟩ := judge_eq_ok hj
      exact Takes.join hm hf hj hi _

theorem join_via (hm : n.registry? = none) (hf : n.center? = none ∨ n.Awaits)
    (result : Except Fault Handshake) (hr : n.Awaits ∨ (n.join result).2 = .ok ()) :
    n.Via Move.Retains (n.join result).1 := by
  obtain ⟨e, -, he⟩ | ⟨h, -, ⟨e, -, he⟩ | ⟨m, htakes, he⟩⟩ := join_cases (n := n) result
  · rw [he] at hr ⊢
    exact hr.elim (fun hw => (releaseCenter_takes hw).via trivial) (by simp)
  · rw [he]
    exact Takes.via .mint trivial
  · have hjoin := (htakes hm hf).via (P := Move.Retains) trivial
    rw [he]
    split
    · exact hjoin
    · rename_i hc
      exact hjoin.trans ((post_via receive_tame hc).mono fun _ ha => ha.retains)

theorem repeatRequest_via (n : Node) (c : Command) : n.Via Move.Inner (n.repeatRequest c) := by
  unfold repeatRequest
  split
  · exact request_via receive_tame ..
  · exact askIfPossible_via receive_tame ..

theorem finishHandshake_via (n : Node) (result : Except Fault Handshake) :
    n.Via Move.Retains (n.finishHandshake result) := by
  have hanswered : n.Via Move.Retains { n with handshakes := n.handshakes - 1 } :=
    Takes.answered.via trivial
  unfold finishHandshake
  refine hanswered.trans ?_
  generalize { n with handshakes := n.handshakes - 1 } = n
  dsimp only
  split
  · exact .refl n
  rename_i hw
  have hw : n.Awaits := Classical.not_not.1 hw
  have hjoin := join_via hw.not_center (.inr hw) result (.inl hw)
  split
  · rename_i hj
    rwa [hj] at hjoin
  · rename_i m hj
    rw [hj] at hjoin
    exact hjoin.trans (Via.foldl m fun n c _ => (repeatRequest_via n c).mono fun _ ha => ha.retains)

theorem rejoin_via (n : Node) : n.Via (· = .seek) n.rejoin := by
  unfold rejoin
  split
  · rename_i center endpoint hc he
    split
    · rename_i peer hp
      split
      · rename_i hs
        exact (Takes.seek hc he hp hs).via rfl
      · exact .refl n
    · exact .refl n
  · exact .refl n

theorem foldl_emit_exited (n : Node) (bound : List Handle) :
    bound.foldl (fun n handle => n.emit (.report (.exited handle))) n =
      { n with effects := n.effects ++ bound.map fun h => .report (.exited h) } := by
  induction bound generalizing n with
  | nil => simp
  | cons h rest ih =>
    rw [List.foldl_cons, ih]
    simp [emit]

/-- A link that ends was unknown, or had no node, or its node is detached and the directory learns
of it. -/
theorem lose_cases (n : Node) (conn : ConnId) :
    (n.links.erase conn = none ∧ n.lose conn = n) ∨ n.Takes (.drop conn) (n.lose conn) ∨
    ∃ id m, n.Takes (.lose id conn) m ∧
      n.lose conn =
        if m.registry?.isSome then m.forget id
        else if m.center?.map (·.node) = some id then m
        else m.askIfPossible receive (.unregister id) := by
  cases he : n.links.erase conn with
  | none => exact .inl ⟨rfl, by simp only [lose, he]⟩
  | some p =>
    obtain ⟨record, links⟩ := p
    cases ho : record.owner with
    | none =>
      have hlose : n.lose conn = { n with links } := by simp only [lose, he, ho]
      exact .inr (.inl (hlose ▸ .drop he (by simp [ho])))
    | some id =>
      cases hp : n.roster.get? id with
      | none =>
        have hlose : n.lose conn = { n with links } := by simp only [lose, he, ho, hp]
        exact .inr (.inl (hlose ▸ .drop he (by simp [ho, hp])))
      | some peer =>
        by_cases hl : peer.link = some conn
        · refine .inr (.inr ⟨id, _, .lose he ho hp hl, ?_⟩)
          simp only [lose, he, ho, hp, hl, ne_eq, not_true_eq_false, if_false, foldl_emit_exited]
        · have hlose : n.lose conn = { n with links } := by
            simp only [lose, he, ho, hp, ne_eq, hl, not_false_eq_true, if_true]
          exact .inr (.inl (hlose ▸ .drop he (by simp [ho, hp, hl])))

theorem Takes.not_linked_of_lose {id : NodeId} {conn : ConnId} (h : n.Takes (.lose id conn) m) :
    ∀ p ∈ m.roster.get? id, ¬ p.Linked := by
  intro p hp
  cases h with
  | lose =>
    rw [Roster.get?_detach, if_pos rfl] at hp
    obtain ⟨q, -, rfl⟩ := Option.map_eq_some_iff.1 hp
    exact Peer.not_linked_detached

theorem Takes.via_of_lose {id : NodeId} {conn : ConnId} (h : n.Takes (.lose id conn) m) :
    m.Via Move.Inner
      (if m.registry?.isSome then m.forget id
        else if m.center?.map (·.node) = some id then m
        else m.askIfPossible receive (.unregister id)) := by
  split
  · exact forget_via h.not_linked_of_lose
  · split
    · exact .refl m
    · exact askIfPossible_via receive_tame ..

theorem lose_via (n : Node) (conn : ConnId) :
    n.Via (fun a => a.Inner ∨ a = .drop conn ∨ ∃ id, a = .lose id conn) (n.lose conn) := by
  obtain ⟨-, h⟩ | hdrop | ⟨id, m, hlose, h⟩ := lose_cases n conn
  · rw [h]
    exact .refl n
  · exact hdrop.via (.inr (.inl rfl))
  · rw [h]
    exact (hlose.via (.inr (.inr ⟨id, rfl⟩))).trans (hlose.via_of_lose.mono fun _ => .inl)

theorem connected_via (n : Node) (conn : ConnId) :
    n.Via (fun a => ∃ id, a = .establish id) (n.connected conn) := by
  unfold connected
  split
  · exact .refl n
  split
  · exact .refl n
  rename_i peer hp
  split
  · rename_i h
    exact (Takes.establish hp h.2).via ⟨_, rfl⟩
  · exact .refl n

theorem tick_via (n : Node) : n.Via (fun a => a.Inner ∨ a = .seek) n.tick := by
  unfold tick
  dsimp only
  have hbeats := Via.foldl (P := Move.Inner) n
    (l := n.roster.due n.now (n.profile.heartbeatInterval * 1000))
    fun n (x : NodeId × Handle) _ => tell_via receive_tame n x.2 .heartbeat
  refine (hbeats.mono fun _ => .inl).trans ?_
  split
  · exact .refl _
  · exact (rejoin_via _).mono fun _ => .inr

theorem Via.of_inner (h : n.Via Move.Inner m) : n.Via (fun a => a.Steady ∧ a.Retains) m :=
  h.mono fun _ ha => ⟨ha.steady, ha.retains⟩

theorem lose_steady (n : Node) (conn : ConnId) :
    n.Via (fun a => a.Steady ∧ a.Retains) (n.lose conn) := by
  refine (lose_via n conn).mono ?_
  rintro _ (ha | rfl | ⟨id, rfl⟩)
  · exact ⟨ha.steady, ha.retains⟩
  · exact ⟨trivial, trivial⟩
  · exact ⟨trivial, trivial⟩

theorem tick_steady (n : Node) : n.Via (fun a => a.Steady ∧ a.Retains) n.tick := by
  refine (tick_via n).mono ?_
  rintro _ (ha | rfl)
  · exact ⟨ha.steady, ha.retains⟩
  · exact ⟨trivial, trivial⟩

theorem linkEvent_steady (n : Node) (e : LinkEvent) :
    n.Via (fun a => a.Steady ∧ a.Retains) (n.linkEvent e) := by
  cases e with
  | connected conn =>
    refine (connected_via n conn).mono ?_
    rintro _ ⟨id, rfl⟩
    exact ⟨trivial, trivial⟩
  | frames conn frames => exact Via.foldl n fun n f _ => (receive_via n f).of_inner
  | closed conn reason => exact lose_steady n conn

theorem call_steady (n : Node) (r : Request) :
    n.Via (fun a => a.Steady ∧ a.Retains) (n.call r).1 := by
  cases r with
  | tick => exact tick_steady n
  | send source dest kind payload =>
    simp only [call]
    split
    · rename_i h
      exact (post_via receive_tame h).of_inner
    · exact .refl n
  | subscribe name =>
    simp only [call]
    split
    · rename_i h
      exact (subscribe_via receive_tame h).of_inner
    · exact .refl n
  | publish name handle =>
    simp only [call]
    split
    · rename_i h
      exact (publish_via receive_tame h).of_inner
    · exact .refl n

theorem accept_steady (n : Node) : n.Via (fun a => a.Steady ∧ a.Retains) n.accept := by
  refine (accept_via n).mono ?_
  rintro _ (rfl | ⟨conn, rfl⟩)
  · exact ⟨trivial, trivial⟩
  · exact ⟨trivial, trivial⟩

theorem step_via_of_ne_handshake (n : Node) {e : Event} (he : ∀ result, e ≠ .handshake result) :
    n.Via Move.Steady (n.step e) := by
  cases e with
  | accept => exact (accept_steady n).mono fun _ ha => ha.1
  | link e => exact (linkEvent_steady n e).mono fun _ ha => ha.1
  | handshake result => exact absurd rfl (he result)
  | call r => exact (call_steady n r).mono fun _ ha => ha.1
  | tick => exact (tick_steady n).mono fun _ ha => ha.1
  | written conn => exact Takes.via (.write (f := fun l => l.drain.2) fun _ => rfl) trivial
  | stopped conn => exact Takes.via (.write (f := Link.stop) fun _ => rfl) trivial
  | install name moduleId => exact (Takes.tend n.now _).via trivial
  | uninstall name => exact (Takes.tend n.now _).via trivial
  | refusal =>
    simp only [step]
    split
    · exact .refl n
    · rename_i conn reason rest hr
      exact ((Takes.pardon hr).via trivial).trans ((lose_steady ..).mono fun _ ha => ha.1)

theorem step_via (n : Node) (e : Event) : n.Via (fun _ => True) (n.step e) := by
  by_cases he : ∃ result, e = .handshake result
  · obtain ⟨result, rfl⟩ := he
    exact (finishHandshake_via n result).mono fun _ _ => trivial
  · exact (step_via_of_ne_handshake n fun result h => he ⟨result, h⟩).mono fun _ _ => trivial

theorem stepAt_via (n : Node) (now : Nat) (e : Event) : n.Via (fun _ => True) (n.stepAt now e) :=
  ((Takes.tend now n.catalog).via trivial).trans (step_via ..)

theorem run_via (n : Node) (events : List (Nat × Event)) : n.Via (fun _ => True) (n.run events) :=
  Via.foldl n fun n x _ => stepAt_via n x.1 x.2

variable {profile : Profile} {catalog : Catalog} {port : UInt16} {now : Nat}
  {result : Except Fault Handshake}

theorem center?_idle : (idle profile catalog port now).center? = none := by
  unfold idle center?
  dsimp only
  split
  · rfl
  · rename_i hr
    split at hr
    · cases hr
    · cases hr
      rfl

theorem start_cases (h : start profile catalog port now result = .ok n) :
    profile.flaw? = none ∧
      ((Node.registry? (idle profile catalog port now)).isSome ∧ n = idle profile catalog port now ∨
        Node.registry? (idle profile catalog port now) = none ∧
          (idle profile catalog port now).join result = (n, .ok ())) := by
  unfold start at h
  split at h
  · cases h
  rename_i hflaw
  refine ⟨hflaw, ?_⟩
  dsimp only at h
  split at h
  · rename_i hr
    cases h
    exact .inl ⟨hr, rfl⟩
  · rename_i hr
    split at h
    · cases h
    · rename_i hj
      cases h
      exact .inr ⟨by simpa using hr, hj⟩

theorem start_via (h : start profile catalog port now result = .ok n) :
    (idle profile catalog port now).Via Move.Retains n := by
  obtain ⟨-, ⟨-, rfl⟩ | ⟨hm, hj⟩⟩ := start_cases h
  · exact .refl _
  · have hvia := join_via hm (.inl center?_idle) result (.inr (by rw [hj]))
    rwa [hj] at hvia

theorem get?_idle {id : NodeId} {p : Peer}
    (h : (idle profile catalog port now).roster.get? id = some p) :
    p.state = .empty ∧ p.link = none ∧ p.bound = [] ∧ (id ≠ profile.nodeId → p = {}) := by
  have hc := Roster.contains_of_get? h
  simp only [Roster.get?, hc, if_true] at h
  simp only [idle, Roster.setOwnHandle, Roster.ofSize, Array.getElem?_modify,
    Array.getElem?_replicate, NodeId.index_inj] at h
  by_cases hid : profile.nodeId = id
  · simp only [hid, if_true, Option.map_map, Option.map_eq_some_iff] at h
    obtain ⟨q, hq, rfl⟩ := h
    split at hq
    · cases hq
      simp [hid]
    · cases hq
  · simp only [hid, if_false] at h
    split at h
    · cases h
      simp
    · cases h

/-- What every move keeps holds after every run. -/
theorem run_keeps {I : Node → Prop} (hstep : ∀ n a m, I n → Takes n a m → I m) (hn : I n)
    (events : List (Nat × Event)) : I (n.run events) :=
  (run_via n events).keeps (fun n a m hi _ => hstep n a m hi) hn

theorem start_keeps {I : Node → Prop} (hstep : ∀ n a m, I n → Takes n a m → I m)
    (hidle : I (idle profile catalog port now))
    (h : start profile catalog port now result = .ok n) :
    I n :=
  (start_via h).keeps (fun n a m hi _ => hstep n a m hi) hidle

end Node

end Meshwork
