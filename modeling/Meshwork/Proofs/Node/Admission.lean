import Meshwork.Proofs.Greeting
import Meshwork.Proofs.Node.Announced
import Meshwork.Proofs.Node.Directory
import Meshwork.Proofs.Node.Introductions
import Meshwork.Proofs.RoundTrip

/-!
# A client and a center find each other

A center greets whoever connects, the client reads the greeting, links the center and registers, and
the center opens a link back. Main statement: `admission_of_run`, each of the two reads what the
other one says as it is meant.
-/

namespace Meshwork

def Profile.registration (p : Profile) (port : UInt16) (center : NodeId) : Frame :=
  (Command.register (p.announcement port)).frame p.nodeId ⟨center, centerModule⟩

def Move.Local (a : Move) : Prop := a.Inner ∧ ∀ id, ¬ a.LinksTo id

namespace Node

variable {n m k : Node} {a : Move} {loop : Loopback} {conn : ConnId} {id : NodeId} {f : Frame}

/-- The connections that the node has opened, oldest first. -/
def connects (n : Node) : List (ConnId × Endpoint) :=
  n.effects.filterMap fun
    | .connect conn endpoint => some (conn, endpoint)
    | _ => none

theorem Ordered.queuedOn_accept (ho : n.Ordered) (center : n.registry?.isSome)
    (hroom : n.links.hasRoom = true)
    (hfit : (Greeting.frame n.self).payload.length ≤ n.wire.maxPayload) :
    n.accept.queuedOn n.links.nextId.1 = [Greeting.frame n.self] := by
  have hencode : n.wire.encode (Greeting.frame n.self) = .ok (Greeting.frame n.self).bytes :=
    Wire.encode_eq_ok_iff.2 ⟨hfit, rfl⟩
  obtain ⟨link, hsend⟩ :
      ∃ link, (n.newLink n.links.nextId.1).send (Greeting.frame n.self).bytes = .ok link :=
    ⟨_, Link.send_ofBound ..⟩
  obtain ⟨i, links, hinsert⟩ := ho.wired.links.kept.nextId.exists_insert hroom link none
  have heffects : n.accept.effects =
      n.effects ++
          [.adopt n.links.nextId.1 [], .queued n.links.nextId.1 (Greeting.frame n.self)] := by
    simp [accept, hroom, center, hencode, hsend, hinsert, Except.toOption, emit]
    rfl
  rw [queuedOn_eq, heffects, List.filterMap_append, ← queuedOn_eq, ho.queuedOn_nextId]
  simp [Effect.frameOn?]

theorem head?_queuedOn_run (events : List (Nat × Event)) (h : n.queuedOn conn = [f]) :
    ((n.run events).queuedOn conn).head? = some f := by
  obtain ⟨frames, hframes⟩ := (run_via n events).queuedOn_eq_append conn
  rw [hframes, h]
  rfl

/-- The states in which a member takes up the result of a handshake: at its start, and later when
the entry of the center waits for it. -/
inductive Ready (profile : Profile) (catalog : Catalog) (port : UInt16)
    (now : Nat) : Node → Prop where
  | first (flawless : profile.flaw? = none)
      (member : Node.registry? (idle profile catalog port now) = none) :
      Ready profile catalog port now (idle profile catalog port now)
  | again {result : Except Fault Handshake} {n₀ : Node}
      (started : start profile catalog port now result = .ok n₀) (before : List (Nat × Event))
        (t : Nat)
      (awaited : (n₀.run before).Awaits) :
      Ready profile catalog port now
        { n₀.run before with now := t, handshakes := (n₀.run before).handshakes - 1 }

theorem Ready.can_join {profile : Profile} {catalog : Catalog} {port : UInt16} {now : Nat}
    (h : Ready profile catalog port now n) :
    n.Ordered ∧ n.registry? = none ∧ (n.center? = none ∨ n.Awaits) ∧
      n.announcement = profile.announcement port := by
  cases h with
  | first flawless member =>
    exact ⟨ordered_idle flawless .., member, .inl center?_idle, announcement_idle flawless⟩
  | @again result n₀ started before t awaited =>
    have ho := (ordered_of_run started before).tend t
    refine ⟨Takes.answered.ordered ho, awaited.not_center, .inr awaited, ?_⟩
    have hannounced : (n₀.run before).announcement = profile.announcement port := by
      rw [announcement_of_run started, announcement_of_start started]
    exact hannounced

theorem Takes.entry_of_join {h : Handshake} (ht : n.Takes (.join conn h) m) :
    ∃ p, m.roster.get? h.greeting.center.node = some p ∧ p.state = .established ∧
      p.handle = some h.greeting.mesh ∧ p.link = some conn := by
  cases ht with
  | join hm hf hj hi =>
    obtain ⟨-, hin, -, -⟩ := judge_eq_ok hj
    obtain ⟨q, hq⟩ := Roster.exists_get? hin
    rw [Roster.get?_noteSent_attach_update, if_pos rfl, hq]
    exact ⟨_, rfl, rfl, rfl, rfl⟩

theorem Ordered.join_eq (ho : n.Ordered) (hm : n.registry? = none)
    (hf : n.center? = none ∨ n.Awaits) {h : Handshake} (hj : n.judge (.ok h) = .ok h)
    (hfit : n.Fits (.register n.announcement)) :
    ∃ k p, n.join (.ok h) = (k, .ok ()) ∧ k.roster.get? h.greeting.center.node = some p ∧
      p.state = .established ∧ p.handle = some h.greeting.mesh ∧ p.link = some n.links.nextId.1 ∧
      k.queuedOn n.links.nextId.1 =
        [(Command.register n.announcement).frame n.self h.greeting.center] := by
  obtain ⟨m, ht, hask⟩ := ho.exists_join hm hf hj
  obtain ⟨hs, hempty, -⟩ := ht.session_of_join ho
  have hsame := ht.announcement_eq ho.seated
  have hfit' : m.Fits (.register m.announcement) := by
    rw [hsame]
    exact (ht.via (P := fun _ => True) trivial).fits_iff.2 hfit
  obtain ⟨k, hk, hqueue⟩ := ht.exists_ask_of_join ho hfit'
  obtain ⟨e, he, -⟩ | ⟨k', hk', hjoin⟩ := hask
  · rw [hk] at he
    cases he
  rw [hk, Except.ok.injEq] at hk'
  subst hk'
  obtain ⟨q, hq, hstate, hhandle, hlink⟩ := ht.entry_of_join
  obtain ⟨p, hp, hstate', hhandle', hlink'⟩ := hqueue.entry_of_queue hq
  refine ⟨k, p, hjoin, hp, hstate'.trans hstate, hhandle'.trans hhandle, hlink'.trans hlink, ?_⟩
  rw [hqueue.queuedOn nofun, hempty, hsame, ht.self_eq]
  simp [Move.frame?]

theorem receiveWith_of_addr (hf : f.keyword? = some .addr) (n : Node) :
    n.Via Move.Local (n.receiveWith loop f) := by
  have haddr {source : Handle} {c : Command}
      (h : n.routing.classify f = .control source c ∨ n.routing.classify f = .request source c) :
      ∃ a, c = .address a := by
    have hk := Frame.keyword?_of_parse (Routing.parse_of_classify h)
    rw [hf, Option.some.injEq] at hk
    cases c with
    | address a => exact ⟨a, rfl⟩
    | _ => cases hk
  unfold receiveWith
  split
  · rename_i source c hclass
    obtain ⟨a, rfl⟩ := haddr (.inl hclass)
    exact (noteAddress_via n a).mono fun _ hb => ⟨hb.1.inner, hb.2⟩
  · rename_i source c hclass
    obtain ⟨a, rfl⟩ := haddr (.inr hclass)
    unfold serve
    split
    · rename_i registry hr
      exact (Takes.enter hr source.node (.address a)).via ⟨trivial, fun _ => id⟩
    · exact .refl n
  · exact (Takes.deliver _).via ⟨trivial, fun _ => id⟩
  · exact .refl n

theorem tell_address_via (n : Node) (dest : Handle) (b : Announcement) :
    n.Via Move.Local (n.tell receiveOwn dest (.address b)) := by
  unfold tell
  split
  · rename_i hs
    unfold command post at hs
    split at hs
    · split at hs
      · cases hs
      · cases hs
        exact receiveWith_of_addr (Frame.keyword?_eq (c := .address b) rfl) n
    · obtain ⟨_, _, -, -, -, hqueue | hrefuse⟩ := sendOver_takes hs
      · exact hqueue.via ⟨trivial, fun _ => id⟩
      · exact hrefuse.via ⟨trivial, fun _ => id⟩
  · exact .refl n

theorem introduce_local (n : Node) (id : NodeId) :
    n.Via Move.Local (n.introduce receiveOwn id) := by
  unfold introduce
  split
  · split
    · split
      · exact Via.foldl n fun n other _ => (tell_address_via ..).trans (tell_address_via ..)
      · exact .refl n
    · exact .refl n
  · exact .refl n

theorem Takes.connects_eq (ht : n.Takes a m) (ha : ∀ id, ¬ a.LinksTo id) :
    m.connects = n.connects := by
  cases ht with
  | dial => exact absurd rfl (ha _)
  | join => exact absurd rfl (ha _)
  | arrive _ _ _ hg => obtain rfl | ⟨-, rfl⟩ := hg <;> simp [connects]
  | lose => simp [connects, List.filterMap_append, List.filterMap_map]
  | _ => simp [connects]

theorem Via.connects_eq (hv : n.Via Move.Local m) : m.connects = n.connects :=
  hv.keeps (I := fun k => k.connects = n.connects)
    (fun _ _ _ hk ha ht => (ht.connects_eq ha.2).trans hk) rfl

theorem Takes.connects_of_dial {p : Peer} {endpoint : Endpoint} (ht : n.Takes (.dial id conn) m)
    (hp : n.roster.get? id = some p) (he : p.address.endpoint? = some endpoint) :
    m.connects = n.connects ++ [(conn, endpoint)] := by
  cases ht with
  | dial _ hp' _ _ he' =>
    rw [hp', Option.some.injEq] at hp
    subst hp
    rw [he', Option.some.injEq] at he
    subst he
    simp [connects]

theorem Ordered.connects_enroll (ho : n.Ordered) {b : Announcement} (hid : b.id ≠ n.self) {p : Peer}
    (hp : n.roster.get? b.id = some p) (hl : ¬ p.Linked) (hw : ¬ n.Waits b.id) {endpoint : Endpoint}
    (he : b.address.endpoint? = some endpoint) (hroom : n.links.hasRoom = true) :
    (n.enroll b).Ordered ∧ (n.enroll b).connects = n.connects ++ [(n.links.nextId.1, endpoint)] ∧
      ∃ q, (n.enroll b).roster.get? b.id = some q ∧ q.link = some n.links.nextId.1 := by
  obtain ⟨k, hlearn, hdial⟩ := ho.enroll_takes hid hp hl hw (by rw [he]; rfl) hroom
  have hsame : k.connects = n.connects := hlearn.connects_eq fun _ => id
  obtain ⟨q, hq, haddress⟩ : ∃ q, k.roster.get? b.id = some q ∧ q.address = b.address := by
    cases hlearn with
    | learn => exact ⟨_, by rw [Roster.get?_update, if_pos rfl, hp]; rfl, rfl⟩
  obtain ⟨r, -, hr⟩ := hdial.entry_of_dial
  refine ⟨hdial.ordered (hlearn.ordered ho), ?_, _, hr, rfl⟩
  rw [hdial.connects_of_dial hq (haddress ▸ he), hsame]

theorem Takes.not_waits (ht : n.Takes a m) (center : n.registry?.isSome) (h : ∀ id, ¬ n.Waits id)
    (id : NodeId) :
    ¬ m.Waits id := by
  rintro ⟨p, hp, hs⟩
  obtain ⟨q, hq, halters⟩ := ht.alters hp
  have hq' : q.state ≠ .handshaking := fun hs => h id ⟨q, hq, hs⟩
  cases halters with
  | seek hcenter =>
    obtain ⟨link, hlink, -⟩ := Option.map_eq_some_iff.1 hcenter
    simp [registry?_of_center? hlink] at center
  | same | learn | bind | queue => exact hq' hs
  | _ => cases hs

section Start

variable {profile cprofile : Profile} {catalog ccatalog : Catalog} {port cport : UInt16}
  {now cnow : Nat}
  {result : Except Fault Handshake} {c₀ : Node} {events : List (Nat × Event)}

theorem center_of_run (started : start cprofile ccatalog cport cnow result = .ok c₀)
    (center : c₀.registry?.isSome) (events : List (Nat × Event)) :
    (Node.registry? (c₀.run events)).isSome ∧ ∀ id, ¬ (c₀.run events).Waits id :=
  run_keeps (I := fun k => k.registry?.isSome ∧ ∀ id, ¬ k.Waits id)
    (fun _ _ _ hk ht => ⟨ht.isSome_registry?.trans hk.1, ht.not_waits hk.1 hk.2⟩)
    ⟨center, (not_waits_of_start started).2⟩ events

/-- A center `c₀` and a client `n` that takes up a handshake understand each other. -/
structure Admission (c₀ n : Node) (client : Announcement) (registration : Frame) : Prop where
  numbers : (Greeting.ofCenter c₀.self).center.number = 256 * c₀.self.index + 2 ∧
    (Greeting.ofCenter c₀.self).mesh.number = 256 * c₀.self.index + 1
  greets : ∀ before t later, (c₀.run before).links.hasRoom = true →
    ((((c₀.run before).stepAt t .accept).run later).queuedOn (c₀.run before).links.nextId.1).head? =
      some (Greeting.frame c₀.self)
  /-- The client reads this, whatever it is cut into and whatever follows it, and registers over the
  new link. -/
  joins : ∀ chunks rest, chunks.flatten = (Greeting.frame c₀.self).bytes ++ rest →
    ∃ pending later,
      Greeting.readChunks n.wire [] chunks = .ok (some (.ofCenter c₀.self, pending, later)) ∧
      pending ++ later.flatten = rest ∧
      ∃ k p, n.join (.ok ⟨.ofCenter c₀.self, pending⟩) = (k, .ok ()) ∧
        k.roster.get? c₀.self = some p ∧
        p.state = .established ∧ p.handle = some ⟨c₀.self, meshModule⟩ ∧
          p.link = some n.links.nextId.1 ∧
        k.queuedOn n.links.nextId.1 = [registration]
  understands : ∀ before rest,
    (c₀.run before).wire.decode (registration.bytes ++ rest) = .ok (some (registration, rest)) ∧
    (c₀.run before).routing.classify registration =
      .request ⟨client.id, meshModule⟩ (.register client)
  /-- The center opens one link to a client that has none. -/
  answers : ∀ before t conn endpoint, (∀ p ∈ (c₀.run before).roster.get? client.id, ¬ p.Linked) →
    client.address.endpoint? = some endpoint → (c₀.run before).links.hasRoom = true →
    ((c₀.run before).stepAt t (.link (.frames conn [registration]))).connects =
        (c₀.run before).connects ++ [((c₀.run before).links.nextId.1, endpoint)] ∧
      ∃ p, ((c₀.run before).stepAt t (.link (.frames conn [registration]))).roster.get? client.id =
        some p ∧ p.link = some (c₀.run before).links.nextId.1

theorem greets_of_run (started : start cprofile ccatalog cport cnow result = .ok c₀)
    (center : c₀.registry?.isSome)
    (fits : (Greeting.frame c₀.self).payload.length ≤ c₀.wire.maxPayload)
    (before : List (Nat × Event)) (t : Nat) (later : List (Nat × Event))
    (room : (c₀.run before).links.hasRoom = true) :
    ((((c₀.run before).stepAt t .accept).run later).queuedOn (c₀.run before).links.nextId.1).head? =
      some (Greeting.frame c₀.self) := by
  have hvia := run_via c₀ before
  have hcenter := (center_of_run started center before).1
  have hself : Node.self { c₀.run before with now := t } = c₀.self := hvia.self_eq
  have hwire : (c₀.run before).wire = c₀.wire := hvia.wire_eq
  have hfirst := ((ordered_of_run started before).tend t).queuedOn_accept hcenter room (by
    rw [hself]
    exact hwire ▸ fits)
  rw [hself] at hfirst
  exact head?_queuedOn_run later hfirst

theorem Ready.joins {n : Node} {center : NodeId} (ready : Ready profile catalog port now n)
    (other : center ≠ profile.nodeId) (known : n.roster.Contains center)
    (room : n.links.hasRoom = true)
    (greets : (Greeting.frame center).payload.length ≤ n.wire.maxPayload)
    (fits : (profile.registration port center).payload.length ≤ n.wire.maxPayload)
    {chunks : List (List UInt8)} {rest : List UInt8}
    (hchunks : chunks.flatten = (Greeting.frame center).bytes ++ rest) :
    ∃ pending later,
      Greeting.readChunks n.wire [] chunks = .ok (some (.ofCenter center, pending, later)) ∧
      pending ++ later.flatten = rest ∧
      ∃ k p, n.join (.ok ⟨.ofCenter center, pending⟩) = (k, .ok ()) ∧
        k.roster.get? center = some p ∧
        p.state = .established ∧ p.handle = some ⟨center, meshModule⟩ ∧
          p.link = some n.links.nextId.1 ∧
        k.queuedOn n.links.nextId.1 = [profile.registration port center] := by
  obtain ⟨ho, hm, hf, hannounced⟩ := ready.can_join
  have hself : n.self = profile.nodeId := congrArg Announcement.id hannounced
  have hdecode :
      n.wire.decode ([] ++ chunks.flatten) = .ok (some (Greeting.frame center, rest)) := by
    rw [List.nil_append, hchunks]
    exact Wire.decode_bytes_append greets rest
  obtain ⟨pending, later, hread, hrest⟩ :=
    Greeting.readChunks_of_frame hdecode (Greeting.parse_text _)
  refine ⟨pending, later, hread, hrest, ?_⟩
  have hjudge : n.judge (.ok ⟨.ofCenter center, pending⟩) = .ok ⟨.ofCenter center, pending⟩ :=
    judge_of_contains known (hself ▸ other) room
  have hfit : n.Fits (.register n.announcement) := by
    rw [hannounced]
    exact fits
  obtain ⟨k, p, hjoin, hp, hstate, hhandle, hlink, hqueue⟩ := ho.join_eq hm hf hjudge hfit
  rw [hannounced, hself] at hqueue
  exact ⟨k, p, hjoin, hp, hstate, hhandle, hlink, hqueue⟩

theorem understands_of_run (started : start cprofile ccatalog cport cnow result = .ok c₀)
    (center : c₀.registry?.isSome) (readable : (profile.announcement port).Readable)
    (fits : (profile.registration port c₀.self).payload.length ≤ c₀.wire.maxPayload)
    (before : List (Nat × Event)) (rest : List UInt8) :
    (c₀.run before).wire.decode ((profile.registration port c₀.self).bytes ++ rest) =
        .ok (some (profile.registration port c₀.self, rest)) ∧
      (c₀.run before).routing.classify (profile.registration port c₀.self) =
        .request ⟨profile.nodeId, meshModule⟩ (.register (profile.announcement port)) := by
  have hvia := run_via c₀ before
  have hwire : (c₀.run before).wire = c₀.wire := hvia.wire_eq
  have hcenter : (c₀.run before).routing.isCenter = true := (center_of_run started center before).1
  have hself : (c₀.run before).routing.self = c₀.self := hvia.self_eq
  refine ⟨Wire.decode_bytes_append (hwire ▸ fits) rest, ?_⟩
  have hclass :=
    Routing.classify_frame hcenter (.register (profile.announcement port)) profile.nodeId
  rw [hself, readable.parse_register] at hclass
  exact hclass

theorem answers_of_run (started : start cprofile ccatalog cport cnow result = .ok c₀)
    (center : c₀.registry?.isSome) {b : Announcement} (other : b.id ≠ c₀.self)
    (knows : c₀.roster.Contains b.id)
    (before : List (Nat × Event)) {f : Frame} {source : Handle}
    (hf : (c₀.run before).routing.classify f = .request source (.register b))
    (unlinked : ∀ p ∈ (c₀.run before).roster.get? b.id, ¬ p.Linked) {endpoint : Endpoint}
    (usable : b.address.endpoint? = some endpoint) (room : (c₀.run before).links.hasRoom = true)
    (t : Nat)
    (conn : ConnId) :
    ((c₀.run before).stepAt t (.link (.frames conn [f]))).connects =
        (c₀.run before).connects ++ [((c₀.run before).links.nextId.1, endpoint)] ∧
      ∃ p, ((c₀.run before).stepAt t (.link (.frames conn [f]))).roster.get? b.id = some p ∧
        p.link = some (c₀.run before).links.nextId.1 := by
  have ho := (ordered_of_run started before).tend t
  have hvia := run_via c₀ before
  obtain ⟨hcenter, hwaits⟩ := center_of_run started center before
  have hin : (c₀.run before).roster.Contains b.id := by
    rw [contains_of_run started before]
    exact (contains_of_run started [] b.id).1 knows
  obtain ⟨p, hp⟩ := Roster.exists_get? hin
  have hregistration : (routing { c₀.run before with now := t }).registration? f = some b := by
    have hf' :
        (routing { c₀.run before with now := t }).classify f = .request source (.register b) := hf
    rw [Routing.registration?, hf']
  have hstep : (c₀.run before).stepAt t (.link (.frames conn [f])) =
      (enroll { c₀.run before with now := t } b).introduce receiveOwn b.id :=
    receive_of_registration? hcenter hregistration
  obtain ⟨ho', hconnects, q, hq, hlink⟩ :=
    ho.connects_enroll (b := b) (hvia.self_eq ▸ other) hp (unlinked p hp) (hwaits b.id) usable room
  -- the link is opened by the registration; to introduce the nodes to each other opens none
  have hlocal := introduce_local (enroll { c₀.run before with now := t } b) b.id
  have hkeeps :
      ∀ a : Move, a.Local → a ≠ .lose b.id (c₀.run before).links.nextId.1 ∧ ¬ a.Joins := by
    intro a ha
    refine ⟨?_, ha.1.not_joins⟩
    rintro rfl
    exact ha.1
  rw [hstep]
  exact ⟨hlocal.connects_eq.trans hconnects, hlocal.link_kept ho' hkeeps hq hlink⟩

/-- A client that takes up a handshake, at its start or later, and a center at any time of its run
agree on who the other one is, if the ids are distinct and both rosters have them, the hosts of the
client are words or unknown, no text is too long for either, and the client has room for the
link. -/
theorem admission_of_run {n : Node} (started : start cprofile ccatalog cport cnow result = .ok c₀)
    (center : c₀.registry?.isSome) (ready : Ready profile catalog port now n)
    (distinct : profile.nodeId ≠ c₀.self) (known : n.roster.Contains c₀.self)
    (knows : c₀.roster.Contains profile.nodeId) (room : n.links.hasRoom = true)
    (hosts : ∀ host ∈ [profile.address.nodeHost, profile.address.gateHost, profile.address.wanHost],
      host ≠ noHost ∧ Text.Unbroken host)
    (greeting : (Greeting.frame c₀.self).payload.length ≤ min c₀.wire.maxPayload n.wire.maxPayload)
    (registration : (profile.registration port c₀.self).payload.length ≤
      min c₀.wire.maxPayload n.wire.maxPayload) :
    Admission c₀ n (profile.announcement port) (profile.registration port c₀.self) := by
  obtain ⟨hgreets, hread⟩ := Nat.le_min.1 greeting
  obtain ⟨hhears, hwrites⟩ := Nat.le_min.1 registration
  have hreadable : (profile.announcement port).Readable :=
    Announcement.readable_iff.2 ⟨knows.1, hosts⟩
  constructor
  case numbers => exact ⟨by simp [Handle.number, Greeting.ofCenter, centerModule, Nat.mul_comm],
    by simp [Handle.number, Greeting.ofCenter, meshModule, Nat.mul_comm]⟩
  case greets => exact greets_of_run started center hgreets
  case joins => exact fun chunks rest => ready.joins distinct.symm known room hread hwrites
  case understands => exact understands_of_run started center hreadable hhears
  case answers =>
    intro before t conn endpoint unlinked usable hroom
    have hclass := (understands_of_run started center hreadable hhears before []).2
    exact answers_of_run started center distinct knows before hclass unlinked usable hroom t conn

/-- Node 2 comes to the center that is node 1. -/
theorem admission_of_run_second :
    start {} {} 7100 0 (.error .closed) = .ok (idle {} {} 7100 0) ∧
    Admission (idle {} {} 7100 0) (idle { nodeId := ⟨2⟩, center := .remote "hub:7100" } {} 7101 0)
      ⟨⟨2⟩, { nodeHost := "127.0.0.1", nodePort := 7101 }, ⟨⟨2⟩, meshModule⟩⟩
      (Profile.registration { nodeId := ⟨2⟩, center := .remote "hub:7100" } 7101 ⟨1⟩) := by
  have started : start {} {} 7100 0 (.error .closed) = .ok (idle {} {} 7100 0) := rfl
  have ready : Ready { nodeId := ⟨2⟩, center := .remote "hub:7100" } {} 7101 0
      (idle { nodeId := ⟨2⟩, center := .remote "hub:7100" } {} 7101 0) := .first (by decide) rfl
  exact ⟨started,
    admission_of_run started rfl ready (by decide) (by decide +kernel) (by decide +kernel)
    (by decide +kernel) (by decide +kernel) (by decide +kernel) (by decide +kernel)⟩

end Start

end Node

end Meshwork
