import Meshwork.Node.Step
import Meshwork.Proofs.Command
import Meshwork.Proofs.Links
import Meshwork.Proofs.Roster

/-!
# Moves

Whatever a node does is made up of moves. `Node.Takes` says what each move needs and what it
changes, and `Node.Path` is a list of moves, one after the other: what every move keeps, every
handler keeps, and so does every state that a handler passes through.
-/

namespace Meshwork

/-- A change of a node that no other change of it is a part of. -/
inductive Move where
  | tend
  | pardon
  | answered
  | deliver (delivery : Delivery)
  | bracket (event : ModuleEvent)
  | want (name : String)
  | offer (name : String) (handle : Handle)
  | enter (source : NodeId) (command : Command)
  | forget (id : NodeId)
  | learn (node : Announcement)
  | bind (name : String) (handle : Handle)
  | dial (id : NodeId) (conn : ConnId)
  | queue (id : NodeId) (conn : ConnId) (frame : Frame)
  | refuse (id : NodeId) (conn : ConnId)
  | mint
  | arrive (conn : ConnId)
  | join (conn : ConnId) (handshake : Handshake)
  | release
  | seek
  | establish (id : NodeId)
  | drop (conn : ConnId)
  | lose (id : NodeId) (conn : ConnId)
  | write (conn : ConnId)
deriving DecidableEq

namespace Move

/-- The moves by which a node gets to know and reaches other nodes. -/
def Meets : Move → Prop
  | .learn _ | .bind .. | .dial .. => True
  | _ => False

/-- The moves that the handling of a frame is made up of. They open links and queue frames, but end
no link and begin no handshake. -/
def Inner : Move → Prop
  | .deliver _ | .bracket _ | .want _ | .offer .. | .enter .. | .forget _ | .learn _ | .bind .. |
    .dial ..
  | .queue .. | .refuse .. => True
  | _ => False

def Remembers : Move → Prop
  | .want _ | .offer .. => True
  | _ => False

/-- The moves other than to remember a request or to queue one. -/
def Quiet : Move → Prop
  | .want _ | .offer .. => False
  | .queue _ _ frame => ¬ frame.IsRequest
  | _ => True

def Joins : Move → Prop
  | .join .. => True
  | _ => False

def LinksTo (id : NodeId) : Move → Prop
  | .dial id' _ => id' = id
  | .join _ h => h.greeting.center.node = id
  | _ => False

def Announces (id : NodeId) : Move → Prop
  | .learn a => a.id = id
  | .join _ h => h.greeting.center.node = id
  | _ => False

def Calm (a : Move) : Prop := a.Quiet ∧ ∀ id, ¬ a.LinksTo id

/-- The moves by which no result of a handshake is taken. -/
def Steady : Move → Prop
  | .answered | .join .. | .release => False
  | _ => True

/-- The moves by which nothing is taken from the queue of a link, nor from the refusals. -/
def Retains : Move → Prop
  | .write _ | .pardon => False
  | _ => True

variable {a : Move}

theorem Quiet.not_remembers (h : a.Quiet) : ¬ a.Remembers := by
  cases a <;> first | exact id | exact fun _ => h

theorem Inner.steady (h : a.Inner) : a.Steady := by
  cases a <;> trivial

theorem Inner.retains (h : a.Inner) : a.Retains := by
  cases a <;> trivial

theorem Retains.ne_pardon (h : a.Retains) : a ≠ .pardon := by
  rintro rfl
  exact h

theorem Meets.inner (h : a.Meets) : a.Inner := by
  cases a <;> trivial

theorem Meets.quiet (h : a.Meets) : a.Quiet := by
  cases a <;> trivial

theorem Inner.not_joins (h : a.Inner) : ¬ a.Joins := by
  cases a <;> first | exact id | exact fun _ => h

theorem Steady.not_joins (h : a.Steady) : ¬ a.Joins := by
  cases a <;> first | exact id | exact fun _ => h

theorem not_joins_of_not_linksTo (h : ∀ id, ¬ a.LinksTo id) : ¬ a.Joins := by
  cases a with
  | join conn hs => exact absurd rfl (h hs.greeting.center.node)
  | _ => exact id

theorem Calm.not_joins (h : a.Calm) : ¬ a.Joins := not_joins_of_not_linksTo h.2

end Move

namespace Node

/-- The entry of the center waits for the result of a handshake. -/
def Awaits (n : Node) : Prop :=
  ∃ center ∈ n.center?, ∃ peer ∈ n.roster.get? center.node, peer.state = .handshaking

/-- The move is possible, and this is what comes of it. -/
inductive Takes (n : Node) : Move → Node → Prop where
  | tend (now : Nat) (catalog : Catalog) : Takes n .tend { n with now, catalog }
  | pardon {first : ConnId × CloseReason} {rest : List (ConnId × CloseReason)}
      (hr : n.refused = first :: rest) : Takes n .pardon { n with refused := rest }
  | answered : Takes n .answered { n with handshakes := n.handshakes - 1 }
  | deliver (d : Delivery) : Takes n (.deliver d) { n with effects := n.effects ++ [.deliver d] }
  | bracket {e : ModuleEvent} (he : ∃ name, e = .batchBegin name ∨ e = .batchEnd name) :
      Takes n (.bracket e) { n with effects := n.effects ++ [.report e] }
  | want {name : String} (hv : ValidName name) (hw : ¬ n.interests.Wants name) :
      Takes n (.want name) { n with interests := n.interests.want name }
  | offer {name : String} {handle : Handle} (hv : ValidName name)
      (ho : n.interests.offered? name = none) (hn : handle.node = n.self) :
      Takes n (.offer name handle) { n with interests := n.interests.offer name handle }
  | enter {registry : Registry} (hr : n.role = .center registry) (source : NodeId) (c : Command) :
      Takes n (.enter source c) { n with role := .center (registry.request source c).1 }
  | forget {registry : Registry} {id : NodeId} (hr : n.role = .center registry)
      (hu : ∀ p ∈ n.roster.get? id, ¬ p.Linked) :
      Takes n (.forget id) { n with role := .center (registry.forget id) }
  | learn {a : Announcement} (ha : a.id ≠ n.self) :
      Takes n (.learn a) { n with roster := n.roster.update a.id a.address a.handle }
  | bind {name : String} {handle : Handle} (hb : n.roster.CanBind handle.node handle)
      (hl : handle.node = n.self ∨ ∃ p ∈ n.roster.get? handle.node, p.Linked) (address : Address) :
      Takes n (.bind name handle) { n with
        roster := n.roster.bind handle.node handle
        effects := n.effects ++ [.report (.started name handle address)] }
  | dial {id : NodeId} {peer : Peer} {endpoint : Endpoint} {i : Nat} {links : Links}
      (hid : id ≠ n.self) (hp : n.roster.get? id = some peer) (hl : ¬ peer.Linked)
      (hs : peer.state ≠ .handshaking) (he : peer.address.endpoint? = some endpoint)
      (hroom : n.links.hasRoom = true)
      (hi : n.links.nextId.2.insert (n.newLink n.links.nextId.1) (some id) = .ok (i, links)) :
      Takes n (.dial id n.links.nextId.1) { n with
        links
        roster := (n.roster.attach id n.links.nextId.1 .connecting).noteSent id n.now
        effects := n.effects ++ [.connect n.links.nextId.1 endpoint] }
  | queue {id : NodeId} {peer : Peer} {conn : ConnId} {record : LinkRecord} {frame : Frame}
      {bytes : List UInt8} {link : Link} (hp : n.roster.get? id = some peer)
      (hl : peer.liveLink? = some conn) (hr : n.links.get? conn = some record)
      (he : n.wire.encode frame = .ok bytes) (hs : record.link.send bytes = .ok link) :
      Takes n (.queue id conn frame) { n with
        links := n.links.modify conn fun _ => link
        roster := n.roster.noteSent id n.now
        effects := n.effects ++ [.queued conn frame] }
  | refuse {id : NodeId} {peer : Peer} {conn : ConnId} {record : LinkRecord} {bytes : List UInt8}
      {reason : CloseReason} (hp : n.roster.get? id = some peer) (hl : peer.liveLink? = some conn)
      (hr : n.links.get? conn = some record) (hs : record.link.send bytes = .error reason) :
      Takes n (.refuse id conn) { n with refused := n.refused ++ [(conn, reason)] }
  | mint : Takes n .mint { n with links := n.links.nextId.2 }
  | arrive {link : Link} {greeting : List Effect} {i : Nat} {links : Links}
      (hroom : n.links.hasRoom = true) (hid : link.id = n.links.nextId.1)
      (hi : n.links.nextId.2.insert link none = .ok (i, links))
      (hg : greeting = [] ∨
        n.registry?.isSome ∧ greeting = [.queued n.links.nextId.1 (Greeting.frame n.self)]) :
      Takes n (.arrive n.links.nextId.1) { n with
        links
        effects := n.effects ++ .adopt n.links.nextId.1 [] :: greeting }
  | join {h : Handshake} {i : Nat} {links : Links} (hm : n.registry? = none)
      (hf : n.center? = none ∨ n.Awaits) (hj : n.judge (.ok h) = .ok h)
      (hi : n.links.nextId.2.insert (n.newLink n.links.nextId.1) (some h.greeting.center.node) =
        .ok (i, links)) (address : Address) :
      Takes n (.join n.links.nextId.1 h) { n with
        links
        roster :=
          ((n.roster.update h.greeting.center.node address h.greeting.mesh).attach
            h.greeting.center.node n.links.nextId.1 .established).noteSent h.greeting.center.node
              n.now
        role := .member (some ⟨h.greeting.center.node, h.greeting.center⟩)
        effects := n.effects ++ [.adopt n.links.nextId.1 h.pending] }
  | release {center : CenterLink} {peer : Peer} (hc : n.center? = some center)
      (hp : n.roster.get? center.node = some peer) (hs : peer.state = .handshaking) :
      Takes n .release { n with roster := n.roster.detach center.node }
  | seek {center : CenterLink} {peer : Peer} {endpoint : String} (hc : n.center? = some center)
      (he : n.profile.centerEndpoint? = some endpoint)
      (hp : n.roster.get? center.node = some peer) (hs : peer.state = .empty) :
      Takes n .seek { n with
        roster := n.roster.modify center.node fun p => { p with state := .handshaking }
        handshakes := n.handshakes + 1
        effects := n.effects ++ [.shakeHands endpoint] }
  | establish {id : NodeId} {peer : Peer} (hp : n.roster.get? id = some peer)
      (hs : peer.state = .connecting) :
      Takes n (.establish id)
        { n with roster := n.roster.modify id fun p => { p with state := .established } }
  | drop {conn : ConnId} {record : LinkRecord} {links : Links}
      (he : n.links.erase conn = some (record, links))
      (ho : ∀ id ∈ record.owner, ∀ p ∈ n.roster.get? id, p.link ≠ some conn) :
      Takes n (.drop conn) { n with links }
  | lose {id : NodeId} {conn : ConnId} {record : LinkRecord} {links : Links} {peer : Peer}
      (he : n.links.erase conn = some (record, links)) (ho : record.owner = some id)
      (hp : n.roster.get? id = some peer) (hl : peer.link = some conn) :
      Takes n (.lose id conn) { n with
        links
        roster := n.roster.detach id
        effects := n.effects ++ peer.bound.map fun h => .report (.exited h) }
  | write {conn : ConnId} {f : Link → Link} (hf : ∀ l, (f l).id = l.id) :
      Takes n (.write conn) { n with links := n.links.modify conn f }

/-- Moves that follow each other. -/
inductive Path : Node → List Move → Node → Prop where
  | nil (n : Node) : Path n [] n
  | cons {n m k : Node} {a : Move} {rest : List Move} (ha : n.Takes a m) (hrest : Path m rest k) :
      Path n (a :: rest) k

/-- There is a path of moves of a kind. -/
def Via (P : Move → Prop) (n m : Node) : Prop := ∃ moves, n.Path moves m ∧ ∀ a ∈ moves, P a

variable {n m k : Node} {a : Move} {as bs : List Move} {P Q : Move → Prop}

theorem Takes.path (h : n.Takes a m) : n.Path [a] m := .cons h (.nil m)

theorem Path.append (h : n.Path as m) (h' : m.Path bs k) : n.Path (as ++ bs) k := by
  induction h with
  | nil => exact h'
  | cons ha _ ih => exact .cons ha (ih h')

theorem Path.keeps {I : Node → Prop} (hstep : ∀ n a m, I n → Takes n a m → I m)
    (h : n.Path as m) (hn : I n) : I m := by
  induction h with
  | nil => exact hn
  | cons ha _ ih => exact ih (hstep _ _ _ hn ha)

theorem Takes.via (h : n.Takes a m) (ha : P a) : n.Via P m :=
  ⟨[a], h.path, by simpa using ha⟩

theorem Via.refl (n : Node) : n.Via P n := ⟨[], .nil n, by simp⟩

theorem Via.trans (h : n.Via P m) (h' : m.Via P k) : n.Via P k := by
  obtain ⟨as, hp, ha⟩ := h
  obtain ⟨bs, hq, hb⟩ := h'
  refine ⟨as ++ bs, hp.append hq, fun a hmem => ?_⟩
  exact (List.mem_append.1 hmem).elim (ha a) (hb a)

theorem Via.mono (h : n.Via P m) (hPQ : ∀ a, P a → Q a) : n.Via Q m := by
  obtain ⟨as, hp, ha⟩ := h
  exact ⟨as, hp, fun a hmem => hPQ a (ha a hmem)⟩

theorem Via.keeps {I : Node → Prop} (hstep : ∀ n a m, I n → P a → Takes n a m → I m)
    (h : n.Via P m) (hn : I n) : I m := by
  obtain ⟨as, hp, ha⟩ := h
  induction hp with
  | nil => exact hn
  | cons hmove _ ih =>
    rw [List.forall_mem_cons] at ha
    exact ih (hstep _ _ _ hn ha.1 hmove) ha.2

theorem Via.foldl_of {I : Node → Prop} {α : Type} {f : Node → α → Node} {l : List α}
    (hstep : ∀ n a m, I n → P a → Takes n a m → I m) (hn : I n)
    (h : ∀ n, I n → ∀ x ∈ l, Via P n (f n x)) : n.Via P (l.foldl f n) := by
  induction l generalizing n with
  | nil => exact .refl n
  | cons x rest ih =>
    have hx := h n hn x (List.mem_cons_self ..)
    exact hx.trans (ih (hx.keeps hstep hn) fun n hn y hy => h n hn y (List.mem_cons_of_mem x hy))

theorem Via.foldl {α : Type} {f : Node → α → Node} {l : List α} (n : Node)
    (h : ∀ n, ∀ x ∈ l, Via P n (f n x)) : n.Via P (l.foldl f n) :=
  Via.foldl_of (I := fun _ => True) (fun _ _ _ _ _ _ => trivial) trivial fun n _ => h n

theorem Takes.profile_eq (h : n.Takes a m) : m.profile = n.profile := by cases h <;> rfl

theorem Takes.wire_eq (h : n.Takes a m) : m.wire = n.wire := by rw [wire, wire, h.profile_eq]

theorem Takes.self_eq (h : n.Takes a m) : m.self = n.self := by
  cases h <;> simp [self]

theorem Path.profile_eq (h : n.Path as m) : m.profile = n.profile :=
  h.keeps (I := fun k => k.profile = n.profile) (fun _ _ _ hk ha => ha.profile_eq.trans hk) rfl

theorem Path.self_eq (h : n.Path as m) : m.self = n.self :=
  h.keeps (I := fun k => k.self = n.self) (fun _ _ _ hk ha => ha.self_eq.trans hk) rfl

theorem Takes.isSome_registry? (h : n.Takes a m) : m.registry?.isSome = n.registry?.isSome := by
  cases h with
  | enter hr => simp [hr, registry?]
  | forget hr => simp [hr, registry?]
  | join hm => exact (congrArg Option.isSome hm).symm
  | _ => rfl

theorem Takes.center?_eq (h : n.Takes a m) (ha : ¬ a.Joins) : m.center? = n.center? := by
  cases h with
  | join => exact absurd trivial ha
  | enter hr => simp [center?, hr]
  | forget hr => simp [center?, hr]
  | _ => rfl

theorem Takes.contains_iff (h : n.Takes a m) {id : NodeId} :
    m.roster.Contains id ↔ n.roster.Contains id := by
  cases h <;> simp

/-- What a move makes of the entry `q` of a node. -/
inductive Alters (n : Node) (id : NodeId) (q : Peer) : Move → Peer → Prop where
  | same {a : Move} (silent : ¬ a.Announces id) : Alters n id q a q
  | learn {a : Announcement} (node : a.id = id) :
      Alters n id q (.learn a) { q with address := a.address, handle := some a.handle }
  | bind {name : String} {handle : Handle} (node : handle.node = id) :
      Alters n id q (.bind name handle) { q with bound := q.bound ++ [handle] }
  | dial (unlinked : ¬ q.Linked) (idle : q.state ≠ .handshaking)
      (endpoint : q.address.endpoint?.isSome) : Alters n id q (.dial id n.links.nextId.1)
        { q with link := some n.links.nextId.1, state := .connecting, lastSent := some n.now }
  | queue {conn : ConnId} {frame : Frame} :
      Alters n id q (.queue id conn frame) { q with lastSent := some n.now }
  | join {h : Handshake} (node : h.greeting.center.node = id) (address : Address) :
      Alters n id q (.join n.links.nextId.1 h)
        { q with address, handle := some h.greeting.mesh, link := some n.links.nextId.1,
                 state := .established, lastSent := some n.now }
  | release (center : n.center?.map (·.node) = some id) (state : q.state = .handshaking) :
      Alters n id q .release q.detached
  | seek (center : n.center?.map (·.node) = some id) (state : q.state = .empty) :
      Alters n id q .seek { q with state := .handshaking }
  | establish (state : q.state = .connecting) :
      Alters n id q (.establish id) { q with state := .established }
  | lose {conn : ConnId} (link : q.link = some conn) : Alters n id q (.lose id conn) q.detached

theorem Takes.alters (h : n.Takes a m) {id : NodeId} {p : Peer} (hp : m.roster.get? id = some p) :
    ∃ q, n.roster.get? id = some q ∧ n.Alters id q a p := by
  have hmodify {id' : NodeId} {f : Peer → Peer}
      (hr : m.roster.get? id = if id = id' then (n.roster.get? id').map f else n.roster.get? id)
      (hsilent : id ≠ id' → ¬ a.Announces id)
      (hf : id = id' → ∀ q, n.roster.get? id = some q → n.Alters id q a (f q)) :
      ∃ q, n.roster.get? id = some q ∧ n.Alters id q a p := by
    rw [hr] at hp
    split at hp
    · rename_i hid
      obtain ⟨q, hq, rfl⟩ := Option.map_eq_some_iff.1 hp
      rw [← hid] at hq
      exact ⟨q, hq, hf hid q hq⟩
    · rename_i hid
      exact ⟨p, hp, .same (hsilent hid)⟩
  have hsame {id' : NodeId} {q r : Peer} (hid : id = id') (hq : n.roster.get? id = some q)
      (hr : n.roster.get? id' = some r) : r = q := by
    rw [← hid, hq, Option.some.injEq] at hr
    exact hr.symm
  cases h with
  | learn =>
    exact hmodify (Roster.get?_update ..) (fun hne h => hne h.symm) fun hid _ _ => .learn hid.symm
  | bind hb => exact hmodify (Roster.get?_bind hb _) (fun _ h => h) fun hid _ _ => .bind hid.symm
  | dial _ hr hl hs he =>
    refine hmodify (Roster.get?_noteSent_attach ..) (fun _ h => h) fun hid q hq => ?_
    obtain rfl := hsame hid hq hr
    subst hid
    exact .dial hl hs (by simp [he])
  | queue =>
    refine hmodify (Roster.get?_noteSent ..) (fun _ h => h) fun hid _ _ => ?_
    subst hid
    exact .queue
  | join _ _ _ _ address =>
    exact hmodify (Roster.get?_noteSent_attach_update ..) (fun hne h => hne h.symm)
      fun hid _ _ => .join hid.symm address
  | release hc hr hs =>
    refine hmodify (Roster.get?_detach ..) (fun _ h => h) fun hid q hq => ?_
    obtain rfl := hsame hid hq hr
    exact .release (by rw [hc, hid]; rfl) hs
  | seek hc _ hr hs =>
    refine hmodify (Roster.get?_modify ..) (fun _ h => h) fun hid q hq => ?_
    obtain rfl := hsame hid hq hr
    exact .seek (by rw [hc, hid]; rfl) hs
  | establish hr hs =>
    refine hmodify (Roster.get?_modify ..) (fun _ h => h) fun hid q hq => ?_
    obtain rfl := hsame hid hq hr
    subst hid
    exact .establish hs
  | lose _ _ hr hl =>
    refine hmodify (Roster.get?_detach ..) (fun _ h => h) fun hid q hq => ?_
    obtain rfl := hsame hid hq hr
    subst hid
    exact .lose hl
  | _ => exact ⟨p, hp, .same fun h => h⟩

theorem Takes.exists_alters (h : n.Takes a m) {id : NodeId} {q : Peer}
    (hq : n.roster.get? id = some q) :
    ∃ p, m.roster.get? id = some p ∧ n.Alters id q a p := by
  obtain ⟨p, hp⟩ := Roster.exists_get? (h.contains_iff.2 (Roster.contains_of_get? hq))
  obtain ⟨q', hq', ha⟩ := h.alters hp
  rw [hq, Option.some.injEq] at hq'
  exact ⟨p, hp, hq' ▸ ha⟩

end Node

end Meshwork
