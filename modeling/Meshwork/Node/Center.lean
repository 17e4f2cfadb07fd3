import Meshwork.Node.Receive

/-!
# The center

A center greets whoever connects. Any other node connects to the center, reads the greeting and
registers; when it loses the center it does so again, one handshake at a time, and then repeats its
requests.
-/

namespace Meshwork

structure Handshake where
  greeting : Greeting
  pending : List UInt8
deriving DecidableEq, Repr

/-- The address of the center as its endpoint gives it: the host before the last colon and the port
after it. A port that is no number is unknown. -/
def centerAddress (endpoint : String) : Address :=
  match Text.splitLast? ':' endpoint.toList with
  | some (host, port) =>
    { nodeHost := String.ofList host
      nodePort := UInt16.ofNat ((Numeral.readBelow? 10 65536 (String.ofList port)).getD 0) }
  | none => { nodeHost := endpoint }

namespace Node

/-- A connection comes in: it gets a link if there is room, and a center greets it. -/
def accept (n : Node) : Node :=
  if !n.links.hasRoom then n
  else
    let (conn, links) := n.links.nextId
    let link := n.newLink conn
    let greeted : Option Link :=
      if n.registry?.isSome then
        match n.wire.encode (Greeting.frame n.self) with
        | .ok bytes => (link.send bytes).toOption
        | .error _ => none
      else none
    match links.insert (greeted.getD link) none with
    | .error _ => { n with links }
    | .ok (_, links) =>
      let n := { n with links }.emit (.adopt conn [])
      if greeted.isSome then n.emit (.queued conn (Greeting.frame n.self)) else n

/-- What a handshake must bring: an id that can be the center's, and room for the link. -/
def judge (n : Node) (result : Except Fault Handshake) : Except Fault Handshake :=
  match result with
  | .error e => .error e
  | .ok h =>
    let id := h.greeting.center.node
    if ¬ n.roster.Contains id ∨ id = n.self then
      .error (CenterTrouble.invalidNode (n.profile.centerEndpoint?.getD "") id).fault
    else if !n.links.hasRoom then .error CenterTrouble.noRoom.fault
    else .ok h

def releaseCenter (n : Node) : Node :=
  match n.center? with
  | some center => { n with roster := n.roster.detach center.node }
  | none => n

def announcement (n : Node) : Announcement :=
  { id := n.self, address := (n.roster.me?.map (·.address)).getD {}, handle := n.meshHandle }

def join (n : Node) (result : Except Fault Handshake) : Node × Except Fault Unit :=
  match n.judge result with
  | .error e => (n.releaseCenter, .error e)
  | .ok h =>
    let id := h.greeting.center.node
    let (conn, links) := n.links.nextId
    match links.insert (n.newLink conn) (some id) with
    | .error e => ({ n with links }, .error (.slot e))
    | .ok (_, links) =>
      let address := centerAddress (n.profile.centerEndpoint?.getD "")
      let n := { n with
        links
        roster :=
          ((n.roster.update id address h.greeting.mesh).attach id conn .established).noteSent id
            n.now
        role := .member (some ⟨id, h.greeting.center⟩) }
      let n := n.emit (.adopt conn h.pending)
      match n.command receive h.greeting.center (.register n.announcement) with
      | .error e => (n, .error e)
      | .ok n => (n, .ok ())

def rejoin (n : Node) : Node :=
  match n.center?, n.profile.centerEndpoint? with
  | some center, some endpoint =>
    match n.roster.get? center.node with
    | some peer =>
      if peer.state = .empty then
        let n := { n with
          roster := n.roster.modify center.node fun p => { p with state := .handshaking }
          handshakes := n.handshakes + 1 }
        n.emit (.shakeHands endpoint)
      else n
    | none => n
  | _, _ => n

def repeatRequest (n : Node) : Command → Node
  | .subscribe name => n.request receive name
  | c => n.askIfPossible receive c

/-- Takes the result of a handshake. If no entry waits for it, it is dropped. -/
def finishHandshake (n : Node) (result : Except Fault Handshake) : Node :=
  let n := { n with handshakes := n.handshakes - 1 }
  let waiting := ∃ center ∈ n.center?, ∃ peer ∈ n.roster.get? center.node, peer.state = .handshaking
  if ¬ waiting then n
  else
    match n.join result with
    | (n, .error _) => n
    | (n, .ok ()) => n.interests.requests.foldl repeatRequest n

end Node

end Meshwork
