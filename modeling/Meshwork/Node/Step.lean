import Meshwork.Node.Center

/-!
# Steps of a node

A node takes one event at a time. `Node.step` is what it does with an event, `Node.run` what it does
with a list of them, and `Node.start` how it comes into being.
-/

namespace Meshwork

inductive LinkEvent where
  | connected (conn : ConnId)
  | frames (conn : ConnId) (frames : List Frame)
  | closed (conn : ConnId) (reason : CloseReason)
deriving DecidableEq, Repr

namespace LinkEvent

/-- What a link reports of a batch: its frames, if it has any, and the fault that ends it. -/
def ofBatch (conn : ConnId) (b : Wire.Batch) : List LinkEvent :=
  (if b.frames = [] then [] else [.frames conn b.frames]) ++
    (b.error.map fun e => .closed conn (.malformed e)).toList

/-- What a link reports of bytes that arrive in chunks, one batch a chunk. Nothing is read after a
fault. -/
def ofChunks (w : Wire) (conn : ConnId) (buffer : List UInt8) : List (List UInt8) → List LinkEvent
  | [] => []
  | chunk :: chunks =>
    let batch := w.decodeAll (buffer ++ chunk)
    ofBatch conn batch ++ if batch.error.isSome then [] else ofChunks w conn batch.rest chunks

end LinkEvent

inductive Request where
  | send (source dest : Handle) (kind : UInt8) (payload : List UInt8)
  | subscribe (name : String)
  | publish (name : String) (handle : Handle)
  | tick
deriving DecidableEq, Repr

inductive Event where
  | accept
  | link (event : LinkEvent)
  /-- The oldest refusal of a link is dealt with. -/
  | refusal
  | handshake (result : Except Fault Handshake)
  | call (request : Request)
  | tick
  /-- All that waits on a link is written. -/
  | written (conn : ConnId)
  | stopped (conn : ConnId)
  | install (name : String) (moduleId : UInt8)
  | uninstall (name : String)

namespace Node

/-- Drops a link. If it is the link of a node, the node and its modules are gone, and the directory
learns of it. -/
def lose (n : Node) (conn : ConnId) : Node :=
  match n.links.erase conn with
  | none => n
  | some (record, links) =>
    let n := { n with links }
    match record.owner with
    | none => n
    | some id =>
      match n.roster.get? id with
      | none => n
      | some peer =>
        if peer.link ≠ some conn then n
        else
          let n := { n with roster := n.roster.detach id }
          let n := peer.bound.foldl (fun n handle => n.emit (.report (.exited handle))) n
          if n.registry?.isSome then n.forget id
          else if n.center?.map (·.node) = some id then n
          else n.askIfPossible receive (.unregister id)

/-- A connection is open. It counts only if it is the one its node waits for. -/
def connected (n : Node) (conn : ConnId) : Node :=
  match n.links.owner? conn with
  | none => n
  | some id =>
    match n.roster.get? id with
    | none => n
    | some peer =>
      if peer.link = some conn ∧ peer.state = .connecting then
        { n with roster := n.roster.modify id fun p => { p with state := .established } }
      else n

def linkEvent (n : Node) : LinkEvent → Node
  | .connected conn => n.connected conn
  | .frames _ frames => frames.foldl receive n
  | .closed conn _ => n.lose conn

/-- Signs of life to idle nodes, then a new handshake if the center is lost. -/
def tick (n : Node) : Node :=
  let due := n.roster.due n.now (n.profile.heartbeatInterval * 1000)
  let n := due.foldl (fun n (_, handle) => n.tell receive handle .heartbeat) n
  if n.registry?.isSome then n else n.rejoin

def call (n : Node) : Request → Node × Except Fault (Option Handle)
  | .send source dest kind payload =>
    match n.post receive source dest kind payload with
    | .ok n => (n, .ok none)
    | .error e => (n, .error e)
  | .subscribe name =>
    match n.subscribe receive name with
    | .ok n => (n, .ok none)
    | .error e => (n, .error e)
  | .publish name handle =>
    match n.publish receive name handle with
    | .ok (handle, n) => (n, .ok (some handle))
    | .error e => (n, .error e)
  | .tick => (n.tick, .ok none)

def step (n : Node) : Event → Node
  | .accept => n.accept
  | .link e => n.linkEvent e
  | .refusal =>
    match n.refused with
    | [] => n
    | (conn, _) :: rest => { n with refused := rest }.lose conn
  | .handshake result => n.finishHandshake result
  | .call r => (n.call r).1
  | .tick => n.tick
  | .written conn => { n with links := n.links.modify conn fun l => l.drain.2 }
  | .stopped conn => { n with links := n.links.modify conn Link.stop }
  | .install name moduleId => { n with catalog := n.catalog.insert name moduleId }
  | .uninstall name => { n with catalog := n.catalog.erase name }

def stepAt (n : Node) (now : Nat) (e : Event) : Node := { n with now }.step e

def run (n : Node) (events : List (Nat × Event)) : Node :=
  events.foldl (fun n (now, e) => n.stepAt now e) n

theorem run_append (n : Node) (a b : List (Nat × Event)) : n.run (a ++ b) = (n.run a).run b :=
  List.foldl_append

def closeAll (n : Node) : Node := { n with links := n.links.clear }

def active (n : Node) : List (NodeId × Peer) :=
  n.roster.others.filter fun (_, p) => p.state ≠ .empty

def idle (profile : Profile) (catalog : Catalog) (port : UInt16) (now : Nat) : Node :=
  let roster :=
    Roster.ofSize profile.maxNodes profile.nodeId { profile.address with nodePort := port }
  let isCenter := profile.center = .here ∨ (catalog.find? centerName).isSome
  { profile
    roster := roster.setOwnHandle ⟨profile.nodeId, meshModule⟩
    links := .ofCapacity profile.maxConnections
    role := if isCenter then .center {} else .member none
    catalog
    now }

/-- Starts a node. All but a center must join the cluster first, with the handshake they are
given. -/
def start (profile : Profile) (catalog : Catalog) (port : UInt16) (now : Nat)
    (handshake : Except Fault Handshake) : Except Fault Node :=
  match profile.flaw? with
  | some flaw => .error (.config flaw.message)
  | none =>
    let n := idle profile catalog port now
    if n.registry?.isSome then .ok n
    else
      match n.join handshake with
      | (_, .error e) => .error e
      | (n, .ok ()) => .ok n

end Node

end Meshwork
