import Meshwork.Scenario.Script

/-!
# The world of a scenario

The node, the other ends of its connections, and what is about to happen to the node. `settle` lets
everything happen that can happen without another step of the script.
-/

namespace Meshwork.Scenario

structure Line where
  conn : ConnId
  label : Option String := none
  unread : List UInt8 := []
  written : List Frame := []
  dead : Bool := false
deriving DecidableEq, Repr

structure OpenHandshake where
  received : List UInt8
  since : Nat
deriving DecidableEq, Repr

structure World where
  node : Node
  now : Nat := 0
  lines : List Line := []
  ended : List Line := []
  listening : List Nat
  reply : CenterReply
  handshake : Option OpenHandshake := none
  incoming : Option String := none
  /-- The center has ended the connection that its greeting came over. -/
  centerGone : Bool := false
  agenda : List Event := []
  stopped : Bool := false

namespace World

def later (w : World) (e : Event) : World := { w with agenda := w.agenda ++ [e] }

def changeLine (w : World) (conn : ConnId) (f : Line → Line) : World :=
  { w with lines := w.lines.map fun l => if l.conn = conn then f l else l }

/-- Bytes arrive over a connection. If they are malformed the link ends at once, before the node
handles the frames in front of the fault. -/
def arrive (w : World) (conn : ConnId) (bytes : List UInt8) : World :=
  match w.lines.find? (·.conn = conn) with
  | none => w
  | some line =>
    let batch := w.node.wire.decodeAll (line.unread ++ bytes)
    let w := w.changeLine conn fun l => { l with unread := batch.rest, dead := batch.error.isSome }
    let w := if batch.error.isSome then w.later (.stopped conn) else w
    (LinkEvent.ofBatch conn batch).foldl (fun w e => w.later (.link e)) w

def hangUp (w : World) (conn : ConnId) : World := w.later (.link (.closed conn .endOfStream))

def shake (w : World) (gone : Bool) : World :=
  match w.handshake with
  | none => w
  | some h =>
    let finished (result : Except Fault Handshake) : World :=
      { w with handshake := none, centerGone := gone }.later (.handshake result)
    match Greeting.read w.node.wire h.received with
    | .error e => finished (.error e.fault)
    | .ok (some (greeting, pending)) => finished (.ok { greeting, pending })
    | .ok none => if gone then finished (.error CenterTrouble.hungUp.fault) else w

def openLine (w : World) (line : Line) (bytes : List UInt8) (gone : Bool) : World :=
  let w := { w with lines := w.lines ++ [line] }.arrive line.conn bytes
  if gone then w.hangUp line.conn else w

def note (w : World) : Effect → World
  | .deliver _ | .report _ => w
  | .queued conn frame =>
    w.changeLine conn fun l => if l.dead then l else { l with written := l.written ++ [frame] }
  | .connect conn endpoint =>
    match peerAt? w.listening endpoint with
    | none => w.later (.link (.closed conn (.connectFailed "")))
    | some peer =>
      let w := w.later (.link (.connected conn))
      if peer = 0 then w.openLine { conn } w.reply.data w.reply.closes
      else w.openLine { conn } [] false
  | .adopt conn pending =>
    { w with incoming := none, centerGone := false }.openLine { conn, label := w.incoming } pending
      w.centerGone
  | .shakeHands endpoint =>
    if 0 ∈ w.listening then
      { w with handshake := some { received := w.reply.data, since := w.now } }.shake w.reply.closes
    else w.later (.handshake (.error (CenterTrouble.connectFailed endpoint "").fault))

/-- Whatever waits on a link is written, and connections that the node has dropped end. -/
def sweep (w : World) : World :=
  let node := w.lines.foldl (fun n l => n.stepAt w.now (.written l.conn)) w.node
  let kept (l : Line) : Bool := (node.links.get? l.conn).isSome
  { w with
    node
    lines := w.lines.filter kept
    ended := w.ended ++ w.lines.filter fun l => !kept l }

def became (w : World) (node : Node) (effects : List Effect) (refusals : Nat) : World :=
  let w := { w with node, agenda := w.agenda ++ List.replicate refusals .refusal }
  (effects.foldl note w).sweep

def perform (w : World) (e : Event) : World :=
  let node := w.node.stepAt w.now e
  let refusedBefore := match e with
    | .refusal => w.node.refused.length - 1
    | _ => w.node.refused.length
  w.became node (node.effects.drop w.node.effects.length) (node.refused.length - refusedBefore)

def settleWithin : Nat → World → World
  | 0, w => w
  | n + 1, w =>
    match w.agenda with
    | [] => w
    | e :: rest => settleWithin n ({ w with agenda := rest }.perform e)

/-- Lets everything happen that is about to. The bound is one that no script comes near: each event
of the agenda stands for bytes that arrived, a connection, or a frame that was refused. -/
def settle (w : World) : World := settleWithin 1000000 w

def happen (w : World) (e : Event) : World := (w.perform e).settle

/-- The clock moves. The node ticks if a multiple of its interval is passed, and gives up on a
handshake that takes too long. -/
def advance (w : World) (ms : Nat) : World :=
  let ticks (now : Nat) : Nat := now * 1000 / w.node.profile.tickMicros
  let due := ticks w.now < ticks (w.now + ms)
  let w := { w with now := w.now + ms }
  let w := if due then w.happen .tick else w
  match w.handshake with
  | some h =>
    if h.since + w.node.profile.handshakeTimeoutMs ≤ w.now then
      let trouble := CenterTrouble.silent (w.node.profile.centerEndpoint?.getD "")
      ({ w with handshake := none }.later (.handshake (.error trouble.fault))).settle
    else w
  | none => w

end World

end Meshwork.Scenario
