import Meshwork.Scenario.World

/-!
# Reports

What is seen of a node after a step: its answer to the step, what it wrote and reported, and what
changed in its roster and registry.
-/

namespace Meshwork.Scenario

structure PeerView where
  id : NodeId
  state : LinkState := .empty
  link : Option ConnId := none
  handle : Option Handle := none
  address : Address := {}
  idleMs : Option Nat := none
  bound : List Handle := []
deriving DecidableEq, Repr

inductive Answer where
  | started (id : NodeId) (isCenter : Bool)
  | done
  | fault (fault : Fault)
  | published (handle : Handle)
  | entry (view : Option PeerView)
  | ids (ids : List NodeId)
  | registry (registry : Option Registry)
  | moduleId (id : Option UInt8)
  | accepted (room : Bool)
  | noLink
  | noHandshake

structure Report where
  answer : Answer
  out : List (String × List Frame) := []
  closed : List String := []
  deliveries : List Delivery := []
  events : List ModuleEvent := []
  peers : List PeerView := []
  registry : Option Registry := none

structure Told where
  effects : Nat := 0
  peers : List PeerView := []
  registry : Registry := {}

namespace World

def viewOf (w : World) (id : NodeId) (p : Peer) : PeerView :=
  { id, state := p.state, link := p.link, handle := p.handle, address := p.address,
    idleMs := p.lastSent.map (w.now - ·), bound := p.bound }

def view? (w : World) (id : NodeId) : Option PeerView := (w.node.roster.get? id).map (w.viewOf id)

def views (w : World) : List PeerView :=
  (List.range w.node.roster.size).filterMap fun i => w.view? (.ofNat i)

/-- The name of a connection of the node: that of the node it leads to, unless that has a newer
one. -/
def labelOf (w : World) (l : Line) : Option String :=
  match w.node.links.owner? l.conn with
  | none => l.label
  | some id =>
    let current := (w.node.roster.get? id).bind (·.link)
    some ((if current = some l.conn then "n" else "old") ++ Numeral.decimal id.index)

/-- The frames written on each connection, under its name. A connection that ended before it got a
name is called lost. -/
def writtenOn (lines : List Line) : List (String × List Frame) :=
  let named := lines.filterMap fun l =>
    if l.written = [] then none else some (l.label.getD "lost", l.written)
  (named.map Prod.fst).eraseDups.map fun name =>
    (name, named.flatMap fun e => if e.1 = name then e.2 else [])

def report (w : World) (told : Told) (answer : Answer) : World × Told × Report :=
  let lines := w.lines.map fun l => { l with label := w.labelOf l }
  let effects := w.node.effects.drop told.effects
  let registry := w.node.registry?.getD {}
  let views := w.views
  let blank (v : PeerView) : PeerView := { id := v.id }
  let before (v : PeerView) : PeerView := (told.peers.find? (·.id = v.id)).getD (blank v)
  let report : Report :=
    { answer
      out := writtenOn (w.ended ++ lines)
      closed := (w.ended.filterMap (·.label)).mergeSort
      deliveries := effects.filterMap fun
        | .deliver d => some d
        | _ => none
      events := effects.filterMap fun
        | .report e => some e
        | _ => none
      peers := if w.stopped then [] else views.filter fun v => v ≠ before v
      registry := if w.stopped ∨ registry = told.registry then none else some registry }
  ({ w with lines := lines.map fun l => { l with written := [] }, ended := [] },
    { effects := w.node.effects.length, peers := views, registry }, report)

end World

end Meshwork.Scenario
