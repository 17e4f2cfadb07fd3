import Meshwork.Scenario.Report

/-!
# Running a scenario

`Scenario.run` starts the node and takes it through the steps of the script, with a report after
each.
-/

namespace Meshwork.Scenario

/-- Whether connections within the host are possible at all. -/
inductive Loopback where
  | up
  | down
deriving DecidableEq, Repr

inductive Failure where
  | start (fault : Fault)
  | tooLarge
  | noCenter
  | networkDown

namespace World

def request (w : World) (r : Request) : World × Answer :=
  let answer : Answer := match ({ w.node with now := w.now }.call r).2 with
    | .ok (some handle) => .published handle
    | .ok none => .done
    | .error fault => .fault fault
  (w.happen (.call r), answer)

def onLine (w : World) (label : String) (f : World → ConnId → World) : World × Answer :=
  match w.lines.find? (·.label = some label) with
  | some line => ((f w line.conn).settle, .done)
  | none => (w, .noLink)

def onHandshake (w : World) (data : List UInt8) (gone : Bool) : World × Answer :=
  match w.handshake with
  | some h =>
    (({ w with handshake := some { h with received := h.received ++ data } }.shake gone).settle,
      .done)
  | none => (w, .noHandshake)

def receive (w : World) (conn : ConnId) (pieces : List (List UInt8)) : World :=
  pieces.foldl (fun w bytes => (w.arrive conn bytes).settle) w

def shutDown (w : World) : World :=
  { w with node := w.node.closeAll, stopped := true, handshake := none }.sweep

def step (w : World) : Step → World × Answer
  | .call r => if w.stopped then (w, .fault .closed) else w.request r
  | .peer id => (w, if w.stopped then .fault .closed else .entry (w.view? id))
  | .peers => (w, if w.stopped then .fault .closed else .ids (w.node.active.map Prod.fst))
  | .directory => (w, if w.stopped then .fault .closed else .registry w.node.registry?)
  | .shutdown => if w.stopped then (w, .fault .closed) else (w.shutDown, .done)
  | .install name moduleId =>
    (w.happen (.install name moduleId), .moduleId (w.node.catalog.find? name))
  | .uninstall name => (w.happen (.uninstall name), .moduleId (w.node.catalog.find? name))
  | .connect label =>
    if w.stopped || !w.node.links.hasRoom then (w, .accepted false)
    else ({ w with incoming := some label }.happen .accept, .accepted true)
  | .receive label pieces => w.onLine label fun w conn => w.receive conn pieces
  | .drop label => w.onLine label hangUp
  | .listen peer => ({ w with listening := peer :: w.listening }, .done)
  | .unlisten peer => ({ w with listening := w.listening.filter (· ≠ peer) }, .done)
  | .reply reply => ({ w with reply }, .done)
  | .centerWrites data => w.onHandshake data false
  | .centerCloses => w.onHandshake [] true
  | .advance ms => (if w.stopped then { w with now := w.now + ms } else w.advance ms, .done)

def runSteps (w : World) (told : Told) : List Step → List Report
  | [] => []
  | s :: rest =>
    let (w, answer) := w.step s
    let (w, told, report) := w.report told answer
    report :: runSteps w told rest

end World

def firstHandshake (s : Scenario) : Except Fault Handshake :=
  match Greeting.read (.ofRequest s.profile.maxPayload) s.reply.data with
  | .error e => .error e.fault
  | .ok (some (greeting, pending)) => .ok { greeting, pending }
  | .ok none =>
    let trouble : CenterTrouble :=
      if s.reply.closes then .hungUp else .silent (s.profile.centerEndpoint?.getD "")
    .error trouble.fault

def isCenter (s : Scenario) : Bool :=
  let node := Node.idle s.profile s.catalog nodePort 0
  node.registry?.isSome

def start (s : Scenario) (net : Loopback) : Except Failure World :=
  if s.profile.flaw? = none ∧ Slots.capacityLimit ≤ s.profile.maxConnections then .error .tooLarge
  else if s.profile.flaw? = none ∧ ¬ s.isCenter ∧ (net = .down ∨ 0 ∉ s.listening)
    then .error .noCenter
  else
    match Node.start s.profile s.catalog nodePort 0 s.firstHandshake with
    | .error fault => .error (.start fault)
    | .ok node =>
      if net = .down then .error .networkDown
      else if Link.boundLimit ≤ s.profile.writeQueueFrames then .error .tooLarge
      else
        let gone := s.reply.closes && !s.isCenter
        let w : World := { node, listening := s.listening, reply := s.reply, centerGone := gone }
        .ok (((w.became node node.effects node.refused.length).settle).advance s.reply.waitMs)

def run (s : Scenario) (net : Loopback) : Except Failure (List Report) :=
  (s.start net).map fun w =>
    let (w, told, first) := w.report {} (.started w.node.self w.node.registry?.isSome)
    first :: w.runSteps told s.steps

end Meshwork.Scenario
