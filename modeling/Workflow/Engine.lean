import Workflow.Board
import Workflow.Pool
import Workflow.Registry
import Workflow.Work

/-!
# Engines

Machines that share a registry of handlers, the listeners of each machine, and the memory of the
host. The calls on a machine are processed one at a time, each under the machine's lock. Every
machine has two channels, one for its states and one for its reports.

A handler may send events to machines. Such a call takes one more lock, so that calls nest no
deeper than there are machines; a bound on their number is given with every call.

Results:
* `greet_state`: a new listener of a machine is told its state at once.
* `publish_machines_length`: a machine that publishes its state stays where it is.
-/
namespace Workflow

/-- What listeners are told: the state of a machine, or a report. -/
inductive Notice where
  | state (name : String) (context : Context)
  | report (r : Report)

/-- Machines, their listeners and their handlers. -/
structure Engine (μ : Type) where
  board : Board μ Notice
  registry : Registry (Handler μ) := {}
  machines : List Machine := []

/-- The channel of a machine's states. -/
def stateChannel (machine : Nat) : Nat := 2 * machine

/-- The channel of a machine's reports. -/
def reportChannel (machine : Nat) : Nat := 2 * machine + 1

namespace Engine

variable {μ : Type}

def memory (e : Engine μ) : μ := e.board.memory

def touch (e : Engine μ) (change : μ → μ) : Engine μ := { e with board := e.board.touch change }

def add (e : Engine μ) (m : Machine) : Engine μ :=
  { e with
    machines := e.machines ++ [m]
    board := { e.board with channels := e.board.channels ++ [{}, {}] } }

/-- The notice of a machine's state. -/
def notice (live : Live) : Notice := .state live.state live.context

/-- What a new listener of a channel is told at once. -/
def greet (e : Engine μ) (channel : Nat) : Option Notice :=
  if channel % 2 = 0 then (e.machines[channel / 2]?).map fun m => notice m.live else none

/-- Publishes what of a machine changes. -/
def publish (e : Engine μ) (machine : Nat) (live : Live) : Engine μ :=
  { e with machines := e.machines.modify machine fun m => { m with live } }

/-- Subscribes a listener to a channel; mirrors `StateMachine.subscribe` and
`StateMachine.on_error`. -/
def subscribe (e : Engine μ) (channel : Nat) (listener : Listener μ Notice) :
    Engine μ × Except Raised Nat :=
  let (board, r) := e.board.subscribe e.greet channel listener
  ({ e with board }, r)

def unsubscribe (e : Engine μ) (channel serial : Nat) : Engine μ :=
  { e with board := e.board.unsubscribe channel serial }

variable [Recorder μ]

def log (e : Engine μ) (entry : Log.Entry) : Engine μ := e.touch (Recorder.record entry)

def logAll (e : Engine μ) (entries : List Log.Entry) : Engine μ := entries.foldl log e

/-- Logs what a machine reports, and tells its listeners; mirrors `StateMachine._report`. -/
def report (e : Engine μ) (machine : Nat) (r : Report) : Engine μ :=
  match e.machines[machine]? with
  | none => e
  | some m =>
    let e := e.log (r.entry m.name m.live.state)
    { e with board := e.board.post e.greet (reportChannel machine) (.shared (.report r)) }

/-- Tells the listeners of a machine its state; mirrors `StateMachine._notify`. -/
def announce (e : Engine μ) (machine : Nat) : Engine μ :=
  match e.machines[machine]? with
  | none => e
  | some m =>
    let copies := Delivery.copies fun memory => (notice m.live, memory)
    { e with board := e.board.post e.greet (stateChannel machine) copies }

/-- A way to send an event to a machine. -/
abbrev Sender (μ : Type) := Nat → Event → Process (Engine μ) (Except CallFault Bool)

/-- A handler's work as a process. -/
def ofWork {α : Type} (send : Sender μ) : Work μ α → Process (Engine μ) α
  | .finish a => .done a
  | .log entry next => .change (·.log entry) (ofWork send next)
  | .touch change next => .act (·.touch change) fun e => ofWork send (next e.memory)
  | .pause next => .pause (ofWork send next)
  | .send machine event next => (send machine event).bind fun r => ofWork send (next r)

/-- A call's flow as a process. -/
def ofFlow {α : Type} (send : Sender μ) (machine : Nat) :
    Flow (Handler μ) α → Process (Engine μ) α
  | .done a => .done a
  | .log entry next => .change (·.log entry) (ofFlow send machine next)
  | .report r next => .change (·.report machine r) (ofFlow send machine next)
  | .publish live next => .change (·.publish machine live) (ofFlow send machine next)
  | .announce next => .change (·.announce machine) (ofFlow send machine next)
  | .resolve category next =>
    .read fun e => ofFlow send machine (next (e.registry.resolve category))
  | .invoke h params context next =>
    (ofWork send (h.run params context)).bind fun o => ofFlow send machine (next o)

/-- Carries out a call on a machine under its lock; mirrors `StateMachine._exclusive`. -/
def underLock (machine : Nat) (body : Machine → Process (Engine μ) (Except CallFault Bool)) :
    Process (Engine μ) (Except CallFault Bool) :=
  .read fun e =>
    match e.machines[machine]? with
    | none => .done (.error (.busy none))
    | some m => .take machine (m.sends = .reject) fun
      | false => .done (.error (.busy m.name))
      | true => .read fun e =>
        (body ((e.machines[machine]?).getD m)).bind fun r => .give machine (.done r)

/-- Sends an event from within `depth` further calls. Where no lock can be free any more, the event
waits or is refused like any other. -/
def sendWithin : Nat → Sender μ
  | 0, machine, _ => underLock machine fun m => .done (.error (.busy m.name))
  | depth + 1, machine, event =>
    underLock machine fun m => ofFlow (sendWithin depth) machine (m.send event)

/-- Sends an event to a machine, among at most so many machines; mirrors `StateMachine.send`. -/
def send (most machine : Nat) (event : Event) : Process (Engine μ) (Except CallFault Bool) :=
  sendWithin (most + 1) machine event

/-- Starts a machine, among at most so many machines; mirrors `StateMachine.start`. -/
def start (most machine : Nat) : Process (Engine μ) (Except CallFault Bool) :=
  underLock machine fun m => ofFlow (sendWithin most) machine m.start

theorem greet_state {μ : Type} (e : Engine μ) {i : Nat} {m : Machine}
    (h : e.machines[i]? = some m) :
    e.greet (stateChannel i) = some (notice m.live) := by
  have h2 : 2 * i / 2 = i := by omega
  simp [greet, stateChannel, h2, h]

theorem publish_machines_length {μ : Type} (e : Engine μ) (i : Nat) (live : Live) :
    (e.publish i live).machines.length = e.machines.length := by simp [publish]

end Engine
end Workflow
