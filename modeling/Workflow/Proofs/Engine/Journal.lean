import Workflow.Engine
import Workflow.Proofs.Call.Deed
import Workflow.Proofs.Pool.Run

/-!
# Journals

A call on a machine can be watched: a line goes into the journal when it comes to the machine's
lock, when it is refused or gets through, for each deed, and when it gives the lock back. Each line
keeps the engine as it was before. A watched call does what the call does, and its lines besides.

Results:
* `mirrors_watch`: watching changes nothing.
* `run_watched`: neither does it change a run of calls side by side.
-/
namespace Workflow

/-- A host that remembers nothing. -/
instance : Recorder Unit where
  record _ m := m

/-- A call on a machine: who makes it, after how many pauses, and the event that is sent. A call
without an event starts the machine. -/
structure Call where
  caller : Nat
  delay : Nat := 0
  machine : Nat
  event : Option Event := none

/-- What is noted about a call, or, with who makes it, about a subscription. -/
inductive Mark (μ : Type) where
  | arrived
  | refused
  | admitted
  | did (d : Deed (Handler μ))
  | left (r : Except CallFault Bool)
  | subscribed (channel : Nat) (listener : Listener μ Notice)

/-- A line of a journal: the call, what is noted about it, and the engine as it is just before. -/
structure Line (μ : Type) where
  call : Call
  mark : Mark μ
  engine : Engine μ

/-- An engine and the journal of what is done with it. -/
abbrev Book (μ : Type) := Engine μ × List (Line μ)

def Book.noted {μ : Type} (b : Book μ) (c : Call) (mark : Mark μ) : Book μ :=
  (b.1, b.2 ++ [⟨c, mark, b.1⟩])

namespace Call

variable {μ : Type}

/-- What a call has a machine do. -/
def flow {η : Type} (c : Call) (m : Machine) : Flow η (Except CallFault Bool) :=
  match c.event with
  | some e => m.send e
  | none => m.start

/-- Goes on behind a line about the call. -/
def note {α : Type} (c : Call) (mark : Mark μ) (next : Process (Book μ) α) :
    Process (Book μ) α :=
  .change (fun b => Book.noted b c mark) next

/-- Does something with the engine and notes it. -/
def doing {α : Type} (c : Call) (change : Engine μ → Engine μ) (deed : Engine μ → Deed (Handler μ))
    (next : Engine μ → Process (Book μ) α) : Process (Book μ) α :=
  .act (fun s => (change s.1, s.2 ++ [⟨c, .did (deed s.1), s.1⟩])) fun s => next s.1

end Call

namespace Engine

variable {μ α : Type} [Recorder μ]

/-- A way to send an event to a machine that is watched. -/
abbrev Watcher (μ : Type) := Nat → Event → Process (Book μ) (Except CallFault Bool)

/-- A handler's work, watched where it sends events. -/
def watchWork (send : Watcher μ) : Work μ α → Process (Book μ) α
  | .finish a => .done a
  | .log entry next => .change (fun s => (s.1.log entry, s.2)) (watchWork send next)
  | .touch change next =>
    .act (fun s => (s.1.touch change, s.2)) fun s => watchWork send (next s.1.memory)
  | .pause next => .pause (watchWork send next)
  | .send machine event next => (send machine event).bind fun r => watchWork send (next r)

/-- The flow of a call, watched. -/
def watchFlow (send : Watcher μ) (c : Call) : Flow (Handler μ) α → Process (Book μ) α
  | .done a => .done a
  | .log entry next =>
    c.doing (·.log entry) (fun _ => .logged entry) fun _ => watchFlow send c next
  | .report r next =>
    c.doing (·.report c.machine r) (fun _ => .reported r) fun _ => watchFlow send c next
  | .publish live next =>
    c.doing (·.publish c.machine live) (fun _ => .published live) fun _ => watchFlow send c next
  | .announce next =>
    c.doing (·.announce c.machine) (fun _ => .announced) fun _ => watchFlow send c next
  | .resolve category next =>
    c.doing id (fun e => .looked category (e.registry.resolve category)) fun e =>
      watchFlow send c (next (e.registry.resolve category))
  | .invoke h params context next =>
    c.note (.did (.called h params context)) <|
      (watchWork send (h.run params context)).bind fun o =>
        c.note (.did (.answered o)) (watchFlow send c (next o))

/-- The end of a call that has got through. -/
def leave (c : Call) (r : Except CallFault Bool) : Process (Book μ) (Except CallFault Bool) :=
  c.note (.left r) (.give c.machine (.done r))

/-- A call that has got through to a machine. -/
def enter (c : Call) (m : Machine) (body : Machine → Process (Book μ) (Except CallFault Bool)) :
    Process (Book μ) (Except CallFault Bool) :=
  .act (fun b => Book.noted b c .admitted) fun b =>
    (body ((b.1.machines[c.machine]?).getD m)).bind (leave c)

/-- A call under the lock of its machine, watched. -/
def watchLock (c : Call) (body : Machine → Process (Book μ) (Except CallFault Bool)) :
    Process (Book μ) (Except CallFault Bool) :=
  .act (fun b => Book.noted b c .arrived) fun b =>
    match b.1.machines[c.machine]? with
    | none => .done (.error (.busy none))
    | some m => .take c.machine (m.sends = .reject) fun
      | false => c.note .refused (.done (.error (.busy m.name)))
      | true => enter c m body

/-- Sends an event from within `depth` further calls, watched. -/
def watchWithin (caller : Nat) : Nat → Watcher μ
  | 0, machine, event =>
    watchLock { caller, machine, event := some event } fun m => .done (.error (.busy m.name))
  | depth + 1, machine, event =>
    let c : Call := { caller, machine, event := some event }
    watchLock c fun m => watchFlow (watchWithin caller depth) c (c.flow m)

end Engine

namespace Call

variable {μ : Type} [Recorder μ]

def process (most : Nat) (c : Call) : Process (Engine μ) (Except CallFault Bool) :=
  .pauses c.delay <|
    match c.event with
    | some e => Engine.send most c.machine e
    | none => Engine.start most c.machine

/-- A call as it goes once it has got through. -/
def body (most : Nat) (c : Call) (m : Machine) : Process (Book μ) (Except CallFault Bool) :=
  Engine.watchFlow (Engine.watchWithin c.caller most) c (c.flow m)

/-- A call, watched. -/
def watch (most : Nat) (c : Call) : Process (Book μ) (Except CallFault Bool) :=
  .pauses c.delay (Engine.watchLock c (c.body most))

end Call

/-! ## Machines that stay as they are -/

namespace Engine

variable {μ : Type} [Recorder μ]

theorem report_machines (e : Engine μ) (i : Nat) (r : Report) :
    (e.report i r).machines = e.machines := by
  unfold report
  split <;> rfl

theorem report_registry (e : Engine μ) (i : Nat) (r : Report) :
    (e.report i r).registry = e.registry := by
  unfold report
  split <;> rfl

theorem announce_machines (e : Engine μ) (i : Nat) : (e.announce i).machines = e.machines := by
  unfold announce
  split <;> rfl

theorem announce_registry (e : Engine μ) (i : Nat) : (e.announce i).registry = e.registry := by
  unfold announce
  split <;> rfl

end Engine

/-! ## Watching changes nothing -/

namespace Engine

variable {μ α : Type} [Recorder μ]

theorem mirrors_watchWork {send : Sender μ} {send' : Watcher μ}
    (h : ∀ i e, (send i e).Mirrors (send' i e)) (w : Work μ α) :
    (ofWork send w).Mirrors (watchWork send' w) := by
  induction w with
  | finish a => exact .done a
  | log entry next ih => exact .act (fun _ => rfl) fun _ => ih
  | touch change next ih => exact .act (fun _ => rfl) fun s => ih s.1.memory
  | pause next ih => exact .pause ih
  | send machine event next ih => exact (h machine event).bind ih

theorem mirrors_watchFlow {send : Sender μ} {send' : Watcher μ}
    (h : ∀ i e, (send i e).Mirrors (send' i e)) (c : Call) (x : Flow (Handler μ) α) :
    (ofFlow send c.machine x).Mirrors (watchFlow send' c x) := by
  induction x with
  | done a => exact .done a
  | log entry next ih => exact .act (fun _ => rfl) fun _ => ih
  | report r next ih => exact .act (fun _ => rfl) fun _ => ih
  | publish live next ih => exact .act (fun _ => rfl) fun _ => ih
  | announce next ih => exact .act (fun _ => rfl) fun _ => ih
  | resolve category next ih => exact .act (fun _ => rfl) fun s => ih _
  | invoke handler params context next ih =>
    refine .note (fun _ => rfl) fun _ => (mirrors_watchWork h _).bind fun o => ?_
    exact .note (fun _ => rfl) fun _ => ih o

omit [Recorder μ] in
theorem mirrors_watchLock {c : Call}
    {body : Machine → Process (Engine μ) (Except CallFault Bool)}
    {body' : Machine → Process (Book μ) (Except CallFault Bool)}
    (h : ∀ m, (body m).Mirrors (body' m)) :
    (underLock c.machine body).Mirrors (watchLock c body') := by
  refine .act (fun _ => rfl) fun s => ?_
  cases s.1.machines[c.machine]? with
  | none => exact .done _
  | some m =>
    refine .take fun b => ?_
    cases b with
    | false => exact .note (fun _ => rfl) fun _ => .done _
    | true =>
      refine .act (fun _ => rfl) fun s => (h _).bind fun r => ?_
      exact .note (fun _ => rfl) fun _ => .give (.done r)

theorem mirrors_watchWithin (caller depth machine : Nat) (event : Event) :
    (sendWithin depth machine event : Process (Engine μ) _).Mirrors
      (watchWithin caller depth machine event) := by
  induction depth generalizing machine event with
  | zero => exact mirrors_watchLock (c := { caller, machine, event := some event }) fun m => .done _
  | succ depth ih =>
    exact mirrors_watchLock (c := { caller, machine, event := some event }) fun m =>
      mirrors_watchFlow ih { caller, machine, event := some event } (m.send event)

end Engine

namespace Call

variable {μ : Type} [Recorder μ]

/-- Sending and starting differ in their flows only. -/
theorem process_eq (most : Nat) (c : Call) : (c.process most : Process (Engine μ) _) =
    .pauses c.delay (Engine.underLock c.machine fun m =>
      Engine.ofFlow (Engine.sendWithin most) c.machine (c.flow m)) := by
  obtain ⟨caller, delay, machine, _ | e⟩ := c <;> rfl

theorem mirrors_watch (most : Nat) (c : Call) :
    (c.process most : Process (Engine μ) _).Mirrors (c.watch most) := by
  rw [process_eq]
  refine Process.Mirrors.pauses (Engine.mirrors_watchLock fun m => ?_) c.delay
  exact Engine.mirrors_watchFlow (Engine.mirrors_watchWithin c.caller most) c (c.flow m)

/-- Calls that are made side by side run alike whether they are watched or not. -/
theorem run_watched (most : Nat) (cs : List Call) (e : Engine μ) :
    (Pool.ofTasks e (cs.map (process most))).run.Mirrors
      (Pool.ofTasks (e, []) (cs.map (watch most))).run := by
  refine (Pool.mirrors_ofTasks e [] ?_).run
  rw [List.forall₂_map_left_iff, List.forall₂_map_right_iff]
  exact List.forall₂_same.mpr fun c _ => mirrors_watch most c

end Call
end Workflow
