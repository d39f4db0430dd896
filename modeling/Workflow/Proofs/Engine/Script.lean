import Workflow.Proofs.Board.Handed
import Workflow.Proofs.Engine.Trail

/-!
# Scripts

A script is what a task of the host does with the engine: it makes calls on machines, subscribes
listeners and ends subscriptions, and pauses. Whenever it subscribes a listener, a line goes into
the journal. What listeners are handed can be told from the lines.

Results:
* `Script.run_watched`: watching changes nothing of a run of scripts side by side.
* `watchSubscribe_fst`, `watchReport_fst`, `watchAnnounce_fst`: nor does it of what listeners do.
* `Shows.pair?`: what a listener is handed of a machine is what the machine has at that moment.
-/
namespace Workflow

/-- A task of the host: it goes on by what it finds and by what its calls come to. A subscription
has the number of who makes it, as a call does. -/
inductive Script (μ : Type) where
  | stop
  | touch (change : μ → μ) (next : μ → Script μ)
  | pause (next : Script μ)
  | call (c : Call) (next : Except CallFault Bool → Script μ)
  | subscribe (caller channel : Nat) (listener : Listener μ Notice)
      (next : Except Raised Nat → Script μ)
  | unsubscribe (channel serial : Nat) (next : Script μ)

namespace Script

variable {μ : Type} [Recorder μ]

def process (most : Nat) : Script μ → Process (Engine μ) Unit
  | .stop => .done ()
  | .touch change next => .act (·.touch change) fun e => process most (next e.memory)
  | .pause next => .pause (process most next)
  | .call c next => (c.process most).bind fun r => process most (next r)
  | .subscribe _ channel listener next =>
    .act (fun e => (e.subscribe channel listener).1) fun e =>
      process most (next (e.subscribe channel listener).2)
  | .unsubscribe channel serial next =>
    .change (·.unsubscribe channel serial) (process most next)

/-- A script, watched. -/
def watch (most : Nat) : Script μ → Process (Book μ) Unit
  | .stop => .done ()
  | .touch change next =>
    .act (fun b => (b.1.touch change, b.2)) fun b => watch most (next b.1.memory)
  | .pause next => .pause (watch most next)
  | .call c next => (c.watch most).bind fun r => watch most (next r)
  | .subscribe caller channel listener next =>
    .act
      (fun b => ((b.1.subscribe channel listener).1,
        b.2 ++ [⟨{ caller, machine := channel / 2 }, .subscribed channel listener, b.1⟩]))
      fun b => watch most (next (b.1.subscribe channel listener).2)
  | .unsubscribe channel serial next =>
    .change (fun b => (b.1.unsubscribe channel serial, b.2)) (watch most next)

theorem mirrors_watch (most : Nat) (x : Script μ) :
    (x.process most).Mirrors (x.watch most) := by
  induction x with
  | stop => exact .done ()
  | touch change next ih => exact .act (fun _ => rfl) fun b => ih b.1.memory
  | pause next ih => exact .pause ih
  | call c next ih => exact (Call.mirrors_watch most c).bind ih
  | subscribe caller channel listener next ih => exact .act (fun _ => rfl) fun b => ih _
  | unsubscribe channel serial next ih => exact .act (fun _ => rfl) fun _ => ih

/-- The scripts of tasks, run side by side. -/
def play (most : Nat) (e : Engine μ) (xs : List (Script μ)) : Pool (Engine μ) Unit :=
  (Pool.ofTasks e (xs.map (process most))).run

/-- The scripts of tasks, run side by side and watched. -/
def watched (most : Nat) (e : Engine μ) (xs : List (Script μ)) : Pool (Book μ) Unit :=
  (Pool.ofTasks (e, []) (xs.map (watch most))).run

theorem mirrors_ofTasks (most : Nat) (e : Engine μ) (xs : List (Script μ)) :
    (Pool.ofTasks e (xs.map (process most))).Mirrors
      (Pool.ofTasks (e, []) (xs.map (watch most))) := by
  refine Pool.mirrors_ofTasks e [] ?_
  rw [List.forall₂_map_left_iff, List.forall₂_map_right_iff]
  exact List.forall₂_same.mpr fun x _ => mirrors_watch most x

/-- Watching scripts changes nothing. -/
theorem run_watched (most : Nat) (e : Engine μ) (xs : List (Script μ)) :
    (play most e xs).Mirrors (watched most e xs) := (mirrors_ofTasks most e xs).run

end Script

/-! ## What listeners are handed -/

namespace Engine

variable {μ : Type}

/-- The state and the context of a machine. -/
def pair? (e : Engine μ) (i : Nat) : Option (String × Context) :=
  (e.machines[i]?).map fun m => (m.live.state, m.live.context)

theorem pair?_of_machines {e e' : Engine μ} (h : e'.machines = e.machines) (i : Nat) :
    e'.pair? i = e.pair? i := by rw [pair?, pair?, h]

theorem greet_state_eq (e : Engine μ) (i : Nat) :
    e.greet (stateChannel i) = (e.pair? i).map fun p => .state p.1 p.2 := by
  have h2 : 2 * i / 2 = i := by omega
  cases hm : e.machines[i]? <;> simp [greet, stateChannel, pair?, notice, h2, hm]

theorem greet_state_iff {e : Engine μ} {i : Nat} {p : String × Context} :
    e.greet (stateChannel i) = some (.state p.1 p.2) ↔ e.pair? i = some p := by
  rw [greet_state_eq]
  cases e.pair? i <;> simp [Prod.ext_iff]

/-- Subscribes a listener, and tells what listeners are handed by it. -/
def watchSubscribe (e : Engine μ) (channel : Nat) (listener : Listener μ Notice) :
    (Engine μ × Except Raised Nat) × List (Nat × Notice) :=
  let ((board, r), hs) := e.board.watchSubscribe e.greet channel listener
  (({ e with board }, r), hs)

theorem watchSubscribe_fst (e : Engine μ) (channel : Nat) (listener : Listener μ Notice) :
    (e.watchSubscribe channel listener).1 = e.subscribe channel listener := by
  unfold watchSubscribe subscribe
  rw [← Board.watchSubscribe_fst]

variable [Recorder μ]

/-- Logs what a machine reports, tells its listeners, and tells what listeners are handed by it. -/
def watchReport (e : Engine μ) (i : Nat) (r : Report) : Engine μ × List (Nat × Notice) :=
  match e.machines[i]? with
  | none => (e, [])
  | some m =>
    let e := e.log (r.entry m.name m.live.state)
    let (board, hs) := e.board.watchPost e.greet (reportChannel i) (.shared (.report r))
    ({ e with board }, hs)

def watchAnnounce (e : Engine μ) (i : Nat) : Engine μ × List (Nat × Notice) :=
  match e.machines[i]? with
  | none => (e, [])
  | some m =>
    let copies := Delivery.copies fun memory => (notice m.live, memory)
    let (board, hs) := e.board.watchPost e.greet (stateChannel i) copies
    ({ e with board }, hs)

theorem watchReport_fst (e : Engine μ) (i : Nat) (r : Report) :
    (e.watchReport i r).1 = e.report i r := by
  unfold watchReport report
  cases e.machines[i]? with
  | none => rfl
  | some m =>
    dsimp only
    rw [← Board.watchPost_fst]

theorem watchAnnounce_fst (e : Engine μ) (i : Nat) : (e.watchAnnounce i).1 = e.announce i := by
  unfold watchAnnounce announce
  cases e.machines[i]? with
  | none => rfl
  | some m =>
    dsimp only
    rw [← Board.watchPost_fst]

/-- What listeners to the states of a machine are handed is what new ones would be greeted with. -/
theorem greet_of_watchReport {e : Engine μ} {i j : Nat} {r : Report} {n : Notice}
    (h : (stateChannel i, n) ∈ (e.watchReport j r).2) : e.greet (stateChannel i) = some n := by
  unfold watchReport at h
  cases hm : e.machines[j]? with
  | none =>
    rw [hm] at h
    cases h
  | some m =>
    rw [hm] at h
    rcases Board.mem_watchTellAll h with h | ⟨h, -⟩
    · exact h
    · -- the report is posted on another channel
      have h : 2 * i = 2 * j + 1 := h
      omega

theorem greet_of_watchAnnounce {e : Engine μ} {i j : Nat} {n : Notice}
    (h : (stateChannel i, n) ∈ (e.watchAnnounce j).2) : e.greet (stateChannel i) = some n := by
  unfold watchAnnounce at h
  cases hm : e.machines[j]? with
  | none =>
    rw [hm] at h
    cases h
  | some m =>
    rw [hm] at h
    rcases Board.mem_watchTellAll h with h | ⟨h, hn⟩
    · exact h
    · have h : 2 * i = 2 * j := h
      obtain rfl : i = j := by omega
      have hn : n = notice m.live := hn _ rfl
      rw [greet_state e hm, hn]

end Engine

namespace Line

variable {μ : Type} [Recorder μ]

/-- What listeners are handed at a line: the channel and the notice. -/
def handed (l : Line μ) : List (Nat × Notice) :=
  match l.mark with
  | .did (.reported r) => (l.engine.watchReport l.call.machine r).2
  | .did .announced => (l.engine.watchAnnounce l.call.machine).2
  | .subscribed channel listener => (l.engine.watchSubscribe channel listener).2
  | _ => []

/-- At a line, a listener to the states of a machine is handed a state and a context. -/
def Shows (l : Line μ) (i : Nat) (p : String × Context) : Prop :=
  (stateChannel i, .state p.1 p.2) ∈ l.handed

theorem greet_of_handed {l : Line μ} {i : Nat} {n : Notice} (h : (stateChannel i, n) ∈ l.handed) :
    l.engine.greet (stateChannel i) = some n := by
  unfold handed at h
  split at h
  · exact Engine.greet_of_watchReport h
  · exact Engine.greet_of_watchAnnounce h
  · exact Board.mem_watchSubscribe h
  · cases h

/-- What a listener is handed of a machine is what the machine has at that moment. -/
theorem Shows.pair? {l : Line μ} {i : Nat} {p : String × Context} (h : l.Shows i p) :
    l.engine.pair? i = some p := Engine.greet_state_iff.mp (greet_of_handed h)

end Line
end Workflow
