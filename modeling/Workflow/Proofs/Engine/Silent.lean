import Workflow.Proofs.Call.Invoked
import Workflow.Proofs.Engine.Journal
import Workflow.Proofs.Engine.Steady
import Workflow.Proofs.Pool.Flat

/-!
# Silent handlers

A handler is silent if it sends no events. Where all handlers are silent, a call takes the lock of
its machine and no other one, so that calls never wait for each other in a circle: whatever fails
while a lock is held, each call comes to its end, and each lock is free again.

Results:
* `Call.flat_process`: a call takes one lock, and gives it back.
* `calls_end`: a run of calls ends, and when nobody is ready, all calls have come to something.
-/
namespace Workflow

variable {μ α β : Type}

/-- Work that sends nothing. -/
inductive Work.Silent : Work μ α → Prop where
  | finish (a : α) : Silent (.finish a)
  | log {entry : Log.Entry} {next : Work μ α} (h : Silent next) : Silent (.log entry next)
  | touch {change : μ → μ} {next : μ → Work μ α} (h : ∀ m, Silent (next m)) :
    Silent (.touch change next)
  | pause {next : Work μ α} (h : Silent next) : Silent (.pause next)

def Handler.Silent (h : Handler μ) : Prop := ∀ params context, (h.run params context).Silent

def Registry.Silent (r : Registry (Handler μ)) : Prop :=
  ∀ category h, r.resolve category = some h → h.Silent

variable [Recorder μ] {reg : Registry (Handler μ)} {send : Engine.Sender μ} {held? : Option Nat}

namespace Engine

/-- The handlers stay the same. -/
abbrev Serves (reg : Registry (Handler μ)) (e : Engine μ) : Prop := e.registry = reg

theorem flat_ofWork {w : Work μ α} (hw : w.Silent) {k : α → Process (Engine μ) β}
    (hk : ∀ a, (k a).Flat (Serves reg) held?) :
    ((ofWork send w).bind k).Flat (Serves reg) held? := by
  induction hw with
  | finish a => exact hk a
  | log _ ih => exact fun e he => ⟨he, ih⟩
  | touch _ ih => exact fun e he => ⟨he, ih _⟩
  | pause _ ih => exact ih

theorem flat_ofFlow {i : Nat} {x : Flow (Handler μ) α} (hx : x.Invokes Handler.Silent)
    (hr : reg.Silent) {k : α → Process (Engine μ) β} (hk : ∀ a, (k a).Flat (Serves reg) held?) :
    ((ofFlow send i x).bind k).Flat (Serves reg) held? := by
  induction hx with
  | done a => exact hk a
  | log _ ih => exact fun e he => ⟨he, ih⟩
  | report _ ih => exact fun e he => ⟨(report_registry e i _).trans he, ih⟩
  | publish _ ih => exact fun e he => ⟨he, ih⟩
  | announce _ ih => exact fun e he => ⟨(announce_registry e i).trans he, ih⟩
  | @resolve category next _ ih =>
    intro e he
    refine ⟨he, ih _ fun h hh => hr category h ?_⟩
    rw [← he]
    exact hh
  | @invoke handler params context next hh _ ih =>
    rw [ofFlow, Process.bind_assoc]
    exact flat_ofWork (hh params context) ih

end Engine

/-- A call takes the lock of its machine alone, and gives it back. -/
theorem Call.flat_process (hr : reg.Silent) (most : Nat) (c : Call) :
    (c.process most).Flat (Engine.Serves reg) none := by
  have hl : (Engine.underLock c.machine fun m =>
      Engine.ofFlow (Engine.sendWithin most) c.machine (c.flow m)).Flat (Engine.Serves reg)
      none := by
    refine fun e he => ⟨he, ?_⟩
    dsimp only
    cases e.machines[c.machine]? with
    | none => exact rfl
    | some m =>
      refine ⟨rfl, rfl, fun e he => ⟨he, ?_⟩⟩
      exact Engine.flat_ofFlow (c.invokes_flow _) hr fun _ => ⟨rfl, rfl⟩
  rw [process_eq]
  exact hl.pauses c.delay

/-- **Calls on machines come to an end**, if the handlers send nothing: any number of calls, on any
machines with any policies, whatever fails meanwhile. After so many steps no task is ready, and
whenever none is, each call has come to a result or an error, and all locks are free, with nobody
waiting. -/
theorem calls_end (most : Nat) (e : Engine μ) (calls : List Call) (hs : e.registry.Silent) :
    (∃ n, (Pool.runFor n (Pool.ofTasks e (calls.map (Call.process most)))).ready = []) ∧
    ∀ p, (Pool.ofTasks e (calls.map (Call.process most))).Reaches p → p.ready = [] →
      (∀ n < calls.length, ∃ r, p.result? n = some r) ∧ ∀ lock, p.locks lock = {} := by
  refine ⟨Pool.exists_ready_runFor _, fun p hp hr => ?_⟩
  have hflow : p.Flowing (Engine.Serves e.registry) := by
    refine hp.keeps (Pool.flowing_ofTasks rfl fun q hq => ?_) Pool.Flowing.step
    obtain ⟨c, -, rfl⟩ := List.mem_map.mp hq
    exact c.flat_process hs most
  obtain ⟨hended, hfree⟩ := hflow.ended hr
  refine ⟨fun n hn => hended n ?_, hfree⟩
  rw [Pool.reaches_length hp]
  simpa [Pool.ofTasks] using hn

/-- Two machines that abort, of which the second refuses calls. On an event something fails, after a
pause. -/
def failingEngine : Engine Unit where
  board := { memory := (), channels := [{}, {}, {}, {}] }
  registry := { entries := [
    ("fail", (0, {
      run _ _ := .pause (.finish (.error { kind := "RuntimeError", text := "jam" })) }))] }
  machines := [.queue, .reject].map fun sends => {
    failure := .abort
    sends
    chart := { initial := "open", states := [
      ("open", { transitions := [{
        target := "open", event := "CLOSE", actions := [{ action := "fail" }] }] })] }
    actions := [("fail", { category := "fail" })]
    live := { state := "open", context := [] } }

/-- Each machine is sent the event twice at a time. -/
def eachTwice : List Call :=
  [0, 1, 0, 1].map fun machine => { caller := 0, machine, event := some { type := "CLOSE" } }

theorem failingEngine_silent : failingEngine.registry.Silent := by
  intro category h hr params context
  simp only [Registry.resolve, failingEngine, Fields.get?, List.lookup_cons, List.lookup_nil] at hr
  split at hr <;> cases hr
  exact .pause (.finish _)

theorem calls_end_failing : failingEngine.registry.Silent ∧
    (∀ n < 4, ∃ r,
      (Pool.ofTasks failingEngine (eachTwice.map (Call.process 2))).run.result? n = some r) ∧
    ∀ lock, (Pool.ofTasks failingEngine (eachTwice.map (Call.process 2))).run.locks lock = {} :=
  ⟨failingEngine_silent,
    (calls_end 2 failingEngine eachTwice failingEngine_silent).2 _ (Pool.reaches_run _)
      (Pool.ready_run _)⟩

/-- The first machine fails twice, one call after the other; the second one refuses a call. -/
example :
    [0, 1, 2, 3].map (Pool.ofTasks failingEngine (eachTwice.map (Call.process 2))).run.result? =
      let f : CallFault := .action (.raised "fail" "fail" ⟨"RuntimeError", "jam"⟩)
      [some (.error f), some (.error f), some (.error f), some (.error (.busy none))] := by
  rw [Pool.run_eq_runFor 8 (by decide +kernel)]
  decide +kernel

end Workflow
