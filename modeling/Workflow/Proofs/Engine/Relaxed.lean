import Mathlib.Data.List.Forall2
import Workflow.Proofs.Engine.Ruled
import Workflow.Proofs.Engine.Told

/-!
# Machines that no longer refuse calls

An engine is relaxed if certain machines have calls wait instead of refusing them. Nothing else
depends on what a machine does with calls that meet another one: scripts do the same on the relaxed
engine, step by step, until a call is refused on the one engine and has to wait on the other.

Results:
* `relaxed_report`, `relaxed_announce`, `relaxed_subscribe`: what is done with an engine.
* `Call.relaxed_flow`: what a call does.
* `Script.follows_watch`: what a script does, except where a call is refused.
-/
namespace Workflow

variable {μ α β : Type} {which : Nat → Bool}

/-! ## Engines -/

/-- The same machine, where it has calls wait if it is one of those. -/
def Machine.relaxed (b : Bool) (m : Machine) : Machine :=
  { m with sends := if b then .queue else m.sends }

/-- The same engine, where certain machines have calls wait. -/
def Engine.relaxed (which : Nat → Bool) (e : Engine μ) : Engine μ :=
  { e with machines := e.machines.mapIdx fun i m => m.relaxed (which i) }

def Line.relaxed (which : Nat → Bool) (l : Line μ) : Line μ :=
  { l with engine := l.engine.relaxed which }

def Book.relaxed (which : Nat → Bool) (b : Book μ) : Book μ :=
  (b.1.relaxed which, b.2.map (Line.relaxed which))

def Shared.relaxed (which : Nat → Bool) (s : Shared (Book μ)) : Shared (Book μ) :=
  ⟨Book.relaxed which s.state, s.locks, s.ready⟩

namespace Engine

theorem relaxed_machine (e : Engine μ) (i : Nat) :
    (e.relaxed which).machines[i]? = (e.machines[i]?).map (Machine.relaxed (which i)) :=
  List.getElem?_mapIdx ..

theorem relaxed_greet (e : Engine μ) : (e.relaxed which).greet = e.greet := by
  funext channel
  simp only [greet, relaxed_machine]
  cases e.machines[channel / 2]? <;> rfl

theorem relaxed_subscribe (e : Engine μ) (channel : Nat) (listener : Listener μ Notice) :
    (e.relaxed which).subscribe channel listener =
      ((e.subscribe channel listener).1.relaxed which, (e.subscribe channel listener).2) := by
  simp only [subscribe, relaxed_greet]
  rfl

theorem relaxed_publish (e : Engine μ) (i : Nat) (live : Live) :
    (e.relaxed which).publish i live = (e.publish i live).relaxed which := by
  have h : (e.relaxed which).machines.modify i (fun m => { m with live }) =
      (e.machines.modify i fun m => { m with live }).mapIdx fun i m => m.relaxed (which i) := by
    refine List.ext_getElem? fun j => ?_
    rw [List.getElem?_mapIdx, List.getElem?_modify, List.getElem?_modify, relaxed_machine]
    cases e.machines[j]? with
    | none => rfl
    | some m => by_cases hj : i = j <;> simp [hj, Machine.relaxed]
  exact congrArg (fun machines => { e with machines }) h

variable [Recorder μ]

theorem relaxed_report (e : Engine μ) (i : Nat) (r : Report) :
    (e.relaxed which).report i r = (e.report i r).relaxed which := by
  simp only [report, relaxed_machine]
  cases e.machines[i]? with
  | none => rfl
  | some m =>
    have hg : ((e.log (r.entry m.name m.live.state)).relaxed which).greet =
        (e.log (r.entry m.name m.live.state)).greet := relaxed_greet _
    simp only [Option.map_some, Machine.relaxed]
    simp only [log, touch, relaxed] at hg ⊢
    rw [hg]

theorem relaxed_announce (e : Engine μ) (i : Nat) :
    (e.relaxed which).announce i = (e.announce i).relaxed which := by
  simp only [announce, relaxed_machine, relaxed_greet]
  cases e.machines[i]? <;> rfl

omit [Recorder μ] in
/-- No machine is changed if none is one of those. -/
theorem relaxed_none (e : Engine μ) : e.relaxed (fun _ => false) = e := by
  have h : (e.relaxed fun _ => false).machines = e.machines := by
    refine List.ext_getElem? fun i => ?_
    rw [relaxed_machine]
    cases e.machines[i]? <;> rfl
  exact congrArg (fun machines => { e with machines }) h

end Engine

theorem Book.relaxed_none (b : Book μ) : Book.relaxed (fun _ => false) b = b := by
  have hl : Line.relaxed (fun _ => false) = (id : Line μ → Line μ) :=
    funext fun l => congrArg (fun engine => { l with engine }) l.engine.relaxed_none
  exact Prod.ext b.1.relaxed_none (by simp [Book.relaxed, hl])

theorem Book.relaxed_noted (b : Book μ) (c : Call) (mark : Mark μ) :
    Book.relaxed which (Book.noted b c mark) = Book.noted (Book.relaxed which b) c mark :=
  Prod.ext rfl List.map_append

/-! ## Flows -/

namespace Machine

variable {η : Type} (m : Machine) (b : Bool)

theorem relaxed_runActions (phase : Phase) (live : Live) (is : List Invocation) :
    ((m.relaxed b).runActions phase live is : Flow η _) = m.runActions phase live is := by
  induction is generalizing live with
  | nil => rfl
  | cons i is ih =>
    have hi : (m.relaxed b).runAction phase live i = (m.runAction phase live i : Flow η _) := rfl
    have hf : (m.relaxed b).failure = m.failure := rfl
    simp only [runActions, hi, hf, ih]

theorem relaxed_enter (live : Live) (state : State) :
    ((m.relaxed b).enter live state : Flow η _) = m.enter live state := by
  simp only [enter, relaxed_runActions]

theorem relaxed_take (live : Live) (e : Event) (t : Transition) :
    ((m.relaxed b).take live e t : Flow η _) = m.take live e t := by
  simp only [take, relaxed_runActions, relaxed_enter]
  rfl

end Machine

/-- What a call does does not depend on what its machine does with other calls. -/
theorem Call.relaxed_flow {η : Type} (c : Call) (m : Machine) (b : Bool) :
    (c.flow (m.relaxed b) : Flow η _) = c.flow m := by
  unfold flow
  cases c.event with
  | some e =>
    simp only [Machine.send, Machine.relaxed_take]
    rfl
  | none =>
    simp only [Machine.start, Machine.relaxed_enter]
    rfl

/-! ## Processes -/

/-- The second process does on the relaxed engine what the first one does, except that it waits for
a lock where the first one is refused. The first one tells that it is refused, and all that it
writes it adds at the end. -/
inductive Process.Follows (which : Nat → Bool) :
    Process (Book μ) α → Process (Book μ) α → Prop where
  | done (a : α) : Follows which (.done a) (.done a)
  | act {change change' : Book μ → Book μ} {next next' : Book μ → Process (Book μ) α}
    (hl : ∀ b, b.2 <+: (change b).2)
    (hc : ∀ b, change' (b.relaxed which) = Book.relaxed which (change b))
    (hn : ∀ b, Follows which (next b) (next' (b.relaxed which))) :
    Follows which (.act change next) (.act change' next')
  | pause {p q : Process (Book μ) α} (h : Follows which p q) : Follows which (.pause p) (.pause q)
  | take {lock : Nat} {refuse : Bool} {next next' : Bool → Process (Book μ) α}
    (hn : ∀ b, Follows which (next b) (next' b)) :
    Follows which (.take lock refuse next) (.take lock refuse next')
  | relaxed {c : Call} {next next' : Bool → Process (Book μ) α} {p q : Process (Book μ) α}
    (hw : which c.machine = true) (hf : next false = c.note .refused p) (hp : Follows which p q)
    (hn : Follows which (next true) (next' true)) :
    Follows which (.take c.machine true next) (.take c.machine false next')
  | give {lock : Nat} {p q : Process (Book μ) α} (h : Follows which p q) :
    Follows which (.give lock p) (.give lock q)

namespace Process.Follows

variable {p q : Process (Book μ) α}

theorem bind (h : p.Follows which q) {f g : α → Process (Book μ) β}
    (hf : ∀ a, (f a).Follows which (g a)) : (p.bind f).Follows which (q.bind g) := by
  induction h with
  | done a => exact hf a
  | act hl hc _ ih => exact .act hl hc ih
  | pause _ ih => exact .pause ih
  | take _ ih => exact .take ih
  | relaxed hw hr _ _ ihp ihn =>
    exact .relaxed hw (congrArg (Process.bind · f) hr) ihp ihn
  | give _ ih => exact .give ih

theorem pauses (h : p.Follows which q) (n : Nat) : (p.pauses n).Follows which (q.pauses n) := by
  induction n with
  | zero => exact h
  | succ n ih => exact .pause ih

/-- A line is written. -/
theorem note (c : Call) (mark : Mark μ) (h : p.Follows which q) :
    (c.note mark p).Follows which (c.note mark q) :=
  .act (fun _ => List.prefix_append ..) (fun b => (b.relaxed_noted c mark).symm) fun _ => h

/-- A deed is done and written. -/
theorem doing {c : Call} {change : Engine μ → Engine μ} {deed : Engine μ → Deed (Handler μ)}
    {next next' : Engine μ → Process (Book μ) α}
    (hc : ∀ e, change (e.relaxed which) = (change e).relaxed which)
    (hd : ∀ e, deed (e.relaxed which) = deed e)
    (hn : ∀ e, (next e).Follows which (next' (e.relaxed which))) :
    (c.doing change deed next).Follows which (c.doing change deed next') := by
  refine .act (fun _ => List.prefix_append ..) (fun b => ?_) fun b => hn b.1
  refine Prod.ext (hc b.1) ?_
  simp only [Book.relaxed, List.map_append, hd]
  rfl

end Process.Follows

/-! ## Scripts -/

namespace Engine

open Process

variable [Recorder μ] {send : Watcher μ}

theorem follows_watchWork (h : ∀ i e, (send i e).Follows which (send i e)) (w : Work μ α) :
    (watchWork send w).Follows which (watchWork send w) := by
  induction w with
  | finish a => exact .done a
  | log entry next ih => exact .act (fun _ => List.prefix_rfl) (fun _ => rfl) fun _ => ih
  | touch change next ih => exact .act (fun _ => List.prefix_rfl) (fun _ => rfl) fun b => ih _
  | pause next ih => exact .pause ih
  | send i e next ih => exact (h i e).bind ih

theorem follows_watchFlow (h : ∀ i e, (send i e).Follows which (send i e)) (c : Call)
    (x : Flow (Handler μ) α) : (watchFlow send c x).Follows which (watchFlow send c x) := by
  induction x with
  | done a => exact .done a
  | log entry next ih => exact .doing (fun _ => rfl) (fun _ => rfl) fun _ => ih
  | report r next ih => exact .doing (fun e => e.relaxed_report _ r) (fun _ => rfl) fun _ => ih
  | publish live next ih =>
    exact .doing (fun e => e.relaxed_publish _ live) (fun _ => rfl) fun _ => ih
  | announce next ih => exact .doing (fun e => e.relaxed_announce _) (fun _ => rfl) fun _ => ih
  | resolve category next ih => exact .doing (fun _ => rfl) (fun _ => rfl) fun e => ih _
  | invoke handler params context next ih =>
    exact .note c _ ((follows_watchWork h _).bind fun o => .note c _ (ih o))

omit [Recorder μ] in
theorem follows_leave (c : Call) (r : Except CallFault Bool) :
    (leave c r : Process (Book μ) _).Follows which (leave c r) :=
  .note c _ (.give (.done r))

omit [Recorder μ] in
/-- A call goes on alike, whether its machine has others wait or not. -/
theorem follows_lock {c : Call} {body : Machine → Process (Book μ) (Except CallFault Bool)}
    (h : ∀ m b, (body m).Follows which (body (m.relaxed b))) :
    (watchLock c body).Follows which (watchLock c body) := by
  have henter (m : Machine) : (enter c m body).Follows which
      (enter c (m.relaxed (which c.machine)) body) := by
    refine .act (fun _ => List.prefix_append ..) (fun b => (b.relaxed_noted c _).symm) fun b => ?_
    have hm : ((b.relaxed which).1.machines[c.machine]?).getD (m.relaxed (which c.machine)) =
        ((b.1.machines[c.machine]?).getD m).relaxed (which c.machine) := by
      show ((b.1.relaxed which).machines[c.machine]?).getD _ = _
      rw [relaxed_machine]
      cases b.1.machines[c.machine]? <;> rfl
    rw [hm]
    exact (h _ _).bind (follows_leave c)
  refine .act (fun _ => List.prefix_append ..) (fun b => (b.relaxed_noted c _).symm) fun b => ?_
  have hm : (b.relaxed which).1.machines[c.machine]? =
      (b.1.machines[c.machine]?).map (Machine.relaxed (which c.machine)) := b.1.relaxed_machine _
  rw [hm]
  cases b.1.machines[c.machine]? with
  | none => exact .done _
  | some m =>
    have hrefused (r : Except CallFault Bool) : (c.note .refused (.done r) :
        Process (Book μ) _).Follows which (c.note .refused (.done r)) := .note c _ (.done r)
    by_cases hr : m.sends = .reject ∧ which c.machine = true
    · -- the call is refused on the one engine, and has to wait on the other
      have h' : ((m.relaxed (which c.machine)).sends = .reject) = False := by
        simp [Machine.relaxed, hr.2]
      simp only [Option.map_some, hr.1, h', decide_true, decide_false]
      exact .relaxed hr.2 rfl (.done _) (henter m)
    · have h' : ((m.relaxed (which c.machine)).sends = .reject) = (m.sends = .reject) := by
        cases hb : which c.machine with
        | false => simp [Machine.relaxed]
        | true =>
          have hr : m.sends ≠ .reject := fun hs => hr ⟨hs, hb⟩
          simp [Machine.relaxed, hr]
      simp only [Option.map_some, h']
      refine .take fun b => ?_
      cases b with
      | false => exact hrefused _
      | true => exact henter m

theorem follows_watchWithin (caller depth i : Nat) (event : Event) :
    (watchWithin caller depth i event : Process (Book μ) _).Follows which
      (watchWithin caller depth i event) := by
  induction depth generalizing i event with
  | zero => exact follows_lock fun m b => .done _
  | succ depth ih =>
    refine follows_lock fun m b => ?_
    rw [Call.relaxed_flow]
    exact follows_watchFlow ih _ _

end Engine

/-- A script does the same where certain machines have calls wait, except where a call is refused.
-/
theorem Script.follows_watch [Recorder μ] (most : Nat) (x : Script μ) :
    (x.watch most).Follows which (x.watch most) := by
  induction x with
  | stop => exact .done ()
  | touch change next ih => exact .act (fun _ => List.prefix_rfl) (fun _ => rfl) fun b => ih _
  | pause next ih => exact .pause ih
  | call c next ih =>
    refine Process.Follows.bind (.pauses (Engine.follows_lock fun m b => ?_) c.delay) ih
    unfold Call.body
    rw [Call.relaxed_flow]
    exact Engine.follows_watchFlow (Engine.follows_watchWithin c.caller most) _ _
  | subscribe caller channel listener next ih =>
    refine .act (fun _ => List.prefix_append ..) (fun b => ?_) fun b => ?_
    · have h : ((b.1.relaxed which).subscribe channel listener).1 =
          (b.1.subscribe channel listener).1.relaxed which := by rw [Engine.relaxed_subscribe]
      refine Prod.ext h ?_
      simp only [Book.relaxed, List.map_append]
      rfl
    · show Process.Follows which _
        ((next ((b.1.relaxed which).subscribe channel listener).2).watch most)
      rw [Engine.relaxed_subscribe]
      exact ih _
  | unsubscribe channel serial next ih =>
    exact .act (fun _ => List.prefix_rfl) (fun _ => rfl) fun _ => ih

end Workflow
