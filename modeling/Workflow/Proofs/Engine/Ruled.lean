import Workflow.Proofs.Engine.Script
import Workflow.Proofs.Pool.Locks
import Workflow.Proofs.Pool.Reach

/-!
# Scripts that keep to rules

Rules for scripts that keep a journal say what is true of the engine and the journal whenever others
may go on, and what the lock of a machine protects. Scripts keep to them if what concerns no machine
changes nothing of it, and if calls keep to them that get through to a machine.

Results:
* `Lenient.obeys_watchWork`: what a handler does.
* `Lenient.obeys_lock`: a call, if it keeps to the rules once it has got through.
* `Lenient.obeys_script`: a script, if its calls do once they have got through.
* `Kept.comes`: what is true of all that scripts come to that run side by side.
-/
namespace Workflow

variable {μ σ X α β : Type}

/-! ## Pauses -/

theorem Process.pauses_bind (p : Process σ α) (n : Nat) (f : α → Process σ β) :
    (p.pauses n).bind f = (p.bind f).pauses n := by
  induction n with
  | zero => rfl
  | succ n ih => exact congrArg Process.pause ih

theorem Process.obeys_pauses {r : Rules σ X} {held : List Nat} {s : σ} {p : Process σ α} (n : Nat)
    (hs : r.always s) (hp : ∀ s', r.Goes held s s' → p.Obeys r held s') :
    (p.pauses n).Obeys r held s := by
  induction n generalizing s with
  | zero => exact hp s (.refl hs held)
  | succ n ih =>
    exact ⟨hs, fun s' hs' => ih hs'.always fun s'' hs'' => hp s'' (hs'.trans hs'')⟩

namespace Rules

/-! ## What goes by all locks -/

/-- A change that leaves alone what locks protect. -/
def Allows (r : Rules σ X) (change : σ → σ) : Prop :=
  ∀ s, r.always s → r.always (change s) ∧ ∀ lock, r.part lock (change s) = r.part lock s

theorem Allows.goes {r : Rules σ X} {change : σ → σ} {s : σ} (h : r.Allows change)
    (hs : r.always s) (held : List Nat) : r.Goes held s (change s) :=
  ⟨(h s hs).1, fun lock _ => (h s hs).2 lock⟩

theorem Allows.obeys {r : Rules σ X} {change : σ → σ} {s : σ} {held : List Nat}
    {next : σ → Process σ α} (h : r.Allows change) (hs : r.always s)
    (hn : (next s).Obeys r held (change s)) : (Process.act change next).Obeys r held s :=
  ⟨fun lock _ => (h s hs).2 lock, hn⟩

variable {r : Rules (Book μ) X} {held : List Nat} {b : Book μ}

/-- A process goes on after a result by the rules, whatever others have done meanwhile. -/
def Continues (r : Rules (Book μ) X) (held : List Nat) (b : Book μ)
    (k : α → Process (Book μ) Unit) : Prop :=
  ∀ a b', r.Goes held b b' → (k a).Obeys r held b'

theorem Continues.goes {k : α → Process (Book μ) Unit} (h : r.Continues held b k) {b' : Book μ}
    (hb : r.Goes held b b') : r.Continues held b' k :=
  fun a b'' hb' => h a b'' (hb.trans hb')

/-- A way to send events that keeps to the rules where certain locks are held, whatever comes
behind. -/
def SendsAt (r : Rules (Book μ) X) (held : List Nat) (send : Engine.Watcher μ) : Prop :=
  ∀ i e (b : Book μ) k, r.always b → r.Continues held b k → ((send i e).bind k).Obeys r held b

/-- A way to send events that keeps to the rules, whatever locks are held. -/
def Sends (r : Rules (Book μ) X) (send : Engine.Watcher μ) : Prop :=
  ∀ i e held (b : Book μ) k, r.always b → r.Continues held b k →
    ((send i e).bind k).Obeys r held b

/-- Rules that ask nothing of the host's memory, nor of who listens, nor of calls that have not got
through. -/
structure Lenient (r : Rules (Book μ) X) : Prop where
  touch : ∀ change, r.Allows fun b => (b.1.touch change, b.2)
  subscribe : ∀ caller channel listener, r.Allows fun b => ((b.1.subscribe channel listener).1,
    b.2 ++ [⟨{ caller, machine := channel / 2 }, .subscribed channel listener, b.1⟩])
  unsubscribe : ∀ channel serial, r.Allows fun b => (b.1.unsubscribe channel serial, b.2)
  arrived : ∀ c, r.Allows fun b => Book.noted b c .arrived
  refused : ∀ c, r.Allows fun b => Book.noted b c .refused

/-! ## Calls -/

/-- A call that waits for its machine's lock gets it. -/
structure Admits (r : Rules (Book μ) X) (c : Call) (m : Machine) (held : List Nat) (b : Book μ) :
    Prop where
  there : ∃ b₀, r.always b₀ ∧ b₀.1.machines[c.machine]? = some m
  always : r.always b
  unheld : c.machine ∉ held
  rest : r.rest (r.part c.machine b)

/-- A call keeps to the rules once it has got through where certain locks are held, whatever comes
behind. -/
def CarriesAt (r : Rules (Book μ) X) (held : List Nat) (c : Call)
    (body : Machine → Process (Book μ) (Except CallFault Bool)) : Prop :=
  ∀ m (b : Book μ) k, r.Admits c m held b → r.Continues held b k →
    ((Engine.enter c m body).bind k).Obeys r (c.machine :: held) b

/-- A call keeps to the rules once it has got through, whatever locks are held. -/
def Carries (r : Rules (Book μ) X) (c : Call)
    (body : Machine → Process (Book μ) (Except CallFault Bool)) : Prop :=
  ∀ m held (b : Book μ) k, r.Admits c m held b → r.Continues held b k →
    ((Engine.enter c m body).bind k).Obeys r (c.machine :: held) b

/-- A call keeps to the rules if it does once it has got through. -/
theorem Lenient.obeys_lockAt (hr : r.Lenient) {c : Call}
    {body : Machine → Process (Book μ) (Except CallFault Bool)} (hbody : r.CarriesAt held c body)
    {k : Except CallFault Bool → Process (Book μ) Unit} (hb : r.always b)
    (hk : r.Continues held b k) : ((Engine.watchLock c body).bind k).Obeys r held b := by
  have ha := (hr.arrived c).goes hb held
  refine (hr.arrived c).obeys hb ?_
  dsimp only
  cases hm : b.1.machines[c.machine]? with
  | none => exact hk _ _ ha
  | some m =>
    refine ⟨ha.always, fun b' hb' => ⟨?_, fun hc hs => ?_⟩⟩
    · -- the call is refused
      have hg := (hr.refused c).goes hb'.always held
      exact (hr.refused c).obeys hb'.always (hk _ _ (ha.trans (hb'.trans hg)))
    · -- the call gets through
      exact hbody m b' k ⟨⟨_, hb, hm⟩, hb'.always, hc, hs⟩ (hk.goes (ha.trans hb'))

theorem Lenient.obeys_lock (hr : r.Lenient) {c : Call}
    {body : Machine → Process (Book μ) (Except CallFault Bool)} (hbody : r.Carries c body)
    {k : Except CallFault Bool → Process (Book μ) Unit} (hb : r.always b)
    (hk : r.Continues held b k) : ((Engine.watchLock c body).bind k).Obeys r held b :=
  hr.obeys_lockAt (fun m => hbody m held) hb hk

variable [Recorder μ]

/-- A handler keeps to the rules if it does where it sends events. -/
theorem Lenient.obeys_workAt (hr : r.Lenient) {send : Engine.Watcher μ}
    (hsend : r.SendsAt held send) (w : Work μ α) {k : α → Process (Book μ) Unit}
    (hb : r.always b) (hk : r.Continues held b k) :
    ((Engine.watchWork send w).bind k).Obeys r held b := by
  induction w generalizing b with
  | finish a => exact hk a b (.refl hb held)
  | log entry next ih =>
    have ht := hr.touch (Recorder.record entry)
    have hg := ht.goes hb held
    exact ht.obeys hb (ih hg.always (hk.goes hg))
  | touch change next ih =>
    have hg := (hr.touch change).goes hb held
    exact (hr.touch change).obeys hb (ih _ hg.always (hk.goes hg))
  | pause next ih => exact ⟨hb, fun b' hb' => ih hb'.always (hk.goes hb')⟩
  | send i e next ih =>
    rw [Engine.watchWork, Process.bind_assoc]
    exact hsend i e b _ hb fun r b' hb' => ih r hb'.always (hk.goes hb')

theorem Lenient.obeys_watchWork (hr : r.Lenient) {send : Engine.Watcher μ} (hsend : r.Sends send)
    (w : Work μ α) {k : α → Process (Book μ) Unit} (hb : r.always b) (hk : r.Continues held b k) :
    ((Engine.watchWork send w).bind k).Obeys r held b :=
  hr.obeys_workAt (fun i e => hsend i e held) w hb hk

/-- Rules that calls keep to once they have got through: those that do something, if the handlers
keep to the rules that they run, and those from within too many further calls, which do nothing. -/
structure Kept (r : Rules (Book μ) X) : Prop extends Lenient r where
  serves : ∀ send, r.Sends send → ∀ c, r.Carries c fun m => Engine.watchFlow send c (c.flow m)
  turns : ∀ c, r.Carries c fun m => .done (.error (.busy m.name))

theorem Kept.sends_watchWithin (hr : r.Kept) (caller depth : Nat) :
    r.Sends (Engine.watchWithin caller depth) := by
  induction depth with
  | zero =>
    intro i e held b k hb hk
    exact hr.obeys_lock (hr.turns { caller, machine := i, event := some e }) hb hk
  | succ depth ih =>
    intro i e held b k hb hk
    exact hr.obeys_lock (hr.serves _ ih { caller, machine := i, event := some e }) hb hk

/-- A script keeps to the rules if its calls do once they have got through. -/
theorem Lenient.obeys_script (hr : r.Lenient) {most : Nat}
    (hc : ∀ c, r.CarriesAt [] c (c.body most)) (x : Script μ) (hb : r.always b) :
    (x.watch most).Obeys r [] b := by
  induction x generalizing b with
  | stop => exact ⟨rfl, hb⟩
  | touch change next ih => exact (hr.touch change).obeys hb (ih _ (hr.touch change b hb).1)
  | pause next ih => exact ⟨hb, fun b' hb' => ih hb'.always⟩
  | call c next ih =>
    rw [Script.watch, Call.watch, Process.pauses_bind]
    refine Process.obeys_pauses c.delay hb fun b' hb' => ?_
    exact hr.obeys_lockAt (hc c) hb'.always fun r b'' hb'' => ih r hb''.always
  | subscribe caller channel listener next ih =>
    have hs := hr.subscribe caller channel listener
    exact hs.obeys hb (ih _ (hs b hb).1)
  | unsubscribe channel serial next ih =>
    have hs := hr.unsubscribe channel serial
    exact hs.obeys hb (ih (hs b hb).1)

theorem Kept.carries_body (hr : r.Kept) (most : Nat) (c : Call) : r.CarriesAt [] c (c.body most) :=
  fun m => hr.serves _ (hr.sends_watchWithin c.caller most) c m []

end Rules

/-! ## What scripts come to -/

namespace Script

variable [Recorder μ] {most : Nat} {e : Engine μ} {xs : List (Script μ)}

/-- What scripts that run side by side come to: the engine, and the journal until then. -/
def Comes (most : Nat) (e : Engine μ) (xs : List (Script μ)) (b : Book μ) : Prop :=
  ∃ p, (Pool.ofTasks (e, []) (xs.map (watch most))).Reaches p ∧ p.state = b

theorem comes_watched (most : Nat) (e : Engine μ) (xs : List (Script μ)) :
    Comes most e xs (watched most e xs).state := ⟨_, Pool.reaches_run _, rfl⟩

/-- A journal can be kept of all that scripts come to. -/
theorem exists_comes {p : Pool (Engine μ) Unit}
    (h : (Pool.ofTasks e (xs.map (process most))).Reaches p) :
    ∃ ls, Comes most e xs (p.state, ls) := by
  obtain ⟨q, hq, hs⟩ := (mirrors_ofTasks most e xs).reaches h
  have he : p.state = q.state.1 := congrArg Shared.state hs.shared
  exact ⟨q.state.2, q, hq, Prod.ext he.symm rfl⟩

end Script

/-- What rules say that scripts keep to is true of all that they come to. -/
theorem Rules.Lenient.comes [Recorder μ] {r : Rules (Book μ) X} (hr : r.Lenient) {most : Nat}
    (hc : ∀ c, r.CarriesAt [] c (c.body most)) {e : Engine μ} {xs : List (Script μ)}
    (hs : r.always (e, [])) (hrest : ∀ i, r.rest (r.part i (e, []))) {b : Book μ}
    (h : Script.Comes most e xs b) : r.always b := by
  obtain ⟨p, hp, rfl⟩ := h
  refine hp.always (r := r) hs hrest fun p hp b hb => ?_
  obtain ⟨x, -, rfl⟩ := List.mem_map.mp hp
  exact hr.obeys_script hc x hb

theorem Rules.Kept.comes [Recorder μ] {r : Rules (Book μ) X} (hr : r.Kept) {most : Nat}
    {e : Engine μ} {xs : List (Script μ)} (hs : r.always (e, []))
    (hrest : ∀ i, r.rest (r.part i (e, []))) {b : Book μ} (h : Script.Comes most e xs b) :
    r.always b :=
  hr.toLenient.comes (hr.carries_body most) hs hrest h

end Workflow
