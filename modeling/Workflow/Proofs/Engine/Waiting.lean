import Workflow.Proofs.Engine.Ruled
import Workflow.Proofs.Engine.Told

/-!
# Calls that wait for a handler

One task at a time has its turn, and a call that is inside a machine keeps its turn until it has a
handler called. So, whenever others may go on, each call that is inside waits for a handler, and so
it does whenever a line is written that is not about its machine.

Results:
* `Paced.did`, `Paced.left`: what a call does that has its turn.
* `Paced.obeys_flow`: from its first deed to its last one.
* `Script.Comes.paced`: wherever scripts come to.
-/
namespace Workflow

variable {μ : Type}

/-- If a call is inside a machine, a handler was called last. -/
def Waits (i : Nat) (ls : List (Line μ)) : Prop :=
  ∀ v, visit? i ls = some v → ∃ before handler params context,
    v.done = before ++ [.called handler params context]

theorem Waits.congr {i : Nat} {ls ls' : List (Line μ)} (h : Waits i ls)
    (hv : visit? i ls' = visit? i ls) : Waits i ls' := fun v hs => h v (hv.symm.trans hs)

/-- The calls that are inside wait for a handler, but one perhaps that has its turn on a machine. At
each line those wait that are inside other machines than the one that it is about. -/
structure Paced (turn? : Option Nat) (ls : List (Line μ)) : Prop where
  now : ∀ i, turn? ≠ some i → Waits i ls
  before : ∀ before l after, ls = before ++ l :: after →
    ∀ i, isWork i (l.call, l.mark) = false → Waits i before

namespace Paced

variable {α : Type} {turn? : Option Nat} {c : Call} {ls : List (Line μ)} {held : List Nat}
  {b : Book μ} {k : Except CallFault Bool → Process (Book μ) Unit}

theorem nil : Paced none ([] : List (Line μ)) where
  now _ _ := nofun
  before before _ _ h := by cases before <;> cases h

/-- Anybody may have the turn who waits. -/
theorem turn (h : Paced none ls) (turn? : Option Nat) : Paced turn? ls where
  now i _ := h.now i nofun
  before := h.before

/-- A line is added about the machine of which a call has its turn. -/
theorem concat {turn' : Option Nat} (h : Paced turn? ls) {l : Line μ}
    (hl : ∀ i, isWork i (l.call, l.mark) = false → turn? ≠ some i)
    (hn : ∀ i, turn' ≠ some i → Waits i (ls ++ [l])) : Paced turn' (ls ++ [l]) where
  now := hn
  before before l' after he i hi := by
    rcases concat_eq_split he with ⟨-, rfl, rfl⟩ | ⟨after', -, he⟩
    · exact h.now i (hl i hi)
    · exact h.before _ _ _ he i hi

/-- A line that is no work of any machine is written by somebody who is inside none. -/
theorem beside (h : Paced none ls) {l : Line μ} (hl : ∀ i, isWork i (l.call, l.mark) = false) :
    Paced none (ls ++ [l]) :=
  h.concat (fun _ _ => nofun) fun i _ => (h.now i nofun).congr (visit?_beside (hl i) ls)

/-- A line about a call that has its turn leaves the others waiting. -/
theorem own (h : Paced (some c.machine) ls) (mark : Mark μ) (e : Engine μ)
    (hw : isWork c.machine (c, mark) = true) : Paced (some c.machine) (ls ++ [⟨c, mark, e⟩]) := by
  refine h.concat (fun i hi hc => ?_) fun i hi => ?_
  · cases hc
    rw [hw] at hi
    cases hi
  · exact (h.now i hi).congr (visit?_elsewhere (fun hc => hi (congrArg some hc)) ls)

/-- A call that has its turn does something, and has a handler called at last. -/
theorem did (h : Paced (some c.machine) ls) (d : Deed (Handler μ)) (e : Engine μ) :
    Paced (some c.machine) (ls ++ [⟨c, .did d, e⟩]) := h.own _ e (by simp [isWork])

/-- From when on a call waits that has had its turn, all do. -/
theorem waits (h : Paced (some c.machine) ls) (hw : Waits c.machine ls) : Paced none ls where
  now i _ := by
    by_cases hi : c.machine = i
    · exact hi ▸ hw
    · exact h.now i fun hc => hi (Option.some.inj hc)
  before := h.before

theorem called (h : Paced (some c.machine) ls) (handler : Handler μ) (params : Fields Value)
    (context : Context) (e : Engine μ) :
    Paced none (ls ++ [⟨c, .did (.called handler params context), e⟩]) := by
  refine (h.did _ e).waits fun v hv => ?_
  cases hs : visit? c.machine ls with
  | none =>
    rw [visit?_concat, hs] at hv
    simp [Visit.next?] at hv
  | some v' =>
    rw [visit?_did hs] at hv
    cases hv
    exact ⟨v'.done, handler, params, context, rfl⟩

theorem left (h : Paced (some c.machine) ls) (r : Except CallFault Bool) (e : Engine μ) :
    Paced none (ls ++ [⟨c, .left r, e⟩]) := by
  refine (h.own (.left r) e (by simp [isWork])).waits fun v hv => ?_
  rw [visit?_left] at hv
  cases hv

/-! ## Scripts -/

/-- Whenever others may go on, all calls that are inside wait for a handler. -/
def rules : Rules (Book μ) Unit where
  part _ _ := ()
  rest _ := True
  always b := Paced none b.2

theorem goes {b' : Book μ} (h : Paced none b'.2) : rules.Goes held b b' := ⟨h, fun _ _ => rfl⟩

theorem obeys_leave (hb : Paced (some c.machine) b.2) (hk : rules.Continues held b k)
    (r : Except CallFault Bool) :
    ((Engine.leave c r).bind k).Obeys rules (c.machine :: held) b :=
  ⟨fun _ _ => rfl, held, rfl, trivial, hk r _ (goes (hb.left r b.1))⟩

theorem lenient_rules : (rules : Rules (Book μ) Unit).Lenient where
  touch _ _ hb := ⟨hb, fun _ => rfl⟩
  subscribe _ _ _ _ hb := ⟨hb.beside fun _ => rfl, fun _ => rfl⟩
  unsubscribe _ _ _ hb := ⟨hb, fun _ => rfl⟩
  arrived _ _ hb := ⟨hb.beside fun _ => rfl, fun _ => rfl⟩
  refused _ _ hb := ⟨hb.beside fun _ => rfl, fun _ => rfl⟩

theorem carries {body : Machine → Process (Book μ) (Except CallFault Bool)}
    (h : ∀ (held : List Nat) (b : Book μ) k m, Paced (some c.machine) b.2 →
      (∀ b', rules.Continues held b' k) →
        (((body m).bind (Engine.leave c)).bind k).Obeys rules (c.machine :: held) b) :
    rules.Carries c body := by
  intro m held b k hb hk
  refine ⟨fun _ _ => rfl, h held _ k _ ?_ fun _ r b' hb' => hk r b' (goes hb'.always)⟩
  exact ((hb.always : Paced none b.2).turn _).own _ _ (by simp [isWork])

variable [Recorder μ] {send : Engine.Watcher μ}

/-- A call that has its turn keeps it until it has a handler called, and from the answer on. -/
theorem obeys_flow (hsend : rules.Sends send) (x : Flow (Handler μ) (Except CallFault Bool))
    (hb : Paced (some c.machine) b.2) (hk : ∀ b', rules.Continues held b' k) :
    (((Engine.watchFlow send c x).bind (Engine.leave c)).bind k).Obeys rules
      (c.machine :: held) b := by
  induction x generalizing b with
  | done r => exact obeys_leave hb (hk b) r
  | log entry next ih => exact ⟨fun _ _ => rfl, ih (hb.did _ b.1)⟩
  | report r next ih => exact ⟨fun _ _ => rfl, ih (hb.did _ b.1)⟩
  | publish live next ih => exact ⟨fun _ _ => rfl, ih (hb.did _ b.1)⟩
  | announce next ih => exact ⟨fun _ _ => rfl, ih (hb.did _ b.1)⟩
  | resolve category next ih => exact ⟨fun _ _ => rfl, ih _ (hb.did _ b.1)⟩
  | invoke handler params context next ih =>
    refine ⟨fun _ _ => rfl, ?_⟩
    dsimp only
    rw [Process.bind_assoc, Process.bind_assoc]
    refine lenient_rules.obeys_watchWork hsend _ (hb.called handler params context b.1)
      fun o b' hb' => ?_
    have hb' : Paced none b'.2 := hb'.always
    have h := ih o (b := (b'.1, b'.2 ++ [⟨c, .did (.answered o), b'.1⟩]))
      ((hb'.turn _).did (.answered o) b'.1)
    rw [Process.bind_assoc] at h
    exact ⟨fun _ _ => rfl, h⟩

theorem kept : (rules : Rules (Book μ) Unit).Kept where
  toLenient := lenient_rules
  serves _ hsend _ := carries fun _ _ _ _ hb hk => obeys_flow hsend _ hb hk
  turns _ := carries fun _ _ _ _ hb hk => obeys_leave hb (hk _) _

end Paced

/-- Wherever scripts come to, all calls that are inside wait for a handler. -/
theorem Script.Comes.paced [Recorder μ] {most : Nat} {e : Engine μ} {xs : List (Script μ)}
    {b : Book μ} (h : Comes most e xs b) : Paced none b.2 :=
  Paced.kept.comes .nil (fun _ => trivial) h

end Workflow
