import Workflow.Proofs.Engine.Keeping

/-!
# What observers see

Scripts make calls on machines side by side, and subscribe listeners to their states. A listener is
handed the state and the context of its machine when the machine is announced, and at once when it
is subscribed, by a script or by another listener. Seen from outside, a call on a machine changes
both in one step if listeners are handed only what the machine has when the call gets through, or
when it leaves.

Results:
* `mem_boundaries`: what a call announces, and what it reports before its first action, is seen at a
  boundary.
* `atBoundaries_iff`: when everything that listeners are handed is seen at a boundary.
* `not_atBoundaries`: it need not be.
-/
namespace Workflow

variable {μ : Type}

/-- Does a line tell that a call leaves a machine? -/
def Line.leaves (i : Nat) (l : Line μ) : Bool :=
  match l.mark with
  | .left _ => l.call.machine == i
  | _ => false

/-- The engine that the next call leaves that leaves a machine. -/
def leaving? (i : Nat) (ls : List (Line μ)) : Option (Engine μ) :=
  (ls.find? (Line.leaves i)).map (·.engine)

/-- What a machine has at the boundaries of the event in flight at a line of a journal: what the
call has found that is inside, and what it leaves. While no call is inside, it is what the machine
has. -/
def boundaries (i : Nat) (before : List (Line μ)) (l : Line μ) (after : List (Line μ)) :
    List (String × Context) :=
  match inside? i before with
  | none => (l.engine.pair? i).toList
  | some e => (e.pair? i).toList ++ ((leaving? i (l :: after)).bind (·.pair? i)).toList

/-- A call is inside a machine, and the machine has neither what the call has found nor what it
leaves. -/
def Midway (i : Nat) (before : List (Line μ)) (l : Line μ) (after : List (Line μ)) : Prop :=
  ∃ e, inside? i before = some e ∧ e.pair? i ≠ l.engine.pair? i ∧
    ∀ e', leaving? i (l :: after) = some e' → e'.pair? i ≠ l.engine.pair? i

/-- A line tells that a machine is announced, or that it reports something else than a failed
action. -/
def Line.Punctual (i : Nat) (l : Line μ) : Prop :=
  l.call.machine = i ∧ (l.mark = .did .announced ∨
    ∃ r, l.mark = .did (.reported r) ∧ ∀ f, r ≠ .actionFailed f)

variable [Recorder μ]

/-- All that listeners are handed of the states of machines, the machines have at boundaries. -/
def AtBoundaries (ls : List (Line μ)) : Prop :=
  ∀ before l after, ls = before ++ l :: after → ∀ i p, l.Shows i p → p ∈ boundaries i before l after

section

variable {i : Nat} {ls before after : List (Line μ)} {l : Line μ} {p : String × Context}

omit [Recorder μ] in
theorem mem_boundaries_of_inside {e : Engine μ} (h : inside? i before = some e) :
    p ∈ boundaries i before l after ↔
      e.pair? i = some p ∨ ∃ e', leaving? i (l :: after) = some e' ∧ e'.pair? i = some p := by
  simp [boundaries, h, Option.bind_eq_some_iff]

omit [Recorder μ] in
/-- What a machine has at a moment it has at a boundary, if not midway between two. -/
theorem mem_boundaries_iff (hp : l.engine.pair? i = some p) :
    p ∈ boundaries i before l after ↔ ¬ Midway i before l after := by
  cases hs : inside? i before with
  | none =>
    simp [boundaries, Midway, hs, hp]
  | some e =>
    rw [mem_boundaries_of_inside hs, ← hp]
    constructor
    · rintro h ⟨e₀, he₀, hn, hl⟩
      rw [hs] at he₀
      cases he₀
      rcases h with h | ⟨e', he', h⟩
      · exact hn h
      · exact hl e' he' h
    · intro h
      by_cases hf : e.pair? i = l.engine.pair? i
      · exact .inl hf
      · by_contra hn
        rw [not_or] at hn
        exact h ⟨e, hs, hf, fun e' he' hl => hn.2 ⟨e', he', hl⟩⟩

/-- What is seen when a machine is announced, or when it reports something else than a failed
action, is seen at a boundary. -/
theorem mem_boundaries (h : Sound ls) (he : ls = before ++ l :: after) (hl : l.Punctual i)
    (hp : l.Shows i p) : p ∈ boundaries i before l after := by
  have hpair := hp.pair?
  cases hs : inside? i before with
  | none => simp [boundaries, hs, hpair]
  | some e =>
    rw [mem_boundaries_of_inside hs]
    obtain ⟨rfl, hl | ⟨r, hl, hr⟩⟩ := hl
    · -- the call leaves at once
      obtain ⟨r, e', rest, rfl, hm⟩ := (h.inPlace he).leaves hl
      refine .inr ⟨e', ?_, (Engine.pair?_of_machines hm _).trans hpair⟩
      simp [leaving?, Line.leaves, hl]
    · -- the call has changed nothing yet
      obtain ⟨e', hs', hp'⟩ := (h.inPlace he).reported r hl hr
      rw [hs] at hs'
      cases hs'
      exact .inl (hp'.trans hpair)

end

/-- **What observers see**, whatever scripts, handlers and listeners do: one call at most is inside
a machine, and a listener is handed what the machine has at that moment. It is at a boundary if the
machine is announced, or reports something else than a failed action. So all of it is at boundaries
exactly if no listener is handed something midway, because a script subscribes it, a listener of a
failed action, or a listener of another machine. -/
theorem atBoundaries_iff (most : Nat) (e : Engine μ) (xs : List (Script μ)) :
    let w := Script.watched most e xs
    (Script.play most e xs).state = w.state.1 ∧
    (∀ past, past <+: w.state.2 → ∀ i, OneInside (work i (trail past))) ∧
    (∀ before l after, w.state.2 = before ++ l :: after → ∀ i p, l.Shows i p →
      l.engine.pair? i = some p ∧ (l.Punctual i → p ∈ boundaries i before l after)) ∧
    (AtBoundaries w.state.2 ↔ ∀ before l after, w.state.2 = before ++ l :: after →
      ∀ i p, l.Shows i p → ¬ l.Punctual i → ¬ Midway i before l after) := by
  intro w
  have hs : Sound w.state.2 := sound_watched most e xs
  refine ⟨congrArg Shared.state (Script.run_watched most e xs).shared,
    fun past hp i => hs.oneInside hp i,
    fun _ _ _ he i p hp => ⟨hp.pair?, fun hl => mem_boundaries hs he hl hp⟩, fun h => ?_,
    fun h => ?_⟩
  · intro before l after he i p hp _
    exact (mem_boundaries_iff hp.pair?).mp (h before l after he i p hp)
  · intro before l after he i p hp
    by_cases hl : l.Punctual i
    · exact mem_boundaries hs he hl hp
    · exact (mem_boundaries_iff hp.pair?).mpr (h before l after he i p hp hl)

/-! ## A listener that sees too much -/

def marker : Handler Unit where
  run _ _ := .finish (.ok (.obj [("x", .int 1)]))

def pausing : Handler Unit where
  run _ _ := .pause (.finish (.ok .null))

/-- A machine on which an event sets a value, and then something takes its time. -/
def halfway : Engine Unit where
  board := { memory := (), channels := [{}, {}] }
  registry := { entries := [("mark", (0, marker)), ("sleep", (1, pausing))] }
  machines := [{
    chart := { initial := "open", states := [("open", { transitions := [{
      target := "closed", event := "CLOSE"
      actions := [{ action := "mark" }, { action := "sleep" }] }] }), ("closed", {})] }
    actions := [("mark", { category := "mark" }), ("sleep", { category := "sleep" })]
    live := { state := "open", context := [] } }]

/-- One task sends the event, another one subscribes a listener. -/
def closing : List (Script Unit) :=
  [.call { caller := 0, machine := 0, event := some { type := "CLOSE" } } fun _ => .stop,
    .subscribe 1 (stateChannel 0) ⟨"late", .finish⟩ fun _ => .stop]

/-- What the listener is handed that is subscribed, and what is at the boundaries. -/
theorem closing_shows : let ls := (Script.watched 1 halfway closing).state.2
    (ls[11]?).map (fun l => (l.handed, boundaries 0 (ls.take 11) l (ls.drop 12))) =
      some ([(0, .state "open" [("x", .int 1)])],
        [("open", []), ("closed", [("x", .int 1)])]) := by
  dsimp only
  rw [Script.watched, Pool.run_eq_runFor 8 (by decide +kernel)]
  rfl

/-- **Counterexample**: a listener that is subscribed while an event is in flight is handed what is
at no boundary. -/
theorem not_atBoundaries : ¬ ∀ (most : Nat) (e : Engine Unit) (xs : List (Script Unit)),
    AtBoundaries (Script.watched most e xs).state.2 := by
  intro h
  have h := h 1 halfway closing
  have hs := closing_shows
  generalize (Script.watched 1 halfway closing).state.2 = ls at h hs
  obtain ⟨l, hl, hs⟩ := Option.map_eq_some_iff.mp hs
  rw [Prod.mk.injEq] at hs
  obtain ⟨hh, hb⟩ := hs
  obtain ⟨hlt, hl⟩ := List.getElem?_eq_some_iff.mp hl
  have he : ls = ls.take 11 ++ l :: ls.drop 12 := by
    rw [← hl, ← List.drop_eq_getElem_cons, List.take_append_drop]
  have hp : l.Shows 0 ("open", [("x", .int 1)]) := by
    unfold Line.Shows
    rw [hh]
    exact List.mem_singleton_self _
  have hm := h _ _ _ he 0 _ hp
  rw [hb] at hm
  simp at hm

end Workflow
