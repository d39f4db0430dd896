import Mathlib
import Workflow.Proofs.Call.Course

/-!
# How a transition is chosen

The choice is a trial that evaluates one guard after the other and reports a failure before the next
guard is looked at. What it evaluates, what it reports and which transition it comes to is read off
the transitions that wait for the event, up to the first whose guard holds. A guard counts as
holding there exactly where failures are taken for false.

Results:
* `select_eq_run`: choosing is the trial, run on the answers of the guards.
* `trial_filter`, `run_beyond`: guards of other events are no part of the trial, and guards behind
  the chosen transition are never come to.
* `run_trial`: what is evaluated, reported and chosen.
* `select_first`: the first transition that waits for the event and whose guard holds is chosen.
-/
namespace Workflow

open Guard (Fault Failure)

/-! ## Trials -/

/-- A trial of guards, step by step. -/
inductive Trial where
  | done (chosen : Except Decimal.TooLong (Option Transition))
  | evaluate (guard? : Option String) (next : Except Fault Bool → Trial)
  | report (f : Failure) (next : Trial)

/-- What is seen of a trial. -/
inductive Seen where
  | evaluated (guard? : Option String)
  | reported (f : Failure)

/-- The trial of transitions for an event, in their order. -/
def trial (event : String) : List Transition → Trial
  | [] => .done (.ok none)
  | t :: ts =>
    if t.event = event then
      .evaluate t.guard fun
      | .ok true => .done (.ok (some t))
      | .ok false => trial event ts
      | .error (.failure f) => .report f (trial event ts)
      | .error (.tooLong x) => .done (.error x)
    else trial event ts

namespace Trial

/-- A trial, run on what the guards answer: what is seen of it, and what it comes to. -/
def run (answer : Option String → Except Fault Bool) :
    Trial → List Seen × Except Decimal.TooLong (Option Transition)
  | .done chosen => ([], chosen)
  | .evaluate guard? next =>
    let r := (next (answer guard?)).run answer
    (.evaluated guard? :: r.1, r.2)
  | .report f next =>
    let r := next.run answer
    (.reported f :: r.1, r.2)

end Trial

/-- The failure that is seen, if it is one. -/
def Seen.failure? : Seen → Option Failure
  | .evaluated _ => none
  | .reported f => some f

section

variable {context : Context} {event : String}

/-- Choosing is the trial of the transitions, run on the answers of their guards. -/
theorem select_eq_run (ts : List Transition) : select context event ts =
    ⟨((trial event ts).run (Guard.check · context)).1.filterMap Seen.failure?,
      ((trial event ts).run (Guard.check · context)).2⟩ := by
  induction ts with
  | nil => rfl
  | cons t ts ih =>
    by_cases hw : t.event = event
    · rcases hg : Guard.check t.guard context with (f | x) | (_ | _) <;>
        simp [select, trial, Trial.run, Seen.failure?, List.filterMap_cons, hw, hg, ih]
    · simp [select, trial, hw, ih]

/-- Transitions that wait for other events are no part of a trial. -/
theorem trial_filter (event : String) (ts : List Transition) :
    trial event (ts.filter (·.event = event)) = trial event ts := by
  induction ts with
  | nil => rfl
  | cons t ts ih => by_cases hw : t.event = event <;> simp [trial, hw, ih]

/-- Behind a transition whose guard holds nothing is come to. -/
theorem run_beyond {t : Transition} (ht : t.event = event)
    (hg : Guard.check t.guard context = .ok true) (before after after' : List Transition) :
    (trial event (before ++ t :: after)).run (Guard.check · context) =
      (trial event (before ++ t :: after')).run (Guard.check · context) := by
  induction before with
  | nil => simp [trial, Trial.run, ht, hg]
  | cons u us ih =>
    by_cases hw : u.event = event
    · rcases hu : Guard.check u.guard context with (f | x) | (_ | _) <;>
        simp [trial, Trial.run, hw, hu, ih]
    · simp [trial, hw, ih]

/-! ## Tried transitions -/

/-- Does the guard hold, if failures are taken for false? -/
def Guard.satisfied (context : Context) (guard? : Option String) : Bool :=
  match Guard.holds guard? context with
  | .ok (b, _) => b
  | .error _ => false

/-- The transitions that are tried: those that wait for the event, up to and including the first
whose guard holds. -/
def tried (context : Context) (event : String) (ts : List Transition) : List Transition :=
  let waiting := ts.filter (·.event = event)
  waiting.take (waiting.findIdx (Guard.satisfied context ·.guard) + 1)

theorem Guard.satisfied_iff {guard? : Option String} :
    Guard.satisfied context guard? = true ↔ Guard.check guard? context = .ok true := by
  unfold Guard.satisfied Guard.holds
  rcases Guard.check guard? context with (f | x) | b <;> simp

theorem tried_of_ne {t : Transition} (h : t.event ≠ event) (ts : List Transition) :
    tried context event (t :: ts) = tried context event ts := by
  simp [tried, h]

theorem tried_of_satisfied {t : Transition} (h : t.event = event)
    (hs : Guard.satisfied context t.guard = true) (ts : List Transition) :
    tried context event (t :: ts) = [t] := by
  simp [tried, h, List.findIdx_cons, hs]

theorem tried_of_not_satisfied {t : Transition} (h : t.event = event)
    (hs : Guard.satisfied context t.guard = false) (ts : List Transition) :
    tried context event (t :: ts) = t :: tried context event ts := by
  simp [tried, h, List.findIdx_cons, hs]

/-- What is seen of the trial of one transition: its guard is evaluated, and a failure is reported
at once. -/
def sight (context : Context) (event : String) (t : Transition) : List Seen :=
  .evaluated t.guard :: (guardFailure? context event t).toList.map .reported

/-- The trial sees each tried transition in turn, and comes to the first that waits for the event
and whose guard holds. -/
theorem run_trial {ts : List Transition} (h : ∀ t ∈ tried context event ts, ∀ x,
    Guard.check t.guard context ≠ .error (.tooLong x)) :
    (trial event ts).run (Guard.check · context) =
      ((tried context event ts).flatMap (sight context event),
        .ok (ts.find? fun t => t.event = event && Guard.satisfied context t.guard)) := by
  induction ts with
  | nil => rfl
  | cons t ts ih =>
    by_cases hw : t.event = event
    -- a guard that holds ends the trial; any other one leaves it to the transitions behind
    · cases hs : Guard.satisfied context t.guard with
      | true =>
        have hg := Guard.satisfied_iff.mp hs
        simp [tried_of_satisfied hw hs, trial, Trial.run, sight, guardFailure?, hw, hg, hs]
      | false =>
        rw [tried_of_not_satisfied hw hs] at h ⊢
        have ih := ih fun u hu => h u (List.mem_cons_of_mem _ hu)
        have hne : Guard.check t.guard context ≠ .ok true :=
          fun hg => by simp [Guard.satisfied_iff.mpr hg] at hs
        rcases hg : Guard.check t.guard context with (f | x) | (_ | _)
        · simp [trial, Trial.run, sight, guardFailure?, hw, hg, hs, ih]
        · exact absurd hg (h t (List.mem_cons_self ..) x)
        · simp [trial, Trial.run, sight, guardFailure?, hw, hg, hs, ih]
        · exact absurd hg hne
    · rw [tried_of_ne hw] at h ⊢
      simp [trial, hw, ih h]

theorem event_of_mem_tried {ts : List Transition} {t : Transition}
    (h : t ∈ tried context event ts) : t.event = event := by
  have := List.mem_of_mem_take h
  simpa using (List.mem_filter.mp this).2

theorem reported_of_sight (ts : List Transition) :
    (ts.flatMap (sight context event)).filterMap Seen.failure? =
      ts.filterMap (guardFailure? context event) := by
  induction ts with
  | nil => rfl
  | cons t ts ih =>
    rw [List.flatMap_cons, List.filterMap_append, ih, sight]
    cases hf : guardFailure? context event t <;>
      simp [Seen.failure?, List.filterMap_cons, hf]

/-- Where failures are taken for false, what is logged is the failure that the trial reports. -/
theorem holds_of_tried {ts : List Transition} {t : Transition} (ht : t ∈ tried context event ts)
    (h : ∀ x, Guard.check t.guard context ≠ .error (.tooLong x)) :
    Guard.holds t.guard context = .ok (Guard.satisfied context t.guard,
      (guardFailure? context event t).toList.map (·.entry t.guard)) := by
  have hw := event_of_mem_tried ht
  rcases hg : Guard.check t.guard context with (f | x) | b
  · simp [Guard.holds, Guard.satisfied, guardFailure?, hw, hg]
  · exact absurd hg (h x)
  · simp [Guard.holds, Guard.satisfied, guardFailure?, hw, hg]

/-- **The first match wins.** If no guard that is tried comes to an overlong number, the first
transition is chosen that waits for the event and whose guard holds where failures are taken for
false. Evaluated are the guards of the transitions that wait for the event, up to and including it,
each once and in order, and each failure is reported at once: it is the one that is logged where
failures are taken for false. Transitions for other events and those behind the chosen one change
nothing. A machine that is sent the event in a state with these transitions reports just these
failures, and takes the chosen transition. -/
theorem select_first (context : Context) (event : String) (ts : List Transition)
    (h : ∀ t ∈ tried context event ts, ∀ x, Guard.check t.guard context ≠ .error (.tooLong x)) :
    select context event ts =
      ⟨((trial event ts).run (Guard.check · context)).1.filterMap Seen.failure?,
        ((trial event ts).run (Guard.check · context)).2⟩ ∧
    (select context event ts).chosen =
      .ok (ts.find? fun t => t.event = event && Guard.satisfied context t.guard) ∧
    (select context event ts).failures =
      (tried context event ts).filterMap (guardFailure? context event) ∧
    ((trial event ts).run (Guard.check · context)).1 =
      (tried context event ts).flatMap (sight context event) ∧
    (∀ t ∈ tried context event ts, Guard.holds t.guard context =
      .ok (Guard.satisfied context t.guard,
        (guardFailure? context event t).toList.map (·.entry t.guard))) ∧
    (∀ ts', ts'.filter (·.event = event) = ts.filter (·.event = event) →
      trial event ts' = trial event ts ∧ select context event ts' = select context event ts) ∧
    (∀ before t after after', ts = before ++ t :: after → t.event = event →
      Guard.satisfied context t.guard = true →
      (trial event (before ++ t :: after')).run (Guard.check · context) =
        (trial event ts).run (Guard.check · context) ∧
      select context event (before ++ t :: after') = select context event ts) ∧
    ∀ (η : Type) (m : Machine) (e : Event) (state : State),
      m.live.context = context → e.type = event →
      m.chart.states.get? m.live.state = some state → state.transitions = ts →
      (m.send e : Flow η _) = .publish { m.live with started := true }
        (.reports (((tried context event ts).filterMap (guardFailure? context event)).map
            .guardFailed)
          (match ts.find? fun t => t.event = event && Guard.satisfied context t.guard with
            | none => .report (.noTransition event m.live.state) (.done (.ok false))
            | some t => m.take { m.live with started := true } e t)) := by
  have hrun := run_trial h
  have hsel : select context event ts = _ := select_eq_run ts
  have hchosen : (select context event ts).chosen =
      .ok (ts.find? fun t => t.event = event && Guard.satisfied context t.guard) := by
    rw [hsel, hrun]
  have hfailures : (select context event ts).failures =
      (tried context event ts).filterMap (guardFailure? context event) := by
    rw [hsel, hrun, reported_of_sight]
  refine ⟨hsel, hchosen, hfailures, by rw [hrun], fun t ht => holds_of_tried ht (h t ht),
    fun ts' hf => ?_, ?_, ?_⟩
  · have ht : trial event ts' = trial event ts := by rw [← trial_filter, hf, trial_filter]
    exact ⟨ht, by rw [select_eq_run, ht, ← select_eq_run]⟩
  · rintro before t after after' rfl hw hs
    have ht := run_beyond hw (Guard.satisfied_iff.mp hs) before after' after
    exact ⟨ht, by rw [select_eq_run, ht, ← select_eq_run]⟩
  · rintro η m e state rfl rfl hs rfl
    simp only [Machine.send, hs, hchosen, hfailures]
    cases state.transitions.find? _ <;> rfl

/-- Transitions with guards of all kinds: for another event, malformed, without a value, false,
true, and malformed behind the true one. -/
def mixed : List Transition :=
  [{ target := "a", event := "STOP", guard := some "(" },
    { target := "b", event := "GO", guard := some "(" },
    { target := "c", event := "GO", guard := some "-x" },
    { target := "d", event := "GO", guard := some "x" },
    { target := "e", event := "GO", guard := some "n" },
    { target := "f", event := "GO", guard := some "(" }]

theorem check_unclosed : Guard.check (some "(") [("n", .int 1)] =
    .error (.failure ⟨"(", .parse .ended⟩) := by cbv

theorem check_negated : Guard.check (some "-x") [("n", .int 1)] =
    .error (.failure ⟨"-x", .value (.notNegatable .null)⟩) := by cbv

theorem check_absent : Guard.check (some "x") [("n", .int 1)] = .ok false := by cbv

theorem check_present : Guard.check (some "n") [("n", .int 1)] = .ok true := by cbv

theorem tried_mixed : tried [("n", .int 1)] "GO" mixed = (mixed.drop 1).take 4 := by
  simp [tried, mixed, Guard.satisfied, Guard.holds, List.findIdx_cons, check_unclosed,
    check_negated, check_absent, check_present]

/-- The transition to "e" is chosen behind two failures. -/
theorem select_first_mixed :
    (∀ t ∈ tried [("n", .int 1)] "GO" mixed, ∀ x,
      Guard.check t.guard [("n", .int 1)] ≠ .error (.tooLong x)) ∧
    (select [("n", .int 1)] "GO" mixed).chosen =
      .ok (some { target := "e", event := "GO", guard := some "n" }) ∧
    (select [("n", .int 1)] "GO" mixed).failures =
      [⟨"(", .parse .ended⟩, ⟨"-x", .value (.notNegatable .null)⟩] := by
  have h : ∀ t ∈ tried [("n", .int 1)] "GO" mixed, ∀ x,
      Guard.check t.guard [("n", .int 1)] ≠ .error (.tooLong x) := by
    rw [tried_mixed]
    simp [mixed, check_unclosed, check_negated, check_absent, check_present]
  obtain ⟨-, hchosen, hfailures, -⟩ := select_first _ _ _ h
  refine ⟨h, ?_, ?_⟩
  · rw [hchosen]
    simp [mixed, Guard.satisfied, Guard.holds, check_unclosed, check_negated, check_absent,
      check_present]
  · rw [hfailures, tried_mixed]
    simp [mixed, guardFailure?, check_unclosed, check_negated, check_absent, check_present]

end
end Workflow
