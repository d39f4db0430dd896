import Workflow.Machine

/-!
# What a call invokes

A call invokes no handlers but those that it finds: of a flow, the handlers that it may invoke are
of a sort as soon as those are that it may find.

Results:
* `invokes_send`, `invokes_start`: every call is such a flow.
-/
namespace Workflow

namespace Flow

variable {η α β : Type} {found : η → Prop}

/-- A flow invokes handlers of a sort only, if it finds no others. -/
inductive Invokes (found : η → Prop) : Flow η α → Prop where
  | done (a : α) : Invokes found (.done a)
  | log {e : Log.Entry} {next : Flow η α} (h : Invokes found next) : Invokes found (.log e next)
  | report {r : Report} {next : Flow η α} (h : Invokes found next) : Invokes found (.report r next)
  | publish {live : Live} {next : Flow η α} (h : Invokes found next) :
    Invokes found (.publish live next)
  | announce {next : Flow η α} (h : Invokes found next) : Invokes found (.announce next)
  | resolve {category : String} {next : Option η → Flow η α}
    (h : ∀ o, (∀ h, o = some h → found h) → Invokes found (next o)) :
    Invokes found (.resolve category next)
  | invoke {handler : η} {params : Fields Value} {context : Context} {next : Outcome → Flow η α}
    (hh : found handler) (h : ∀ o, Invokes found (next o)) :
    Invokes found (.invoke handler params context next)

theorem Invokes.bind {x : Flow η α} {f : α → Flow η β} (h : x.Invokes found)
    (hf : ∀ a, (f a).Invokes found) : (x.bind f).Invokes found := by
  induction h with
  | done a => exact hf a
  | log _ ih => exact .log ih
  | report _ ih => exact .report ih
  | publish _ ih => exact .publish ih
  | announce _ ih => exact .announce ih
  | resolve _ ih => exact .resolve ih
  | invoke hh _ ih => exact .invoke hh ih

theorem Invokes.reports {x : Flow η α} (h : x.Invokes found) (rs : List Report) :
    (Flow.reports rs x).Invokes found := by
  induction rs with
  | nil => exact h
  | cons r rs ih => exact .report ih

end Flow

namespace Machine

variable {η : Type} {found : η → Prop}

theorem invokes_settle (live : Live) (action category : String) (o : Outcome) :
    (settle live action category o : Flow η ActionEnd).Invokes found := by
  unfold settle
  split
  · exact .done _
  · exact .done _
  · split
    · exact .done _
    · exact .publish (.done _)
  · exact .done _

theorem invokes_runAction (m : Machine) (phase : Phase) (live : Live) (i : Invocation) :
    (m.runAction phase live i : Flow η ActionEnd).Invokes found := by
  unfold runAction
  split
  · exact .done _
  · refine .resolve fun o ho => ?_
    cases o with
    | none => exact .done _
    | some handler =>
      dsimp only
      split
      · exact .done _
      · exact .log (.invoke (ho handler rfl) fun o => invokes_settle ..)

theorem invokes_runActions (m : Machine) (phase : Phase) (live : Live) (is : List Invocation) :
    (m.runActions phase live is : Flow η _).Invokes found := by
  induction is generalizing live with
  | nil => exact .done _
  | cons i is ih =>
    refine (invokes_runAction m phase live i).bind fun e => ?_
    cases e with
    | ok live => exact ih live
    | failed f =>
      refine .report ?_
      cases m.failure with
      | carryOn => exact ih live
      | abort => exact .done _
    | broken f => exact .done _

theorem invokes_enter (m : Machine) (live : Live) (state : State) :
    (m.enter live state : Flow η _).Invokes found :=
  (invokes_runActions ..).bind fun _ => .announce (.done _)

theorem invokes_take (m : Machine) (live : Live) (e : Event) (t : Transition) :
    (m.take live e t : Flow η _).Invokes found := by
  unfold take
  split
  · exact .report (.done _)
  · refine (invokes_runActions ..).bind fun r => ?_
    obtain ⟨after, _ | f⟩ := r
    · exact .publish (.log (invokes_enter ..))
    · exact .done _

theorem invokes_send (m : Machine) (e : Event) : (m.send e : Flow η _).Invokes found := by
  refine .publish ?_
  split
  · exact .report (.done _)
  · refine .reports ?_ _
    split
    · exact .done _
    · exact .report (.done _)
    · exact invokes_take ..

theorem invokes_start (m : Machine) : (m.start : Flow η _).Invokes found := by
  unfold start
  split
  · exact .done _
  · refine .publish ?_
    split
    · exact .report (.done _)
    · exact invokes_enter ..

end Machine

end Workflow
