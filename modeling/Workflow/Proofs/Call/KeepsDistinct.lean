import Workflow.Machine
import Workflow.Proofs.Context.Merge
import Workflow.Proofs.Document.Distinct

/-!
# Calls keep names distinct

A call never brings a name twice into a context: what it publishes and hands to handlers has
distinct names, if its machine and its event have, and if what handlers answer has.

Results:
* `Machine.keepsDistinct_send`, `Machine.keepsDistinct_start`: every call is such a flow.
-/
namespace Workflow

/-- A context with distinct names. -/
def Live.Distinct (live : Live) : Prop := (Value.obj live.context).Distinct

/-- An outcome with distinct names, if it is a value. -/
def Outcome.Distinct (o : Outcome) : Prop := ∀ v, o = .ok v → v.Distinct

/-- Values with distinct names, if an event carries any. -/
def Event.Distinct (e : Event) : Prop :=
  ∀ payload, e.payload = some payload → (Value.obj payload).Distinct

structure Machine.Distinct (m : Machine) : Prop where
  live : m.live.Distinct
  chart : m.chart.Distinct

namespace Flow

variable {η α β : Type} {found : η → Prop} {good : α → Prop}

/-- A flow publishes and hands over what has distinct names only, as long as its handlers answer so,
and comes to something good. It invokes handlers of a sort only, if it finds no others. -/
inductive KeepsDistinct (found : η → Prop) (good : α → Prop) : Flow η α → Prop where
  | done {a : α} (h : good a) : KeepsDistinct found good (.done a)
  | log {e : Log.Entry} {next : Flow η α} (h : KeepsDistinct found good next) :
    KeepsDistinct found good (.log e next)
  | report {r : Report} {next : Flow η α} (h : KeepsDistinct found good next) :
    KeepsDistinct found good (.report r next)
  | publish {live : Live} {next : Flow η α} (hl : live.Distinct)
    (h : KeepsDistinct found good next) :
    KeepsDistinct found good (.publish live next)
  | announce {next : Flow η α} (h : KeepsDistinct found good next) :
    KeepsDistinct found good (.announce next)
  | resolve {category : String} {next : Option η → Flow η α}
    (h : ∀ o, (∀ h, o = some h → found h) → KeepsDistinct found good (next o)) :
    KeepsDistinct found good (.resolve category next)
  | invoke {handler : η} {params : Fields Value} {context : Context} {next : Outcome → Flow η α}
    (hh : found handler) (hp : (Value.obj params).Distinct) (hc : (Value.obj context).Distinct)
    (h : ∀ o, Outcome.Distinct o → KeepsDistinct found good (next o)) :
    KeepsDistinct found good (.invoke handler params context next)

theorem KeepsDistinct.bind {x : Flow η α} {f : α → Flow η β} {better : β → Prop}
    (h : x.KeepsDistinct found good) (hf : ∀ a, good a → (f a).KeepsDistinct found better) :
    (x.bind f).KeepsDistinct found better := by
  induction h with
  | done h => exact hf _ h
  | log _ ih => exact .log ih
  | report _ ih => exact .report ih
  | publish hl _ ih => exact .publish hl ih
  | announce _ ih => exact .announce ih
  | resolve _ ih => exact .resolve ih
  | invoke hh hp hc _ ih => exact .invoke hh hp hc ih

theorem KeepsDistinct.reports {x : Flow η α} (h : x.KeepsDistinct found good) (rs : List Report) :
    (Flow.reports rs x).KeepsDistinct found good := by
  induction rs with
  | nil => exact h
  | cons r rs ih => exact .report ih

end Flow

theorem Live.Distinct.merge {live : Live} (hl : live.Distinct) {fields : Fields Value}
    (hf : (Value.obj fields).Distinct) :
    Live.Distinct { live with context := Fields.merge live.context fields } :=
  Value.Distinct.merge hl fun _ => hf.field

namespace Machine

variable {η : Type} {found : η → Prop} {live : Live}

theorem keepsDistinct_settle (hl : live.Distinct) (action category : String) {o : Outcome}
    (ho : o.Distinct) : (settle live action category o : Flow η ActionEnd).KeepsDistinct found
      fun a => ∀ live, a = .ok live → live.Distinct := by
  have ok {live : Live} (hl : live.Distinct) : ∀ l, ActionEnd.ok live = .ok l → l.Distinct :=
    fun l h => by
      cases h
      exact hl
  unfold settle
  split
  · exact .done fun _ h => by cases h
  · exact .done (ok hl)
  · rename_i fields
    split
    · exact .done (ok hl)
    · have hm := hl.merge (ho _ rfl)
      exact .publish hm (.done (ok hm))
  · exact .done fun _ h => by cases h

theorem keepsDistinct_runAction (m : Machine) (phase : Phase) (hl : live.Distinct) {i : Invocation}
    (hi : i.Distinct) : (m.runAction phase live i : Flow η ActionEnd).KeepsDistinct found
      fun a => ∀ live, a = .ok live → live.Distinct := by
  unfold runAction
  split
  · exact .done fun _ h => by cases h
  · refine .resolve fun o ho => ?_
    cases o with
    | none => exact .done fun _ h => by cases h
    | some handler =>
      dsimp only
      split
      · exact .done fun _ h => by cases h
      · rename_i params hp
        exact .log (.invoke (ho handler rfl) (Context.distinct_resolveAll hl hi hp) hl
          fun o ho => keepsDistinct_settle hl _ _ ho)

theorem keepsDistinct_runActions (m : Machine) (phase : Phase) (hl : live.Distinct)
    {is : List Invocation} (hi : ∀ i ∈ is, i.Distinct) :
    (m.runActions phase live is : Flow η _).KeepsDistinct found fun r => r.1.Distinct := by
  induction is generalizing live with
  | nil => exact .done hl
  | cons i is ih =>
    obtain ⟨hi, his⟩ := List.forall_mem_cons.mp hi
    refine (keepsDistinct_runAction m phase hl hi).bind fun a ha => ?_
    cases a with
    | ok live => exact ih (ha live rfl) his
    | failed f =>
      refine .report ?_
      cases m.failure with
      | carryOn => exact ih hl his
      | abort => exact .done hl
    | broken f => exact .done hl

theorem keepsDistinct_enter (m : Machine) (hl : live.Distinct) {state : State}
    (hs : state.Distinct) :
    (m.enter live state : Flow η _).KeepsDistinct found fun _ => True :=
  (keepsDistinct_runActions m .entry hl hs.entry).bind fun _ _ => .announce (.done trivial)

variable {m : Machine}

theorem Distinct.state (h : m.Distinct) {name : String} {state : State}
    (hs : m.chart.states.get? name = some state) : state.Distinct :=
  h.chart _ (Fields.mem_of_get? hs)

theorem keepsDistinct_take (hm : m.Distinct) (hl : live.Distinct) {e : Event} (he : e.Distinct)
    {t : Transition} (ht : t.Distinct) :
    (m.take live e t : Flow η _).KeepsDistinct found fun _ => True := by
  unfold take
  split
  · exact .report (.done trivial)
  · rename_i target htarget
    refine (keepsDistinct_runActions m .transition hl ht).bind fun r hr => ?_
    obtain ⟨after, _ | f⟩ := r
    · have hlive : Live.Distinct { after with
          state := t.target
          context := Context.update after.context e.payload } := by
        cases hp : e.payload with
        | none => exact hr
        | some payload => exact Live.Distinct.merge hr (he payload hp)
      exact .publish hlive (.log (keepsDistinct_enter m hlive (hm.state htarget)))
    · exact .done trivial

theorem keepsDistinct_send (hm : m.Distinct) {e : Event} (he : e.Distinct) :
    (m.send e : Flow η _).KeepsDistinct found fun _ => True := by
  have hl : Live.Distinct { m.live with started := true } := hm.live
  refine .publish hl ?_
  split
  · exact .report (.done trivial)
  · rename_i state hs
    refine Flow.KeepsDistinct.reports ?_ _
    split
    · exact .done trivial
    · exact .report (.done trivial)
    · rename_i t ht
      exact keepsDistinct_take hm hl he ((hm.state hs).transitions t (select_chosen_mem ht).1)

theorem keepsDistinct_start (hm : m.Distinct) :
    (m.start : Flow η _).KeepsDistinct found fun _ => True := by
  unfold start
  split
  · exact .done trivial
  · have hl : Live.Distinct { m.live with started := true } := hm.live
    refine .publish hl ?_
    split
    · exact .report (.done trivial)
    · rename_i state hs
      exact keepsDistinct_enter m hl (hm.state hs)

end Machine
end Workflow
