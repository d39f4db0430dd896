import Workflow.Machine

/-!
# When a call reports and announces

A call reports that no state, no transition or no guard is to be had before it changes the state and
the context of its machine. Later on it reports failed actions only, and an announcement is the last
that it does.

Results:
* `Unannounced.announcesLast`: a flow announces last if what is behind an
  unannounced part of it does.
* `early_send`, `early_start`: every call is such a flow.
-/
namespace Workflow

namespace Flow

variable {η α β : Type}

/-- A flow reports failed actions only, and announces nothing. -/
inductive Unannounced : Flow η α → Prop where
  | done (a : α) : Unannounced (.done a)
  | log {e : Log.Entry} {next : Flow η α} (h : Unannounced next) : Unannounced (.log e next)
  | report (f : ActionFault) {next : Flow η α} (h : Unannounced next) :
    Unannounced (.report (.actionFailed f) next)
  | publish {live : Live} {next : Flow η α} (h : Unannounced next) :
    Unannounced (.publish live next)
  | resolve {category : String} {next : Option η → Flow η α} (h : ∀ o, Unannounced (next o)) :
    Unannounced (.resolve category next)
  | invoke {handler : η} {params : Fields Value} {context : Context} {next : Outcome → Flow η α}
    (h : ∀ o, Unannounced (next o)) : Unannounced (.invoke handler params context next)

/-- A flow reports failed actions only, and an announcement is the last that it does. -/
inductive AnnouncesLast : Flow η α → Prop where
  | done (a : α) : AnnouncesLast (.done a)
  | announce (a : α) : AnnouncesLast (.announce (.done a))
  | log {e : Log.Entry} {next : Flow η α} (h : AnnouncesLast next) : AnnouncesLast (.log e next)
  | report (f : ActionFault) {next : Flow η α} (h : AnnouncesLast next) :
    AnnouncesLast (.report (.actionFailed f) next)
  | publish {live : Live} {next : Flow η α} (h : AnnouncesLast next) :
    AnnouncesLast (.publish live next)
  | resolve {category : String} {next : Option η → Flow η α} (h : ∀ o, AnnouncesLast (next o)) :
    AnnouncesLast (.resolve category next)
  | invoke {handler : η} {params : Fields Value} {context : Context} {next : Outcome → Flow η α}
    (h : ∀ o, AnnouncesLast (next o)) : AnnouncesLast (.invoke handler params context next)

/-- A flow reports other things than failed actions only as long as the machine has the state and
the context that it had at first. -/
inductive Early (p : String × Context) : Flow η α → Prop where
  | last {x : Flow η α} (h : AnnouncesLast x) : Early p x
  | report (r : Report) {next : Flow η α} (h : Early p next) : Early p (.report r next)
  | publish {live : Live} {next : Flow η α} (hp : (live.state, live.context) = p)
    (h : Early p next) : Early p (.publish live next)

theorem Unannounced.bind {x : Flow η α} {f : α → Flow η β} (h : x.Unannounced)
    (hf : ∀ a, (f a).Unannounced) : (x.bind f).Unannounced := by
  induction h with
  | done a => exact hf a
  | log _ ih => exact .log ih
  | report f _ ih => exact .report f ih
  | publish _ ih => exact .publish ih
  | resolve _ ih => exact .resolve ih
  | invoke _ ih => exact .invoke ih

theorem Unannounced.announcesLast {x : Flow η α} {f : α → Flow η β} (h : x.Unannounced)
    (hf : ∀ a, (f a).AnnouncesLast) : (x.bind f).AnnouncesLast := by
  induction h with
  | done a => exact hf a
  | log _ ih => exact .log ih
  | report f _ ih => exact .report f ih
  | publish _ ih => exact .publish ih
  | resolve _ ih => exact .resolve ih
  | invoke _ ih => exact .invoke ih

theorem Early.reports {p : String × Context} {x : Flow η α} (h : x.Early p) (rs : List Report) :
    (Flow.reports rs x).Early p := by
  induction rs with
  | nil => exact h
  | cons r rs ih => exact .report r ih

end Flow

namespace Machine

variable {η : Type}

theorem unannounced_settle (live : Live) (action category : String) (o : Outcome) :
    (settle live action category o : Flow η ActionEnd).Unannounced := by
  unfold settle
  split
  · exact .done _
  · exact .done _
  · split
    · exact .done _
    · exact .publish (.done _)
  · exact .done _

theorem unannounced_runAction (m : Machine) (phase : Phase) (live : Live) (i : Invocation) :
    (m.runAction phase live i : Flow η ActionEnd).Unannounced := by
  unfold runAction
  split
  · exact .done _
  · refine .resolve fun o => ?_
    cases o with
    | none => exact .done _
    | some handler =>
      dsimp only
      split
      · exact .done _
      · exact .log (.invoke fun o => unannounced_settle ..)

theorem unannounced_runActions (m : Machine) (phase : Phase) (live : Live) (is : List Invocation) :
    (m.runActions phase live is : Flow η _).Unannounced := by
  induction is generalizing live with
  | nil => exact .done _
  | cons i is ih =>
    refine (unannounced_runAction m phase live i).bind fun e => ?_
    cases e with
    | ok live => exact ih live
    | failed f =>
      refine .report f ?_
      cases m.failure with
      | carryOn => exact ih live
      | abort => exact .done _
    | broken f => exact .done _

theorem announcesLast_enter (m : Machine) (live : Live) (state : State) :
    (m.enter live state : Flow η _).AnnouncesLast :=
  (unannounced_runActions ..).announcesLast fun _ => .announce _

theorem early_take (m : Machine) (p : String × Context) (live : Live) (e : Event)
    (t : Transition) : (m.take live e t : Flow η _).Early p := by
  unfold take
  split
  · exact .report _ (.last (.done _))
  · refine .last ((unannounced_runActions ..).announcesLast fun r => ?_)
    obtain ⟨after, _ | f⟩ := r
    · exact .publish (.log (announcesLast_enter ..))
    · exact .done _

theorem early_send (m : Machine) (e : Event) :
    (m.send e : Flow η _).Early (m.live.state, m.live.context) := by
  refine .publish rfl ?_
  split
  · exact .report _ (.last (.done _))
  · refine .reports ?_ _
    split
    · exact .last (.done _)
    · exact .report _ (.last (.done _))
    · exact early_take ..

theorem early_start (m : Machine) :
    (m.start : Flow η _).Early (m.live.state, m.live.context) := by
  unfold start
  split
  · exact .last (.done _)
  · refine .publish rfl ?_
    split
    · exact .report _ (.last (.done _))
    · exact .last (announcesLast_enter ..)

end Machine
end Workflow
