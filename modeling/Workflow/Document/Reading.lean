import Workflow.Document
import Workflow.Checked

/-!
# Reading documents

A document is described by an object. Fields without a meaning are passed over, and missing ones
have their defaults, save those without which there is nothing to describe. The initial state of a
workflow has two names, of which the first counts. A workflow whose fields are in order must start
in one of its states.

Results:
* `Chart.startsInside_of_ofValue`: a workflow that was read starts in one of its states.
* `nonemptyText_ne`: the names of actions and of categories are not empty.
-/
namespace Workflow

namespace Checked

variable {α : Type}

def text : Value → Checked String
  | .str s => .ok s
  | _ => fault .notText

/-- A text with at least one character. -/
def nonemptyText : Value → Checked String
  | .str s => if s = "" then fault .emptyText else .ok s
  | _ => fault .notText

def optionalText : Value → Checked (Option String)
  | .null => .ok none
  | v => (text v).map some

def object : Value → Checked (Fields Value)
  | .obj fields => .ok fields
  | _ => fault .notObject

/-- The items of a list from a number on. -/
def itemsFrom (read : Value → Checked α) (n : Nat) : List Value → Checked (List α)
  | [] => .ok []
  | v :: vs => (((read v).under (.item n)).and (itemsFrom read (n + 1) vs)).map fun r => r.1 :: r.2

def list (read : Value → Checked α) : Value → Checked (List α)
  | .list items => itemsFrom read 0 items
  | _ => fault .notList

/-- Parts under the names of fields. -/
def entries (read : Value → Checked α) : Fields Value → Checked (Fields α)
  | [] => .ok []
  | (k, v) :: fs => (((read v).under (.name k)).and (entries read fs)).map fun r => (k, r.1) :: r.2

def table (read : Value → Checked α) : Value → Checked (Fields α)
  | .obj fields => entries read fields
  | _ => fault .notObject

/-- A field that must be there. -/
def required (fields : Fields Value) (name : String) (read : Value → Checked α) : Checked α :=
  match fields.get? name with
  | some v => (read v).under (.name name)
  | none => (fault .missing).under (.name name)

/-- A field with a default. -/
def optional (fields : Fields Value) (name : String) (default : α) (read : Value → Checked α) :
    Checked α :=
  match fields.get? name with
  | some v => (read v).under (.name name)
  | none => .ok default

/-- A field that must be there under one of two names, the first before the second. -/
def either (fields : Fields Value) (name other : String) (read : Value → Checked α) : Checked α :=
  if fields.has name || !fields.has other then required fields name read
  else required fields other read

/-- An object that describes a thing of some sort. -/
def record (sort : String) (read : Fields Value → Checked α) : Value → Checked α
  | .obj fields => read fields
  | _ => fault (.notRecord sort)

end Checked

open Checked

def Invocation.ofValue : Value → Checked Invocation :=
  record "ActionInvocation" fun fs =>
    ((required fs "type" nonemptyText).and (optional fs "params" [] object)).map fun r =>
      { action := r.1, params := r.2 }

def Transition.ofValue : Value → Checked Transition :=
  record "TransitionDefinition" fun fs =>
    ((required fs "target" text).and ((required fs "event" text).and
      ((optional fs "condition" none optionalText).and
        (optional fs "actions" [] (list Invocation.ofValue))))).map
      fun (target, event, guard, actions) =>
      { target, event, guard, actions }

def State.ofValue : Value → Checked State :=
  record "StateDefinition" fun fs =>
    ((optional fs "actions" [] (list Invocation.ofValue)).and
      (optional fs "transitions" [] (list Transition.ofValue))).map fun r =>
      { entry := r.1, transitions := r.2 }

/-- A chart that starts in one of its states. -/
def Chart.checked (c : Chart) : Checked Chart :=
  if c.startsInside then .ok c else fault (.undefinedInitial c.initial)

/-- Reads a workflow. -/
def Chart.ofValue : Value → Checked Chart :=
  record "WorkflowDefinition" fun fs =>
    (((either fs "initialState" "initial_state" text).and
      (required fs "states" (table State.ofValue))).map fun r =>
        { initial := r.1, states := r.2 : Chart }).bind Chart.checked

def Action.ofValue : Value → Checked Action :=
  record "ActionDefinition" fun fs =>
    ((required fs "type" nonemptyText).and ((optional fs "handler" "" text).and
      (optional fs "description" none optionalText))).map fun (category, handler, description) =>
      { category, handler, description }

def Service.ofValue : Value → Checked Service :=
  record "ServiceDefinition" fun fs =>
    ((optional fs "methods" [] (list text)).and
      (optional fs "description" none optionalText)).map fun r =>
      { methods := r.1, description := r.2 }

/-- Reads a document. -/
def Document.ofValue : Value → Checked Document :=
  record "LogicDocument" fun fs =>
    ((optional fs "workflows" [] (table Chart.ofValue)).and
      ((optional fs "actions" [] (table Action.ofValue)).and
        (optional fs "services" [] (table Service.ofValue)))).map
      fun (workflows, actions, services) =>
      { workflows, actions, services }

theorem Chart.checked_ok_iff (c d : Chart) :
    c.checked = .ok d ↔ c = d ∧ c.startsInside = true := by
  unfold Chart.checked fault
  cases h : c.startsInside <;> simp

theorem Chart.startsInside_of_ofValue {v : Value} {c : Chart} (h : Chart.ofValue v = .ok c) :
    c.startsInside = true := by
  cases v with
  | obj fields =>
    obtain ⟨d, _, hd⟩ := (bind_ok_iff _ _ _).1 h
    obtain ⟨rfl, hs⟩ := (Chart.checked_ok_iff d c).1 hd
    exact hs
  | _ => simp [Chart.ofValue, record, fault] at h

theorem Checked.nonemptyText_ne {v : Value} {s : String} (h : nonemptyText v = .ok s) : s ≠ "" := by
  cases v with
  | str t =>
    by_cases ht : t = ""
    · simp [nonemptyText, fault, ht] at h
    · simp only [nonemptyText, ht, if_false, Checked.ok.injEq] at h
      exact h ▸ ht
  | _ => simp [nonemptyText, fault] at h

end Workflow
