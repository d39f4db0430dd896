import Workflow.Handler.Api
import Workflow.Log.Entry
import Workflow.Board

/-!
# The memory of a rehearsal

A rehearsal runs machines with handlers and listeners that follow a script. It remembers, in order,
what was logged, which handlers were called, which listeners were told, what was displayed and
requested; it counts the calls of what answers differently each time; and it knows the machines and
the subscriptions by name.
-/
namespace Workflow.Rehearsal

inductive Mark where
  | entry (e : Log.Entry)
  | call (category : String) (params : Fields Value) (context : Context)
  | notify (listener : String) (notice : List Value)
  | display (message sort : String)
  | request (r : Api.Request)

/-- What is counted, by keys. -/
abbrev Tally := List (List Nat × Nat)

/-- The memory of a rehearsal; the marks are kept latest first. -/
structure Memory where
  marks : List Mark := []
  tally : Tally := []
  /-- The channel and the number of a subscription by its name. -/
  subscriptions : Fields (Nat × Nat) := []
  machines : Fields Nat := []
  fresh : Nat := 0

namespace Memory

/-- What happened, in order. -/
def trace (m : Memory) : List Mark := m.marks.reverse

def mark (m : Memory) (x : Mark) : Memory := { m with marks := x :: m.marks }

/-- Forgets what happened, and nothing else. -/
def forget (m : Memory) : Memory := { m with marks := [] }

/-- How often something was counted. -/
def count (m : Memory) (key : List Nat) : Nat := (m.tally.lookup key).getD 0

/-- Counts something once more. -/
def bump (m : Memory) (key : List Nat) : Memory :=
  { m with tally := (key, m.count key + 1) :: m.tally.filter fun e => e.1 != key }

/-- Draws numbers that were not used before. -/
def draw (m : Memory) (n : Nat) : Memory := { m with fresh := m.fresh + n }

def nameSubscription (m : Memory) (name : String) (channel serial : Nat) : Memory :=
  { m with subscriptions := m.subscriptions.set name (channel, serial) }

def nameMachine (m : Memory) (name : String) (machine : Nat) : Memory :=
  { m with machines := m.machines.set name machine }

end Memory

instance : Recorder Memory where
  record e m := m.mark (.entry e)

def unknownName (name : String) : Raised := ⟨"KeyError", Text.quoted name⟩

end Workflow.Rehearsal
