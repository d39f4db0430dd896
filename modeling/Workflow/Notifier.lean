/-!
# Notifiers

Listeners in the order in which they subscribed. Every subscription has a number of its own, so
that the same listener may subscribe twice. A subscription ends once; ending it again does nothing.

Results:
* `isActive_subscribe`: to subscribe changes nobody's activity.
* `not_isActive_unsubscribe`: a subscription that has ended is not active.
-/
namespace Workflow

/-- A listener and the number of its subscription; mirrors `_Subscription`. -/
structure Subscription (l : Type) where
  serial : Nat
  listener : l

/-- The current subscriptions, the number of the next one, and the numbers of those that ended;
mirrors `Notifier`. -/
structure Notifier (l : Type) where
  current : List (Subscription l) := []
  next : Nat := 0
  ended : List Nat := []

namespace Notifier

variable {l : Type}

/-- Is a subscription that was made still active? -/
def isActive (n : Notifier l) (serial : Nat) : Bool := !n.ended.contains serial

/-- Adds a listener; the number is that of its subscription; mirrors `Notifier.subscribe`. -/
def subscribe (n : Notifier l) (listener : l) : Notifier l × Nat :=
  ({ n with current := n.current ++ [⟨n.next, listener⟩], next := n.next + 1 }, n.next)

/-- Ends a subscription. -/
def unsubscribe (n : Notifier l) (serial : Nat) : Notifier l :=
  if n.isActive serial then
    { n with
      current := n.current.filter fun s => s.serial != serial
      ended := serial :: n.ended }
  else n

def size (n : Notifier l) : Nat := n.current.length

theorem isActive_subscribe (n : Notifier l) (listener : l) (serial : Nat) :
    (n.subscribe listener).1.isActive serial = n.isActive serial := rfl

theorem not_isActive_unsubscribe (n : Notifier l) (serial : Nat) :
    (n.unsubscribe serial).isActive serial = false := by
  unfold unsubscribe
  cases h : n.isActive serial with
  | true => simp [isActive]
  | false => simp [h]

end Notifier
end Workflow
