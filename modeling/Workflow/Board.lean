import Workflow.Notifier
import Workflow.Log.Entry

/-!
# Boards

A board has channels on which notices are posted, and the memory of the host that listens. A
listener answers a notice with a reaction: it may look at the memory and change it, end
subscriptions, subscribe further listeners, and it returns or raises an error. A new listener of a
channel may be told a notice at once; if it raises, it is not subscribed.

A notice is posted to the listeners that were subscribed when the posting began and still are when
their turn comes. An error that a listener raises is logged and has no further effect. Either each
listener is given a copy of the notice, made for it, or all are given the same one and see what
earlier listeners have made of it.
-/
namespace Workflow

/-- A memory that takes log entries. -/
class Recorder (μ : Type) where
  record : Log.Entry → μ → μ

/-- What a listener does with a notice, and what it leaves of the notice. -/
inductive Reaction (μ ν : Type) where
  | finish (left : ν)
  | raise (left : ν) (error : Raised)
  | touch (change : μ → μ) (next : μ → Reaction μ ν)
  | unsubscribe (channel serial : Nat) (next : Reaction μ ν)
  | subscribe (channel : Nat) (label : String) (call : ν → Reaction μ ν)
      (next : Except Raised Nat → Reaction μ ν)

/-- A listener: the label that logs show, and what it does with a notice. -/
structure Listener (μ ν : Type) where
  label : String
  call : ν → Reaction μ ν

/-- A host's memory, and the listeners of each channel. -/
structure Board (μ ν : Type) where
  memory : μ
  channels : List (Notifier (Listener μ ν)) := []

/-- How the listeners of a channel are given a notice. -/
inductive Delivery (μ ν : Type) where
  | shared (notice : ν)
  | copies (make : μ → ν × μ)

namespace Board

variable {μ ν : Type}

def channel (b : Board μ ν) (i : Nat) : Notifier (Listener μ ν) := (b.channels[i]?).getD {}

def touch (b : Board μ ν) (change : μ → μ) : Board μ ν := { b with memory := change b.memory }

def onChannel (b : Board μ ν) (i : Nat)
    (change : Notifier (Listener μ ν) → Notifier (Listener μ ν)) : Board μ ν :=
  { b with channels := b.channels.modify i change }

def unsubscribe (b : Board μ ν) (i serial : Nat) : Board μ ν :=
  b.onChannel i fun n => n.unsubscribe serial

/-- Adds a listener to a channel without telling it anything. -/
def add (b : Board μ ν) (i : Nat) (listener : Listener μ ν) : Board μ ν × Nat :=
  (b.onChannel i fun n => (n.subscribe listener).1, (b.channel i).next)

structure Reacted (μ ν : Type) where
  board : Board μ ν
  left : ν
  error : Option Raised

/-- Carries out a reaction. A new listener of channel `i` is told `greet i`, if that is anything. -/
def react (greet : Nat → Option ν) : Reaction μ ν → Board μ ν → Reacted μ ν
  | .finish left, b => ⟨b, left, none⟩
  | .raise left e, b => ⟨b, left, some e⟩
  | .touch change next, b => react greet (next b.memory) (b.touch change)
  | .unsubscribe i serial next, b => react greet next (b.unsubscribe i serial)
  | .subscribe i label call next, b =>
    match greet i with
    | none =>
      let (b, serial) := b.add i ⟨label, call⟩
      react greet (next (.ok serial)) b
    | some notice =>
      match react greet (call notice) b with
      | ⟨b, _, some e⟩ => react greet (next (.error e)) b
      | ⟨b, _, none⟩ =>
        let (b, serial) := b.add i ⟨label, call⟩
        react greet (next (.ok serial)) b

/-- Subscribes a listener to a channel. -/
def subscribe (greet : Nat → Option ν) (b : Board μ ν) (i : Nat) (listener : Listener μ ν) :
    Board μ ν × Except Raised Nat :=
  match (greet i).map fun notice => react greet (listener.call notice) b with
  | some ⟨b, _, some e⟩ => (b, .error e)
  | some ⟨b, _, none⟩ => ((b.add i listener).1, .ok (b.add i listener).2)
  | none => ((b.add i listener).1, .ok (b.add i listener).2)

variable [Recorder μ]

def raisedEntry (label : String) (e : Raised) : Log.Entry where
  level := .error
  source := .notifier
  message := "Listener raised during notification"
  extra := [("listener", .str label)]
  exception := some e

/-- The notice that the next listener is given, and the board once it is made. -/
def Delivery.notice (d : Delivery μ ν) (b : Board μ ν) : ν × Board μ ν :=
  match d with
  | .shared notice => (notice, b)
  | .copies make => ((make b.memory).1, { b with memory := (make b.memory).2 })

/-- The delivery to the listeners behind one that has left something of the notice. -/
def Delivery.after (d : Delivery μ ν) (left : ν) : Delivery μ ν :=
  match d with
  | .shared _ => .shared left
  | .copies make => .copies make

/-- Calls one listener with a notice; an error is logged. -/
def tell (greet : Nat → Option ν) (listener : Listener μ ν) (notice : ν) (b : Board μ ν) :
    Board μ ν × ν :=
  match react greet (listener.call notice) b with
  | ⟨b, left, none⟩ => (b, left)
  | ⟨b, left, some e⟩ => (b.touch (Recorder.record (raisedEntry listener.label e)), left)

/-- Calls those of some subscriptions to a channel that are active when their turn comes. -/
def tellAll (greet : Nat → Option ν) (i : Nat) :
    List (Subscription (Listener μ ν)) → Delivery μ ν → Board μ ν → Board μ ν
  | [], _, b => b
  | s :: rest, d, b =>
    if (b.channel i).isActive s.serial then
      let (notice, b) := Delivery.notice d b
      let (b, left) := tell greet s.listener notice b
      tellAll greet i rest (Delivery.after d left) b
    else tellAll greet i rest d b

/-- Posts a notice on a channel; mirrors `Notifier.emit`. -/
def post (greet : Nat → Option ν) (i : Nat) (d : Delivery μ ν) (b : Board μ ν) : Board μ ν :=
  tellAll greet i (b.channel i).current d b

theorem post_nil (greet : Nat → Option ν) (i : Nat) (d : Delivery μ ν) (b : Board μ ν)
    (h : (b.channel i).current = []) : post greet i d b = b := by
  simp [post, h, tellAll]

end Board
end Workflow
