import Workflow.Work

/-!
# Messages to users

A message for the user is logged, and handed to the host's display if there is one. Without a
message nothing is shown.
-/
namespace Workflow.Ui

/-- What the host does to display a message of some sort; an error ends the action. -/
abbrev Display (μ : Type) := String → String → Work μ (Except Raised Unit)

def messageEntry (message sort : Value) : Log.Entry where
  level := .info
  source := .ui
  message := "UI message"
  extra := [("ui_message", message), ("ui_type", sort)]

def silent : Value := .obj [("ui", .obj [("displayed", .bool false)])]

def shown (message sort : Value) : Value :=
  .obj [("ui", .obj [("displayed", .bool true), ("message", message), ("type", sort)])]

variable {μ : Type}

/-- Hands a message to the display. -/
def display (display? : Option (Display μ)) (message sort : Value) : Work μ (Except Raised Unit) :=
  match display? with
  | none => .finish (.ok ())
  | some d => d message.plainText sort.plainText

/-- Shows the message that parameters give; mirrors `UiHandler.execute`. -/
def run (display? : Option (Display μ)) (params : Fields Value) : Work μ Outcome :=
  let message := params.getD "message"
  if message.truthy then
    let sort := (params.getD "type").orElse (.str "info")
    .log (messageEntry message sort) <|
      (display display? message sort).map fun r => r.map fun _ => shown message sort
  else .finish (.ok silent)

end Workflow.Ui
