import Workflow.Handler.Default
import Workflow.Rehearsal.Memory
import Workflow.Value.Arithmetic

/-!
# Scripted handlers

A handler remembers that it was called and then follows its script: it pauses, gives a value, raises
an error, gives back its parameters, counts in the context, or sends an event to a machine. The
display and the transport of the default handlers can be scripted too.
-/
namespace Workflow.Rehearsal

inductive Script where
  | give (v : Value)
  | raise (e : Raised)
  /-- Gives back the parameters under a name. -/
  | echo (name : String)
  /-- Adds one to a name of the context. -/
  | count (name : String)
  /-- Sends an event to a machine, and gives the result under a name. -/
  | send (machine : String) (event : Event) (name : String)
  | pausing (times : Nat) (s : Script)
  /-- Follows one script after another, the last one again and again. -/
  | sequence (ss : List Script)
  deriving Inhabited

def counted (name : String) (context : Context) : Outcome :=
  match ((context.get? name).getD (.int 0)).plus .fresh (.int 1) with
  | .ok v => .ok (.obj [(name, v)])
  | .error f => .error f.raised

def sent (name : String) : Except CallFault Bool → Outcome
  | .ok taken => .ok (.obj [(name, .bool taken)])
  | .error f => .error f.raised

mutual

/-- The work of a script whose calls are counted under a key. -/
def Script.work (key : List Nat) (params : Fields Value) (context : Context) :
    Script → Work Memory Outcome
  | .give v => .finish (.ok v)
  | .raise e => .finish (.error e)
  | .echo name => .finish (.ok (.obj [(name, .obj params)]))
  | .count name => .finish (counted name context)
  | .send machine event name => .touch id fun m =>
    match m.machines.get? machine with
    | none => .finish (.error (unknownName machine))
    | some i => .send i event fun r => .finish (sent name r)
  | .pausing times s => .pauses times (s.work key params context)
  | .sequence ss => .touch (·.bump key) fun m => workNth key params context (m.count key) ss

/-- The work of the script with a number, or of the last one. -/
def workNth (key : List Nat) (params : Fields Value) (context : Context) :
    Nat → List Script → Work Memory Outcome
  | _, [] => .finish (.ok .null)
  | 0, s :: ss => s.work (key ++ [ss.length]) params context
  | n + 1, s :: ss =>
    if ss.isEmpty then s.work (key ++ [ss.length]) params context
    else workNth key params context n ss

end

/-- A handler with a script, called under a name. -/
def Script.handler (s : Script) (key : List Nat) (name : String) : Handler Memory where
  run params context :=
    .remember (·.mark (.call name params context)) (s.work key params context)

/-- A display that remembers what it is given, and raises an error if it is to. -/
def display (raises? : Option Raised) : Ui.Display Memory := fun message sort =>
  .remember (·.mark (.display message sort)) <| .finish <|
    match raises? with
    | some e => .error e
    | none => .ok ()

/-- The answer with a number, or the last one. -/
def answerNth : Nat → List (Except Raised Api.Response) → Except Raised Api.Response
  | _, [] => .ok { status := .int 200 }
  | 0, r :: _ => r
  | n + 1, r :: rs => if rs.isEmpty then r else answerNth n rs

/-- A transport that remembers the requests and gives the answers in turn, the last one again and
again. The requests are counted under a key. -/
def transport (key : List Nat) (answers : List (Except Raised Api.Response)) :
    Api.Transport Memory := fun r =>
  .touch (fun m => (m.mark (.request r)).bump key) fun m =>
    .finish (answerNth (m.count key) answers)

end Workflow.Rehearsal
