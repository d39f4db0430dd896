import Workflow.Handler.Api
import Workflow.Handler.Data
import Workflow.Handler.Ui
import Workflow.Handler.Validation
import Workflow.Registry

/-!
# Default handlers

The four handlers that every host can use, and the categories that they serve.

Results:
* `categories_registerDefaults`: an empty registry then serves the four categories.
-/
namespace Workflow

variable {μ : Type}

def Handler.validation : Handler μ where
  run params context := .finish ((Validation.run params context).mapError (·.raised))

def Handler.data : Handler μ where
  run params context := .finish ((Data.run params context).mapError (·.raised))

def Handler.ui (display? : Option (Ui.Display μ)) : Handler μ where
  run params _ := Ui.run display? params

def Handler.api (settings : Api.Settings) (transport : Api.Transport μ) : Handler μ where
  run params _ := Api.run settings transport params

namespace Registry

/-- The default handlers under their categories, with numbers from `identity` on. -/
def defaults (identity : Nat) (display? : Option (Ui.Display μ)) (settings : Api.Settings)
    (transport : Api.Transport μ) : List (String × Nat × Handler μ) := [
  ("validation", identity, .validation),
  ("ui", identity + 1, .ui display?),
  ("data", identity + 2, .data),
  ("api", identity + 3, .api settings transport)]

def defaultsEntry (categories : List String) : Log.Entry where
  level := .info
  source := .handlers
  message := "Logic handlers registered"
  extra := [("categories", .list (categories.map .str))]

/-- Registers handlers that are known to handle something. -/
def insertAll (r : Registry (Handler μ)) :
    List (String × Nat × Handler μ) → Registry (Handler μ) × List Log.Entry
  | [] => (r, [])
  | (category, identity, h) :: more =>
    let logs := registrationEntries (r.replaces category identity) category
    let (r, rest) := insertAll (r.insert category identity h) more
    (r, logs ++ rest)

/-- Registers the default handlers; mirrors `register_default_handlers`. -/
def registerDefaults (r : Registry (Handler μ)) (identity : Nat)
    (display? : Option (Ui.Display μ)) (settings : Api.Settings) (transport : Api.Transport μ) :
    Registry (Handler μ) × List Log.Entry :=
  let (r, logs) := r.insertAll (defaults identity display? settings transport)
  (r, logs ++ [defaultsEntry r.categories])

theorem categories_registerDefaults (identity : Nat) (display? : Option (Ui.Display μ))
    (settings : Api.Settings) (transport : Api.Transport μ) :
    (registerDefaults {} identity display? settings transport).1.categories =
      ["validation", "ui", "data", "api"] := rfl

end Registry
end Workflow
