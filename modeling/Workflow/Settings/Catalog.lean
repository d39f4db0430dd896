import Workflow.Catalog
import Workflow.Document.Loading
import Workflow.Handler.Default
import Workflow.Settings

/-!
# Catalogs by settings

What settings are for: a catalog with their policies, for the document at their path, and an engine
with the default handlers, which wait for a response as long as they say. The simple document takes
the place of one that cannot be loaded.
-/
namespace Workflow.Settings

/-- The catalog of some settings, given what was found at their path, and what is logged
(`WorkflowCatalog.from_settings`). -/
def catalog (s : Settings) (found : Except Files.Fault (List UInt8)) : Catalog × List Log.Entry :=
  let (document, logs) := Document.loadOr s.path found
  let c : Catalog := { document, failure := s.failure, sends := s.sends }
  (c, logs ++ c.warnings)

variable {μ : Type} [Recorder μ]

/-- An engine without machines, with the default handlers registered. -/
def engine (s : Settings) (transport : Api.Transport μ) (memory : μ) : Engine μ :=
  let (registry, logs) := ({} : Registry (Handler μ)).registerDefaults 0 none
    { timeout := .float s.timeout } transport
  ({ registry, machines := [], board := { memory, channels := [] } } : Engine μ).logAll logs

end Workflow.Settings
