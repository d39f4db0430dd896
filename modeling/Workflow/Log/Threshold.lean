import Workflow.Log.Record
import Workflow.Text.Capital

/-!
# Thresholds

A logger drops entries below a threshold. The root logger's holds for all loggers but two noisy
ones, and those below them, once it was set by name: these never go below INFO.

Results:
* `threshold_noisy`: a noisy logger has a threshold of its own.
-/
namespace Workflow.Log

/-- The further names of levels. -/
def levelAliases : List (Nat × String) := [(50, "FATAL"), (30, "WARN")]

/-- The number of a level by its name. -/
def levelNumber? (name : String) : Option Nat :=
  (levelNames ++ levelAliases).findSome? fun e => if e.2 = name then some e.1 else none

structure UnknownLevel where
  name : String
  deriving DecidableEq, Repr

def UnknownLevel.raised (u : UnknownLevel) : Raised :=
  ⟨"ValueError", "Unknown level: " ++ Text.quoted u.name⟩

/-- The loggers that say too much. -/
def noisyLoggers : List String := ["urllib3", "asyncio"]

/-- Is a logger a noisy one, or below one? -/
def isNoisy (logger : String) : Bool :=
  noisyLoggers.any fun n => logger = n || (n ++ ".").toList.isPrefixOf logger.toList

/-- The thresholds of the root logger and of the noisy loggers; zero is none. -/
structure Thresholds where
  root : Nat := 30
  noisy : Nat := 0
  deriving DecidableEq, Repr

namespace Thresholds

/-- The thresholds for a level of the root logger. -/
def ofLevel (n : Nat) : Thresholds := ⟨n, max n Level.info.number⟩

/-- The thresholds for a level by its name, capitals or not; mirrors `configure_logging`. -/
def configure (level : String) : Except UnknownLevel Thresholds :=
  match levelNumber? (Text.capitals level) with
  | some n => .ok (ofLevel n)
  | none => .error ⟨Text.capitals level⟩

/-- The threshold of a logger. -/
def threshold (t : Thresholds) (logger : String) : Nat :=
  if isNoisy logger && t.noisy != 0 then t.noisy else t.root

/-- Does a logger hand on what has a level? Levels start at one. -/
def passes (t : Thresholds) (logger : String) (level : Int) : Bool :=
  0 < level && (t.threshold logger : Int) ≤ level

/-- Does the logger of an entry hand it on? No part of the engine is noisy. -/
def shows (t : Thresholds) (e : Entry) : Bool := t.root ≤ e.level.number

theorem configure_error {level : String} (h : levelNumber? (Text.capitals level) = none) :
    configure level = .error ⟨Text.capitals level⟩ := by simp [configure, h]

theorem threshold_noisy (n : Nat) {logger : String} (h : isNoisy logger = true) :
    (ofLevel n).threshold logger = max n 20 := by
  have : max n 20 ≠ 0 := by omega
  simp [threshold, ofLevel, h, Level.number, this]

end Thresholds
end Workflow.Log
