import Workflow.Decimal.Fixed
import Workflow.Value.Fault

/-!
# Moments

A moment is a number of seconds since the start of 1970 and a fraction in millionths, and is written
as date and time in UTC. Days are counted from the first of March of the year 0, so that a leap day
is the last day of its year: 400 years then have 146097 days, and the months up to a given one
have days by a linear rule.
-/
namespace Workflow.Log

open Decimal

structure Moment where
  seconds : Int
  micros : Nat
  deriving DecidableEq, Repr

inductive MomentFault where
  | notANumber (kind : Kind)
  | nan
  | outOfRange
  | tooFar
  | year (y : Int)
  deriving DecidableEq, Repr

def MomentFault.raised : MomentFault → Raised
  | .notANumber k =>
    ⟨"TypeError", "'" ++ k.word ++ "' object cannot be interpreted as an integer"⟩
  | .nan => ⟨"ValueError", "Invalid value NaN (not a number)"⟩
  | .outOfRange => ⟨"OverflowError", "timestamp out of range for platform time_t"⟩
  | .tooFar => ⟨"OSError", "Value too large for defined data type"⟩
  | .year y => ⟨"ValueError", "year " ++ toString y ++ " is out of range"⟩

namespace Moment

/-- Whole seconds; they are counted with 64 bits. -/
def ofSeconds (n : Int) : Except MomentFault Moment :=
  if fits 64 n then .ok ⟨n, 0⟩ else .error .outOfRange

/-- Whole seconds with a number of millionths that may be negative, or a full second. -/
def carry (seconds micros : Int) : Int × Nat :=
  (seconds + micros.fdiv 1000000, (micros.fmod 1000000).toNat)

/-- Seconds with a fraction. The fraction is multiplied as a double, and rounded then. -/
def ofFloat (x : Float) : Except MomentFault Moment :=
  match Double.ofFloat x with
  | .nan => .error .nan
  | .infinite _ => .error .outOfRange
  | .finite negative m e =>
    let whole := Double.truncate negative m e
    let micros := match Double.ofFloat ((x - Float.ofInt whole) * 1000000.0) with
      | .finite negative m e => Double.nearestWhole negative m e
      | _ => 0
    let (seconds, micros) := carry whole micros
    (ofSeconds seconds).map fun t => { t with micros }

/-- The moment of a number of seconds. -/
def ofValue : Value → Except MomentFault Moment
  | .bool b => .ok ⟨if b then 1 else 0, 0⟩
  | .int n => ofSeconds n
  | .float x => ofFloat x
  | v => .error (.notANumber v.kind)

/-- The days from the first of March of the year 0 to the start of 1970. -/
def epoch : Int := 719468

/-- The date of a day, counted from the start of 1970: year, month, day of the month. -/
def date (day : Int) : Int × Nat × Nat :=
  let n := day + epoch
  let era := n.fdiv 146097
  let dayOfEra := (n.fmod 146097).toNat
  let yearOfEra := (dayOfEra - dayOfEra / 1460 + dayOfEra / 36524 - dayOfEra / 146096) / 365
  let dayOfYear := dayOfEra - (365 * yearOfEra + yearOfEra / 4 - yearOfEra / 100)
  let monthFromMarch := (5 * dayOfYear + 2) / 153
  let month := if monthFromMarch < 10 then monthFromMarch + 3 else monthFromMarch - 9
  (era * 400 + yearOfEra + (if month ≤ 2 then 1 else 0), month,
    dayOfYear - (153 * monthFromMarch + 2) / 5 + 1)

/-- A moment as date and time. -/
def text (t : Moment) : Except MomentFault String :=
  let (year, month, day) := date (t.seconds.fdiv 86400)
  let s := (t.seconds.fmod 86400).toNat
  if !fits 32 year then .error .tooFar
  else if year < 1 ∨ 9999 < year then .error (.year year)
  else .ok (
    padded 4 year.toNat ++ "-" ++ padded 2 month ++ "-" ++ padded 2 day ++ "T" ++
    padded 2 (s / 3600) ++ ":" ++ padded 2 (s / 60 % 60) ++ ":" ++ padded 2 (s % 60) ++
    (if t.micros = 0 then "" else "." ++ padded 6 t.micros) ++ "+00:00")

end Moment
end Workflow.Log
