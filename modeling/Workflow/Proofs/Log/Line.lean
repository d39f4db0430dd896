import Workflow.Log.Record
import Workflow.Proofs.Json.OneLine

/-!
# Lines of a log

A record is written as a line of its own, and the line tells the record: it is read as an object
with the moment, the level, the logger and the message of the record, with the text of its error if
it has one, and with the attributes that were added to it on their own, all that are neither parts
of every record nor private. No attribute takes the place of what the record itself tells, unless it
is set under the name of a part. Numbers of more than 4300 digits are not written.

Results:
* `made_ofEntry`: the record of an entry.
* `Made.annotate`: attributes change nothing of what a record tells.
* `tells_told`: what the object of a record holds.
* `line_eq_ok_iff`: which line a record has.
* `line_tells`: the line of a record tells it.
* `not_told`: what keeps a record from being told, or changes what is told of it.
-/
namespace Workflow.Log

open Json

/-- What a record tells before anything else. -/
structure Head where
  timestamp : String
  level : String
  logger : String
  message : String

namespace Record

/-- A record as loggers make it: its level and its logger are names, it has a moment and a message,
it is about an error or about nothing, and no attribute is there twice. -/
structure Made (r : Record) (h : Head) : Prop where
  timestamp : r.timestamp = .ok h.timestamp
  level : r.level = .str h.level
  logger : r.logger = .str h.logger
  message : r.text = .ok h.message
  cause : ∀ v, r.cause ≠ .value v
  extra : (Value.obj r.extra).Distinct

/-- An attribute that a line shows among the further ones. -/
def Adds (r : Record) (name : String) (v : Value) : Prop :=
  r.extra.get? name = some v ∧ name ∉ ownNames ∧ name.toList.head? ≠ some '_'

/-- An object that tells a record, and nothing else. -/
structure Tells (r : Record) (h : Head) (top : Fields Value) : Prop where
  timestamp : top.get? "timestamp" = some (.str h.timestamp)
  level : top.get? "level" = some (.str h.level)
  logger : top.get? "logger" = some (.str h.logger)
  message : top.get? "message" = some (.str h.message)
  exception : ∀ v, top.get? "exception" = some v ↔ ∃ e, r.cause = .error e ∧ v = .str e.line
  extra : ∀ v, top.get? "extra" = some v → ∃ shown : Fields Value, v = .obj shown ∧
    shown.keys.Nodup ∧ ∀ name w, shown.get? name = some w ↔ r.Adds name w
  noExtra : top.get? "extra" = none ↔ ∀ name w, ¬ r.Adds name w
  keys : ∀ k ∈ top.keys, k ∈ ["timestamp", "level", "logger", "message", "extra", "exception"]

/-- A record with attributes that are set one after another. -/
def annotate (r : Record) (attributes : Fields Value) : Record :=
  attributes.foldl (fun r e => r.assign e.1 e.2) r

variable {r : Record} {h : Head}

theorem made_ofEntry {parent : String} {created : Float} {e : Entry} {timestamp : String}
    (ht : (ofEntry parent created e).timestamp = .ok timestamp)
    (hd : (Value.obj e.extra).Distinct) : (ofEntry parent created e).Made
      ⟨timestamp, e.level.name, parent ++ "." ++ e.source.name, e.message⟩ := by
  refine ⟨ht, rfl, rfl, rfl, fun v => ?_, hd⟩
  unfold ofEntry
  cases e.exception <;> exact nofun

/-! ## Attributes -/

/-- An attribute that is no part of the record changes nothing of what the record tells. -/
theorem Made.assign (hr : r.Made h) {name : String} (hn : name ∉ partNames) {v : Value}
    (hv : v.Distinct) : (r.assign name v).Made h := by
  rw [assign_extra r v hn]
  exact ⟨hr.timestamp, hr.level, hr.logger, hr.message, hr.cause, hr.extra.set hv name⟩

theorem Made.annotate (hr : r.Made h) {attributes : Fields Value}
    (ha : ∀ e ∈ attributes, e.1 ∉ partNames ∧ e.2.Distinct) : (r.annotate attributes).Made h := by
  induction attributes generalizing r with
  | nil => exact hr
  | cons e es ih =>
    obtain ⟨he, hes⟩ := List.forall_mem_cons.mp ha
    exact ih (hr.assign he.1 he.2) hes

theorem adds_iff {name : String} {v : Value} :
    Fields.get? r.visible name = some v ↔ r.Adds name v := by
  have hv : isVisible name = true ↔ name ∉ ownNames ∧ name.toList.head? ≠ some '_' := by
    simp [isVisible]
  rw [visible, Fields.get?_filter r.extra isVisible, Adds, ← hv]
  by_cases hn : isVisible name = true <;> simp [hn]

theorem visible_eq_nil_iff : r.visible = [] ↔ ∀ name v, ¬ r.Adds name v := by
  constructor
  · intro hv name v ha
    rw [← adds_iff, hv] at ha
    cases ha
  · intro hn
    cases hv : r.visible with
    | nil => rfl
    | cons e es =>
      have he : Fields.get? r.visible e.1 = some e.2 := by
        rw [hv, Fields.get?]
        exact List.lookup_cons_self
      exact absurd (adds_iff.mp he) (hn e.1 e.2)

theorem Made.visible (hr : r.Made h) : (Value.obj r.visible).Distinct := by
  refine .obj ?_ fun e he => hr.extra.field ((visible_iff r e).mp he).1
  have hs : (Fields.keys r.visible).Sublist (Fields.keys r.extra) := List.filter_sublist.map _
  exact hr.extra.keys.sublist hs

/-! ## The object of a record -/

/-- The field for what a record is about. -/
def Cause.fields : Cause → Fields Value
  | .error e => [("exception", .str e.line)]
  | _ => []

/-- The object that a record is written as. -/
def told (r : Record) (h : Head) : Fields Value :=
  [("timestamp", .str h.timestamp), ("level", .str h.level), ("logger", .str h.logger),
    ("message", .str h.message)] ++ r.extraFields ++ Cause.fields r.cause

theorem Made.fields (hr : r.Made h) : r.fields = .ok (r.told h) := by
  have hc : r.causeFields = .ok (Cause.fields r.cause) := by
    unfold causeFields
    cases hcause : r.cause with
    | none => rfl
    | error e => rfl
    | value v => exact absurd hcause (hr.cause v)
  simp only [Record.fields, hr.timestamp, hr.message, hr.level, hr.logger, hc]
  rfl

theorem mem_extraFields {e : String × Value} :
    e ∈ r.extraFields ↔ r.visible ≠ [] ∧ e = ("extra", .obj r.visible) := by
  unfold extraFields
  split <;> simp_all

/-- The object has four fields, the attributes if there are any, and the error if there is one. -/
theorem mem_told {e : String × Value} : e ∈ r.told h ↔
    e = ("timestamp", .str h.timestamp) ∨ e = ("level", .str h.level) ∨
    e = ("logger", .str h.logger) ∨ e = ("message", .str h.message) ∨
    (r.visible ≠ [] ∧ e = ("extra", .obj r.visible)) ∨
    ∃ x, r.cause = .error x ∧ e = ("exception", .str x.line) := by
  have hc : e ∈ Cause.fields r.cause ↔
      ∃ x, r.cause = .error x ∧ e = ("exception", .str x.line) := by
    cases r.cause <;> simp [Cause.fields]
  simp only [told, List.mem_append, List.mem_cons, List.not_mem_nil, or_false, mem_extraFields, hc,
    or_assoc]

theorem told_distinct (hr : r.Made h) : (Value.obj (r.told h)).Distinct := by
  constructor
  · unfold told extraFields
    cases r.cause <;> split <;> simp [Cause.fields, Fields.keys]
  · intro e he
    obtain rfl | rfl | rfl | rfl | ⟨-, rfl⟩ | ⟨x, -, rfl⟩ := mem_told.mp he
    case inr.inr.inr.inr.inl => exact hr.visible
    all_goals exact .str _

theorem told_finite (hf : ∀ e ∈ r.visible, Finite e.2) : Finite (.obj (r.told h)) := by
  refine .obj fun e he => ?_
  obtain rfl | rfl | rfl | rfl | ⟨-, rfl⟩ | ⟨x, -, rfl⟩ := mem_told.mp he
  case inr.inr.inr.inr.inl => exact .obj hf
  all_goals exact .str _

/-- Only the attributes may have numbers that are too long to be written. -/
theorem check_told : check (.obj (r.told h)) = .ok () ↔ ∀ e ∈ r.visible, check e.2 = .ok () := by
  rw [check, checkFields_eq_ok_iff]
  constructor
  · intro hc e he
    have hv := hc ("extra", .obj r.visible) (mem_told.mpr (by simp [List.ne_nil_of_mem he]))
    exact checkFields_eq_ok_iff.mp hv e he
  · intro hc e he
    obtain rfl | rfl | rfl | rfl | ⟨-, rfl⟩ | ⟨x, -, rfl⟩ := mem_told.mp he
    case inr.inr.inr.inr.inl => exact checkFields_eq_ok_iff.mpr hc
    all_goals rfl

theorem tells_told (hr : r.Made h) : r.Tells h (r.told h) := by
  have get (k : String) (v : Value) : (r.told h).get? k = some v ↔ (k, v) ∈ r.told h :=
    ⟨Fields.mem_of_get?, Fields.get?_of_mem (told_distinct hr).keys⟩
  constructor
  · simp [get, mem_told]
  · simp [get, mem_told]
  · simp [get, mem_told]
  · simp [get, mem_told]
  · intro v
    simp [get, mem_told]
  · intro v hv
    obtain ⟨-, rfl⟩ : r.visible ≠ [] ∧ v = .obj r.visible := by simpa [get, mem_told] using hv
    exact ⟨r.visible, rfl, hr.visible.keys, fun name w => adds_iff⟩
  · rw [← visible_eq_nil_iff, Option.eq_none_iff_forall_ne_some]
    simp [get, mem_told]
  · intro k hk
    obtain ⟨e, he, rfl⟩ := List.mem_map.mp hk
    obtain rfl | rfl | rfl | rfl | ⟨-, rfl⟩ | ⟨x, -, rfl⟩ := mem_told.mp he <;> simp

/-! ## Lines -/

/-- Which lines a record has. -/
theorem line_eq_ok_iff (hr : r.Made h) {line : String} : r.line = .ok line ↔
    (∀ e ∈ r.visible, check e.2 = .ok ()) ∧ line = write oneLine (.obj (r.told h)) := by
  have hl : r.line = (write? oneLine (.obj (r.told h))).mapError
      fun t => ⟨"ValueError", t.message⟩ := by
    simp only [Record.line, hr.fields]
    rfl
  rw [hl, except_mapError_ok_iff, write?, except_map_ok_iff, ← check_told]
  constructor
  · rintro ⟨⟨⟩, hc, rfl⟩
    exact ⟨hc, rfl⟩
  · rintro ⟨hc, rfl⟩
    exact ⟨(), hc, rfl⟩

/-- A power of ten has one digit more than its exponent says. -/
theorem check_ten_pow {n : Nat} (h : Decimal.digitLimit ≤ n) : check (.int (10 ^ n)) ≠ .ok () := by
  have hd := (Decimal.ten_pow_length (Nat.pow_pos (n := n) (by decide : 0 < 10))).2
  have hlt := (Nat.pow_lt_pow_iff_right (by decide : 1 < 10)).mp hd
  have hlong : Decimal.digitLimit < (toString ((10 : Int) ^ n).natAbs).length := by
    rw [Int.natAbs_pow]
    exact Nat.lt_of_le_of_lt h hlt
  simp only [check, checkWhole, if_pos hlong]
  intro h
  cases h

/-- A visible attribute with a number that is too long keeps its record from being written. -/
theorem line_assign_ne_ok (hr : r.Made h) {name : String} (hn : name ∉ partNames)
    (hshown : name ∉ ownNames ∧ name.toList.head? ≠ some '_') {v : Value} (hv : v.Distinct)
    (hc : check v ≠ .ok ()) (line : String) : (r.assign name v).line ≠ .ok line := fun hl => by
  have hmem : (name, v) ∈ (r.assign name v).visible := by
    rw [visible_iff, assign_extra r v hn]
    exact ⟨Fields.mem_of_get? (Fields.get?_set_self ..), hshown⟩
  exact hc (((line_eq_ok_iff (hr.assign hn hv)).mp hl).1 _ hmem)

/-- **A line tells its record.** A record has a line if no whole number in an attribute on it is too
long to be written. The line is one line, and what is read from it is what the record tells; no
attribute changes that. -/
theorem line_tells (hr : r.Made h) (hf : ∀ e ∈ r.visible, Finite e.2) :
    ((∃ line, r.line = .ok line) ↔ ∀ e ∈ r.visible, check e.2 = .ok ()) ∧
    (∀ line, r.line = .ok line → '\n' ∉ line.toList ∧ '\r' ∉ line.toList ∧
      ∃ top, read line = .ok (.obj top) ∧ r.Tells h top) ∧
    ∀ attributes : Fields Value, (∀ e ∈ attributes, e.1 ∉ partNames ∧ e.2.Distinct) →
      (r.annotate attributes).Made h := by
  refine ⟨?_, fun line hl => ?_, fun attributes ha => hr.annotate ha⟩
  · simp only [line_eq_ok_iff hr, exists_and_left, exists_eq, and_true]
  · obtain ⟨hc, rfl⟩ := (line_eq_ok_iff hr).mp hl
    have hp := plain_write (.obj (r.told h))
    have hlegible : Legible (.obj (r.told h)) := (told_finite hf).legible (check_told.mpr hc)
    have hgap : Gap "".toList := fun _ hc => nomatch hc
    have hread := read_write hlegible (told_distinct hr) oneLine hgap
    rw [String.append_empty] at hread
    exact ⟨fun hn => absurd (hp _ hn) (by decide), fun hn => absurd (hp _ hn) (by decide),
      _, hread, tells_told hr⟩

/-- An error that is told in several lines, with attributes of any names. -/
def troubled : Record where
  created := .int 951782400
  level := .str "ERROR"
  logger := .str "workflow_runtime.engine"
  message := .str "\"total\"\r\n\\ is \x00 or é"
  cause := .error ⟨"ValueError", "two\nlines"⟩
  extra := [("timestamp", .str "never"), ("_kept", .null), ("module", .int 1),
    ("items", .list [.int (-7), .obj [("id", .str "apple\n")]]),
    ("price", .float (.ofBits 0x3FB999999999999A))]

def troubledHead : Head :=
  ⟨"2000-02-29T00:00:00+00:00", "ERROR", "workflow_runtime.engine", "\"total\"\r\n\\ is \x00 or é"⟩

theorem line_tells_troubled : ∃ line, troubled.line = .ok line ∧ '\n' ∉ line.toList ∧
    '\r' ∉ line.toList ∧ ∃ top, read line = .ok (.obj top) ∧ troubled.Tells troubledHead top := by
  have hvisible : troubled.visible = [("timestamp", .str "never"),
      ("items", .list [.int (-7), .obj [("id", .str "apple\n")]]),
      ("price", .float (.ofBits 0x3FB999999999999A))] := by
    simp [visible, troubled, isVisible, ownNames]
  have hdistinct : (Value.list [.int (-7), .obj [("id", .str "apple\n")]]).Distinct := by
    refine .list (List.forall_mem_cons.mpr ⟨.int _, List.forall_mem_singleton.mpr ?_⟩)
    exact .obj (by decide) (List.forall_mem_singleton.mpr (.str _))
  have hmade : troubled.Made troubledHead := by
    refine ⟨rfl, rfl, rfl, rfl, fun v hv => Cause.noConfusion hv, .obj (by decide) ?_⟩
    simp only [troubled, List.forall_mem_cons]
    exact ⟨.str _, .null, .int _, hdistinct, .float _, List.forall_mem_nil _⟩
  have hfinite : ∀ e ∈ troubled.visible, Finite e.2 := by
    have hitems : Finite (.list [.int (-7), .obj [("id", .str "apple\n")]]) := by
      refine .list (List.forall_mem_cons.mpr ⟨.int _, List.forall_mem_singleton.mpr ?_⟩)
      exact .obj (List.forall_mem_singleton.mpr (.str _))
    rw [hvisible, List.forall_mem_cons, List.forall_mem_cons, List.forall_mem_singleton]
    exact ⟨.str _, hitems, .float ⟨_, _, _, rfl⟩⟩
  have hchecks : ∀ e ∈ troubled.visible, check e.2 = .ok () := by
    rw [hvisible]
    decide
  obtain ⟨hline, htells, -⟩ := line_tells hmade hfinite
  obtain ⟨line, hl⟩ := hline.mpr hchecks
  exact ⟨line, hl, htells line hl⟩

/-- A record of four parts. -/
def greeting : Record where
  created := .int 0
  level := .str "INFO"
  logger := .str "shop"
  message := .str "hello"

/-- **Not every record with finite attributes is told.** A record has no line if a number on it is
too long to be written, if no calendar has its moment, or if its message has no room for its values;
and an attribute that is set under the name of a part takes the place of that part. -/
theorem not_told :
    (Finite (.int (10 ^ 4300)) ∧
      ∀ line, (greeting.assign "n" (.int (10 ^ 4300))).line ≠ .ok line) ∧
    ({ greeting with created := .int 1000000000000 } : Record).line =
      .error ⟨"ValueError", "year 33658 is out of range"⟩ ∧
    ({ greeting with arguments := some (.ofList [.str "x"]) } : Record).line =
      .error ⟨"TypeError", "not all arguments converted during string formatting"⟩ ∧
    (greeting.assign "levelname" (.str "LOUD")).fields = .ok [
      ("timestamp", .str "1970-01-01T00:00:00+00:00"), ("level", .str "LOUD"),
      ("logger", .str "shop"), ("message", .str "hello")] := by
  refine ⟨⟨.int _, fun line hl => ?_⟩, rfl, rfl, rfl⟩
  have hg : greeting.Made ⟨"1970-01-01T00:00:00+00:00", "INFO", "shop", "hello"⟩ :=
    ⟨rfl, rfl, rfl, rfl, fun v h => Cause.noConfusion h,
      .obj List.nodup_nil (List.forall_mem_nil _)⟩
  have hlong := check_ten_pow (Nat.le_refl Decimal.digitLimit)
  exact line_assign_ne_ok hg (by decide) (by decide) (.int _) hlong line hl

end Record
end Workflow.Log
