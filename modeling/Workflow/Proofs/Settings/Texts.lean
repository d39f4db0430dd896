import Mathlib.Logic.Basic
import Mathlib.Tactic.SplitIfs
import Workflow.Log.Threshold
import Workflow.Proofs.Document.Valid
import Workflow.Settings

/-!
# Settings from texts

The environment and the file of bindings say texts. Each setting takes some texts and refuses the
others, and the settings are there exactly if no setting refuses what is said of it. The level may
be any text as far as the settings go, but not every text is the name of a level.

Results:
* `texts_sources`: the environment and the file say nothing but texts.
* `read_ok_iff`: one setting.
* `ofSources_ok_iff`: all settings.
* `level_of_ofSources`: the level that they come with.
* `configure_ok_iff`: the levels that have thresholds.
-/
namespace Workflow

/-- A text that a setting does not take: one that names no policy, or that denotes no number, or one
of zero or below. -/
def Setting.Refuses : Setting → String → Prop
  | .level, _ => False
  | .path, _ => False
  | .failure, text => ∀ p : FailurePolicy, text ≠ p.word
  | .sends, text => ∀ p : SendPolicy, text ≠ p.word
  | .timeout, text => ∀ x, Decimal.literal? text.toList = some x → x ≤ 0.0

theorem FailurePolicy.ofWord?_eq_some_iff {s : String} {p : FailurePolicy} :
    ofWord? s = some p ↔ s = p.word := by
  unfold ofWord?
  split_ifs <;> cases p <;> simp_all [word]

theorem SendPolicy.ofWord?_eq_some_iff {s : String} {p : SendPolicy} :
    ofWord? s = some p ↔ s = p.word := by
  unfold ofWord?
  split_ifs <;> cases p <;> simp_all [word]

namespace Settings

variable {s : Sources} {x : Setting} {text : String}

/-- The sources have a text for a setting. -/
def Sources.Says (s : Sources) (x : Setting) (text : String) : Prop := s.find? x = some (.str text)

/-- Some setting refuses what is said of it. -/
def Sources.Rejected (s : Sources) : Prop := ∃ x text, s.Says x text ∧ x.Refuses text

/-- The level that is said, or the default. -/
def Sources.level (s : Sources) : String := ((s.find? .level).bind Value.str?).getD "INFO"

/-- Nothing but texts is said. -/
def Sources.Texts (s : Sources) : Prop := ∀ x v, s.find? x = some v → ∃ text, v = .str text

theorem texts_sources (environment : Fields String) (statements : List EnvFile.Statement) :
    (sources [] environment statements).Texts := by
  intro x v hv
  have hg : (sources [] environment statements).given? x = none := rfl
  simp only [Sources.find?, hg] at hv
  split at hv
  · exact ⟨_, (Option.some.inj hv).symm⟩
  · obtain ⟨text, -, rfl⟩ := Option.map_eq_some_iff.mp hv
    exact ⟨text, rfl⟩

/-! ## One setting -/

/-- A reader that takes the texts that its setting does not refuse. -/
def Takes {α : Type} (x : Setting) (reader : Value → Checked α) : Prop :=
  ∀ text, (∃ a, reader (.str text) = .ok a) ↔ ¬ x.Refuses text

theorem takes_level : Takes .level readText := fun text => by simp [readText, Setting.Refuses]

theorem takes_path : Takes .path readPath := fun text => by simp [readPath, Setting.Refuses]

theorem takes_failure : Takes .failure readFailure := fun text => by
  have hw : (∃ p, FailurePolicy.ofWord? text = some p) ↔ ∃ p : FailurePolicy, text = p.word :=
    exists_congr fun p => FailurePolicy.ofWord?_eq_some_iff
  simp only [Setting.Refuses, not_forall, not_not, ← hw, readFailure, Value.str?, Option.bind_some]
  cases FailurePolicy.ofWord? text <;> simp [Checked.fault]

theorem takes_sends : Takes .sends readSends := fun text => by
  have hw : (∃ p, SendPolicy.ofWord? text = some p) ↔ ∃ p : SendPolicy, text = p.word :=
    exists_congr fun p => SendPolicy.ofWord?_eq_some_iff
  simp only [Setting.Refuses, not_forall, not_not, ← hw, readSends, Value.str?, Option.bind_some]
  cases SendPolicy.ofWord? text <;> simp [Checked.fault]

theorem takes_timeout : Takes .timeout readTimeout := fun text => by
  simp only [Setting.Refuses, not_forall, readTimeout]
  cases Decimal.literal? text.toList with
  | none => simp [Checked.fault]
  | some x => by_cases hx : x ≤ 0.0 <;> simp [positive, hx, Checked.fault]

/-- A setting is there exactly if it does not refuse what is said of it. -/
theorem read_ok_iff {α : Type} {reader : Value → Checked α} (hs : s.Texts) (hx : Takes x reader)
    (default : α) : (∃ a, s.read x default reader = .ok a) ↔
      ∀ text, s.Says x text → ¬ x.Refuses text := by
  unfold Sources.read Sources.Says
  cases hf : s.find? x with
  | none => simp
  | some v =>
    obtain ⟨text, rfl⟩ := hs x v hf
    simp [← hx text]

/-! ## All settings -/

theorem ofSources_eq_ok_iff {settings : Settings} : ofSources s = .ok settings ↔
    s.read .level ({} : Settings).level readText = .ok settings.level ∧
    s.read .path ({} : Settings).path readPath = .ok settings.path ∧
    s.read .failure ({} : Settings).failure readFailure = .ok settings.failure ∧
    s.read .sends ({} : Settings).sends readSends = .ok settings.sends ∧
    s.read .timeout ({} : Settings).timeout readTimeout = .ok settings.timeout := by
  unfold ofSources
  rw [Checked.map_ok_iff]
  constructor
  · rintro ⟨⟨level, path, failure, sends, timeout⟩, h, rfl⟩
    simpa only [Checked.and_ok_iff] using h
  · intro h
    refine ⟨(settings.level, settings.path, settings.failure, settings.sends, settings.timeout), ?_⟩
    simpa only [Checked.and_ok_iff, and_true] using h

/-- The settings are there exactly if none of them refuses what is said of it. -/
theorem ofSources_ok_iff (hs : s.Texts) :
    (∃ settings, ofSources s = .ok settings) ↔ ¬ s.Rejected := by
  have hall : ¬ s.Rejected ↔ ∀ x text, s.Says x text → ¬ x.Refuses text := by
    simp [Sources.Rejected]
  rw [hall]
  constructor
  · rintro ⟨settings, h⟩ x
    obtain ⟨hlevel, hpath, hfailure, hsends, htimeout⟩ := ofSources_eq_ok_iff.mp h
    cases x with
    | level => exact (read_ok_iff hs takes_level _).mp ⟨_, hlevel⟩
    | path => exact (read_ok_iff hs takes_path _).mp ⟨_, hpath⟩
    | failure => exact (read_ok_iff hs takes_failure _).mp ⟨_, hfailure⟩
    | sends => exact (read_ok_iff hs takes_sends _).mp ⟨_, hsends⟩
    | timeout => exact (read_ok_iff hs takes_timeout _).mp ⟨_, htimeout⟩
  · intro h
    obtain ⟨level, hlevel⟩ := (read_ok_iff hs takes_level _).mpr (h .level)
    obtain ⟨path, hpath⟩ := (read_ok_iff hs takes_path _).mpr (h .path)
    obtain ⟨failure, hfailure⟩ := (read_ok_iff hs takes_failure _).mpr (h .failure)
    obtain ⟨sends, hsends⟩ := (read_ok_iff hs takes_sends _).mpr (h .sends)
    obtain ⟨timeout, htimeout⟩ := (read_ok_iff hs takes_timeout _).mpr (h .timeout)
    exact ⟨{ level, path, failure, sends, timeout },
      ofSources_eq_ok_iff.mpr ⟨hlevel, hpath, hfailure, hsends, htimeout⟩⟩

theorem level_of_ofSources (hs : s.Texts) {settings : Settings} (h : ofSources s = .ok settings) :
    settings.level = s.level := by
  have hl := (ofSources_eq_ok_iff.mp h).1
  unfold Sources.read at hl
  unfold Sources.level
  cases hf : s.find? .level with
  | none =>
    rw [hf] at hl
    exact (Checked.ok.inj hl).symm
  | some v =>
    obtain ⟨text, rfl⟩ := hs .level v hf
    rw [hf] at hl
    exact (Checked.ok.inj hl).symm

end Settings

/-- A name of a level, in capitals or not. -/
def Log.NamesLevel (name : String) : Prop :=
  ∃ e ∈ Log.levelNames ++ Log.levelAliases, e.2 = Text.capitals name

theorem Log.levelNumber?_eq_none_iff {name : String} :
    levelNumber? (Text.capitals name) = none ↔ ¬ NamesLevel name := by
  simp only [levelNumber?, NamesLevel, List.findSome?_eq_none_iff, not_exists, not_and]
  refine forall₂_congr fun e _ => ?_
  split_ifs with h <;> simp [h]

theorem Log.configure_ok_iff {name : String} :
    (∃ t, Thresholds.configure name = .ok t) ↔ NamesLevel name := by
  rw [← not_iff_not, ← levelNumber?_eq_none_iff]
  unfold Thresholds.configure
  cases levelNumber? (Text.capitals name) <;> simp

end Workflow
