import Workflow.Document.Loading
import Workflow.Proofs.Document.Valid

/-!
# Documents that cannot be loaded

A document is loaded in four stages: the bytes of the file are read, decoded as characters, read as
JSON, and read as a document. Each stage has faults of its own. Without a fallback the first fault
ends the attempt; with one, the simple document takes the place of what is not there, whatever the
fault, and a document that is there is loaded all the same.

Results:
* `load_ok_iff`, `load_error_iff`: when a document is loaded, and which fault it fails for.
* `valid_of_load`, `simple_valid`: the documents that an attempt comes to are valid.
* `falls_back`: what an attempt comes to, with a fallback and without one.
-/
namespace Workflow.Document

variable {found : Except Files.Fault (List UInt8)} {d : Document} {f : LoadFault}

/-- What was found are the bytes of a text that describes a document. -/
inductive Holds (found : Except Files.Fault (List UInt8)) (d : Document) : Prop where
  | intro {bytes : List UInt8} {cs : List Char} {v : Value} (hb : found = .ok bytes)
    (hc : Text.decode bytes = .ok cs)
    (hv : Json.read (String.ofList (Text.unifyLines cs)) = .ok v) (hd : ofValue v = .ok d)

/-- The stage at which what was found fails to be a document, and the fault there. -/
inductive Fails (found : Except Files.Fault (List UInt8)) : LoadFault → Prop where
  | file {e : Files.Fault} (hb : found = .error e) : Fails found (.file e)
  | encoding {bytes : List UInt8} {e : Text.DecodeFault} (hb : found = .ok bytes)
    (hc : Text.decode bytes = .error e) : Fails found (.encoding e)
  | json {bytes : List UInt8} {cs : List Char} {e : Json.ReadError} (hb : found = .ok bytes)
    (hc : Text.decode bytes = .ok cs)
    (hv : Json.read (String.ofList (Text.unifyLines cs)) = .error e) : Fails found (.json e)
  | invalid {bytes : List UInt8} {cs : List Char} {v : Value} {issues : List Issue}
    (hb : found = .ok bytes) (hc : Text.decode bytes = .ok cs)
    (hv : Json.read (String.ofList (Text.unifyLines cs)) = .ok v) (hd : ofValue v = .bad issues) :
    Fails found (.invalid issues)

theorem Holds.load (h : Holds found d) : load found = .ok d := by
  obtain ⟨rfl, hc, hv, hd⟩ := h
  simp only [Document.load, ofBytes, hc, hv, hd]

theorem Fails.load (h : Fails found f) : load found = .error f := by
  cases h with
  | file hb => simp only [Document.load, hb]
  | encoding hb hc => simp only [Document.load, ofBytes, hb, hc]
  | json hb hc hv => simp only [Document.load, ofBytes, hb, hc, hv]
  | invalid hb hc hv hd => simp only [Document.load, ofBytes, hb, hc, hv, hd]

/-- There is a document, or a stage fails. -/
theorem holds_or_fails (found : Except Files.Fault (List UInt8)) :
    (∃ d, Holds found d) ∨ ∃ f, Fails found f := by
  cases hb : found with
  | error e => exact .inr ⟨_, .file rfl⟩
  | ok bytes =>
    cases hc : Text.decode bytes with
    | error e => exact .inr ⟨_, .encoding rfl hc⟩
    | ok cs =>
      cases hv : Json.read (String.ofList (Text.unifyLines cs)) with
      | error e => exact .inr ⟨_, .json rfl hc hv⟩
      | ok v =>
        cases hd : ofValue v with
        | bad issues => exact .inr ⟨_, .invalid rfl hc hv hd⟩
        | ok d => exact .inl ⟨d, .intro rfl hc hv hd⟩

theorem load_ok_iff : load found = .ok d ↔ Holds found d := by
  refine ⟨fun h => ?_, Holds.load⟩
  obtain ⟨d', hd⟩ | ⟨f, hf⟩ := holds_or_fails found
  · have he : d' = d := Except.ok.inj (hd.load.symm.trans h)
    exact he ▸ hd
  · cases hf.load.symm.trans h

theorem load_error_iff : load found = .error f ↔ Fails found f := by
  refine ⟨fun h => ?_, Fails.load⟩
  obtain ⟨d, hd⟩ | ⟨f', hf⟩ := holds_or_fails found
  · cases hd.load.symm.trans h
  · have he : f' = f := Except.error.inj (hf.load.symm.trans h)
    exact he ▸ hf

/-- A document that was loaded is valid. -/
theorem valid_of_load (h : load found = .ok d) : d.Valid := by
  obtain ⟨-, -, -, hd⟩ := load_ok_iff.mp h
  exact (valid_iff d).mpr ⟨_, hd⟩

theorem simple_valid : simple.Valid := (valid_iff simple).mpr ⟨simple.dump "initialState", rfl⟩

/-- **With a fallback an attempt always comes to a valid document.** To the document that is found,
if there is one: the attempt is the same with a fallback and without, and logs one entry for
information. Else to the simple document, in which nothing dangles, and one error is logged; without
a fallback the attempt then ends with the fault of the stage that failed. -/
theorem falls_back (path : String) (found : Except Files.Fault (List UInt8)) :
    simple.dangling = [] ∧ ∃ d e, attempt true path found = .ok (d, [e]) ∧ d.Valid ∧
      ((Holds found d ∧ attempt false path found = .ok (d, [e]) ∧ e.level = .info) ∨
        (d = simple ∧ e.level = .error ∧
          ∃ f, Fails found f ∧ attempt false path found = .error f)) := by
  refine ⟨simple_dangling, ?_⟩
  rw [attempt_with, attempt_without, loadLogged]
  cases h : load found with
  | ok d =>
    rw [loadOr_of_ok h]
    exact ⟨d, _, rfl, valid_of_load h, .inl ⟨load_ok_iff.mp h, rfl, rfl⟩⟩
  | error f =>
    rw [loadOr_of_error h]
    exact ⟨simple, _, rfl, simple_valid, .inr ⟨rfl, rfl, f, load_error_iff.mp h, rfl⟩⟩

end Workflow.Document
