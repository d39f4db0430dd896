import Workflow.Document.Dump
import Workflow.Document.Reading

/-!
# Valid documents

A document is valid if each workflow starts in one of its states, and if no invocation has an empty
name and no action an empty category. Documents that can be read are valid, and a valid document is
read back from its dump, in which all fields are written out.

A reader restores what it reads: `Restores read dump valid` says that it reads valid things only,
and any valid thing from its dump. Readers of lists, of tables and of fields restore their parts if
the readers of the parts do.

Results:
* `Restores.list`, `Restores.table`: lists and tables, in their order.
* `Restores.required`, `Restores.optional`, `Restores.either`: what fields come to.
* `Document.restores`: documents, whichever name the initial state is written under.
* `Document.valid_iff`: the valid documents are those that can be read.
-/
namespace Workflow

/-! ## What is valid -/

/-- The action that is called has a name. -/
def Invocation.Valid (i : Invocation) : Prop := i.action ≠ ""

def Transition.Valid (t : Transition) : Prop := ∀ i ∈ t.actions, i.Valid

structure State.Valid (s : State) : Prop where
  entry : ∀ i ∈ s.entry, i.Valid
  transitions : ∀ t ∈ s.transitions, t.Valid

/-- A workflow starts in one of its states, and all its actions have names. -/
structure Chart.Valid (c : Chart) : Prop where
  initial : c.states.has c.initial = true
  states : ∀ e ∈ c.states, e.2.Valid

def Action.Valid (a : Action) : Prop := a.category ≠ ""

/-- All workflows and actions of a document are valid. -/
structure Document.Valid (d : Document) : Prop where
  workflows : ∀ e ∈ d.workflows, e.2.Valid
  actions : ∀ e ∈ d.actions, e.2.Valid

namespace Checked

variable {α β : Type} {read : Value → Checked α} {dump : α → Value} {valid : α → Prop}

/-! ## What was read -/

theorem map_ok_iff (x : Checked α) (f : α → β) (b : β) :
    x.map f = .ok b ↔ ∃ a, x = .ok a ∧ f a = b := by
  cases x <;> simp [map]

@[simp] theorem under_ok_iff (x : Checked α) (step : PlaceStep) (a : α) :
    x.under step = .ok a ↔ x = .ok a := by
  cases x <;> simp [under]

theorem record_ok_iff {sort : String} {read : Fields Value → Checked α} {v : Value} {a : α} :
    record sort read v = .ok a ↔ ∃ fs, v = .obj fs ∧ read fs = .ok a := by
  cases v <;> simp [record, fault]

theorem required_ok_iff {fs : Fields Value} {name : String} {a : α} :
    required fs name read = .ok a ↔ ∃ v, fs.get? name = some v ∧ read v = .ok a := by
  unfold required
  cases fs.get? name <;> simp [fault]

theorem optional_ok_iff {fs : Fields Value} {name : String} {default a : α} :
    optional fs name default read = .ok a ↔
      (∃ v, fs.get? name = some v ∧ read v = .ok a) ∨ fs.get? name = none ∧ default = a := by
  unfold optional
  cases fs.get? name <;> simp

/-! ## Restoring -/

/-- A reader reads valid things only, and any valid thing from its dump. -/
structure Restores (read : Value → Checked α) (dump : α → Value) (valid : α → Prop) : Prop where
  sound : ∀ {v a}, read v = .ok a → valid a
  restore : ∀ {a}, valid a → read (dump a) = .ok a

theorem restores_text : Restores text .str fun _ => True where
  sound _ := trivial
  restore _ := rfl

theorem restores_nonemptyText : Restores nonemptyText .str (· ≠ "") where
  sound := nonemptyText_ne
  restore h := by simp [nonemptyText, h]

theorem restores_optionalText : Restores optionalText .ofText? fun _ => True where
  sound _ := trivial
  restore {a} _ := by cases a <;> rfl

theorem restores_object : Restores object .obj fun _ => True where
  sound _ := trivial
  restore _ := rfl

theorem itemsFrom_sound (h : Restores read dump valid) {n : Nat} {vs : List Value} {as : List α}
    (hr : itemsFrom read n vs = .ok as) : ∀ a ∈ as, valid a := by
  induction vs generalizing n as with
  | nil =>
    cases hr
    simp
  | cons v vs ih =>
    obtain ⟨⟨a, as'⟩, hp, rfl⟩ := (map_ok_iff _ _ _).mp hr
    obtain ⟨ha, has⟩ := (and_ok_iff _ _ _ _).mp hp
    exact List.forall_mem_cons.mpr ⟨h.sound ((under_ok_iff _ _ _).mp ha), ih has⟩

theorem itemsFrom_restore (h : Restores read dump valid) {as : List α} (ha : ∀ a ∈ as, valid a)
    (n : Nat) : itemsFrom read n (as.map dump) = .ok as := by
  induction as generalizing n with
  | nil => rfl
  | cons a as ih =>
    obtain ⟨ha, has⟩ := List.forall_mem_cons.mp ha
    exact (map_ok_iff _ _ _).mpr ⟨(a, as), (and_ok_iff _ _ _ _).mpr
      ⟨(under_ok_iff _ _ _).mpr (h.restore ha), ih has (n + 1)⟩, rfl⟩

/-- A list of parts is restored in its order. -/
theorem Restores.list (h : Restores read dump valid) :
    Restores (list read) (fun as => .list (as.map dump)) fun as => ∀ a ∈ as, valid a where
  sound {v _} hr := by
    cases v with
    | list vs => exact itemsFrom_sound h hr
    | _ => cases hr
  restore ha := itemsFrom_restore h ha 0

theorem entries_sound (h : Restores read dump valid) {fs : Fields Value} {as : Fields α}
    (hr : entries read fs = .ok as) : ∀ e ∈ as, valid e.2 := by
  induction fs generalizing as with
  | nil =>
    cases hr
    simp
  | cons e fs ih =>
    obtain ⟨⟨a, as'⟩, hp, rfl⟩ := (map_ok_iff _ _ _).mp hr
    obtain ⟨ha, has⟩ := (and_ok_iff _ _ _ _).mp hp
    exact List.forall_mem_cons.mpr ⟨h.sound ((under_ok_iff _ _ _).mp ha), ih has⟩

theorem entries_restore (h : Restores read dump valid) {as : Fields α}
    (ha : ∀ e ∈ as, valid e.2) : entries read (as.map fun e => (e.1, dump e.2)) = .ok as := by
  induction as with
  | nil => rfl
  | cons e as ih =>
    obtain ⟨ha, has⟩ := List.forall_mem_cons.mp ha
    exact (map_ok_iff _ _ _).mpr ⟨(e.2, as), (and_ok_iff _ _ _ _).mpr
      ⟨(under_ok_iff _ _ _).mpr (h.restore ha), ih has⟩, rfl⟩

/-- A table of parts is restored under its names, in their order. -/
theorem Restores.table (h : Restores read dump valid) :
    Restores (table read) (fun as => .obj (as.map fun e => (e.1, dump e.2)))
      fun as => ∀ e ∈ as, valid e.2 where
  sound {v _} hr := by
    cases v with
    | obj fs => exact entries_sound h hr
    | _ => cases hr
  restore ha := entries_restore h ha

/-! ### Fields -/

section

variable {fs : Fields Value} {name other : String} {default a : α}

theorem Restores.required_sound (h : Restores read dump valid)
    (hr : required fs name read = .ok a) : valid a := by
  obtain ⟨v, -, hv⟩ := required_ok_iff.mp hr
  exact h.sound hv

theorem Restores.optional_sound (h : Restores read dump valid) (hd : valid default)
    (hr : optional fs name default read = .ok a) : valid a := by
  rcases optional_ok_iff.mp hr with ⟨v, -, hv⟩ | ⟨-, rfl⟩
  · exact h.sound hv
  · exact hd

/-- A field that must be there is restored where it is written. -/
theorem Restores.required (h : Restores read dump valid) (ha : valid a)
    (hf : fs.get? name = some (dump a)) : required fs name read = .ok a :=
  required_ok_iff.mpr ⟨_, hf, h.restore ha⟩

/-- So is a field that has a default. -/
theorem Restores.optional (h : Restores read dump valid) (ha : valid a)
    (hf : fs.get? name = some (dump a)) : optional fs name default read = .ok a :=
  optional_ok_iff.mpr (.inl ⟨_, hf, h.restore ha⟩)

/-- A field with two names is restored under either, if it stands under no other one. -/
theorem Restores.either (h : Restores read dump valid) (ha : valid a)
    (hf : fs.get? name = some (dump a) ∨
      fs.get? name = none ∧ fs.get? other = some (dump a)) :
    either fs name other read = .ok a := by
  unfold Checked.either
  rcases hf with hf | ⟨hn, hf⟩
  · rw [Fields.has_eq_isSome, hf]
    exact h.required ha hf
  · rw [Fields.has_eq_isSome, Fields.has_eq_isSome, hn, hf]
    exact h.required ha hf

end

end Checked

/-! ## Documents -/

open Checked

theorem Invocation.restores : Restores ofValue dump Valid where
  sound hr := by
    obtain ⟨fs, rfl, hr⟩ := record_ok_iff.mp hr
    obtain ⟨⟨action, params⟩, hp, rfl⟩ := (map_ok_iff _ _ _).mp hr
    exact restores_nonemptyText.required_sound ((and_ok_iff _ _ _ _).mp hp).1
  restore {i} h := record_ok_iff.mpr ⟨_, rfl, (map_ok_iff _ _ _).mpr ⟨(i.action, i.params),
    (and_ok_iff _ _ _ _).mpr ⟨restores_nonemptyText.required h rfl,
      restores_object.optional trivial rfl⟩, rfl⟩⟩

theorem Transition.restores : Restores ofValue dump Valid where
  sound hr := by
    obtain ⟨fs, rfl, hr⟩ := record_ok_iff.mp hr
    obtain ⟨⟨target, event, guard, actions⟩, hp, rfl⟩ := (map_ok_iff _ _ _).mp hr
    obtain ⟨-, hp⟩ := (and_ok_iff _ _ _ _).mp hp
    obtain ⟨-, hp⟩ := (and_ok_iff _ _ _ _).mp hp
    obtain ⟨-, ha⟩ := (and_ok_iff _ _ _ _).mp hp
    exact Invocation.restores.list.optional_sound (List.forall_mem_nil _) ha
  restore {t} h := record_ok_iff.mpr ⟨_, rfl,
    (map_ok_iff _ _ _).mpr ⟨(t.target, t.event, t.guard, t.actions),
      (and_ok_iff _ _ _ _).mpr ⟨restores_text.required trivial rfl,
      (and_ok_iff _ _ _ _).mpr ⟨restores_text.required trivial rfl,
      (and_ok_iff _ _ _ _).mpr ⟨restores_optionalText.optional trivial rfl,
        Invocation.restores.list.optional h rfl⟩⟩⟩, rfl⟩⟩

theorem State.restores : Restores ofValue dump Valid where
  sound hr := by
    obtain ⟨fs, rfl, hr⟩ := record_ok_iff.mp hr
    obtain ⟨⟨entry, transitions⟩, hp, rfl⟩ := (map_ok_iff _ _ _).mp hr
    obtain ⟨he, ht⟩ := (and_ok_iff _ _ _ _).mp hp
    exact ⟨Invocation.restores.list.optional_sound (List.forall_mem_nil _) he,
      Transition.restores.list.optional_sound (List.forall_mem_nil _) ht⟩
  restore {s} h := record_ok_iff.mpr ⟨_, rfl,
    (map_ok_iff _ _ _).mpr ⟨(s.entry, s.transitions), (and_ok_iff _ _ _ _).mpr
      ⟨Invocation.restores.list.optional h.entry rfl,
        Transition.restores.list.optional h.transitions rfl⟩, rfl⟩⟩

/-- The names of the initial state, the first of which counts. -/
def initialNames : List String := ["initialState", "initial_state"]

theorem Chart.restores {name : String} (hn : name ∈ initialNames) :
    Restores ofValue (dump name) Valid where
  sound hr := by
    obtain ⟨fs, rfl, hr⟩ := record_ok_iff.mp hr
    obtain ⟨c, hd, hc⟩ := (bind_ok_iff _ _ _).mp hr
    obtain ⟨rfl, hs⟩ := (checked_ok_iff _ _).mp hc
    obtain ⟨⟨initial, states⟩, hp, rfl⟩ := (map_ok_iff _ _ _).mp hd
    exact ⟨hs, State.restores.table.required_sound ((and_ok_iff _ _ _ _).mp hp).2⟩
  restore {c} h := by
    refine record_ok_iff.mpr ⟨_, rfl, (bind_ok_iff _ _ _).mpr ⟨c, (map_ok_iff _ _ _).mpr
      ⟨(c.initial, c.states), (and_ok_iff _ _ _ _).mpr ⟨restores_text.either trivial ?_,
        State.restores.table.required h.states ?_⟩, rfl⟩,
          (checked_ok_iff _ _).mpr ⟨rfl, h.initial⟩⟩⟩
    · simp only [initialNames, List.mem_cons, List.not_mem_nil, or_false] at hn
      rcases hn with rfl | rfl
      · exact .inl rfl
      · exact .inr ⟨rfl, rfl⟩
    · simp only [initialNames, List.mem_cons, List.not_mem_nil, or_false] at hn
      rcases hn with rfl | rfl <;> rfl

theorem Action.restores : Restores ofValue dump Valid where
  sound hr := by
    obtain ⟨fs, rfl, hr⟩ := record_ok_iff.mp hr
    obtain ⟨⟨category, handler, description⟩, hp, rfl⟩ := (map_ok_iff _ _ _).mp hr
    exact restores_nonemptyText.required_sound ((and_ok_iff _ _ _ _).mp hp).1
  restore {a} h := record_ok_iff.mpr ⟨_, rfl,
    (map_ok_iff _ _ _).mpr ⟨(a.category, a.handler, a.description),
      (and_ok_iff _ _ _ _).mpr ⟨restores_nonemptyText.required h rfl,
      (and_ok_iff _ _ _ _).mpr ⟨restores_text.optional trivial rfl,
        restores_optionalText.optional trivial rfl⟩⟩, rfl⟩⟩

theorem Service.restores : Restores ofValue dump fun _ => True where
  sound _ := trivial
  restore {s} _ := record_ok_iff.mpr ⟨_, rfl,
    (map_ok_iff _ _ _).mpr ⟨(s.methods, s.description), (and_ok_iff _ _ _ _).mpr
      ⟨restores_text.list.optional (fun _ _ => trivial) rfl,
        restores_optionalText.optional trivial rfl⟩, rfl⟩⟩

/-- Documents are restored from their dumps, whichever name the initial states are written under. -/
theorem Document.restores {name : String} (hn : name ∈ initialNames) :
    Restores ofValue (dump name) Valid where
  sound hr := by
    obtain ⟨fs, rfl, hr⟩ := record_ok_iff.mp hr
    obtain ⟨⟨workflows, actions, services⟩, hp, rfl⟩ := (map_ok_iff _ _ _).mp hr
    obtain ⟨hw, hp⟩ := (and_ok_iff _ _ _ _).mp hp
    exact ⟨(Chart.restores hn).table.optional_sound (List.forall_mem_nil _) hw,
      Action.restores.table.optional_sound (List.forall_mem_nil _) ((and_ok_iff _ _ _ _).mp hp).1⟩
  restore {d} h := record_ok_iff.mpr ⟨_, rfl,
    (map_ok_iff _ _ _).mpr ⟨(d.workflows, d.actions, d.services),
      (and_ok_iff _ _ _ _).mpr ⟨(Chart.restores hn).table.optional h.workflows rfl,
      (and_ok_iff _ _ _ _).mpr ⟨Action.restores.table.optional h.actions rfl,
        Service.restores.table.optional (fun _ _ => trivial) rfl⟩⟩, rfl⟩⟩

/-- The valid documents are those that can be read. -/
theorem Document.valid_iff (d : Document) : d.Valid ↔ ∃ v, ofValue v = .ok d := by
  have hn : "initialState" ∈ initialNames := List.mem_cons_self ..
  exact ⟨fun h => ⟨_, (restores hn).restore h⟩, fun ⟨_, h⟩ => (restores hn).sound h⟩

end Workflow
