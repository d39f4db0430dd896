import Mathlib.Data.List.Forall2
import Workflow.Proofs.Document.Valid

/-!
# Documents with further fields

Each object that describes a part of a document may have fields without a meaning. `Widens` relates
a document to one in which any of these objects, at any depth, have further such fields at any
place; `Document.Widens` and its like name the fields that have a meaning. The parameters of
invocations are data: all of their fields count.

Results:
* `FieldsWiden.field`: fields with a meaning are as they were, up to further fields within.
* `Document.blind`: a document is read as if further fields were not there.
* `Document.stable_of_ofValue`: a document that was read is valid, is read back from its dump, and
  is read from the document with further fields.
-/
namespace Workflow

/-! ## Further fields -/

/-- Some fields, and the same with further ones. Those that are known are related as is told, the
others are equal. -/
inductive FieldsWiden (known : Fields (Value → Value → Prop)) :
    Fields Value → Fields Value → Prop where
  | nil : FieldsWiden known [] []
  | keep {name : String} {v w : Value} {fs gs : Fields Value}
    (h : ((known.get? name).getD Eq) v w) (hr : FieldsWiden known fs gs) :
    FieldsWiden known ((name, v) :: fs) ((name, w) :: gs)
  | add {name : String} {w : Value} {fs gs : Fields Value} (h : known.get? name = none)
    (hr : FieldsWiden known fs gs) : FieldsWiden known fs ((name, w) :: gs)

/-- An object, and the same with further fields. -/
inductive RecordWidens (known : Fields (Value → Value → Prop)) : Value → Value → Prop where
  | same (v : Value) : RecordWidens known v v
  | record {fs gs : Fields Value} (h : FieldsWiden known fs gs) :
    RecordWidens known (.obj fs) (.obj gs)

inductive ListWidens (part : Value → Value → Prop) : Value → Value → Prop where
  | same (v : Value) : ListWidens part v v
  | list {vs ws : List Value} (h : List.Forall₂ part vs ws) :
    ListWidens part (.list vs) (.list ws)

inductive TableWidens (part : Value → Value → Prop) : Value → Value → Prop where
  | same (v : Value) : TableWidens part v v
  | table {fs gs : Fields Value} (h : List.Forall₂ (fun e f => e.1 = f.1 ∧ part e.2 f.2) fs gs) :
    TableWidens part (.obj fs) (.obj gs)

def Invocation.Widens : Value → Value → Prop := RecordWidens [("type", Eq), ("params", Eq)]

def Transition.Widens : Value → Value → Prop :=
  RecordWidens [("target", Eq), ("event", Eq), ("condition", Eq),
    ("actions", ListWidens Invocation.Widens)]

def State.Widens : Value → Value → Prop :=
  RecordWidens [("actions", ListWidens Invocation.Widens),
    ("transitions", ListWidens Transition.Widens)]

def Chart.Widens : Value → Value → Prop :=
  RecordWidens [("initialState", Eq), ("initial_state", Eq), ("states", TableWidens State.Widens)]

def Action.Widens : Value → Value → Prop :=
  RecordWidens [("type", Eq), ("handler", Eq), ("description", Eq)]

def Service.Widens : Value → Value → Prop := RecordWidens [("methods", Eq), ("description", Eq)]

/-- A document, and the same with further fields in the objects that it is made of. -/
def Document.Widens : Value → Value → Prop :=
  RecordWidens [("workflows", TableWidens Chart.Widens), ("actions", TableWidens Action.Widens),
    ("services", TableWidens Service.Widens)]

variable {known : Fields (Value → Value → Prop)} {fs gs : Fields Value}

/-- A field with a meaning is there with the further ones if it was there without them. -/
theorem FieldsWiden.field (h : FieldsWiden known fs gs) {name : String}
    {part : Value → Value → Prop} (hk : known.get? name = some part) :
    Option.Rel part (fs.get? name) (gs.get? name) := by
  induction h with
  | nil => exact .none
  | @keep other v w fs gs hv _ ih =>
    by_cases he : name = other
    · subst he
      simp only [hk, Option.getD_some] at hv
      simpa [Fields.get?] using hv
    · have hb : (name == other) = false := by simpa using he
      simpa only [Fields.get?, List.lookup_cons, hb] using ih
  | @add other w fs gs ho _ ih =>
    have hb : (name == other) = false := by
      rw [beq_eq_false_iff_ne]
      rintro rfl
      simp [hk] at ho
    simpa only [Fields.get?, List.lookup_cons, hb] using ih

theorem FieldsWiden.has (h : FieldsWiden known fs gs) {name : String}
    {part : Value → Value → Prop} (hk : known.get? name = some part) :
    fs.has name = gs.has name := by
  rw [Fields.has_eq_isSome, Fields.has_eq_isSome]
  have hr := h.field hk
  generalize fs.get? name = x, gs.get? name = y at hr
  cases hr <;> rfl

/-! ## Blind readers -/

namespace Checked

variable {α : Type} {read : Value → Checked α} {part : Value → Value → Prop}

/-- A reader does not tell related values apart. -/
def Blind (read : Value → Checked α) (part : Value → Value → Prop) : Prop :=
  ∀ v w, part v w → read v = read w

theorem blind_eq (read : Value → Checked α) : Blind read Eq := by
  rintro v _ rfl
  rfl

theorem itemsFrom_blind (h : Blind read part) {vs ws : List Value}
    (hv : List.Forall₂ part vs ws) (n : Nat) : itemsFrom read n vs = itemsFrom read n ws := by
  induction hv generalizing n with
  | nil => rfl
  | cons hv _ ih => simp only [itemsFrom, h _ _ hv, ih]

theorem entries_blind (h : Blind read part)
    (hf : List.Forall₂ (fun e f => e.1 = f.1 ∧ part e.2 f.2) fs gs) :
    entries read fs = entries read gs := by
  induction hf with
  | nil => rfl
  | @cons e f _ _ he _ ih =>
    obtain ⟨k, v⟩ := e
    obtain ⟨_, w⟩ := f
    obtain ⟨rfl, hv⟩ := he
    simp only [entries, h v w hv, ih]

theorem Blind.list (h : Blind read part) : Blind (list read) (ListWidens part) := by
  intro v w hv
  cases hv with
  | same => rfl
  | list hv => exact itemsFrom_blind h hv 0

theorem Blind.table (h : Blind read part) : Blind (table read) (TableWidens part) := by
  intro v w hv
  cases hv with
  | same => rfl
  | table hf => exact entries_blind h hf

theorem Blind.required (h : Blind read part) (hf : FieldsWiden known fs gs) {name : String}
    (hk : known.get? name = some part) : required fs name read = required gs name read := by
  unfold Checked.required
  have hr := hf.field hk
  generalize fs.get? name = x, gs.get? name = y at hr
  cases hr with
  | none => rfl
  | some hv => simp only [h _ _ hv]

theorem Blind.optional (h : Blind read part) (hf : FieldsWiden known fs gs) {name : String}
    {default : α} (hk : known.get? name = some part) :
    optional fs name default read = optional gs name default read := by
  unfold Checked.optional
  have hr := hf.field hk
  generalize fs.get? name = x, gs.get? name = y at hr
  cases hr with
  | none => rfl
  | some hv => simp only [h _ _ hv]

theorem Blind.either (h : Blind read part) (hf : FieldsWiden known fs gs) {name other : String}
    (hk : known.get? name = some part) (ho : known.get? other = some part) :
    either fs name other read = either gs name other read := by
  unfold Checked.either
  rw [hf.has hk, hf.has ho, h.required hf hk, h.required hf ho]

theorem blind_record {sort : String} {read : Fields Value → Checked α}
    (h : ∀ fs gs, FieldsWiden known fs gs → read fs = read gs) :
    Blind (record sort read) (RecordWidens known) := by
  intro v w hv
  cases hv with
  | same => rfl
  | record hf => exact h _ _ hf

end Checked

/-! ## Documents -/

open Checked

theorem Invocation.blind : Blind ofValue Widens :=
  blind_record fun fs gs hf => by
    rw [(blind_eq _).required hf rfl, (blind_eq _).optional hf rfl]

theorem Transition.blind : Blind ofValue Widens :=
  blind_record fun fs gs hf => by
    rw [(blind_eq _).required hf rfl, (blind_eq _).required hf rfl, (blind_eq _).optional hf rfl,
      Invocation.blind.list.optional hf rfl]

theorem State.blind : Blind ofValue Widens :=
  blind_record fun fs gs hf => by
    rw [Invocation.blind.list.optional hf rfl, Transition.blind.list.optional hf rfl]

theorem Chart.blind : Blind ofValue Widens :=
  blind_record fun fs gs hf => by
    rw [(blind_eq _).either hf rfl rfl, State.blind.table.required hf rfl]

theorem Action.blind : Blind ofValue Widens :=
  blind_record fun fs gs hf => by
    rw [(blind_eq _).required hf rfl, (blind_eq _).optional hf rfl, (blind_eq _).optional hf rfl]

theorem Service.blind : Blind ofValue Widens :=
  blind_record fun fs gs hf => by
    rw [(blind_eq _).optional hf rfl, (blind_eq _).optional hf rfl]

/-- A document is read as if further fields were not there. -/
theorem Document.blind : Blind ofValue Widens :=
  blind_record fun fs gs hf => by
    rw [Chart.blind.table.optional hf rfl, Action.blind.table.optional hf rfl,
      Service.blind.table.optional hf rfl]

/-- **A document that was read is valid, is read back from its dump, under either name of the
initial states, and is read from the same document with further fields.** -/
theorem Document.stable_of_ofValue {v : Value} {d : Document} (h : ofValue v = .ok d) :
    d.Valid ∧ (∀ name ∈ initialNames, ofValue (d.dump name) = .ok d) ∧
      ∀ w, Widens v w → ofValue w = .ok d := by
  have hv : d.Valid := (d.valid_iff).mpr ⟨v, h⟩
  refine ⟨hv, fun name hn => (restores hn).restore hv, fun w hw => ?_⟩
  rw [← Document.blind v w hw, h]

/-- An order that is paid for, described with the fields that have no default. -/
def sparseOrder : Value :=
  .obj [("workflows", .obj [("order", .obj [("initial_state", .str "cart"), ("states", .obj [
      ("cart", .obj [("transitions", .list [.obj [("target", .str "paid"), ("event", .str "PAY"),
        ("actions", .list [.obj [("type", .str "charge")]])]])]),
      ("paid", .obj [])])])]),
    ("actions", .obj [("charge", .obj [("type", .str "api")])]),
    ("services", .obj [("bank", .obj [("methods", .list [.str "pay"])])])]

/-- The same description with a note in each of its objects. -/
def notedOrder (note : Value) : Value :=
  .obj [("note", note), ("workflows", .obj [("order", .obj [("initial_state", .str "cart"),
      ("note", note), ("states", .obj [
      ("cart", .obj [("transitions", .list [.obj [("target", .str "paid"), ("note", note),
        ("event", .str "PAY"),
        ("actions", .list [.obj [("type", .str "charge"), ("note", note)]])]]), ("note", note)]),
      ("paid", .obj [("note", note)])])])]),
    ("actions", .obj [("charge", .obj [("note", note), ("type", .str "api")])]),
    ("services", .obj [("bank", .obj [("methods", .list [.str "pay"]), ("note", note)])])]

theorem sparseOrder_widens (note : Value) : Document.Widens sparseOrder (notedOrder note) :=
  have charge : Invocation.Widens (.obj [("type", .str "charge")])
      (.obj [("type", .str "charge"), ("note", note)]) :=
    .record (.keep rfl (.add rfl .nil))
  have pay : Transition.Widens
      (.obj [("target", .str "paid"), ("event", .str "PAY"),
        ("actions", .list [.obj [("type", .str "charge")]])])
      (.obj [("target", .str "paid"), ("note", note), ("event", .str "PAY"),
        ("actions", .list [.obj [("type", .str "charge"), ("note", note)]])]) :=
    .record (.keep rfl (.add rfl (.keep rfl (.keep (.list (.cons charge .nil)) .nil))))
  .record (.add rfl (.keep (.table (.cons ⟨rfl, .record (.keep rfl (.add rfl (.keep (.table
    (.cons ⟨rfl, .record (.keep (.list (.cons pay .nil)) (.add rfl .nil))⟩
      (.cons ⟨rfl, .record (.add rfl .nil)⟩ .nil))) .nil)))⟩ .nil))
    (.keep (.table (.cons ⟨rfl, .record (.add rfl (.keep rfl .nil))⟩ .nil))
      (.keep (.table (.cons ⟨rfl, .record (.keep rfl (.add rfl .nil))⟩ .nil)) .nil))))

/-- The order that is described. -/
def order : Document where
  workflows := [("order", {
    initial := "cart"
    states := [
      ("cart", { transitions := [
        { target := "paid", event := "PAY", actions := [{ action := "charge" }] }] }),
      ("paid", {})] })]
  actions := [("charge", { category := "api" })]
  services := [("bank", { methods := ["pay"] })]

theorem ofValue_sparseOrder : Document.ofValue sparseOrder = .ok order := rfl

theorem order_stable : Document.ofValue sparseOrder = .ok order ∧ order.Valid ∧
    Document.ofValue (order.dump "initialState") = .ok order ∧
    Document.ofValue (order.dump "initial_state") = .ok order ∧
    Document.ofValue (notedOrder (.int 1)) = .ok order := by
  obtain ⟨hv, hd, hw⟩ := Document.stable_of_ofValue ofValue_sparseOrder
  exact ⟨ofValue_sparseOrder, hv, hd _ (by decide), hd _ (by decide),
    hw _ (sparseOrder_widens _)⟩

end Workflow
