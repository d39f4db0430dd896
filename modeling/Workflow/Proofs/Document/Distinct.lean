import Workflow.Document.Loading
import Workflow.Proofs.Document.Valid
import Workflow.Proofs.Value.Distinct

/-!
# Documents with distinct names

The parameters of invocations are the only values that a document keeps as they were read. No object
in them has a name twice, in whichever document was loaded.

Results:
* `Checked.Keeps.list`, `Checked.Keeps.table`: what readers keep of lists and of tables.
* `Document.distinct_loadOr`: the document that is loaded, or takes the place of another one.
-/
namespace Workflow

/-- The parameters have distinct names. -/
def Invocation.Distinct (i : Invocation) : Prop := (Value.obj i.params).Distinct

def Transition.Distinct (t : Transition) : Prop := ∀ i ∈ t.actions, i.Distinct

structure State.Distinct (s : State) : Prop where
  entry : ∀ i ∈ s.entry, i.Distinct
  transitions : ∀ t ∈ s.transitions, t.Distinct

def Chart.Distinct (c : Chart) : Prop := ∀ e ∈ c.states, e.2.Distinct

def Document.Distinct (d : Document) : Prop := ∀ e ∈ d.workflows, e.2.Distinct

namespace Checked

variable {α : Type} {read : Value → Checked α} {good : α → Prop} {fs : Fields Value}
  {name : String} {default a : α}

/-- Of a value with distinct names, something good is read. -/
def Keeps (read : Value → Checked α) (good : α → Prop) : Prop :=
  ∀ v a, v.Distinct → read v = .ok a → good a

theorem keeps_object : Keeps object fun fields => (Value.obj fields).Distinct := by
  intro v a hv hr
  cases v with
  | obj fields =>
    cases hr
    exact hv
  | _ => cases hr

theorem Keeps.itemsFrom (h : Keeps read good) {n : Nat} {vs : List Value} {as : List α}
    (hv : ∀ v ∈ vs, v.Distinct) (hr : itemsFrom read n vs = .ok as) : ∀ a ∈ as, good a := by
  induction vs generalizing n as with
  | nil =>
    cases hr
    exact List.forall_mem_nil _
  | cons v vs ih =>
    obtain ⟨hd, hvs⟩ := List.forall_mem_cons.mp hv
    obtain ⟨⟨a, as⟩, hp, rfl⟩ := (map_ok_iff _ _ _).mp hr
    obtain ⟨ha, has⟩ := (and_ok_iff _ _ _ _).mp hp
    exact List.forall_mem_cons.mpr ⟨h _ _ hd ((under_ok_iff _ _ _).mp ha), ih hvs has⟩

theorem Keeps.entries (h : Keeps read good) {as : Fields α} (hv : ∀ e ∈ fs, e.2.Distinct)
    (hr : entries read fs = .ok as) : ∀ e ∈ as, good e.2 := by
  induction fs generalizing as with
  | nil =>
    cases hr
    exact List.forall_mem_nil _
  | cons e fs ih =>
    obtain ⟨hd, hfs⟩ := List.forall_mem_cons.mp hv
    obtain ⟨⟨a, as⟩, hp, rfl⟩ := (map_ok_iff _ _ _).mp hr
    obtain ⟨ha, has⟩ := (and_ok_iff _ _ _ _).mp hp
    exact List.forall_mem_cons.mpr ⟨h _ _ hd ((under_ok_iff _ _ _).mp ha), ih hfs has⟩

/-- A reader keeps of a list what the reader of its items keeps of them. -/
theorem Keeps.list (h : Keeps read good) : Keeps (list read) fun as => ∀ a ∈ as, good a := by
  intro v as hv hr
  cases v with
  | list vs => exact h.itemsFrom (fun v => hv.item) hr
  | _ => cases hr

/-- A reader keeps of a table what the reader of its parts keeps of them. -/
theorem Keeps.table (h : Keeps read good) : Keeps (table read) fun as => ∀ e ∈ as, good e.2 := by
  intro v as hv hr
  cases v with
  | obj fs => exact h.entries (fun e => hv.field) hr
  | _ => cases hr

theorem Keeps.required (h : Keeps read good) (hf : (Value.obj fs).Distinct)
    (hr : required fs name read = .ok a) : good a := by
  obtain ⟨v, hv, hr⟩ := required_ok_iff.mp hr
  exact h _ _ (hf.get? hv) hr

theorem Keeps.optional (h : Keeps read good) (hd : good default) (hf : (Value.obj fs).Distinct)
    (hr : optional fs name default read = .ok a) : good a := by
  obtain ⟨v, hv, hr⟩ | ⟨-, rfl⟩ := optional_ok_iff.mp hr
  · exact h _ _ (hf.get? hv) hr
  · exact hd

end Checked

open Checked

theorem Invocation.keeps : Keeps ofValue Distinct := by
  intro v i hv hr
  obtain ⟨fs, rfl, hr⟩ := record_ok_iff.mp hr
  obtain ⟨⟨action, params⟩, hp, rfl⟩ := (map_ok_iff _ _ _).mp hr
  exact keeps_object.optional .empty hv ((and_ok_iff _ _ _ _).mp hp).2

theorem Transition.keeps : Keeps ofValue Distinct := by
  intro v t hv hr
  obtain ⟨fs, rfl, hr⟩ := record_ok_iff.mp hr
  obtain ⟨⟨target, event, guard, actions⟩, hp, rfl⟩ := (map_ok_iff _ _ _).mp hr
  obtain ⟨-, hp⟩ := (and_ok_iff _ _ _ _).mp hp
  obtain ⟨-, hp⟩ := (and_ok_iff _ _ _ _).mp hp
  obtain ⟨-, ha⟩ := (and_ok_iff _ _ _ _).mp hp
  exact Invocation.keeps.list.optional (List.forall_mem_nil _) hv ha

theorem State.keeps : Keeps ofValue Distinct := by
  intro v s hv hr
  obtain ⟨fs, rfl, hr⟩ := record_ok_iff.mp hr
  obtain ⟨⟨entry, transitions⟩, hp, rfl⟩ := (map_ok_iff _ _ _).mp hr
  obtain ⟨he, ht⟩ := (and_ok_iff _ _ _ _).mp hp
  exact ⟨Invocation.keeps.list.optional (List.forall_mem_nil _) hv he,
    Transition.keeps.list.optional (List.forall_mem_nil _) hv ht⟩

theorem Chart.keeps : Keeps ofValue Distinct := by
  intro v c hv hr
  obtain ⟨fs, rfl, hr⟩ := record_ok_iff.mp hr
  obtain ⟨d, hd, hc⟩ := (bind_ok_iff _ _ _).mp hr
  obtain ⟨rfl, -⟩ := (checked_ok_iff _ _).mp hc
  obtain ⟨⟨initial, states⟩, hp, rfl⟩ := (map_ok_iff _ _ _).mp hd
  exact State.keeps.table.required hv ((and_ok_iff _ _ _ _).mp hp).2

namespace Document

theorem keeps : Keeps ofValue Distinct := by
  intro v d hv hr
  obtain ⟨fs, rfl, hr⟩ := record_ok_iff.mp hr
  obtain ⟨⟨workflows, actions, services⟩, hp, rfl⟩ := (map_ok_iff _ _ _).mp hr
  exact Chart.keeps.table.optional (List.forall_mem_nil _) hv ((and_ok_iff _ _ _ _).mp hp).1

/-- The document that takes the place of another one has no invocations. -/
theorem distinct_simple : simple.Distinct := by
  have idle {s : State} (he : s.entry = []) (ht : ∀ t ∈ s.transitions, t.actions = []) :
      s.Distinct :=
    ⟨by simp [he], fun t h => by simp [Transition.Distinct, ht t h]⟩
  simp only [simple, Document.Distinct, Chart.Distinct, List.forall_mem_cons]
  exact ⟨⟨idle rfl (by simp), idle rfl (by simp), List.forall_mem_nil _⟩, List.forall_mem_nil _⟩

/-- Whatever is found at the path of a document, the document that is taken has distinct names. -/
theorem distinct_loadOr (path : String) (found : Except Files.Fault (List UInt8)) :
    (loadOr path found).1.Distinct := by
  cases hl : load found with
  | error f =>
    rw [loadOr_of_error hl]
    exact distinct_simple
  | ok d =>
    rw [loadOr_of_ok hl]
    unfold load at hl
    split at hl
    · cases hl
    · unfold ofBytes at hl
      split at hl
      · cases hl
      · split at hl
        · cases hl
        · rename_i v hv
          split at hl
          · cases hl
          · rename_i d' hd
            cases hl
            exact keeps _ _ (Json.distinct_of_read hv) hd

end Document
end Workflow
