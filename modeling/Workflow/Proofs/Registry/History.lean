import Mathlib.Data.List.Forall2
import Mathlib.Data.List.Induction
import Workflow.Proofs.Value.Distinct
import Workflow.Registry

/-!
# The history of a registry

What was done with a registry, one change after another, says all there is to know about it. The
handler of a category is the one that was registered last, unless the category was taken out since;
what was refused, or was done for other categories, makes no difference. The categories stand in the
order in which they came in, where one that is taken out loses its place and one whose handler is
replaced keeps it.

Results:
* `leaves_concat`, `began_concat`: what one more change makes of a history.
* `shows_changes`: what a registry has after some changes.
* `told_change`: what is told about one more change.
* `registerAll_eq`: a registry that is made with handlers.
* `ordered_map`: the registry is the ordered map of its history.
-/
namespace Workflow

namespace Fields

variable {α : Type}

theorem get?_erase (fs : Fields α) (k j : String) :
    (fs.erase k).get? j = if j = k then none else fs.get? j := by
  rw [erase, get?_filter fs (· != k)]
  by_cases hj : j = k <;> simp [hj]

theorem keys_erase (fs : Fields α) (k : String) :
    (fs.erase k).keys = fs.keys.filter (· != k) := by
  simp only [keys, erase, List.filter_map]
  rfl

end Fields

/-- Does the candidate handle something? -/
def Candidate.handles {η : Type} : Candidate η → Bool
  | .handler _ _ => true
  | .other => false

namespace Registry

variable {η : Type}

/-! ## Changes -/

/-- What is done with a registry. -/
inductive Change (η : Type) where
  | register (category : String) (c : Candidate η)
  | unregister (category : String)

/-- What is told about a change: what is logged, and what was refused. -/
structure Reply where
  entries : List Log.Entry := []
  refused : Option NoHandler := none

/-- Makes a change. What is refused leaves the registry as it is. -/
def change (r : Registry η) : Change η → Registry η × Reply
  | .register category c => match r.register category c with
    | .ok (r', entries) => (r', { entries })
    | .error n => (r, { refused := some n })
  | .unregister category => (r.unregister category, {})

def changes (r : Registry η) (history : List (Change η)) : Registry η :=
  history.foldl (fun r x => (r.change x).1) r

def replies (r : Registry η) : List (Change η) → List Reply
  | [] => []
  | x :: history => (r.change x).2 :: (r.change x).1.replies history

theorem replies_getElem? (r : Registry η) (before after : List (Change η)) (x : Change η) :
    (r.replies (before ++ x :: after))[before.length]? = some ((r.changes before).change x).2 := by
  induction before generalizing r with
  | nil => rfl
  | cons y before ih => exact ih (r.change y).1

theorem changes_concat (r : Registry η) (history : List (Change η)) (x : Change η) :
    r.changes (history ++ [x]) = ((r.changes history).change x).1 := by
  simp only [changes, List.foldl_append, List.foldl_cons, List.foldl_nil]

/-- The change registers a handler for a category. -/
def Change.Sets (x : Change η) (category : String) : Prop :=
  ∃ i h, x = .register category (.handler i h)

/-- The change registers a handler for a category, or takes it out. -/
def Change.Concerns (x : Change η) (category : String) : Prop :=
  x.Sets category ∨ x = .unregister category

/-! ## Histories -/

variable {history : List (Change η)} {x : Change η} {category : String} {i n : Nat} {h : η}

/-- The last change that concerns a category registers a handler for it. -/
def Leaves (history : List (Change η)) (category : String) (i : Nat) (h : η) : Prop :=
  ∃ before after, history = before ++ .register category (.handler i h) :: after ∧
    ∀ x ∈ after, ¬ x.Concerns category

/-- A category came in with the change of a number: it had no handler before, and was not taken out
since. -/
structure Began (history : List (Change η)) (category : String) (n : Nat) : Prop where
  sets : ∃ x, history[n]? = some x ∧ x.Sets category
  absent : ∀ i h, ¬ Leaves (history.take n) category i h
  stays : .unregister category ∉ history.drop n

theorem Began.lt_length (h : Began history category n) : n < history.length := by
  obtain ⟨x, hx, -⟩ := h.sets
  exact (List.getElem?_eq_some_iff.mp hx).1

theorem leaves_concat : Leaves (history ++ [x]) category i h ↔
    x = .register category (.handler i h) ∨
      ¬ x.Concerns category ∧ Leaves history category i h := by
  constructor
  · rintro ⟨before, after, he, ha⟩
    obtain rfl | ⟨after, y, rfl⟩ := List.eq_nil_or_concat after
    · exact .inl (List.append_singleton_inj.mp he).2
    · rw [List.concat_eq_append, ← List.cons_append, ← List.append_assoc] at he
      obtain ⟨rfl, rfl⟩ := List.append_singleton_inj.mp he
      rw [List.concat_eq_append, List.forall_mem_append, List.forall_mem_singleton] at ha
      exact .inr ⟨ha.2, before, after, rfl, ha.1⟩
  · rintro (rfl | ⟨hx, before, after, rfl, ha⟩)
    · exact ⟨history, [], rfl, List.forall_mem_nil _⟩
    · refine ⟨before, after ++ [x], by rw [List.append_assoc, List.cons_append], ?_⟩
      exact List.forall_mem_append.mpr ⟨ha, List.forall_mem_singleton.mpr hx⟩

theorem not_leaves_nil : ¬ Leaves ([] : List (Change η)) category i h := by
  rintro ⟨before, after, he, -⟩
  simp at he

theorem began_concat : Began (history ++ [x]) category n ↔
    (Began history category n ∧ x ≠ .unregister category) ∨
      (n = history.length ∧ x.Sets category ∧ ∀ i h, ¬ Leaves history category i h) := by
  have old (hn : n < history.length) : (history ++ [x])[n]? = history[n]? ∧
      (history ++ [x]).take n = history.take n ∧
      (history ++ [x]).drop n = history.drop n ++ [x] :=
    ⟨List.getElem?_append_left hn, List.take_append_of_le_length (Nat.le_of_lt hn),
      List.drop_append_of_le_length (Nat.le_of_lt hn)⟩
  constructor
  · intro hb
    have hlt := hb.lt_length
    rw [List.length_append, List.length_singleton] at hlt
    obtain ⟨⟨y, hy, hs⟩, ha, hk⟩ := hb
    obtain hn | rfl := Nat.lt_or_eq_of_le (Nat.le_of_lt_succ hlt)
    · obtain ⟨h₁, h₂, h₃⟩ := old hn
      rw [h₁] at hy
      rw [h₂] at ha
      rw [h₃, List.mem_append, not_or] at hk
      exact .inl ⟨⟨⟨y, hy, hs⟩, ha, hk.1⟩, fun e => hk.2 (List.mem_singleton.mpr e.symm)⟩
    · rw [List.getElem?_concat_length, Option.some.injEq] at hy
      rw [List.take_left] at ha
      exact .inr ⟨rfl, hy ▸ hs, ha⟩
  · rintro (⟨hb, hx⟩ | ⟨rfl, hs, ha⟩)
    · obtain ⟨h₁, h₂, h₃⟩ := old hb.lt_length
      obtain ⟨hs, ha, hk⟩ := hb
      refine ⟨h₁.symm ▸ hs, h₂.symm ▸ ha, ?_⟩
      rw [h₃, List.mem_append, List.mem_singleton]
      exact not_or.mpr ⟨hk, hx.symm⟩
    · refine ⟨⟨x, List.getElem?_concat_length, hs⟩, by rwa [List.take_left], ?_⟩
      obtain ⟨i, h, rfl⟩ := hs
      rw [List.drop_left, List.mem_singleton]
      exact fun e => by cases e

/-! ## What a registry has -/

/-- What stands in a registry, by the history that led to it. -/
structure Shows (history : List (Change η)) (r : Registry η) : Prop where
  holds : ∀ category i h, r.entries.get? category = some (i, h) ↔ Leaves history category i h
  nodup : r.categories.Nodup
  ordered : ∃ starts, List.Forall₂ (Began history) r.categories starts ∧ starts.Pairwise (· < ·)

/-- Of a list in step with another one, some members are taken out with their partners. -/
theorem forall₂_filter {α β : Type} {R S : α → β → Prop} {p : α → Bool} {as : List α} {bs : List β}
    (h : List.Forall₂ R as bs) (hS : ∀ a b, p a = true → R a b → S a b) :
    ∃ cs, List.Forall₂ S (as.filter p) cs ∧ cs.Sublist bs := by
  induction h with
  | nil => exact ⟨[], .nil, .slnil⟩
  | @cons a b as bs hab _ ih =>
    obtain ⟨cs, hc, hs⟩ := ih
    cases hp : p a with
    | true =>
      rw [List.filter_cons_of_pos hp]
      exact ⟨b :: cs, .cons (hS a b hp hab) hc, hs.cons_cons b⟩
    | false =>
      rw [List.filter_cons_of_neg (by simp [hp])]
      exact ⟨cs, hc, hs.cons b⟩

variable {r : Registry η}

theorem Shows.contains_iff (hr : Shows history r) (category : String) :
    r.contains category = true ↔ ∃ i h, Leaves history category i h := by
  rw [contains, Fields.has_eq_isSome, Option.isSome_iff_exists]
  simp only [Prod.exists, hr.holds]

theorem Shows.resolve_iff (hr : Shows history r) (category : String) (h : η) :
    r.resolve category = some h ↔ ∃ i, Leaves history category i h := by
  simp only [resolve, Option.map_eq_some_iff, Prod.exists, exists_eq_right, hr.holds]

/-- A change that registers a handler. -/
theorem Shows.insert (hr : Shows history r) (category : String) (i : Nat) (h : η) :
    Shows (history ++ [.register category (.handler i h)]) (r.insert category i h) where
  holds other j g := by
    have hc : (Change.register category (.handler i h)).Concerns other ↔ category = other := by
      simp [Change.Concerns, Change.Sets]
    rw [leaves_concat, hc, Registry.insert, Fields.get?_set, Change.register.injEq,
      Candidate.handler.injEq]
    by_cases ho : other = category
    · subst ho
      simp
    · have ho' : category ≠ other := fun e => ho e.symm
      simp [ho, ho', hr.holds]
  nodup := Fields.nodup_keys_set hr.nodup category (i, h)
  ordered := by
    obtain ⟨starts, hs, ho⟩ := hr.ordered
    have hkeep : List.Forall₂ (Began (history ++ [.register category (.handler i h)]))
        r.categories starts :=
      hs.imp fun _ _ hb => began_concat.mpr (.inl ⟨hb, fun e => by cases e⟩)
    have hkeys : (r.insert category i h).categories =
        if r.contains category then r.categories else r.categories ++ [category] :=
      Fields.keys_set ..
    rw [hkeys]
    split
    · exact ⟨starts, hkeep, ho⟩
    · rename_i hn
      have habsent : ∀ i h, ¬ Leaves history category i h := fun i h hl =>
        hn ((hr.contains_iff category).mpr ⟨i, h, hl⟩)
      have hnew := began_concat.mpr (.inr ⟨rfl, ⟨i, h, rfl⟩, habsent⟩)
      refine ⟨starts ++ [history.length], List.rel_append hkeep (.cons hnew .nil), ?_⟩
      rw [List.pairwise_append]
      refine ⟨ho, List.pairwise_singleton .., fun n hn m hm => ?_⟩
      -- whatever came in before came in with a change of the history
      obtain ⟨k, hk, rfl⟩ := List.mem_iff_getElem.mp hn
      rw [List.mem_singleton.mp hm]
      exact (hs.get (by rw [hs.length_eq]; exact hk) hk).lt_length

/-- A change that takes out a category. -/
theorem Shows.unregister (hr : Shows history r) (category : String) :
    Shows (history ++ [.unregister category]) (r.unregister category) where
  holds other j g := by
    have hc : (Change.unregister category : Change η).Concerns other ↔ category = other := by
      simp [Change.Concerns, Change.Sets]
    rw [leaves_concat, hc, Registry.unregister, Fields.get?_erase]
    by_cases ho : other = category
    · simp [ho]
    · have ho' : category ≠ other := fun e => ho e.symm
      simp [ho, ho', hr.holds]
  nodup := by
    rw [categories, Registry.unregister, Fields.keys_erase]
    exact hr.nodup.filter _
  ordered := by
    obtain ⟨starts, hs, ho⟩ := hr.ordered
    obtain ⟨kept, hk, hsub⟩ := forall₂_filter (S := Began (history ++ [.unregister category]))
      (p := (· != category)) hs fun other n hne hb => began_concat.mpr (.inl ⟨hb, fun e => by
        cases e
        simp at hne⟩)
    refine ⟨kept, ?_, ho.sublist hsub⟩
    rw [categories, Registry.unregister, Fields.keys_erase]
    exact hk

/-- A change that is refused. -/
theorem Shows.refuse (hr : Shows history r) (category : String) :
    Shows (history ++ [.register category .other]) r where
  holds other j g := by
    have hc : ¬ (Change.register category .other : Change η).Concerns other := by
      simp [Change.Concerns, Change.Sets]
    simp [leaves_concat, hc, hr.holds]
  nodup := hr.nodup
  ordered := by
    obtain ⟨starts, hs, ho⟩ := hr.ordered
    exact ⟨starts, hs.imp fun _ _ hb => began_concat.mpr (.inl ⟨hb, fun e => by cases e⟩), ho⟩

theorem Shows.change (hr : Shows history r) (x : Change η) :
    Shows (history ++ [x]) (r.change x).1 := by
  cases x with
  | register category c =>
    cases c with
    | handler i h => exact hr.insert category i h
    | other => exact hr.refuse category
  | unregister category => exact hr.unregister category

/-- What a registry has after some changes. -/
theorem shows_changes (history : List (Change η)) :
    Shows history (({} : Registry η).changes history) := by
  induction history using List.reverseRecOn with
  | nil =>
    refine ⟨fun category i h => ?_, List.nodup_nil, [], .nil, .nil⟩
    exact iff_of_false (fun e => by cases e) not_leaves_nil
  | append_singleton history x ih =>
    rw [changes_concat]
    exact ih.change x

/-! ## What is told about a change -/

/-- The log entry about a handler that takes the place of another one. -/
def replacement (category : String) : Log.Entry where
  level := .info
  source := .registry
  message := "Replacing action handler"
  extra := [("category", .str category)]

theorem replacement_mem_iff (replaced : Bool) (category other : String) :
    replacement other ∈ registrationEntries replaced category ↔
      replaced = true ∧ other = category := by
  cases replaced <;> simp [registrationEntries, replacement]

/-- What is told about a change made after others, on a registry that becomes another one. -/
structure Told (before : List (Change η)) (x : Change η) (r next : Registry η) (reply : Reply) :
    Prop where
  refused : ∀ n, reply.refused = some n ↔ x = .register n.category .other
  unchanged : reply.refused ≠ none → next = r ∧ reply.entries = []
  /-- Another handler had the category. -/
  replaces : ∀ category, replacement category ∈ reply.entries ↔
    ∃ i h j g, x = .register category (.handler i h) ∧ Leaves before category j g ∧ j ≠ i

theorem replaces_iff (hr : Shows history r) :
    r.replaces category i = true ↔ ∃ j g, Leaves history category j g ∧ j ≠ i := by
  unfold replaces identity?
  simp only [← hr.holds]
  cases r.entries.get? category with
  | none => simp
  | some e =>
    obtain ⟨j, g⟩ := e
    simp

theorem told_change (hr : Shows history r) (x : Change η) :
    Told history x r (r.change x).1 (r.change x).2 := by
  cases x with
  | register category c =>
    cases c with
    | handler i h =>
      refine ⟨fun n => by simp [change, register], fun hn => absurd rfl hn, fun other => ?_⟩
      simp only [change, register, replacement_mem_iff, replaces_iff hr]
      constructor
      · rintro ⟨⟨j, g, hl, hne⟩, rfl⟩
        exact ⟨i, h, j, g, rfl, hl, hne⟩
      · rintro ⟨i', h', j, g, he, hl, hne⟩
        cases he
        exact ⟨⟨j, g, hl, hne⟩, rfl⟩
    | other =>
      refine ⟨fun n => ?_, fun _ => ⟨rfl, rfl⟩, fun other => by simp [change, register]⟩
      obtain ⟨c⟩ := n
      simp [change, register]
  | unregister category =>
    exact ⟨fun n => by simp [change], fun hn => absurd rfl hn, fun other => by simp [change]⟩

/-! ## Registries that are made with handlers -/

/-- The changes that register candidates. -/
def registrations (initial : List (String × Candidate η)) : List (Change η) :=
  initial.map fun e => .register e.1 e.2

/-- A registry that is made with candidates is what their registrations come to, unless one of them
handles nothing: the first of these is refused then. -/
theorem registerAll_eq (r : Registry η) (initial : List (String × Candidate η)) :
    r.registerAll initial = match initial.find? fun e => !e.2.handles with
      | some e => .error ⟨e.1⟩
      | none => .ok (r.changes (registrations initial),
          (r.replies (registrations initial)).flatMap Reply.entries) := by
  induction initial generalizing r with
  | nil => rfl
  | cons e initial ih =>
    obtain ⟨category, c⟩ := e
    cases c with
    | handler i h =>
      rw [List.find?_cons_of_neg (by simp [Candidate.handles])]
      simp only [registerAll, register, ih (r.insert category i h)]
      cases initial.find? fun e => !e.2.handles <;> rfl
    | other => rfl

/-- **A registry is the ordered map of its history.** Made with some candidates and changed any
number of times, it resolves a category to the handler that its history leaves, and lists the
categories once each, in the order in which they came in. A registration that is refused changes
nothing, and a handler is logged as replaced exactly if another one had its category. -/
theorem ordered_map (initial : List (String × Candidate η)) (later : List (Change η)) :
    let history := registrations initial ++ later
    let r := ({} : Registry η).changes history
    (({} : Registry η).registerAll initial = match initial.find? fun e => !e.2.handles with
      | some e => .error ⟨e.1⟩
      | none => .ok (({} : Registry η).changes (registrations initial),
          (({} : Registry η).replies (registrations initial)).flatMap Reply.entries)) ∧
    (({} : Registry η).changes (registrations initial)).changes later = r ∧
    (∀ category h, r.resolve category = some h ↔ ∃ i, Leaves history category i h) ∧
    (∀ category, r.contains category = (r.resolve category).isSome) ∧
    (∀ category, category ∈ r.categories ↔ r.contains category = true) ∧ r.categories.Nodup ∧
    (∃ starts, List.Forall₂ (Began history) r.categories starts ∧ starts.Pairwise (· < ·)) ∧
    ∀ before x after, history = before ++ x :: after →
      ∃ reply, (({} : Registry η).replies history)[before.length]? = some reply ∧
        Told before x (({} : Registry η).changes before) (({} : Registry η).changes (before ++ [x]))
          reply := by
  intro history r
  have hr : Shows history r := shows_changes history
  refine ⟨registerAll_eq {} initial, List.foldl_append.symm, hr.resolve_iff, fun category => ?_,
    fun category => ?_, hr.nodup, hr.ordered, ?_⟩
  · rw [contains, resolve, Fields.has_eq_isSome, Option.isSome_map]
  · exact (Fields.has_iff_mem_keys ..).symm
  · intro before x after he
    rw [he, replies_getElem?, changes_concat]
    exact ⟨_, rfl, told_change (shows_changes before) x⟩

/-- A category that comes back stands at the end, one whose handler is replaced keeps its place. -/
example : (({} : Registry Unit).changes [.register "ui" (.handler 0 ()),
    .register "api" (.handler 1 ()), .unregister "ui", .register "ui" (.handler 0 ()),
    .register "api" (.handler 2 ()), .register "data" .other]).categories = ["api", "ui"] := by
  decide

end Registry
end Workflow
