import Workflow.Notifier

/-!
# The ledger of a notifier

Subscriptions are made and ended, also by listeners that are called while a notice is posted, and
such a listener may post again. A ledger of what was made and what was ended says at each moment
which subscriptions a notifier has: those that were made and not ended, in the order in which they
were made.

Results:
* `Tallies.subscribe`, `Tallies.unsubscribe`: the ledger after one change.
* `Scene.Runs.tallies`: the ledger at each moment, posts under way included.
* `Tallies.unsubscribe?_eq`: a subscription that is to end is always found.
-/
namespace Workflow

variable {l : Type}

/-- What is done to the subscriptions of a notifier. -/
inductive Change (l : Type) where
  | join (subscription : Subscription l)
  | leave (serial : Nat)

namespace Change

def join? : Change l → Option (Subscription l)
  | .join s => some s
  | .leave _ => none

def leave? : Change l → Option Nat
  | .join _ => none
  | .leave serial => some serial

/-- The subscriptions that were made. -/
def made (cs : List (Change l)) : List (Subscription l) := cs.filterMap join?

/-- The numbers of the subscriptions that were ended, each as often as that was asked for. -/
def left (cs : List (Change l)) : List Nat := cs.filterMap leave?

@[simp] theorem made_append (cs cs' : List (Change l)) : made (cs ++ cs') = made cs ++ made cs' :=
  List.filterMap_append

@[simp] theorem left_append (cs cs' : List (Change l)) : left (cs ++ cs') = left cs ++ left cs' :=
  List.filterMap_append

@[simp] theorem made_join (s : Subscription l) : made [.join s] = [s] := rfl

@[simp] theorem made_leave (serial : Nat) : made [(.leave serial : Change l)] = [] := rfl

@[simp] theorem left_join (s : Subscription l) : left [.join s] = [] := rfl

@[simp] theorem left_leave (serial : Nat) : left [(.leave serial : Change l)] = [serial] := rfl

@[simp] theorem mem_made {cs : List (Change l)} {s : Subscription l} :
    s ∈ made cs ↔ .join s ∈ cs := by
  refine List.mem_filterMap.trans ⟨?_, fun h => ⟨_, h, rfl⟩⟩
  rintro ⟨s' | _, hc, hs⟩
  · cases hs
    exact hc
  · cases hs

@[simp] theorem mem_left {cs : List (Change l)} {serial : Nat} :
    serial ∈ left cs ↔ .leave serial ∈ cs := by
  refine List.mem_filterMap.trans ⟨?_, fun h => ⟨_, h, rfl⟩⟩
  rintro ⟨_ | k, hc, hk⟩
  · cases hk
  · cases hk
    exact hc

/-- A subscription is ended only after it was made: there is nothing to end it with before. -/
def MadeFirst (cs : List (Change l)) : Prop :=
  ∀ before serial after, cs = before ++ .leave serial :: after →
    ∃ s ∈ made before, s.serial = serial

namespace MadeFirst

variable {cs ds : List (Change l)}

theorem nil : MadeFirst ([] : List (Change l)) := fun before serial after h => by simp at h

theorem of_append (h : MadeFirst (cs ++ ds)) : MadeFirst cs :=
  fun before serial after hc => h before serial (after ++ ds) (by simp [hc])

/-- What is ended last was made before. -/
theorem last {serial : Nat} (h : MadeFirst (cs ++ [.leave serial])) :
    ∃ s ∈ made cs, s.serial = serial :=
  h cs serial [] rfl

theorem snoc (h : MadeFirst cs) {c : Change l}
    (hc : ∀ serial, c = .leave serial → ∃ s ∈ made cs, s.serial = serial) :
    MadeFirst (cs ++ [c]) := by
  intro before serial after he
  rcases List.append_eq_append_iff.mp he with ⟨zs, rfl, hz⟩ | ⟨zs, rfl, hz⟩
  · rcases List.singleton_eq_append_iff.mp hz with ⟨rfl, hz⟩ | ⟨rfl, hz⟩
    · rw [List.append_nil]
      exact hc serial (List.cons.inj hz).1
    · cases hz
  · rcases List.cons_eq_append_iff.mp hz with ⟨rfl, hz⟩ | ⟨zs, rfl, -⟩
    · exact (hc serial (List.cons.inj hz).1.symm).imp fun s hs => ⟨by simpa using hs.1, hs.2⟩
    · exact h before serial zs rfl

theorem join (h : MadeFirst cs) (s : Subscription l) : MadeFirst (cs ++ [.join s]) := h.snoc nofun

theorem leave (h : MadeFirst cs) {s : Subscription l} (hs : s ∈ made cs) :
    MadeFirst (cs ++ [.leave s.serial]) :=
  h.snoc fun _ he => ⟨s, hs, Change.leave.inj he⟩

end MadeFirst
end Change

open Change

namespace Notifier

variable {n : Notifier l} {cs : List (Change l)}

/-- Takes the first subscription with a number out of a list, where there is one. -/
def remove (serial : Nat) : List (Subscription l) → Option (List (Subscription l))
  | [] => none
  | s :: rest => if s.serial = serial then some rest else (remove serial rest).map (s :: ·)

/-- Ends a subscription as it is done in a list: by a search for it, which fails where it is not. -/
def unsubscribe? (n : Notifier l) (serial : Nat) : Option (Notifier l) :=
  if n.isActive serial then
    (remove serial n.current).map fun rest =>
      { n with current := rest, ended := serial :: n.ended }
  else some n

theorem remove_append {before after : List (Subscription l)} {s : Subscription l}
    (h : ∀ s' ∈ before, s'.serial ≠ s.serial) :
    remove s.serial (before ++ s :: after) = some (before ++ after) := by
  induction before with
  | nil => simp [remove]
  | cons s' before ih =>
    obtain ⟨h', h⟩ := List.forall_mem_cons.mp h
    simp [remove, h', ih h]

/-! ## Changes -/

theorem isActive_iff {serial : Nat} : n.isActive serial = true ↔ serial ∉ n.ended := by
  simp [isActive]

theorem isActive_unsubscribe (n : Notifier l) (serial k : Nat) :
    (n.unsubscribe serial).isActive k = true ↔ k ≠ serial ∧ n.isActive k = true := by
  unfold unsubscribe
  split
  · simp [isActive_iff]
  · rename_i h
    refine ⟨fun hk => ⟨?_, hk⟩, And.right⟩
    rintro rfl
    exact h hk

theorem unsubscribe_next (n : Notifier l) (serial : Nat) :
    (n.unsubscribe serial).next = n.next := by
  unfold unsubscribe
  split <;> rfl

theorem unsubscribe_of_not_isActive {serial : Nat} (h : n.isActive serial = false) :
    n.unsubscribe serial = n := by
  simp [unsubscribe, h]

/-- A notifier has the subscriptions that were made and not ended. -/
structure Tallies (n : Notifier l) (cs : List (Change l)) : Prop where
  numbers : (made cs).map (·.serial) = List.range n.next
  current : n.current = (made cs).filter fun s => s.serial ∉ left cs
  active : ∀ serial, n.isActive serial = true ↔ serial ∉ left cs
  below : ∀ serial ∈ left cs, serial < n.next

namespace Tallies

theorem empty : ({} : Notifier l).Tallies [] where
  numbers := rfl
  current := rfl
  active serial := by simp [isActive, left]
  below serial hs := by cases hs

theorem mem_current (h : n.Tallies cs) {s : Subscription l} :
    s ∈ n.current ↔ s ∈ made cs ∧ n.isActive s.serial = true := by
  rw [h.current, List.mem_filter, h.active, decide_eq_true_iff]

/-- A listener subscribes. Its number has not been given yet, so it has not been ended. -/
theorem subscribe (h : n.Tallies cs) (listener : l) :
    (n.subscribe listener).1.Tallies (cs ++ [.join ⟨n.next, listener⟩]) where
  numbers := by simp [h.numbers, Notifier.subscribe, List.range_succ]
  current := by
    have hn : n.next ∉ left cs := fun hn => Nat.lt_irrefl _ (h.below n.next hn)
    rw [made_append, left_append, made_join, left_join, List.append_nil, List.filter_append,
      ← h.current]
    simp [Notifier.subscribe, hn]
  active serial := by
    rw [isActive_subscribe, h.active, left_append, left_join, List.append_nil]
  below serial hs := by
    rw [left_append, left_join, List.append_nil] at hs
    exact Nat.lt_succ_of_lt (h.below serial hs)

/-- A subscription is ended, perhaps again. -/
theorem unsubscribe (h : n.Tallies cs) {serial : Nat} (hs : serial < n.next) :
    (n.unsubscribe serial).Tallies (cs ++ [.leave serial]) where
  numbers := by simp [h.numbers, unsubscribe_next]
  current := by
    have hc : (n.unsubscribe serial).current = n.current.filter fun s => s.serial != serial := by
      unfold Notifier.unsubscribe
      split
      · rfl
      · rename_i ha
        refine (List.filter_eq_self.mpr fun s hm => bne_iff_ne.mpr ?_).symm
        rintro rfl
        exact ha (h.mem_current.mp hm).2
    rw [hc, h.current, List.filter_filter, made_append, made_leave, List.append_nil]
    refine List.filter_congr fun s _ => Bool.eq_iff_iff.mpr ?_
    simp [and_comm]
  active k := by
    rw [isActive_unsubscribe, h.active, left_append, left_leave, List.mem_append, not_or,
      List.mem_singleton, and_comm]
  below k hk := by
    rw [unsubscribe_next]
    rw [left_append, left_leave, List.mem_append, List.mem_singleton] at hk
    exact hk.elim (h.below k) (fun hk => hk ▸ hs)

/-- Subscriptions have numbers in the order in which they are made. -/
theorem made_sorted (h : n.Tallies cs) : (made cs).Pairwise (·.serial < ·.serial) := by
  have hr := List.pairwise_lt_range (n := n.next)
  rw [← h.numbers] at hr
  exact List.pairwise_map.mp hr

theorem sorted (h : n.Tallies cs) : n.current.Pairwise (·.serial < ·.serial) :=
  h.current ▸ h.made_sorted.filter _

theorem serial_lt (h : n.Tallies cs) {s : Subscription l} (hs : s ∈ made cs) :
    s.serial < n.next :=
  List.mem_range.mp (h.numbers ▸ List.mem_map_of_mem hs)

/-- Where a subscription is, there is no other with its number, and nothing else is taken out when
it ends. -/
theorem split (h : n.Tallies cs) {s : Subscription l} (hs : s ∈ n.current) :
    ∃ before after, n.current = before ++ s :: after ∧
      (n.unsubscribe s.serial).current = before ++ after ∧
      remove s.serial n.current = some (before ++ after) := by
  obtain ⟨before, after, hc⟩ := List.append_of_mem hs
  have hp := h.sorted
  rw [hc, List.pairwise_append, List.pairwise_cons] at hp
  obtain ⟨-, ⟨ha, -⟩, hb⟩ := hp
  have hbefore (s' : Subscription l) (hs' : s' ∈ before) : s'.serial ≠ s.serial :=
    Nat.ne_of_lt (hb s' hs' s (List.mem_cons_self ..))
  have hafter (s' : Subscription l) (hs' : s' ∈ after) : s'.serial ≠ s.serial :=
    Nat.ne_of_gt (ha s' hs')
  refine ⟨before, after, hc, ?_, hc ▸ remove_append hbefore⟩
  rw [Notifier.unsubscribe, if_pos (h.mem_current.mp hs).2, hc]
  simp only [List.filter_append, List.filter_cons, bne_self_eq_false, Bool.false_eq_true, if_false]
  rw [List.filter_eq_self.mpr fun s' hs' => bne_iff_ne.mpr (hbefore s' hs'),
    List.filter_eq_self.mpr fun s' hs' => bne_iff_ne.mpr (hafter s' hs')]

/-- A subscription that is to end is found if it is active. -/
theorem unsubscribe?_eq (h : n.Tallies cs) {s : Subscription l} (hs : s ∈ made cs) :
    n.unsubscribe? s.serial = some (n.unsubscribe s.serial) := by
  cases ha : n.isActive s.serial with
  | false => simp [unsubscribe?, Notifier.unsubscribe, ha]
  | true =>
    obtain ⟨before, after, -, hu, hr⟩ := h.split (h.mem_current.mpr ⟨hs, ha⟩)
    rw [Notifier.unsubscribe, if_pos ha] at hu ⊢
    simp only at hu
    simp [unsubscribe?, ha, hr, hu]

end Tallies
end Notifier

/-! ## Posts under way -/

/-- A notifier while notices are posted, perhaps one within another. Of each post that is under way,
the innermost first, it has the subscriptions whose turn is still to come. -/
structure Scene (l : Type) where
  due : List (List (Subscription l)) := []
  notifier : Notifier l := {}

namespace Scene

open Notifier

variable {c c' : Scene l} {cs ds : List (Change l)}

/-- What can happen next. A post begins with the subscriptions that there are by then. Who is called
may subscribe listeners, end subscriptions and post; if it raises an error, the next turn comes all
the same. -/
inductive Step : Scene l → List (Change l) → Scene l → Prop where
  | subscribe {due : List (List (Subscription l))} {n : Notifier l} (listener : l) :
    Step ⟨due, n⟩ [.join ⟨n.next, listener⟩] ⟨due, (n.subscribe listener).1⟩
  | unsubscribe {due : List (List (Subscription l))} {n : Notifier l} (serial : Nat) :
    Step ⟨due, n⟩ [.leave serial] ⟨due, n.unsubscribe serial⟩
  | post {due : List (List (Subscription l))} {n : Notifier l} :
    Step ⟨due, n⟩ [] ⟨n.current :: due, n⟩
  | call {due : List (List (Subscription l))} {n : Notifier l} {s : Subscription l}
    {rest : List (Subscription l)} (h : n.isActive s.serial = true) :
    Step ⟨(s :: rest) :: due, n⟩ [] ⟨rest :: due, n⟩
  | pass {due : List (List (Subscription l))} {n : Notifier l} {s : Subscription l}
    {rest : List (Subscription l)} (h : n.isActive s.serial = false) :
    Step ⟨(s :: rest) :: due, n⟩ [] ⟨rest :: due, n⟩
  | close {due : List (List (Subscription l))} {n : Notifier l} : Step ⟨[] :: due, n⟩ [] ⟨due, n⟩

/-- What has happened between two moments, with the changes that were made. -/
inductive Runs : Scene l → List (Change l) → Scene l → Prop where
  | rest (c : Scene l) : Runs c [] c
  | step {c c' c'' : Scene l} {cs ds : List (Change l)} (h : Runs c cs c') (hs : Step c' ds c'') :
    Runs c (cs ++ ds) c''

theorem Step.run (h : c.Step ds c') : c.Runs ds c' := .step (.rest c) h

theorem Runs.trans {c'' : Scene l} (h : c.Runs cs c') (h' : c'.Runs ds c'') :
    c.Runs (cs ++ ds) c'' := by
  induction h' with
  | rest => rwa [List.append_nil]
  | step _ hs ih => exact List.append_assoc .. ▸ ih.step hs

/-- One step, seen in the ledger. -/
theorem Step.tallies (h : c.Step ds c') (ht : c.notifier.Tallies cs) (ha : MadeFirst (cs ++ ds)) :
    c'.notifier.Tallies (cs ++ ds) := by
  cases h with
  | subscribe listener => exact ht.subscribe listener
  | unsubscribe serial =>
    obtain ⟨s, hs, rfl⟩ := ha.last
    exact ht.unsubscribe (ht.serial_lt hs)
  | post => rwa [List.append_nil]
  | call => rwa [List.append_nil]
  | pass => rwa [List.append_nil]
  | close => rwa [List.append_nil]

/-- Whatever has happened, the ledger says which subscriptions there are. -/
theorem Runs.tallies (h : Runs {} cs c) (ha : MadeFirst cs) : c.notifier.Tallies cs := by
  induction h with
  | rest => exact .empty
  | step _ hs ih => exact hs.tallies (ih ha.of_append) ha

/-- What is active stays so until it is ended. -/
theorem Runs.isActive_iff (h : Runs c cs c') (serial : Nat) :
    c'.notifier.isActive serial = true ↔ c.notifier.isActive serial = true ∧ serial ∉ left cs := by
  induction h with
  | rest => simp [left]
  | step _ hs ih =>
    rw [left_append, List.mem_append, not_or, ← and_assoc, ← ih]
    cases hs with
    | subscribe listener => simp [isActive_subscribe]
    | unsubscribe k => rw [isActive_unsubscribe, left_leave, List.mem_singleton, and_comm]
    | _ => simp [left]

/-- Numbers are given in turn, so what is made meanwhile has a number of its own. -/
theorem Runs.next_le (h : Runs c cs c') : c.notifier.next ≤ c'.notifier.next ∧
    ∀ s ∈ made cs, c.notifier.next ≤ s.serial := by
  induction h with
  | rest => simp [made]
  | step _ hs ih =>
    rw [made_append]
    simp only [List.mem_append, or_imp, forall_and]
    cases hs with
    | subscribe listener => exact ⟨Nat.le_succ_of_le ih.1, ih.2, by simpa using ih.1⟩
    | unsubscribe k =>
      refine ⟨Nat.le_trans ih.1 ?_, ih.2, by simp⟩
      exact Nat.le_of_eq (unsubscribe_next _ k).symm
    | _ => exact ⟨ih.1, ih.2, by simp [made]⟩

/-- A subscription was there before, or it has a new number. -/
theorem Runs.mem_current (h : Runs c cs c') {s : Subscription l} (hs : s ∈ c'.notifier.current) :
    s ∈ c.notifier.current ∨ c.notifier.next ≤ s.serial := by
  induction h with
  | rest => exact .inl hs
  | step h hstep ih =>
    cases hstep with
    | subscribe listener =>
      rcases List.mem_append.mp hs with hs | hs
      · exact ih hs
      · rw [List.mem_singleton.mp hs]
        exact .inr h.next_le.1
    | unsubscribe k =>
      refine ih ?_
      unfold Notifier.unsubscribe at hs
      split at hs
      · exact (List.mem_filter.mp hs).1
      · exact hs
    | _ => exact ih hs

end Scene
end Workflow
