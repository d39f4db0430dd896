import Workflow.Proofs.Engine.Journal

/-!
# Trails

What a journal tells of a machine: the calls that have come to it, and what those have done that
have got through.

Results:
* `trail_noted`: a line that is noted goes to the end.
* `nothing_elsewhere`: lines about calls on one machine tell nothing of another.
-/
namespace Workflow

variable {μ : Type}

/-- A journal without the engines in it. -/
def trail (ls : List (Line μ)) : List (Call × Mark μ) := ls.map fun l => (l.call, l.mark)

theorem trail_noted (b : Book μ) (c : Call) (mark : Mark μ) :
    trail (Book.noted b c mark).2 = trail b.2 ++ [(c, mark)] := List.map_append

/-- The call that has come to a machine, if a line says so. -/
def arrival? (i : Nat) (l : Call × Mark μ) : Option Call :=
  match l.2 with
  | .arrived => if l.1.machine = i then some l.1 else none
  | _ => none

/-- The calls that have come to a machine, in their order. -/
def arrivals (i : Nat) (ls : List (Call × Mark μ)) : List Call := ls.filterMap (arrival? i)

/-- Does a line tell what a call on a machine does that has got through? -/
def isWork (i : Nat) (l : Call × Mark μ) : Bool :=
  match l.2 with
  | .arrived | .refused | .subscribed .. => false
  | .admitted | .did _ | .left _ => l.1.machine == i

/-- What the calls on a machine have done that have got through. -/
def work (i : Nat) (ls : List (Call × Mark μ)) : List (Call × Mark μ) := ls.filter (isWork i)

/-- The call that leaves with a line, and its result. -/
def departure? : Call × Mark μ → Option (Call × Except CallFault Bool)
  | (c, .left r) => some (c, r)
  | _ => none

/-- The calls that leave, and their results. -/
def departures (ls : List (Call × Mark μ)) : List (Call × Except CallFault Bool) :=
  ls.filterMap departure?

theorem arrivals_append (i : Nat) (ls ls' : List (Call × Mark μ)) :
    arrivals i (ls ++ ls') = arrivals i ls ++ arrivals i ls' := List.filterMap_append

theorem work_append (i : Nat) (ls ls' : List (Call × Mark μ)) :
    work i (ls ++ ls') = work i ls ++ work i ls' := List.filter_append ..

theorem departures_append (ls ls' : List (Call × Mark μ)) :
    departures (ls ++ ls') = departures ls ++ departures ls' := List.filterMap_append

theorem departures_did (c : Call) (ds : List (Deed (Handler μ))) :
    departures (ds.map fun d => (c, Mark.did d)) = [] := by
  induction ds with
  | nil => rfl
  | cons d ds ih => exact ih

theorem arrivals_did (i : Nat) (c : Call) (ds : List (Deed (Handler μ))) :
    arrivals i (ds.map fun d => (c, Mark.did d)) = [] := by
  induction ds with
  | nil => rfl
  | cons d ds ih => exact ih

theorem work_did (c : Call) (ds : List (Deed (Handler μ))) :
    work c.machine (ds.map fun d => (c, Mark.did d)) = ds.map fun d => (c, .did d) := by
  refine List.filter_eq_self.mpr fun l hl => ?_
  obtain ⟨d, -, rfl⟩ := List.mem_map.mp hl
  exact beq_self_eq_true _

theorem arrivals_noted {mark : Mark μ} (i : Nat) (b : Book μ) (c : Call)
    (h : mark ≠ .arrived := by simp) :
    arrivals i (trail (Book.noted b c mark).2) = arrivals i (trail b.2) := by
  rw [trail_noted, arrivals_append]
  cases mark <;> simp_all [arrivals, arrival?]

/-- Lines about calls on another machine tell nothing of this one. -/
theorem nothing_elsewhere {i : Nat} {ls : List (Call × Mark μ)} (h : ∀ l ∈ ls, l.1.machine ≠ i) :
    arrivals i ls = [] ∧ work i ls = [] := by
  constructor
  · refine List.filterMap_eq_nil_iff.mpr fun l hl => ?_
    have := h l hl
    unfold arrival?
    split <;> simp [this]
  · refine List.filter_eq_nil_iff.mpr fun l hl => ?_
    have := h l hl
    unfold isWork
    split <;> simp [this]

/-- The call that gets through with a line. -/
def admission? : Call × Mark μ → Option Call
  | (c, .admitted) => some c
  | _ => none

/-- The calls that get through, in their order. -/
def admissions (ls : List (Call × Mark μ)) : List Call := ls.filterMap admission?

theorem admissions_append (ls ls' : List (Call × Mark μ)) :
    admissions (ls ++ ls') = admissions ls ++ admissions ls' := List.filterMap_append

theorem admissions_did (c : Call) (ds : List (Deed (Handler μ))) :
    admissions (ds.map fun d => (c, Mark.did d)) = [] := by
  induction ds with
  | nil => rfl
  | cons d ds ih => exact ih

/-- At most one of the calls that have got through has not left, the last one. -/
def OneInside (ls : List (Call × Mark μ)) : Prop :=
  (departures ls).map (·.1) <+: admissions ls ∧
    (admissions ls).length ≤ (departures ls).length + 1

end Workflow
