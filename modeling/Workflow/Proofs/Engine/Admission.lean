import Mathlib.Data.List.Induction
import Workflow.Proofs.Engine.Alongside
import Workflow.Proofs.Engine.Nested
import Workflow.Proofs.Engine.Refusing
import Workflow.Proofs.Engine.Silent

/-!
# Admission to machines that refuse calls

A call on a machine that refuses calls is told that the machine is busy exactly if another call is
inside when it arrives. Then it does nothing else; otherwise it goes on at once. So where no calls
overlap, it makes no difference whether a machine refuses calls or has them wait.

Results:
* `Call.turn_refused`, `Call.turn_admitted`: how a call goes on that arrives.
* `Exact.overlaps_iff`: calls are refused if calls overlap, and only then.
* `admission_exact`: **admission is exact**, wherever scripts come to.
-/
namespace Workflow

variable {μ α : Type}

/-! ## A call that arrives -/

section
variable [Recorder μ] {c : Call} {m : Machine} {s : Shared (Engine μ)} {most : Nat}
  {k : Except CallFault Bool → Process (Engine μ) α}

/-- A call that meets another one is told so, and nothing else becomes of it. -/
theorem Call.turn_refused (hm : s.state.machines[c.machine]? = some m) (hr : m.sends = .reject)
    (hd : c.delay = 0) (hl : (s.locks c.machine).held = true) (n : Nat) :
    ((c.process most).bind k).turn n s = (k (.error (.busy m.name))).turn n s := by
  rw [process_eq, hd]
  simp [Process.pauses, Engine.underLock, Process.read, Process.bind, Process.turn, hm, hr, hl]

/-- A call that meets no other one goes on in the same turn. -/
theorem Call.turn_admitted (hm : s.state.machines[c.machine]? = some m) (hd : c.delay = 0)
    (hl : (s.locks c.machine).held = false) (n : Nat) :
    ((c.process most).bind k).turn n s =
      ((Engine.ofFlow (Engine.sendWithin most) c.machine (c.flow m)).bind fun r =>
        .give c.machine (k r)).turn n (s.hold c.machine) := by
  rw [process_eq, hd]
  have hs : (s.hold c.machine).state = s.state := rfl
  simp only [Process.pauses, Engine.underLock, Process.bind, Process.turn, hl, if_true,
    Process.read, hs, hm, Option.getD_some, Process.bind_assoc, id]
  rfl

end

/-! ## Calls that overlap -/

/-- In a journal, a call arrives at a machine while another one is inside. -/
def Overlaps (i : Nat) (ls : List (Line μ)) : Prop :=
  ∃ before l after, ls = before ++ l :: after ∧ l.call.machine = i ∧ l.mark = .arrived ∧
    visit? i before ≠ none

/-- At a machine that refuses calls, calls are refused if calls overlap, and only then. -/
theorem Exact.overlaps_iff {i : Nat} {ls : List (Line μ)} (h : Exact i ls) :
    Overlaps i ls ↔ ∃ l ∈ ls, l.call.machine = i ∧ l.mark = .refused := by
  constructor
  · rintro ⟨before, l, after, hs, hi, hm, hv⟩
    obtain ⟨rest, rfl⟩ := h.arrived hs hi hm
    obtain ⟨v, hv⟩ := Option.ne_none_iff_exists'.mp hv
    exact ⟨⟨l.call, answer (visit? i before), l.engine⟩, by simp [hs], hi, by rw [hv]; rfl⟩
  · rintro ⟨l, hl, hi, hm⟩
    obtain ⟨before, after, hs⟩ := List.append_of_mem hl
    obtain ⟨past, rfl, ha⟩ := h.answered hs (by simp [Line.isDoor, hm, hi]) (by simp [hm])
    refine ⟨past, ⟨l.call, .arrived, l.engine⟩, l :: after, by simp [hs], hi, rfl, fun hv => ?_⟩
    rw [hv, hm] at ha
    cases ha

/-- Which call is inside does not depend on what machines do with others. -/
theorem visit?_relaxed (which : Nat → Bool) (i : Nat) (ls : List (Line μ)) :
    visit? i (ls.map (Line.relaxed which)) = none ↔ visit? i ls = none := by
  induction ls using List.reverseRecOn with
  | nil => exact Iff.rfl
  | append_singleton ls l ih =>
    obtain ⟨c, mark, e⟩ := l
    have hl : Line.relaxed which ⟨c, mark, e⟩ = ⟨c, mark, e.relaxed which⟩ := rfl
    rw [List.map_append, List.map_singleton, hl, visit?_concat, visit?_concat]
    unfold Visit.next?
    by_cases hi : c.machine = i
    · cases mark <;> simp [hi, ih]
    · simp [hi, ih]

/-- Where two runs have parted, calls overlap in both. -/
theorem Parted.overlaps {which : Nat → Bool} {b b' : Book μ} {ls : List (Line μ)} {c : Call}
    {e : Engine μ} (h : Parted which b b' ls c e) (hx : Exact c.machine b.2) :
    Overlaps c.machine b.2 ∧ Overlaps c.machine b'.2 := by
  obtain ⟨more, hb⟩ := h.refused
  obtain ⟨more', hb'⟩ := h.common
  rw [List.append_assoc, List.singleton_append] at hb
  obtain ⟨past, rfl, ha⟩ := hx.answered hb.symm (by simp [Line.isDoor]) (by simp)
  have hv : visit? c.machine past ≠ none := fun hv => by
    rw [hv] at ha
    cases ha
  refine ⟨⟨past, ⟨c, .arrived, e⟩, _, by rw [← hb, List.append_assoc]; rfl, rfl, rfl, hv⟩, ?_⟩
  refine ⟨past.map (Line.relaxed which), ⟨c, .arrived, e.relaxed which⟩, more', ?_, rfl, rfl,
    fun hn => hv ((visit?_relaxed ..).mp hn)⟩
  rw [← hb', List.map_append, List.append_assoc]
  rfl

/-! ## Scripts -/

variable [Recorder μ]

/-- Wherever scripts come to, machines that refuse calls do so exactly. -/
theorem Script.admits {most : Nat} {e : Engine μ} {xs : List (Script μ)} {p : Pool (Book μ) Unit}
    (h : (Pool.ofTasks (e, []) (xs.map (watch most))).Reaches p) {i : Nat}
    (hi : e.sends? i = some .reject) : p.state.1.sends? i = some .reject ∧
      (p.locks i).waiting = [] ∧ ((p.locks i).held = true ↔ visit? i p.state.2 ≠ none) ∧
      Exact i p.state.2 := by
  have hp := refusing h
  obtain ⟨_, -, hset⟩ := hp.shared
  obtain ⟨hw, hh⟩ := hp.shown (Refusing.strict_iff.mpr hi)
  refine ⟨(hset.always.sends i).trans hi, hw, ?_, hset.always.exact i hi⟩
  rw [hh]
  exact Option.isSome_iff_ne_none

/-- **Admission to machines that refuse calls is exact.** Let calls nest as deep as there are
machines. At every moment of a run of scripts, nobody waits for the lock of a machine that refuses
calls, and the lock is held if and only if a call is inside, that is, from when the call was let in
until it left, whatever it came to. Each call that arrives at such a machine is refused right away
if another one is inside, and else let in right away; nobody else is told that the machine is busy.
Who makes a call that is refused goes on with that error at once, as if no call had been made, and a
call that is let in goes on in the same turn. So calls are refused only where they overlap; and
where they do not, be it in the run on these machines or in the one where they have calls wait, both
runs are the same, with the same lines and results. -/
theorem admission_exact (most : Nat) (e : Engine μ) (xs : List (Script μ))
    (hd : e.machines.length ≤ most + 1) :
    (∀ p, (Pool.ofTasks e (xs.map (Script.process most))).Reaches p →
      ∃ ls, Script.Comes most e xs (p.state, ls) ∧
        (∀ l ∈ ls, ∀ r, l.mark = .left r → ¬IsBusy r) ∧
        ∀ i, e.sends? i = some .reject → p.state.sends? i = some .reject ∧
          (p.locks i).waiting = [] ∧ ((p.locks i).held = true ↔ visit? i ls ≠ none) ∧
          Exact i ls ∧
          (Overlaps i ls ↔ ∃ l ∈ ls, l.call.machine = i ∧ l.mark = .refused)) ∧
    (∀ (c : Call) (k : Except CallFault Bool → Process (Engine μ) Unit) (m : Machine) (n : Nat)
      (s : Shared (Engine μ)), s.state.machines[c.machine]? = some m → m.sends = .reject →
        c.delay = 0 → ((c.process most).bind k).turn n s =
          if (s.locks c.machine).held then (k (.error (.busy m.name))).turn n s
          else ((Engine.ofFlow (Engine.sendWithin most) c.machine (c.flow m)).bind fun r =>
            .give c.machine (k r)).turn n (s.hold c.machine)) ∧
    ∀ which : Nat → Bool, (∀ i, which i = true → e.sends? i = some .reject) →
      ((∀ i, which i = true → ¬Overlaps i (Script.watched most e xs).state.2) ∨
        ∀ i, which i = true → ¬Overlaps i (Script.watched most (e.relaxed which) xs).state.2) →
      (Script.watched most (e.relaxed which) xs).toShared =
          (Script.watched most e xs).toShared.relaxed which ∧
        ∀ n, (Script.watched most (e.relaxed which) xs).result? n =
          (Script.watched most e xs).result? n := by
  refine ⟨fun p hp => ?_, fun c k m n s hm hr hc => ?_, fun which hwhich hover => ?_⟩
  · obtain ⟨q, hq, hpq⟩ := (Script.mirrors_ofTasks most e xs).reaches hp
    have hstate : p.state = q.state.1 := congrArg Shared.state hpq.shared
    have hlocks : p.locks = q.locks := congrArg Shared.locks hpq.shared
    have hcomes : Script.Comes most e xs (p.state, q.state.2) :=
      ⟨q, hq, Prod.ext hstate.symm rfl⟩
    refine ⟨q.state.2, hcomes, (hcomes.notBusy hd).left, fun i hi => ?_⟩
    obtain ⟨hsends, hwaiting, hheld, hexact⟩ := Script.admits hq hi
    rw [hstate, hlocks]
    exact ⟨hsends, hwaiting, hheld, hexact, hexact.overlaps_iff⟩
  · split
    · rename_i hl
      exact Call.turn_refused hm hr hc hl n
    · rename_i hl
      exact Call.turn_admitted hm hc (by simpa using hl) n
  · rcases Script.follows_watched most e xs with h | ⟨ls, c, e', h⟩
    · exact ⟨h.shared, h.result?⟩
    · -- the first call that is refused on the one engine only overlaps with another one
      have hc := h.relaxed
      obtain ⟨-, -, -, hexact⟩ := Script.admits (Pool.reaches_run _) (hwhich _ hc)
      obtain ⟨ho, ho'⟩ := h.overlaps hexact
      rcases hover with hover | hover
      · exact absurd ho (hover _ hc)
      · exact absurd ho' (hover _ hc)

/-- Two tasks send the event to the machine that refuses calls, at the same time, and one of them
again behind its first call. -/
def closeAtOnce : List (Script Unit) :=
  let close (caller : Nat) : Call := { caller, machine := 1, event := some { type := "CLOSE" } }
  [.call (close 0) fun _ => .call (close 0) fun _ => .stop, .call (close 1) fun _ => .stop]

/-- The word for what is noted of a call when it comes to a machine or leaves it. -/
def Mark.admission? : Mark μ → Option String
  | .arrived => some "arrived"
  | .refused => some "refused"
  | .admitted => some "admitted"
  | .left _ => some "left"
  | _ => none

theorem closeAtOnce_admissions :
    (Script.watched 1 failingEngine closeAtOnce).state.2.filterMap
        (fun l => l.mark.admission?.map (l.call.caller, ·)) =
      [(0, "arrived"), (0, "admitted"), (1, "arrived"), (1, "refused"), (0, "left"),
        (0, "arrived"), (0, "admitted"), (0, "left")] := by
  rw [Script.watched, Pool.run_eq_runFor 8 (by decide +kernel)]
  decide +kernel

theorem admission_exact_refused : failingEngine.machines.length ≤ 1 + 1 ∧
    failingEngine.sends? 1 = some .reject ∧
    (Script.watched 1 failingEngine closeAtOnce).state.2.filterMap
        (fun l => l.mark.admission?.map (l.call.caller, ·)) =
      [(0, "arrived"), (0, "admitted"), (1, "arrived"), (1, "refused"), (0, "left"),
        (0, "arrived"), (0, "admitted"), (0, "left")] ∧
    ∀ p, (Pool.ofTasks failingEngine (closeAtOnce.map (Script.process 1))).Reaches p →
      ∃ ls, Script.Comes 1 failingEngine closeAtOnce (p.state, ls) ∧ (p.locks 1).waiting = [] ∧
        ((p.locks 1).held = true ↔ visit? 1 ls ≠ none) ∧ Exact 1 ls := by
  have hd : failingEngine.machines.length ≤ 1 + 1 := by decide
  have hr : failingEngine.sends? 1 = some .reject := rfl
  refine ⟨hd, hr, closeAtOnce_admissions, fun p hp => ?_⟩
  obtain ⟨ls, hcomes, -, h⟩ := (admission_exact 1 failingEngine closeAtOnce hd).1 p hp
  obtain ⟨-, hwaiting, hheld, hexact, -⟩ := h 1 hr
  exact ⟨ls, hcomes, hwaiting, hheld, hexact⟩

end Workflow
