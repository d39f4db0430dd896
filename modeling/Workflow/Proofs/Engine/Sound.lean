import Workflow.Proofs.Engine.Script

/-!
# Sound journals

What a journal of scripts that run side by side may say: a call gets through to a machine where all
calls have left, it does what it does while it is inside, it leaves as soon as it has announced its
machine, and what it reports before its first action it reports of the state and the context that it
found.

Results:
* `Sound.status`: at all times a machine is free, or one call is inside.
* `Sound.inPlace`: what is announced, and what is reported early, is in its place.
-/
namespace Workflow

variable {μ : Type}

/-- All calls have left that got through to a machine. -/
def Free (i : Nat) (ls : List (Line μ)) : Prop :=
  admissions (work i (trail ls)) = (departures (work i (trail ls))).map (·.1)

/-- All calls have left that got through to the machine of a call, but that call. -/
def Inside (c : Call) (ls : List (Line μ)) : Prop :=
  admissions (work c.machine (trail ls)) =
    (departures (work c.machine (trail ls))).map (·.1) ++ [c]

/-- The engine that the call found that is inside a machine, if one is. -/
def inside? (i : Nat) (ls : List (Line μ)) : Option (Engine μ) :=
  ls.foldl (fun e? l => match l.mark with
    | .admitted => if l.call.machine = i then some l.engine else e?
    | .left _ => if l.call.machine = i then none else e?
    | _ => e?) none

/-- A journal says nothing that is out of place. -/
inductive Sound : List (Line μ) → Prop where
  | nil : Sound []
  | beside {ls : List (Line μ)} (h : Sound ls) (l : Line μ)
    (hl : ∀ i, isWork i (l.call, l.mark) = false) : Sound (ls ++ [l])
  | admitted {ls : List (Line μ)} (h : Sound ls) {c : Call} (e : Engine μ)
    (hf : Free c.machine ls) : Sound (ls ++ [⟨c, .admitted, e⟩])
  | did {ls : List (Line μ)} (h : Sound ls) {c : Call} {d : Deed (Handler μ)} {e : Engine μ}
    (hi : Inside c ls) (ha : d ≠ .announced)
    (hr : ∀ r, d = .reported r → (∀ f, r ≠ .actionFailed f) →
      ∃ e', inside? c.machine ls = some e' ∧ e'.pair? c.machine = e.pair? c.machine) :
    Sound (ls ++ [⟨c, .did d, e⟩])
  | left {ls : List (Line μ)} (h : Sound ls) {c : Call} (r : Except CallFault Bool) (e : Engine μ)
    (hi : Inside c ls) : Sound (ls ++ [⟨c, .left r, e⟩])
  | announced {ls : List (Line μ)} (h : Sound ls) {c : Call} (r : Except CallFault Bool)
    {e e' : Engine μ} (hi : Inside c ls) (hm : e'.machines = e.machines) :
    Sound (ls ++ [⟨c, .did .announced, e⟩, ⟨c, .left r, e'⟩])

/-! ## One call at most is inside -/

theorem work_concat_of {i : Nat} {l : Line μ} (hl : isWork i (l.call, l.mark) = true)
    (ls : List (Line μ)) :
    work i (trail (ls ++ [l])) = work i (trail ls) ++ [(l.call, l.mark)] := by
  rw [trail, List.map_append, work_append]
  simp [trail, work, hl]

theorem work_concat {i : Nat} {l : Line μ} (hl : isWork i (l.call, l.mark) = false)
    (ls : List (Line μ)) : work i (trail (ls ++ [l])) = work i (trail ls) := by
  rw [trail, List.map_append, work_append]
  simp [trail, work, hl]

theorem Free.admitted {c : Call} {ls : List (Line μ)} (h : Free c.machine ls) (e : Engine μ) :
    Inside c (ls ++ [⟨c, .admitted, e⟩]) := by
  unfold Inside
  rw [work_concat_of (by simp [isWork]), admissions_append, departures_append, h]
  simp [admissions, admission?, departures, departure?]

theorem Inside.did {c : Call} {ls : List (Line μ)} (h : Inside c ls) (d : Deed (Handler μ))
    (e : Engine μ) : Inside c (ls ++ [⟨c, .did d, e⟩]) := by
  have ha : admissions [((c, .did d) : Call × Mark μ)] = [] := admissions_did c [d]
  have hd : departures [((c, .did d) : Call × Mark μ)] = [] := departures_did c [d]
  unfold Inside
  rw [work_concat_of (by simp [isWork]), admissions_append, departures_append, h, ha, hd]
  simp

theorem Inside.left {c : Call} {ls : List (Line μ)} (h : Inside c ls) (r : Except CallFault Bool)
    (e : Engine μ) : Free c.machine (ls ++ [⟨c, .left r, e⟩]) := by
  unfold Free
  rw [work_concat_of (by simp [isWork]), admissions_append, departures_append, h]
  simp [admissions, admission?, departures, departure?]

theorem inside?_concat (i : Nat) (ls : List (Line μ)) (l : Line μ) :
    inside? i (ls ++ [l]) = match l.mark with
      | .admitted => if l.call.machine = i then some l.engine else inside? i ls
      | .left _ => if l.call.machine = i then none else inside? i ls
      | _ => inside? i ls := List.foldl_concat ..

theorem inside?_concat_did (i : Nat) (ls : List (Line μ)) (c : Call) (d : Deed (Handler μ))
    (e : Engine μ) : inside? i (ls ++ [⟨c, .did d, e⟩]) = inside? i ls := inside?_concat ..

/-- A machine is free, or one call is inside that has found a certain engine. -/
inductive Status (i : Nat) (ls : List (Line μ)) : Prop where
  | free (hf : Free i ls) (hn : inside? i ls = none)
  | inside {c : Call} {e : Engine μ} (hc : c.machine = i) (hi : Inside c ls)
    (hs : inside? i ls = some e)

theorem Status.oneInside {i : Nat} {ls : List (Line μ)} (h : Status i ls) :
    OneInside (work i (trail ls)) := by
  cases h with
  | free hf _ =>
    have hl := congrArg List.length hf
    rw [List.length_map] at hl
    refine ⟨hf ▸ List.prefix_rfl, ?_⟩
    omega
  | inside hc hi _ =>
    subst hc
    have hl := congrArg List.length hi
    rw [List.length_append, List.length_map, List.length_singleton] at hl
    refine ⟨hi ▸ List.prefix_append .., ?_⟩
    omega

/-- A line that tells nothing of a machine leaves it as it is. -/
theorem Status.beside {i : Nat} {ls : List (Line μ)} (h : Status i ls) {l : Line μ}
    (hl : isWork i (l.call, l.mark) = false) : Status i (ls ++ [l]) := by
  have hw := work_concat hl ls
  have hs : inside? i (ls ++ [l]) = inside? i ls := by
    rw [inside?_concat]
    unfold isWork at hl
    split
    · simp_all
    · simp_all
    · rfl
  cases h with
  | free hf hn =>
    refine .free ?_ (hs.trans hn)
    unfold Free
    rw [hw]
    exact hf
  | inside hc hi he =>
    refine .inside hc ?_ (hs.trans he)
    subst hc
    unfold Inside
    rw [hw]
    exact hi

theorem Status.did {c : Call} {ls : List (Line μ)} (h : Status c.machine ls) (hi : Inside c ls)
    (d : Deed (Handler μ)) (e : Engine μ) : Status c.machine (ls ++ [⟨c, .did d, e⟩]) := by
  cases h with
  | free hf _ =>
    have hl := congrArg List.length (hf.symm.trans hi)
    rw [List.length_append, List.length_singleton] at hl
    omega
  | inside _ _ hs => exact .inside rfl (hi.did d e) ((inside?_concat_did ..).trans hs)

theorem isWork_elsewhere {i : Nat} {l : Call × Mark μ} (h : l.1.machine ≠ i) :
    isWork i l = false := by
  unfold isWork
  split
  · rfl
  · rfl
  · rfl
  · exact beq_false_of_ne h
  · exact beq_false_of_ne h
  · exact beq_false_of_ne h

/-- What is no work of any machine is no deed of a call. -/
theorem Line.ne_did {l : Line μ} (h : ∀ i, isWork i (l.call, l.mark) = false)
    (d : Deed (Handler μ)) : l.mark ≠ .did d := fun hd => by
  have := h l.call.machine
  simp [isWork, hd] at this

/-- What is no work of any machine lets no call out. -/
theorem Line.ne_left {l : Line μ} (h : ∀ i, isWork i (l.call, l.mark) = false)
    (r : Except CallFault Bool) : l.mark ≠ .left r := fun hr => by
  have := h l.call.machine
  simp [isWork, hr] at this

/-- In a sound journal, each machine is free at all times, or one call is inside. -/
theorem Sound.status {ls past : List (Line μ)} (h : Sound ls) (hp : past <+: ls) (i : Nat) :
    Status i past := by
  -- a line is added to a journal of which this is known
  have concat {ls past : List (Line μ)} {l : Line μ} (ih : ∀ past, past <+: ls → Status i past)
      (hs : l.call.machine = i → Status i (ls ++ [l])) (hp : past <+: ls ++ [l]) :
      Status i past := by
    rcases List.prefix_concat_iff.mp hp with rfl | hp
    · by_cases hi : l.call.machine = i
      · exact hs hi
      · exact (ih ls List.prefix_rfl).beside (isWork_elsewhere hi)
    · exact ih past hp
  induction h generalizing past with
  | nil =>
    rw [List.prefix_nil.mp hp]
    exact .free rfl rfl
  | beside _ l hl ih =>
    exact concat (fun _ h => ih h) (fun _ => (ih List.prefix_rfl).beside (hl i)) hp
  | admitted _ e hf ih =>
    refine concat (fun _ h => ih h) (fun hi => ?_) hp
    subst hi
    exact .inside rfl (hf.admitted e) ((inside?_concat ..).trans (if_pos rfl))
  | did _ hi _ _ ih =>
    refine concat (fun _ h => ih h) (fun hc => ?_) hp
    subst hc
    exact (ih List.prefix_rfl).did hi _ _
  | left _ r e hi ih =>
    refine concat (fun _ h => ih h) (fun hc => ?_) hp
    subst hc
    exact .free (hi.left r e) ((inside?_concat ..).trans (if_pos rfl))
  | @announced ls _ c r e e' hi hm ih =>
    rw [List.append_cons] at hp
    have hd {past : List (Line μ)} (hp : past <+: ls ++ [⟨c, .did .announced, e⟩]) :
        Status i past := by
      refine concat (fun _ h => ih h) (fun hc => ?_) hp
      subst hc
      exact (ih List.prefix_rfl).did hi _ _
    refine concat (fun _ h => hd h) (fun hc => ?_) hp
    subst hc
    exact .free ((hi.did _ _).left r e') ((inside?_concat ..).trans (if_pos rfl))

/-- One call at most is inside a machine. -/
theorem Sound.oneInside {ls past : List (Line μ)} (h : Sound ls) (hp : past <+: ls) (i : Nat) :
    OneInside (work i (trail past)) := (h.status hp i).oneInside

/-! ## Announcements and early reports -/

/-- What a line says is in its place: a call leaves as soon as it has announced its machine, and
what is reported of other things than failed actions is reported of the state and the context that
the call has found. -/
structure InPlace (before : List (Line μ)) (l : Line μ) (after : List (Line μ)) : Prop where
  leaves : l.mark = .did .announced → ∃ r e rest,
    after = ⟨l.call, .left r, e⟩ :: rest ∧ e.machines = l.engine.machines
  reported : ∀ r, l.mark = .did (.reported r) → (∀ f, r ≠ .actionFailed f) →
    ∃ e, inside? l.call.machine before = some e ∧
      e.pair? l.call.machine = l.engine.pair? l.call.machine

theorem InPlace.append {before after : List (Line μ)} {l : Line μ} (h : InPlace before l after)
    (ls : List (Line μ)) : InPlace before l (after ++ ls) where
  leaves hl := by
    obtain ⟨r, e, rest, rfl, hm⟩ := h.leaves hl
    exact ⟨r, e, rest ++ ls, rfl, hm⟩
  reported := h.reported

/-- A line that is no deed is in its place anywhere. -/
theorem inPlace_of_ne {before after : List (Line μ)} {l : Line μ} (h : ∀ d, l.mark ≠ .did d) :
    InPlace before l after := ⟨fun hl => absurd hl (h _), fun _ hl => absurd hl (h _)⟩

theorem concat_eq_split {α : Type} {ls before after : List α} {x l : α}
    (h : ls ++ [x] = before ++ l :: after) :
    (after = [] ∧ l = x ∧ before = ls) ∨
      ∃ after', after = after' ++ [x] ∧ ls = before ++ l :: after' := by
  rcases List.eq_nil_or_concat' after with rfl | ⟨after', y, rfl⟩
  · obtain ⟨rfl, he⟩ := List.append_inj' h rfl
    exact .inl ⟨rfl, (List.singleton_inj.mp he).symm, rfl⟩
  · rw [← List.cons_append, ← List.append_assoc] at h
    obtain ⟨rfl, he⟩ := List.append_inj' h rfl
    obtain rfl := List.singleton_inj.mp he
    exact .inr ⟨after', rfl, rfl⟩

/-- In a sound journal each line is in its place. -/
theorem Sound.inPlace {ls before after : List (Line μ)} {l : Line μ} (h : Sound ls)
    (he : ls = before ++ l :: after) : InPlace before l after := by
  -- a line is added to a journal of which this is known
  have concat {ls : List (Line μ)} {x : Line μ} {before after : List (Line μ)} {l : Line μ}
      (hx : InPlace ls x [])
      (ih : ∀ before l after, ls = before ++ l :: after → InPlace before l after)
      (he : ls ++ [x] = before ++ l :: after) : InPlace before l after := by
    rcases concat_eq_split he with ⟨rfl, rfl, rfl⟩ | ⟨after', rfl, he'⟩
    · exact hx
    · exact (ih _ _ _ he').append _
  induction h generalizing before l after with
  | nil =>
    cases before <;> cases he
  | beside _ x hx ih =>
    exact concat (inPlace_of_ne (Line.ne_did hx)) (fun _ _ _ h => ih h) he
  | admitted _ e hf ih =>
    exact concat (inPlace_of_ne fun _ hm => by cases hm) (fun _ _ _ h => ih h) he
  | did _ hi ha hr ih =>
    refine concat ⟨fun hm => ?_, fun r hm hf => ?_⟩ (fun _ _ _ h => ih h) he
    · cases hm
      exact absurd rfl ha
    · cases hm
      exact hr r rfl hf
  | left _ r e hi ih =>
    exact concat (inPlace_of_ne fun _ hm => by cases hm) (fun _ _ _ h => ih h) he
  | announced _ r hi hm ih =>
    rw [List.append_cons] at he
    rcases concat_eq_split he with ⟨rfl, rfl, rfl⟩ | ⟨after', rfl, he'⟩
    · exact inPlace_of_ne fun _ hm => by cases hm
    · rcases concat_eq_split he' with ⟨rfl, rfl, rfl⟩ | ⟨after'', rfl, he''⟩
      · exact ⟨fun _ => ⟨r, _, [], rfl, hm⟩, fun _ hl => nomatch hl⟩
      · exact ((ih he'').append _).append _

end Workflow
