import Workflow.Proofs.Engine.Ruled
import Workflow.Proofs.Engine.Told
import Workflow.Proofs.Pool.Heed

/-!
# Machines that refuse calls

A machine that refuses calls lets in each call that arrives while no other one is inside, at once,
and refuses each other one, at once. So nobody waits for its lock, and the lock is held from when a
call gets through until it leaves, however it ends.

Results:
* `Exact.arrived`, `Exact.answered`: a call is refused or let in right when it arrives, and by
  nothing but whether another one is inside.
* `Refusing.heeds_lock`, `Refusing.heeds_script`: calls and scripts heed who is inside.
* `Script.refusing`: wherever scripts come to.
-/
namespace Workflow

variable {μ α β : Type}

/-! ## Journals -/

/-- Is a line about a call that comes to a machine, is refused, or is let in? -/
def Line.isDoor (i : Nat) (l : Line μ) : Bool :=
  match l.mark with
  | .arrived | .refused | .admitted => l.call.machine = i
  | _ => false

/-- What becomes of a call that arrives: it is let in if no other one is inside. -/
def answer : Option (Visit μ) → Mark μ
  | none => .admitted
  | some _ => .refused

/-- In a journal, each call that arrives at a machine is let in or refused right away, by whether
another one is inside, and nobody else is. -/
inductive Exact (i : Nat) : List (Line μ) → Prop where
  | nil : Exact i []
  | other {ls : List (Line μ)} {l : Line μ} (h : Exact i ls) (hl : l.isDoor i = false) :
    Exact i (ls ++ [l])
  | come {ls : List (Line μ)} {c : Call} {e : Engine μ} (h : Exact i ls) (hi : c.machine = i) :
    Exact i (ls ++ [⟨c, .arrived, e⟩] ++ [⟨c, answer (visit? i ls), e⟩])

namespace Exact

variable {i : Nat} {ls before after : List (Line μ)} {l : Line μ}

theorem answer_ne_arrived (v? : Option (Visit μ)) : answer v? ≠ .arrived := by cases v? <;> nofun

/-- What becomes of a call that arrives is told right behind. -/
theorem arrived (h : Exact i ls) (hs : ls = before ++ l :: after) (hi : l.call.machine = i)
    (hm : l.mark = .arrived) :
    ∃ rest, after = ⟨l.call, answer (visit? i before), l.engine⟩ :: rest := by
  induction h generalizing after with
  | nil => cases before <;> cases hs
  | other _ hl ih =>
    rcases concat_eq_split hs with ⟨-, rfl, -⟩ | ⟨after', rfl, hs'⟩
    · simp [Line.isDoor, hm, hi] at hl
    · obtain ⟨rest, rfl⟩ := ih hs'
      exact ⟨_, rfl⟩
  | @come ls c e _ _ ih =>
    rcases concat_eq_split hs with ⟨-, rfl, -⟩ | ⟨after', rfl, hs'⟩
    · exact absurd hm (answer_ne_arrived _)
    · rcases concat_eq_split hs' with ⟨rfl, rfl, rfl⟩ | ⟨after'', rfl, hs''⟩
      · exact ⟨[], rfl⟩
      · obtain ⟨rest, rfl⟩ := ih hs''
        exact ⟨_, rfl⟩

/-- Who is let in or refused has just arrived. -/
theorem answered (h : Exact i ls) (hs : ls = before ++ l :: after) (hd : l.isDoor i = true)
    (hm : l.mark ≠ .arrived) : ∃ past, before = past ++ [⟨l.call, .arrived, l.engine⟩] ∧
      l.mark = answer (visit? i past) := by
  induction h generalizing after with
  | nil => cases before <;> cases hs
  | other _ hl ih =>
    rcases concat_eq_split hs with ⟨-, rfl, -⟩ | ⟨after', -, hs'⟩
    · rw [hl] at hd
      cases hd
    · exact ih hs'
  | @come ls c e _ _ ih =>
    rcases concat_eq_split hs with ⟨-, rfl, rfl⟩ | ⟨after', -, hs'⟩
    · exact ⟨ls, rfl, rfl⟩
    · rcases concat_eq_split hs' with ⟨-, rfl, -⟩ | ⟨after'', -, hs''⟩
      · exact absurd rfl hm
      · exact ih hs''

end Exact

/-! ## Who is inside -/

theorem isSome_visit?_did (i : Nat) (c : Call) (d : Deed (Handler μ)) (e : Engine μ)
    (ls : List (Line μ)) : (visit? i (ls ++ [⟨c, .did d, e⟩])).isSome = (visit? i ls).isSome := by
  rw [visit?_concat]
  by_cases hi : c.machine = i
  · simp [Visit.next?, hi]
  · simp [Visit.next?, hi]

/-- What a machine does with a call that meets another one. -/
def Engine.sends? (e : Engine μ) (i : Nat) : Option SendPolicy := (e.machines[i]?).map (·.sends)

namespace Refusing

/-- Machines do with calls what they did at first, and those that refuse calls do so exactly. -/
structure Keeps (e₀ : Engine μ) (b : Book μ) : Prop where
  sends : ∀ i, b.1.sends? i = e₀.sends? i
  exact : ∀ i, e₀.sends? i = some .reject → Exact i b.2

/-- The locks of machines that refuse calls are held as long as a call is inside. -/
def signals (e₀ : Engine μ) : Signals (Book μ) where
  strict i := e₀.sends? i = some .reject
  busy i b := (visit? i b.2).isSome
  always := Keeps e₀

variable {e₀ : Engine μ} {taken : Nat → Bool} {b : Book μ} {c : Call}

theorem strict_iff {i : Nat} :
    (signals e₀).strict i = true ↔ e₀.sends? i = some .reject := decide_eq_true_iff

/-- The engine changes, and no machine does. -/
theorem settled_quiet (h : (signals e₀).Settled taken b) {e : Engine μ}
    (he : e.machines = b.1.machines) : (signals e₀).Settled taken (e, b.2) where
  always := ⟨fun i => by
    rw [← h.always.sends i]
    simp only [Engine.sends?, he], h.always.exact⟩
  shown := h.shown

/-- A line is written that lets nobody in or out. -/
theorem settled_line (h : (signals e₀).Settled taken b) {e : Engine μ} {l : Line μ}
    (he : ∀ i, e.sends? i = b.1.sends? i)
    (hd : ∀ i, e₀.sends? i = some .reject → l.isDoor i = false)
    (hv : ∀ i, e₀.sends? i = some .reject →
      (visit? i (b.2 ++ [l])).isSome = (visit? i b.2).isSome) :
    (signals e₀).Settled taken (e, b.2 ++ [l]) where
  always := ⟨fun i => (he i).trans (h.always.sends i),
    fun i hi => .other (h.always.exact i hi) (hd i hi)⟩
  shown i hi := (h.shown i hi).trans (hv i (strict_iff.mp hi)).symm

/-- A deed of a call. -/
theorem settled_did (h : (signals e₀).Settled taken b) {e : Engine μ} (d : Deed (Handler μ))
    (he : ∀ i, e.sends? i = b.1.sends? i) :
    (signals e₀).Settled taken (e, b.2 ++ [⟨c, .did d, b.1⟩]) :=
  settled_line h he (fun _ _ => rfl) fun i _ => isSome_visit?_did i c d b.1 b.2

theorem sends?_of_machines {e e' : Engine μ} (h : e'.machines = e.machines) (i : Nat) :
    e'.sends? i = e.sends? i := by simp only [Engine.sends?, h]

theorem sends?_publish (e : Engine μ) (j : Nat) (live : Live) (i : Nat) :
    (e.publish j live).sends? i = e.sends? i := by
  simp only [Engine.sends?, Engine.publish, List.getElem?_modify]
  cases e.machines[i]? with
  | none => rfl
  | some m => by_cases hj : j = i <;> simp [hj]

/-! ## Calls -/

/-- A process goes on after a result, whatever others have done meanwhile. -/
def Continues (e₀ : Engine μ) (k : α → Process (Book μ) Unit) : Prop :=
  ∀ a taken b, (signals e₀).Settled taken b → (k a).Heeds (signals e₀) taken b

/-- A way to send events that heeds who is inside. -/
def Sends (e₀ : Engine μ) (send : Engine.Watcher μ) : Prop :=
  ∀ i e taken b k, (signals e₀).Settled taken b → Continues e₀ k →
    ((send i e).bind k).Heeds (signals e₀) taken b

variable {k : Except CallFault Bool → Process (Book μ) Unit}

/-- A call that leaves gives its lock back. -/
theorem heeds_leave (h : (signals e₀).Settled taken b) (hk : Continues e₀ k)
    (r : Except CallFault Bool) : ((Engine.leave c r).bind k).Heeds (signals e₀) taken b := by
  refine hk r _ _ ⟨⟨h.always.sends, fun i hi => .other (h.always.exact i hi) rfl⟩, fun i hi => ?_⟩
  show Function.update taken c.machine false i =
    (visit? i (b.2 ++ [⟨c, .left r, b.1⟩])).isSome
  by_cases hc : c.machine = i
  · subst hc
    rw [Function.update_self, visit?_left]
    rfl
  · rw [Function.update_of_ne (Ne.symm hc), visit?_elsewhere hc]
    exact h.shown i hi

/-- A line is written about a call on another machine than one that refuses calls. -/
theorem settled_lax (h : (signals e₀).Settled taken b) (hc : e₀.sends? c.machine ≠ some .reject)
    (mark : Mark μ) : (signals e₀).Settled taken (Book.noted b c mark) := by
  have ne {i : Nat} (hi : e₀.sends? i = some .reject) : c.machine ≠ i := fun hci => hc (hci ▸ hi)
  refine settled_line h (fun _ => rfl) (fun i hi => ?_) fun i hi => ?_
  · cases mark <;> simp [Line.isDoor, ne hi]
  · rw [visit?_elsewhere (ne hi)]

/-- A call is answered right when it comes to a machine that refuses calls. -/
theorem settled_come (h : (signals e₀).Settled taken b) {taken' : Nat → Bool} {mark : Mark μ}
    (ha : answer (visit? c.machine b.2) = mark)
    (hv : ∀ i, e₀.sends? i = some .reject → taken' i =
      (visit? i (b.2 ++ [⟨c, .arrived, b.1⟩] ++ [⟨c, mark, b.1⟩])).isSome) :
    (signals e₀).Settled taken' (b.1, b.2 ++ [⟨c, .arrived, b.1⟩] ++ [⟨c, mark, b.1⟩]) := by
  refine ⟨⟨h.always.sends, fun i hi => ?_⟩, fun i hi => hv i (strict_iff.mp hi)⟩
  by_cases hci : c.machine = i
  · subst hci ha
    exact .come (h.always.exact _ hi) rfl
  · have hd (mark : Mark μ) : Line.isDoor i ⟨c, mark, b.1⟩ = false := by
      cases mark <;> simp [Line.isDoor, hci]
    exact .other (.other (h.always.exact i hi) (hd _)) (hd _)

theorem settled_refused (h : (signals e₀).Settled taken b) {v : Visit μ}
    (hv : visit? c.machine b.2 = some v) : (signals e₀).Settled taken
      (b.1, b.2 ++ [⟨c, .arrived, b.1⟩] ++ [⟨c, .refused, b.1⟩]) := by
  refine settled_come h (by rw [hv]; rfl) fun i hi => ?_
  rw [visit?_beside rfl, visit?_beside rfl]
  exact h.shown i (strict_iff.mpr hi)

theorem settled_admitted (h : (signals e₀).Settled taken b) (hv : visit? c.machine b.2 = none) :
    (signals e₀).Settled (Function.update taken c.machine true)
      (b.1, b.2 ++ [⟨c, .arrived, b.1⟩] ++ [⟨c, .admitted, b.1⟩]) := by
  refine settled_come h (by rw [hv]; rfl) fun i hi => ?_
  by_cases hci : c.machine = i
  · subst hci
    rw [Function.update_self, visit?_admitted]
    rfl
  · rw [Function.update_of_ne (Ne.symm hci), visit?_elsewhere hci, visit?_elsewhere hci]
    exact h.shown i (strict_iff.mpr hi)

/-- A call on a machine heeds who is inside, if it does once it has got through. -/
theorem heeds_lock {body : Machine → Process (Book μ) (Except CallFault Bool)}
    (hbody : ∀ m taken b, (signals e₀).Settled taken b →
      (((body m).bind (Engine.leave c)).bind k).Heeds (signals e₀) taken b)
    (h : (signals e₀).Settled taken b) (hk : Continues e₀ k) :
    ((Engine.watchLock c body).bind k).Heeds (signals e₀) taken b := by
  show Process.Heeds _ (Process.bind _ k) taken (Book.noted b c .arrived)
  have hs := h.always.sends c.machine
  dsimp only
  cases hm : b.1.machines[c.machine]? with
  | none =>
    refine hk _ _ _ (settled_lax h ?_ .arrived)
    rw [← hs, Engine.sends?, hm]
    nofun
  | some m =>
    rw [Engine.sends?, hm] at hs
    show Process.Heeds _ (.take _ _ _) _ _
    unfold Process.Heeds
    by_cases hr : m.sends = .reject
    · -- the machine refuses calls, so whether one is inside decides
      have hstrict : (signals e₀).strict c.machine = true :=
        strict_iff.mpr (hs.symm.trans (congrArg some hr))
      have hshown : taken c.machine = (visit? c.machine b.2).isSome := h.shown _ hstrict
      rw [if_pos hstrict]
      refine ⟨decide_eq_true hr, fun ht => ?_, fun ht => ?_⟩
      · obtain ⟨v, hv⟩ := Option.isSome_iff_exists.mp (hshown.symm.trans ht)
        exact hk _ _ _ (settled_refused h hv)
      · have hv := Option.isSome_eq_false_iff.mp (hshown.symm.trans ht)
        exact hbody _ _ _ (settled_admitted h (Option.isNone_iff_eq_none.mp hv))
    · -- it has calls wait
      have hlax : e₀.sends? c.machine ≠ some .reject := fun he => hr (Option.some.inj (hs.trans he))
      rw [if_neg fun he => hlax (strict_iff.mp he)]
      refine ⟨settled_lax h hlax .arrived, fun taken' b' h' bit => ?_⟩
      cases bit with
      | false => exact hk _ _ _ (settled_lax h' hlax .refused)
      | true => exact hbody _ _ _ (settled_lax h' hlax .admitted)

variable [Recorder μ] {send : Engine.Watcher μ}

theorem heeds_watchWork (hsend : Sends e₀ send) (w : Work μ α)
    {k : α → Process (Book μ) Unit} (h : (signals e₀).Settled taken b) (hk : Continues e₀ k) :
    ((Engine.watchWork send w).bind k).Heeds (signals e₀) taken b := by
  induction w generalizing taken b with
  | finish a => exact hk a _ _ h
  | log entry next ih => exact ih (settled_quiet h rfl)
  | touch change next ih => exact ih _ (settled_quiet h rfl)
  | pause next ih => exact ⟨h, fun _ _ h' => ih h'⟩
  | send i e next ih =>
    rw [Engine.watchWork, Process.bind_assoc]
    exact hsend i e _ _ _ h fun r _ _ h' => ih r h'

/-- A call heeds who is inside from its first deed to its last one. -/
theorem heeds_watchFlow (hsend : Sends e₀ send) (x : Flow (Handler μ) α)
    {k : α → Process (Book μ) Unit} (h : (signals e₀).Settled taken b) (hk : Continues e₀ k) :
    ((Engine.watchFlow send c x).bind k).Heeds (signals e₀) taken b := by
  induction x generalizing taken b with
  | done a => exact hk a _ _ h
  | log entry next ih => exact ih (settled_did h _ fun _ => rfl)
  | report r next ih =>
    exact ih (settled_did h _ (sends?_of_machines (Engine.report_machines ..)))
  | publish live next ih => exact ih (settled_did h _ (sends?_publish b.1 c.machine live))
  | announce next ih =>
    exact ih (settled_did h _ (sends?_of_machines (Engine.announce_machines ..)))
  | resolve category next ih => exact ih _ (settled_did h _ fun _ => rfl)
  | invoke handler params context next ih =>
    show Process.Heeds _ (Process.bind _ k) taken (Book.noted b c (.did (.called ..)))
    rw [Process.bind_assoc]
    refine heeds_watchWork hsend _ (settled_did h _ fun _ => rfl) fun o taken' b' h' => ?_
    exact ih o (settled_did h' _ fun _ => rfl)

theorem sends_watchWithin (caller depth : Nat) :
    Sends e₀ (Engine.watchWithin caller depth : Engine.Watcher μ) := by
  induction depth with
  | zero =>
    intro i e taken b k h hk
    exact heeds_lock (fun m taken b h => heeds_leave h hk _) h hk
  | succ depth ih =>
    intro i e taken b k h hk
    refine heeds_lock (fun m taken b h => ?_) h hk
    rw [Process.bind_assoc]
    exact heeds_watchFlow ih _ h fun r _ _ h' => heeds_leave h' hk r

omit [Recorder μ] in
theorem heeds_pauses {p : Process (Book μ) Unit} (n : Nat)
    (hp : ∀ taken b, (signals e₀).Settled taken b → p.Heeds (signals e₀) taken b)
    (h : (signals e₀).Settled taken b) : (p.pauses n).Heeds (signals e₀) taken b := by
  induction n generalizing taken b with
  | zero => exact hp _ _ h
  | succ n ih => exact ⟨h, fun _ _ h' => ih h'⟩

theorem heeds_script (most : Nat) (x : Script μ) (h : (signals e₀).Settled taken b) :
    (x.watch most).Heeds (signals e₀) taken b := by
  induction x generalizing taken b with
  | stop => exact h
  | touch change next ih => exact ih _ (settled_quiet h rfl)
  | pause next ih => exact ⟨h, fun _ _ h' => ih h'⟩
  | call c next ih =>
    rw [Script.watch, Call.watch, Process.pauses_bind]
    refine heeds_pauses c.delay (fun taken b h => ?_) h
    have hk : Continues e₀ fun r => (next r).watch most := fun r _ _ h' => ih r h'
    refine heeds_lock (fun m taken b h => ?_) h hk
    rw [Process.bind_assoc]
    exact heeds_watchFlow (sends_watchWithin c.caller most) _ h fun r _ _ h' => heeds_leave h' hk r
  | subscribe caller channel listener next ih =>
    refine ih _ (settled_line h (fun _ => rfl) (fun _ _ => rfl) fun i _ => ?_)
    rw [visit?_beside rfl]
  | unsubscribe channel serial next ih => exact ih (settled_quiet h rfl)

end Refusing

/-- Wherever scripts come to, the locks of machines that refuse calls are held while a call is
inside, and nobody waits for them. -/
theorem Script.refusing [Recorder μ] {most : Nat} {e : Engine μ} {xs : List (Script μ)}
    {p : Pool (Book μ) Unit} (h : (Pool.ofTasks (e, []) (xs.map (watch most))).Reaches p) :
    p.Heeds (Refusing.signals e) := by
  refine h.keeps (Pool.heeds_ofTasks ⟨fun _ => rfl, fun _ _ => .nil⟩ (fun _ _ => rfl) ?_)
    fun h hs => h.step hs
  intro q hq taken b hb
  obtain ⟨x, -, rfl⟩ := List.mem_map.mp hq
  exact Refusing.heeds_script most x hb

end Workflow
