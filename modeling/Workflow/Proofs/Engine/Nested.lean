import Workflow.Proofs.Call.Course
import Workflow.Proofs.Engine.Ruled

/-!
# Calls within calls

A handler may send events, and so may the handlers of those calls. Each of these calls holds one
more lock than the one that it is made from. So, where calls may nest as deep as there are machines,
no call that gets through is turned back for the depth of its nesting: a call is told that its
machine is busy only when it is refused.

Results:
* `Call.runs_not_busy`: no flow of a call comes to it.
* `Nested.full`: beyond so many calls within calls all locks are held.
* `Script.Comes.notBusy`: wherever scripts come to.
-/
namespace Workflow

variable {μ : Type}

/-! ## Flows -/

/-- What a call comes to that is told that a machine is busy. -/
def IsBusy (r : Except CallFault Bool) : Prop := ∃ name, r = .error (.busy name)

namespace Machine

variable {η : Type} {m : Machine} {ds : List (Deed η)} {r : Except CallFault Bool}

theorem acts_not_busy {phase : Phase} {live final : Live} {is : List Invocation}
    {fault? : Option CallFault} (h : m.Acts phase live is ds final fault?) (name : Option String) :
    fault? ≠ some (.busy name) := by
  induction h with
  | nil => nofun
  | ran _ _ ih => exact ih
  | skipped _ _ _ ih => exact ih
  | aborted => nofun
  | stuck => nofun

theorem result_not_busy {fault? : Option CallFault} (h : ∀ name, fault? ≠ some (.busy name))
    (b : Bool) : ¬IsBusy (result fault? b) := by
  rintro ⟨name, hr⟩
  cases fault? with
  | none => cases hr
  | some f =>
    cases hr
    exact h name rfl

theorem took_not_busy {live : Live} {e : Event} {t : Transition} (h : m.Took live e t ds r) :
    ¬IsBusy r := by
  cases h with
  | dangling => nofun
  | halted _ ha =>
    rintro ⟨name, hr⟩
    cases hr
    exact acts_not_busy ha name rfl
  | entered _ _ he => exact result_not_busy (acts_not_busy he) true

theorem sent_not_busy {e : Event} (h : m.Sent e ds r) : ¬IsBusy r := by
  cases h with
  | lost => nofun
  | unmatched => nofun
  | overlong => nofun
  | taken _ _ ht => exact took_not_busy ht

theorem started_not_busy (h : m.Started ds r) : ¬IsBusy r := by
  cases h with
  | again => nofun
  | lost => nofun
  | entered _ _ he => exact result_not_busy (acts_not_busy he) true

end Machine

/-- A call that runs its course is not told that a machine is busy. -/
theorem Call.runs_not_busy {η : Type} {c : Call} {m : Machine} {ds : List (Deed η)}
    {r : Except CallFault Bool} (h : (c.flow m).Runs ds r) : ¬IsBusy r := by
  unfold Call.flow at h
  split at h
  · exact Machine.sent_not_busy (Machine.send_runs_iff.mp h)
  · exact Machine.started_not_busy (Machine.start_runs_iff.mp h)

/-! ## Locks of calls within calls -/

/-- A call holds certain locks of so many machines, where calls may nest so much deeper. -/
structure Nested (machines most : Nat) (held : List Nat) (depth : Nat) : Prop where
  nodup : held.Nodup
  lt : ∀ i ∈ held, i < machines
  deep : held.length + depth = most + 1

namespace Nested

variable {machines most depth i : Nat} {held : List Nat}

theorem deeper (h : Nested machines most held (depth + 1)) (hi : i ∉ held) (hm : i < machines) :
    Nested machines most (i :: held) depth where
  nodup := List.nodup_cons.mpr ⟨hi, h.nodup⟩
  lt j hj := by
    rcases List.mem_cons.mp hj with rfl | hj
    · exact hm
    · exact h.lt j hj
  deep := by
    have := h.deep
    simp only [List.length_cons]
    omega

/-- If calls may nest as deep as there are machines, the locks of all of them are held by the
deepest one. -/
theorem full (h : Nested machines most held 0) (hm : machines ≤ most + 1) (hi : i < machines) :
    i ∈ held := by
  by_contra hn
  have hd : (i :: held).Nodup := List.nodup_cons.mpr ⟨hn, h.nodup⟩
  have hs : i :: held ⊆ List.range machines := fun j hj => by
    rcases List.mem_cons.mp hj with rfl | hj
    · exact List.mem_range.mpr hi
    · exact List.mem_range.mpr (h.lt j hj)
  have hl := hd.length_le_of_subset hs
  have := h.deep
  simp only [List.length_cons, List.length_range] at hl
  omega

end Nested

/-! ## Scripts -/

/-- There are so many machines, and no call that has left one was told that it is busy. -/
structure NotBusy (machines : Nat) (b : Book μ) : Prop where
  machines : b.1.machines.length = machines
  left : ∀ l ∈ b.2, ∀ r, l.mark = .left r → ¬IsBusy r

namespace NotBusy

variable {machines most depth : Nat} {c : Call} {held : List Nat} {b : Book μ}
  {k : Except CallFault Bool → Process (Book μ) Unit}

/-- No call that leaves is told that a machine is busy. -/
def rules (machines : Nat) : Rules (Book μ) Unit where
  part _ _ := ()
  rest _ := True
  always := NotBusy machines

theorem line (h : NotBusy machines b) {e : Engine μ} {l : Line μ}
    (he : e.machines.length = b.1.machines.length) (hl : ∀ r, l.mark = .left r → ¬IsBusy r) :
    NotBusy machines (e, b.2 ++ [l]) where
  machines := he.trans h.machines
  left l' hl' := by
    rcases List.mem_append.mp hl' with hl' | hl'
    · exact h.left l' hl'
    · rw [List.mem_singleton.mp hl']
      exact hl

theorem goes {b' : Book μ} (h : NotBusy machines b') : (rules machines).Goes held b b' :=
  ⟨h, fun _ _ => rfl⟩

theorem lenient_rules : (rules machines : Rules (Book μ) Unit).Lenient where
  touch _ _ hb := ⟨⟨hb.machines, hb.left⟩, fun _ => rfl⟩
  subscribe _ _ _ _ hb := ⟨hb.line rfl nofun, fun _ => rfl⟩
  unsubscribe _ _ _ hb := ⟨⟨hb.machines, hb.left⟩, fun _ => rfl⟩
  arrived _ _ hb := ⟨hb.line rfl nofun, fun _ => rfl⟩
  refused _ _ hb := ⟨hb.line rfl nofun, fun _ => rfl⟩

variable [Recorder μ] {send : Engine.Watcher μ}

theorem obeys_flow (hsend : (rules machines).SendsAt (c.machine :: held) send)
    {x : Flow (Handler μ) (Except CallFault Bool)} (hx : ∀ ds r, x.Runs ds r → ¬IsBusy r)
    (hb : NotBusy machines b) (hk : ∀ b', (rules machines).Continues held b' k) :
    (((Engine.watchFlow send c x).bind (Engine.leave c)).bind k).Obeys (rules machines)
      (c.machine :: held) b := by
  have did (d : Deed (Handler μ)) {b : Book μ} (hb : NotBusy machines b) {e : Engine μ}
      (he : e.machines.length = b.1.machines.length) :
      NotBusy machines (e, b.2 ++ [⟨c, .did d, b.1⟩]) := hb.line he nofun
  induction x generalizing b with
  | done r =>
    refine ⟨fun _ _ => rfl, held, rfl, trivial, hk b r _ (goes (hb.line rfl fun r' hr => ?_))⟩
    cases hr
    exact hx [] r (.done r)
  | log entry next ih => exact ⟨fun _ _ => rfl, ih (fun _ _ h => hx _ _ (.log h)) (did _ hb rfl)⟩
  | report f next ih =>
    exact ⟨fun _ _ => rfl, ih (fun _ _ h => hx _ _ (.report h))
      (did _ hb (congrArg List.length (Engine.report_machines ..)))⟩
  | publish live next ih =>
    exact ⟨fun _ _ => rfl, ih (fun _ _ h => hx _ _ (.publish h))
      (did _ hb (Engine.publish_machines_length ..))⟩
  | announce next ih =>
    exact ⟨fun _ _ => rfl, ih (fun _ _ h => hx _ _ (.announce h))
      (did _ hb (congrArg List.length (Engine.announce_machines ..)))⟩
  | resolve category next ih =>
    exact ⟨fun _ _ => rfl, ih _ (fun _ _ h => hx _ _ (.resolve _ h)) (did _ hb rfl)⟩
  | invoke handler params context next ih =>
    refine ⟨fun _ _ => rfl, ?_⟩
    dsimp only
    rw [Process.bind_assoc, Process.bind_assoc]
    refine lenient_rules.obeys_workAt hsend _ (did _ hb rfl) fun o b' hb' => ?_
    have h := ih o (fun _ _ h => hx _ _ (.invoke o h)) (did (.answered o) hb'.always rfl)
    rw [Process.bind_assoc] at h
    exact ⟨fun _ _ => rfl, h⟩

/-- A call that has got through runs its course. -/
theorem carriesAt_flow (hsend : (rules machines).SendsAt (c.machine :: held) send) :
    (rules machines).CarriesAt held c fun m => Engine.watchFlow send c (c.flow m) := by
  intro m b k hb hk
  refine ⟨fun _ _ => rfl, obeys_flow hsend (fun _ _ => Call.runs_not_busy) ?_ fun _ r b' hb' =>
    hk r b' (goes hb'.always)⟩
  exact NotBusy.line hb.always rfl nofun

omit [Recorder μ] in
theorem lt_of_admits {m : Machine} (h : (rules machines).Admits c m held b) :
    c.machine < machines := by
  obtain ⟨b₀, hb₀, hm⟩ := h.there
  have hb₀ : NotBusy machines b₀ := hb₀
  rw [← hb₀.machines]
  exact (List.getElem?_eq_some_iff.mp hm).1

theorem sendsAt_watchWithin (hm : machines ≤ most + 1) (caller : Nat)
    (h : Nested machines most held depth) :
    (rules machines).SendsAt held (Engine.watchWithin caller depth : Engine.Watcher μ) := by
  induction depth generalizing held with
  | zero =>
    -- no lock is left to be taken
    intro i e b k hb hk
    refine lenient_rules.obeys_lockAt (fun m b k ha hk => ?_) hb hk
    exact absurd (h.full hm (lt_of_admits ha)) ha.unheld
  | succ depth ih =>
    intro i e b k hb hk
    refine lenient_rules.obeys_lockAt (fun m b k ha hk => ?_) hb hk
    exact carriesAt_flow (ih (h.deeper ha.unheld (lt_of_admits ha))) m b k ha hk

theorem carriesAt_body (hm : machines ≤ most + 1) (c : Call) :
    (rules machines : Rules (Book μ) Unit).CarriesAt [] c (c.body most) := by
  intro m b k ha hk
  have h : Nested machines most [c.machine] most := {
    nodup := by simp
    lt := fun j hj => List.mem_singleton.mp hj ▸ lt_of_admits ha
    deep := by simp only [List.length_singleton]; omega }
  exact carriesAt_flow (sendsAt_watchWithin hm c.caller h) m b k ha hk

end NotBusy

/-- Wherever scripts come to, no call that has left a machine was told that it is busy. -/
theorem Script.Comes.notBusy [Recorder μ] {most : Nat} {e : Engine μ} {xs : List (Script μ)}
    {b : Book μ} (h : Comes most e xs b) (hm : e.machines.length ≤ most + 1) :
    NotBusy e.machines.length b :=
  NotBusy.lenient_rules.comes (NotBusy.carriesAt_body hm)
    ⟨rfl, fun _ hl => absurd hl List.not_mem_nil⟩ (fun _ => trivial) h

end Workflow
