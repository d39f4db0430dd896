import Workflow.Proofs.Call.Early
import Workflow.Proofs.Engine.Ruled
import Workflow.Proofs.Engine.Sound

/-!
# Scripts keep their journal sound

The lock of a machine protects what its calls do that have got through. Each script keeps to the
locks, whatever its handlers do and wherever it pauses, so that scripts that run side by side keep
their journal sound.

Results:
* `obeys_announcesLast`, `obeys_early`: what a call does that is inside.
* `rules_kept`: what calls do that have got through is protected by the lock.
* `sound_watched`: the journal of a run is sound.
-/
namespace Workflow

variable {μ : Type}

/-- The lock of a machine protects what the calls on it do that have got through; it is free when
all have left. -/
def rules : Rules (Book μ) (List (Call × Mark μ)) where
  part i b := work i (trail b.2)
  rest w := admissions w = (departures w).map (·.1)
  always b := Sound b.2

section

variable {α : Type} {c : Call} {held : List Nat} {b : Book μ}

/-- A call stays inside while only others act. -/
theorem Inside.goes {b' : Book μ} (h : Inside c b.2) (hb : rules.Goes (c.machine :: held) b b') :
    Inside c b'.2 := by
  have hs : work c.machine (trail b'.2) = work c.machine (trail b.2) := hb.same _ (by simp)
  unfold Inside
  rw [hs]
  exact h

/-- A line about a call leaves the parts alone that other locks protect. -/
theorem part_noted {e : Engine μ} {mark : Mark μ} {e' : Engine μ} {i : Nat} (hi : i ≠ c.machine) :
    rules.part i (e, b.2 ++ [⟨c, mark, e'⟩]) = rules.part i b :=
  work_concat (isWork_elsewhere hi.symm) b.2

/-- A line about a call leaves the parts alone that locks protect which are not held. -/
theorem part_unheld {e : Engine μ} {mark : Mark μ} {e' : Engine μ} (i : Nat)
    (hi : i ∉ c.machine :: held) : rules.part i (e, b.2 ++ [⟨c, mark, e'⟩]) = rules.part i b :=
  part_noted fun he => hi (by simp [he])

theorem obeys_leave {k : Except CallFault Bool → Process (Book μ) Unit} (hc : c.machine ∉ held)
    (hb : Sound b.2) (hi : Inside c b.2) (hk : rules.Continues held b k)
    (r : Except CallFault Bool) :
    ((Engine.leave c r).bind k).Obeys rules (c.machine :: held) b := by
  refine ⟨part_unheld, held, rfl, hi.left r b.1,
    hk r _ ⟨hb.left r b.1 hi, fun i hi' => part_noted ?_⟩⟩
  rintro rfl
  exact hc hi'

/-- A deed of the call that is inside keeps the journal sound, and the call inside. -/
theorem goes_did {d : Deed (Handler μ)} (e : Engine μ) (hc : c.machine ∉ held) (hb : Sound b.2)
    (hi : Inside c b.2) (ha : d ≠ .announced)
    (hr : ∀ r, d = .reported r → (∀ f, r ≠ .actionFailed f) →
      ∃ e', inside? c.machine b.2 = some e' ∧ e'.pair? c.machine = b.1.pair? c.machine) :
    rules.Goes held b (e, b.2 ++ [⟨c, .did d, b.1⟩]) ∧ Inside c (b.2 ++ [⟨c, .did d, b.1⟩]) := by
  refine ⟨⟨hb.did hi ha hr, fun i hi' => part_noted ?_⟩, hi.did d b.1⟩
  rintro rfl
  exact hc hi'

variable [Recorder μ]

variable {send : Engine.Watcher μ}

omit [Recorder μ] in
/-- A line that is no work of any machine goes by all locks. -/
theorem rules_beside (c : Call) (mark : Mark μ) (change : Engine μ → Engine μ)
    (hm : ∀ i, isWork i (c, mark) = false) :
    rules.Allows fun b => (change b.1, b.2 ++ [⟨c, mark, b.1⟩]) :=
  fun b hb => ⟨hb.beside _ hm, fun i => work_concat (hm i) b.2⟩

omit [Recorder μ] in
theorem rules_lenient : (rules : Rules (Book μ) _).Lenient where
  touch _ _ hb := ⟨hb, fun _ => rfl⟩
  subscribe caller channel listener := rules_beside { caller, machine := channel / 2 }
    (.subscribed channel listener) (fun e => (e.subscribe channel listener).1) fun _ => rfl
  unsubscribe _ _ _ hb := ⟨hb, fun _ => rfl⟩
  arrived c := rules_beside c .arrived id fun _ => rfl
  refused c := rules_beside c .refused id fun _ => rfl

/-- What is left of a call that is inside keeps the journal sound. -/
theorem obeys_announcesLast (hsend : rules.Sends send)
    {x : Flow (Handler μ) (Except CallFault Bool)} (hx : x.AnnouncesLast)
    {k : Except CallFault Bool → Process (Book μ) Unit} (hc : c.machine ∉ held) (hb : Sound b.2)
    (hi : Inside c b.2) (hk : rules.Continues held b k) :
    (((Engine.watchFlow send c x).bind (Engine.leave c)).bind k).Obeys rules
      (c.machine :: held) b := by
  induction hx generalizing b with
  | done r => exact obeys_leave hc hb hi hk r
  | announce r =>
    refine ⟨part_unheld, part_unheld, held, rfl, (hi.did .announced b.1).left r _,
      hk r _ ⟨?_, fun i hi' => ?_⟩⟩
    · have h := hb.announced r hi (Engine.announce_machines b.1 c.machine)
      rwa [List.append_cons] at h
    · have hne : i ≠ c.machine := by
        rintro rfl
        exact hc hi'
      exact (part_noted hne).trans (part_noted hne)
  | @log entry next _ ih =>
    obtain ⟨hg, hi⟩ := goes_did (d := .logged entry) (b.1.log entry) hc hb hi nofun nofun
    exact ⟨part_unheld, ih hg.always hi (hk.goes hg)⟩
  | @report f next _ ih =>
    obtain ⟨hg, hi⟩ := goes_did (d := .reported (.actionFailed f))
      (b.1.report c.machine (.actionFailed f)) hc hb hi nofun fun r hr hf => by
        cases hr
        exact absurd rfl (hf f)
    exact ⟨part_unheld, ih hg.always hi (hk.goes hg)⟩
  | @publish live next _ ih =>
    obtain ⟨hg, hi⟩ := goes_did (d := .published live) (b.1.publish c.machine live) hc hb hi
      nofun nofun
    exact ⟨part_unheld, ih hg.always hi (hk.goes hg)⟩
  | @resolve category next _ ih =>
    obtain ⟨hg, hi⟩ := goes_did (d := .looked category (b.1.registry.resolve category)) b.1 hc hb
      hi nofun nofun
    exact ⟨part_unheld, ih _ hg.always hi (hk.goes hg)⟩
  | @invoke handler params context next _ ih =>
    obtain ⟨hg, hi⟩ := goes_did (d := .called handler params context) b.1 hc hb hi nofun nofun
    refine ⟨part_unheld, ?_⟩
    dsimp only
    rw [Process.bind_assoc, Process.bind_assoc]
    refine rules_lenient.obeys_watchWork hsend _ hg.always fun o b' hb' => ?_
    obtain ⟨hg', hi'⟩ := goes_did (d := .answered o) b'.1 hc hb'.always (hi.goes hb') nofun nofun
    have h := ih o hg'.always hi' (hk.goes (hg.trans (hb'.tail.trans hg')))
    rw [Process.bind_assoc] at h
    exact ⟨part_unheld, h⟩

/-- The machine of a call has the state and the context that the call has found, and if it is there
at all, they are a certain pair. -/
structure Finds (c : Call) (p : String × Context) (b : Book μ) : Prop where
  found : ∃ e, inside? c.machine b.2 = some e ∧ e.pair? c.machine = b.1.pair? c.machine
  same : ∀ q, b.1.pair? c.machine = some q → q = p

omit [Recorder μ] in
theorem Finds.did {p : String × Context} (h : Finds c p b) (d : Deed (Handler μ)) {e : Engine μ}
    (he : e.pair? c.machine = b.1.pair? c.machine) :
    Finds c p (e, b.2 ++ [⟨c, .did d, b.1⟩]) where
  found := by
    obtain ⟨e', hs, hp⟩ := h.found
    exact ⟨e', (inside?_concat_did ..).trans hs, hp.trans he.symm⟩
  same q hq := h.same q (he.symm.trans hq)

/-- What a call does from the beginning keeps the journal sound. -/
theorem obeys_early (hsend : rules.Sends send)
    {x : Flow (Handler μ) (Except CallFault Bool)} {p : String × Context} (hx : x.Early p)
    {k : Except CallFault Bool → Process (Book μ) Unit} (hc : c.machine ∉ held) (hb : Sound b.2)
    (hi : Inside c b.2) (hf : Finds c p b) (hk : rules.Continues held b k) :
    (((Engine.watchFlow send c x).bind (Engine.leave c)).bind k).Obeys rules
      (c.machine :: held) b := by
  induction hx generalizing b with
  | last hx => exact obeys_announcesLast hsend hx hc hb hi hk
  | @report r next _ ih =>
    obtain ⟨hg, hi⟩ := goes_did (d := .reported r) (b.1.report c.machine r) hc hb hi nofun
      fun _ _ _ => hf.found
    have he := Engine.pair?_of_machines (Engine.report_machines b.1 c.machine r) c.machine
    exact ⟨part_unheld, ih hg.always hi (hf.did _ he) (hk.goes hg)⟩
  | @publish live next hp _ ih =>
    obtain ⟨hg, hi⟩ := goes_did (d := .published live) (b.1.publish c.machine live) hc hb hi
      nofun nofun
    have he : (b.1.publish c.machine live).pair? c.machine = b.1.pair? c.machine := by
      have hs := hf.same
      unfold Engine.pair? at hs ⊢
      rw [Engine.publish, List.getElem?_modify_eq]
      cases hm : b.1.machines[c.machine]? with
      | none => rfl
      | some m =>
        rw [hm] at hs
        exact congrArg some (hp.trans (hs _ rfl).symm)
    exact ⟨part_unheld, ih hg.always hi (hf.did _ he) (hk.goes hg)⟩

omit [Recorder μ] in
/-- A call keeps the journal sound once it has got through, if it does so from there on. -/
theorem rules_carries {body : Machine → Process (Book μ) (Except CallFault Bool)}
    (h : ∀ (held : List Nat) (b : Book μ) k m, c.machine ∉ held → Sound b.2 → Inside c b.2 →
      Finds c (m.live.state, m.live.context) b → rules.Continues held b k →
        (((body m).bind (Engine.leave c)).bind k).Obeys rules (c.machine :: held) b) :
    rules.Carries c body := by
  intro m held b k hb hk
  have hg : rules.Goes held b (Book.noted b c .admitted) := by
    refine ⟨hb.always.admitted b.1 hb.rest, fun i hi => part_noted ?_⟩
    rintro rfl
    exact hb.unheld hi
  refine ⟨part_unheld, ?_⟩
  refine h held _ k _ hb.unheld hg.always (Free.admitted hb.rest b.1) ⟨⟨b.1, ?_, rfl⟩, ?_⟩
    (hk.goes hg)
  · exact (inside?_concat ..).trans (if_pos rfl)
  · intro q hq
    obtain ⟨m', hm, rfl⟩ := Option.map_eq_some_iff.mp hq
    have hm : b.1.machines[c.machine]? = some m' := hm
    rw [hm]
    rfl

theorem Call.early_flow {η : Type} (c : Call) (m : Machine) :
    (c.flow m : Flow η _).Early (m.live.state, m.live.context) := by
  obtain ⟨caller, delay, machine, _ | e⟩ := c
  · exact m.early_start
  · exact m.early_send e

theorem rules_kept : (rules : Rules (Book μ) _).Kept where
  toLenient := rules_lenient
  serves _ hsend c := rules_carries fun _ _ _ m hc hb hi hf hk =>
    obeys_early hsend (c.early_flow m) hc hb hi hf hk
  turns _ := rules_carries fun _ _ _ _ hc hb hi _ hk => obeys_leave hc hb hi hk _

end

/-- The journal of scripts that run side by side is sound. -/
theorem sound_watched [Recorder μ] (most : Nat) (e : Engine μ) (xs : List (Script μ)) :
    Sound (Script.watched most e xs).state.2 :=
  rules_kept.comes .nil (fun _ => rfl) (Script.comes_watched most e xs)

end Workflow
