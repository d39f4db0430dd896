import Workflow.Proofs.Engine.Ruled
import Workflow.Proofs.Engine.Told

/-!
# Scripts keep a journal that tells all

Scripts that run side by side keep a journal that tells how the engine came about, wherever their
run comes to: the lock of a machine protects which call is inside.

Results:
* `Told.obeys_flow`: what a call does that is inside.
* `Told.kept`: which call is inside is protected by the lock.
* `Script.Comes.told`: what scripts come to is told by their journal.
-/
namespace Workflow

variable {μ : Type} [Recorder μ]

namespace Told

variable {α : Type} {e₀ found : Engine μ} {c : Call} {held : List Nat} {b : Book μ} {m : Machine}
  {done : List (Deed (Handler μ))} {k : Except CallFault Bool → Process (Book μ) Unit}

/-- The lock of a machine protects which call is inside; it is free when none is. -/
def rules (e₀ : Engine μ) : Rules (Book μ) (Option (Visit μ)) where
  part i b := visit? i b.2
  rest v? := v? = none
  always b := Told e₀ b

/-- A line about a call leaves the parts alone that locks protect which are not held. -/
theorem part_unheld {e : Engine μ} {mark : Mark μ} {e' : Engine μ} (i : Nat)
    (hi : i ∉ c.machine :: held) :
    (rules e₀).part i (e, b.2 ++ [⟨c, mark, e'⟩]) = (rules e₀).part i b := by
  refine visit?_elsewhere ?_ b.2
  rintro rfl
  exact hi (List.mem_cons_self ..)

/-- A line about a call goes by the locks of those who do not hold that of its machine. -/
theorem goes_line {mark : Mark μ} (hc : c.machine ∉ held) (hb : Told e₀ b)
    (hf : Fits b.2 ⟨c, mark, b.1⟩) :
    (rules e₀).Goes held b (Line.after ⟨c, mark, b.1⟩, b.2 ++ [⟨c, mark, b.1⟩]) := by
  refine ⟨.line hb hf, fun i hi => visit?_elsewhere ?_ b.2⟩
  rintro rfl
  exact hc hi

/-- A line that is no work of any machine goes by all locks. -/
theorem allows_beside (c : Call) (mark : Mark μ) (hm : ∀ i, isWork i (c, mark) = false) :
    (rules e₀).Allows fun b => (Line.after ⟨c, mark, b.1⟩, b.2 ++ [⟨c, mark, b.1⟩]) :=
  fun b hb => ⟨.line (l := ⟨c, mark, b.1⟩) hb (.beside hm), fun i => visit?_beside (hm i) b.2⟩

theorem lenient_rules (e₀ : Engine μ) : (rules e₀).Lenient where
  touch change _ hb := ⟨.quiet hb (.touch _ change), fun _ => rfl⟩
  subscribe caller channel listener :=
    allows_beside { caller, machine := channel / 2 } (.subscribed channel listener) fun _ => rfl
  unsubscribe channel serial _ hb := ⟨.quiet hb (.unsubscribe _ channel serial), fun _ => rfl⟩
  arrived c := allows_beside c .arrived fun _ => rfl
  refused c := allows_beside c .refused fun _ => rfl

/-- Which call is inside does not change while only others act. -/
theorem visit?_goes {b' : Book μ} {v : Visit μ} (h : visit? c.machine b.2 = some v)
    (hb : (rules e₀).Goes (c.machine :: held) b b') : visit? c.machine b'.2 = some v :=
  (hb.same _ (List.mem_cons_self ..)).trans h

theorem obeys_leave {f : Except CallFault Bool} (hc : c.machine ∉ held) (hb : Told e₀ b)
    (hf : Fits b.2 ⟨c, .left f, b.1⟩) (hk : (rules e₀).Continues held b k) :
    ((Engine.leave c f).bind k).Obeys (rules e₀) (c.machine :: held) b :=
  ⟨part_unheld, held, rfl, visit?_left .., hk f _ (goes_line hc hb hf)⟩

/-- A call that is inside goes on with a flow, as the rest of its own. -/
structure GoesOn (c : Call) (found : Engine μ) (m : Machine) (b : Book μ)
    (x : Flow (Handler μ) (Except CallFault Bool)) (done : List (Deed (Handler μ))) : Prop where
  inside : visit? c.machine b.2 = some ⟨c, found, done⟩
  found : found.machines[c.machine]? = some m
  rest : ∀ ds r, x.Runs ds r → (c.flow m).Runs (done ++ ds) r

/-- A deed of a call that is inside is told, and behind it the rest of its flow is left. -/
theorem GoesOn.did {x next : Flow (Handler μ) (Except CallFault Bool)} {d : Deed (Handler μ)}
    (h : GoesOn c found m b x done) (hc : c.machine ∉ held) (hb : Told e₀ b)
    (hn : ∀ ds r, next.Runs ds r → x.Runs (d :: ds) r) :
    (rules e₀).Goes held b (Line.after ⟨c, .did d, b.1⟩, b.2 ++ [⟨c, .did d, b.1⟩]) ∧
      GoesOn c found m (Line.after ⟨c, .did d, b.1⟩, b.2 ++ [⟨c, .did d, b.1⟩]) next
        (done ++ [d]) := by
  obtain ⟨ds, r, hr⟩ := next.exists_runs
  refine ⟨goes_line hc hb (.did h.inside h.found (h.rest _ _ (hn _ _ hr))),
    visit?_did h.inside d b.1, h.found, fun ds r hr => ?_⟩
  rw [← List.append_cons]
  exact h.rest _ _ (hn _ _ hr)

variable {send : Engine.Watcher μ}

/-- What is left of a call that is inside is told, if it is the rest of its flow. -/
theorem obeys_flow (hsend : (rules e₀).Sends send) {x : Flow (Handler μ) (Except CallFault Bool)}
    (hx : GoesOn c found m b x done) (hc : c.machine ∉ held) (hb : Told e₀ b)
    (hk : (rules e₀).Continues held b k) :
    (((Engine.watchFlow send c x).bind (Engine.leave c)).bind k).Obeys (rules e₀)
      (c.machine :: held) b := by
  induction x generalizing b done with
  | done r =>
    have hr := hx.rest [] r (.done r)
    rw [List.append_nil] at hr
    exact obeys_leave hc hb (.left hx.inside hx.found hr) hk
  | log entry next ih =>
    obtain ⟨hg, hx⟩ := hx.did hc hb fun _ _ => .log
    exact ⟨part_unheld, ih hx hg.always (hk.goes hg)⟩
  | report f next ih =>
    obtain ⟨hg, hx⟩ := hx.did hc hb fun _ _ => .report
    exact ⟨part_unheld, ih hx hg.always (hk.goes hg)⟩
  | publish live next ih =>
    obtain ⟨hg, hx⟩ := hx.did hc hb fun _ _ => .publish
    exact ⟨part_unheld, ih hx hg.always (hk.goes hg)⟩
  | announce next ih =>
    obtain ⟨hg, hx⟩ := hx.did hc hb fun _ _ => .announce
    exact ⟨part_unheld, ih hx hg.always (hk.goes hg)⟩
  | resolve category next ih =>
    obtain ⟨hg, hx⟩ := hx.did hc hb fun _ _ => .resolve (b.1.registry.resolve category)
    exact ⟨part_unheld, ih _ hx hg.always (hk.goes hg)⟩
  | invoke handler params context next ih =>
    -- between the call of the handler and its answer, others may go on
    have hr (o : Outcome) (ds : List (Deed (Handler μ))) (r : Except CallFault Bool)
        (hr : (next o).Runs ds r) :
        (c.flow m).Runs (done ++ .called handler params context :: .answered o :: ds) r :=
      hx.rest _ _ (.invoke o hr)
    obtain ⟨ds, r, hn⟩ := (next (.ok .null)).exists_runs
    have hg := goes_line hc hb (.did hx.inside hx.found (hr _ _ _ hn))
    have hv := visit?_did hx.inside (.called handler params context) b.1
    refine ⟨part_unheld, ?_⟩
    dsimp only
    rw [Process.bind_assoc, Process.bind_assoc]
    refine (lenient_rules e₀).obeys_watchWork hsend _ hg.always fun o b' hb' => ?_
    have hv' := visit?_goes hv hb'
    obtain ⟨ds, r, hn⟩ := (next o).exists_runs
    have hr' :
        (c.flow m).Runs (done ++ [.called handler params context] ++ .answered o :: ds) r := by
      simpa using hr o ds r hn
    have hg' := goes_line hc hb'.always (.did hv' hx.found hr')
    have hx' : GoesOn c found m (Line.after ⟨c, .did (.answered o), b'.1⟩,
        b'.2 ++ [⟨c, .did (.answered o), b'.1⟩]) (next o)
        (done ++ [.called handler params context] ++ [.answered o]) :=
      ⟨visit?_did hv' (.answered o) b'.1, hx.found, fun ds r hn => by simpa using hr o ds r hn⟩
    have h := ih o hx' hg'.always (hk.goes (hg.trans (hb'.tail.trans hg')))
    rw [Process.bind_assoc] at h
    exact ⟨part_unheld, h⟩

/-- A call is told once it has got through, if it is told from there on. -/
theorem carries {body : Machine → Process (Book μ) (Except CallFault Bool)}
    (h : ∀ (held : List Nat) (b : Book μ) k (found : Engine μ) m, c.machine ∉ held → Told e₀ b →
      visit? c.machine b.2 = some ⟨c, found, []⟩ → found.machines[c.machine]? = some m →
        (rules e₀).Continues held b k →
          (((body m).bind (Engine.leave c)).bind k).Obeys (rules e₀) (c.machine :: held) b) :
    (rules e₀).Carries c body := by
  intro m held b k hb hk
  -- no machine goes away
  have hm' : ∃ m', b.1.machines[c.machine]? = some m' := by
    obtain ⟨b₀, hb₀, hm⟩ := hb.there
    obtain ⟨now₀, hn₀⟩ := hb₀.machine c.machine
    obtain ⟨now, hn⟩ := hb.always.machine c.machine
    rw [hn₀] at hm
    obtain ⟨m₀, hm₀, -⟩ := Option.map_eq_some_iff.mp hm
    exact ⟨_, hn.trans (congrArg _ hm₀)⟩
  obtain ⟨m', hm'⟩ := hm'
  have hg := goes_line hb.unheld hb.always (.admitted hb.rest hm')
  refine ⟨part_unheld, ?_⟩
  have h := h held _ k b.1 m' hb.unheld hg.always (visit?_admitted ..) hm' (hk.goes hg)
  dsimp only
  rw [hm']
  exact h

theorem kept (e₀ : Engine μ) : (rules e₀).Kept where
  toLenient := lenient_rules e₀
  serves _ hsend _ := carries fun _ _ _ _ _ hc hb hv hm hk =>
    obeys_flow hsend ⟨hv, hm, fun _ _ h => h⟩ hc hb hk
  turns _ := carries fun _ _ _ _ _ hc hb hv _ hk => obeys_leave hc hb (.turned hv) hk

end Told

/-- What scripts come to is told by their journal. -/
theorem Script.Comes.told {most : Nat} {e : Engine μ} {xs : List (Script μ)} {b : Book μ}
    (h : Comes most e xs b) : Told e b :=
  (Told.kept e).comes .start (fun _ => rfl) h

end Workflow
