import Workflow.Proofs.Call.Announced
import Workflow.Proofs.Engine.Served
import Workflow.Proofs.Engine.Telling

/-!
# Subscribers are up to date

A subscription to the states of a machine that is made while no call is inside follows the machine:
whenever no call is inside, what it was handed last is what the machine has. It falls behind if a
call breaks off, as then no transition is taken and nobody is told, and it stays behind until it is
handed something again.

Results:
* `Call.unannounced`: what a call changes it announces, unless it breaks off.
* `Told.knows_line`, `Told.served`: what a subscription knows, line by line and at any moment.
* `subscribers_upToDate`: wherever a run of scripts comes to.
* `not_upToDate`: a call that breaks off leaves subscribers behind.
-/
namespace Workflow

/-! ## Calls -/

namespace Call

variable {η : Type} {c : Call} {m : Machine} {ds : List (Deed η)} {r : Except CallFault Bool}

/-- A call announces its machine at its end, if it does. -/
theorem announced_last (h : (c.flow m).Runs ds r) : .announced ∉ ds.dropLast := by
  rcases runs_flow_cases h with ⟨e, -, h⟩ | h
  · exact h.announced_last
  · exact h.announced_last

/-- What a call does not announce it has not changed, unless it breaks off. -/
theorem unannounced (h : (c.flow m).Runs ds r) (hd : .announced ∉ ds) :
    (∃ started, ds.foldl Deed.affect m = { m with live := { m.live with started } }) ∨
      ∃ e f, c.event = some e ∧ r = .error f ∧ m.BreaksOff e ds f := by
  rcases runs_flow_cases h with ⟨e, he, h⟩ | h
  · rcases h.unannounced hd with hl | ⟨f, hr, hb⟩
    · exact .inl hl
    · exact .inr ⟨e, f, he, hr, hb⟩
  · exact .inl (h.unannounced hd)

end Call

variable {μ : Type}

/-! ## What a subscription knows -/

/-- A call that has broken off leaves its machine. -/
def Line.BreaksOff (before : List (Line μ)) (l : Line μ) : Prop :=
  ∃ v m e f, visit? l.call.machine before = some v ∧
    v.found.machines[l.call.machine]? = some m ∧ l.call.event = some e ∧
    l.mark = .left (.error f) ∧ m.BreaksOff e v.done f

/-- What subscribers to the states of a machine are to know: what the machine has, or what the call
has found that is inside and has not announced it. -/
inductive Knows (i : Nat) (b : Book μ) (n? : Option Notice) : Prop where
  | outside (hv : visit? i b.2 = none) (h : b.1.greet (stateChannel i) = n?)
  | announced {v : Visit μ} (hv : visit? i b.2 = some v) (ha : .announced ∈ v.done)
    (h : b.1.greet (stateChannel i) = n?)
  | inside {v : Visit μ} (hv : visit? i b.2 = some v) (ha : .announced ∉ v.done)
    (h : v.found.greet (stateChannel i) = n?)

theorem Knows.congr {i : Nat} {b b' : Book μ} {n? : Option Notice} (h : Knows i b n?)
    (hv : visit? i b'.2 = visit? i b.2)
    (hg : b'.1.greet (stateChannel i) = b.1.greet (stateChannel i)) : Knows i b' n? := by
  cases h with
  | outside hs h => exact .outside (hv.trans hs) (hg.trans h)
  | announced hs ha h => exact .announced (hv.trans hs) ha (hg.trans h)
  | inside hs ha h => exact .inside (hv.trans hs) ha h

theorem Engine.greet_congr {e e' : Engine μ} {i : Nat} (h : e'.pair? i = e.pair? i) :
    e'.greet (stateChannel i) = e.greet (stateChannel i) := by
  rw [greet_state_eq, greet_state_eq, h]

variable [Recorder μ]

theorem Line.after_greet {l : Line μ} {i : Nat} (h : ∀ m, l.affect i m = m) :
    l.after.greet (stateChannel i) = l.engine.greet (stateChannel i) := by
  refine Engine.greet_congr ?_
  unfold Engine.pair?
  rw [l.after_machine, Option.map_map]
  congr 1
  funext m
  rw [Function.comp_apply, h]

namespace Told

variable {e₀ e : Engine μ} {ls : List (Line μ)} {l : Line μ} {i serial : Nat} {n? : Option Notice}

/-- A machine has what the call has found that is inside, if its deeds have changed neither state
nor context. -/
theorem pair?_inside {v : Visit μ} (h : Told e₀ (e, ls)) (hv : visit? i ls = some v)
    (hs : ∀ m, v.found.machines[i]? = some m →
      ∃ started, v.done.foldl Deed.affect m = { m with live := { m.live with started } }) :
    e.pair? i = v.found.pair? i := by
  obtain ⟨-, m, hm, he, -⟩ := h.visited hv
  obtain ⟨started, hl⟩ := hs m hm
  rw [Engine.pair?, Engine.pair?, he, hm, hl]
  rfl

/-- A call that leaves a machine has announced it at last, or leaves it as it was, or has broken
off. -/
theorem leaving {r : Except CallFault Bool} (h : Told e₀ (l.engine, ls)) (hf : Fits ls l)
    (hr : l.mark = .left r) : ∃ v, visit? l.call.machine ls = some v ∧
      ((∃ done, v.done = done ++ [.announced]) ∨
        l.engine.pair? l.call.machine = v.found.pair? l.call.machine ∨ l.BreaksOff ls) := by
  cases hf with
  | beside hw => exact absurd hr (Line.ne_left hw r)
  | admitted => cases hr
  | did => cases hr
  | @left c e found m done r hv hm hd =>
    refine ⟨_, hv, ?_⟩
    by_cases ha : .announced ∈ done
    · left
      have hlast : .announced ∉ done.dropLast := Call.announced_last hd
      rcases List.eq_nil_or_concat' done with rfl | ⟨ds, d, rfl⟩
      · cases ha
      · rw [List.dropLast_concat] at hlast
        rcases List.mem_append.mp ha with ha | ha
        · exact absurd ha hlast
        · exact ⟨ds, by rw [List.mem_singleton.mp ha]⟩
    · rcases Call.unannounced hd ha with ⟨started, hs⟩ | ⟨event, f, he, rfl, hx⟩
      · refine .inr (.inl (h.pair?_inside hv fun m' hm' => ⟨started, ?_⟩))
        rw [hm] at hm'
        cases hm'
        exact hs
      · exact .inr (.inr ⟨_, m, event, f, hv, hm, he, rfl, hx⟩)
  | turned hv =>
    exact ⟨_, hv, .inr (.inl (h.pair?_inside hv fun m _ => ⟨m.live.started, rfl⟩))⟩

/-- When a call leaves a machine, subscribers know what they are to know if they did so before,
unless it has broken off. -/
theorem knows_left {r : Except CallFault Bool} (h : Told e₀ (l.engine, ls)) (hf : Fits ls l)
    (hr : l.mark = .left r) (hk : Knows l.call.machine (l.engine, ls) n?) :
    Knows l.call.machine (l.after, ls ++ [l]) n? ∨ l.BreaksOff ls := by
  obtain ⟨v, hv, hd⟩ := h.leaving hf hr
  obtain ⟨c, mark, e⟩ := l
  obtain rfl : mark = .left r := hr
  cases hk with
  | outside hs => exact absurd (hs.symm.trans hv) (by simp)
  | announced _ _ hk => exact .inl (.outside (visit?_left ..) hk)
  | inside hs ha hk =>
    cases hv.symm.trans hs
    rcases hd with ⟨done, hd⟩ | hp | hb
    · rw [hd] at ha
      simp at ha
    · exact .inl (.outside (visit?_left ..) (.trans (Engine.greet_congr hp) hk))
    · exact .inr hb

/-- At a line at which a machine is not announced, subscribers know what they are to know if they
did so before, unless a call leaves that has broken off. -/
theorem knows_line (h : Told e₀ (l.engine, ls)) (hf : Fits ls l) (hk : Knows i (l.engine, ls) n?)
    (hn : l.call.machine = i → l.mark ≠ .did .announced) :
    Knows i (l.after, ls ++ [l]) n? ∨ l.call.machine = i ∧ l.BreaksOff ls := by
  by_cases hi : l.call.machine = i
  · subst hi
    cases hf with
    | beside hw =>
      have ha (m : Machine) : l.affect l.call.machine m = m := Line.affect_of_ne (Line.ne_did hw) m
      exact .inl (hk.congr (visit?_beside (hw _) ls) (Line.after_greet ha))
    | @admitted c e m hs hm =>
      refine .inl ?_
      cases hk with
      | outside _ h => exact .inside (visit?_admitted ..) (by simp) h
      | announced hv => exact absurd (hs.symm.trans hv) (by simp)
      | inside hv => exact absurd (hs.symm.trans hv) (by simp)
    | @did c e found m done more d r hs hm hr =>
      have hlast : .announced ∉ (done ++ d :: more).dropLast := Call.announced_last hr
      rw [List.dropLast_append_of_ne_nil (by simp)] at hlast
      refine .inl ?_
      cases hk with
      | outside hv => exact absurd (hv.symm.trans hs) (by simp)
      | announced hv ha =>
        cases hs.symm.trans hv
        exact absurd (List.mem_append_left _ ha) hlast
      | inside hv ha hk =>
        cases hs.symm.trans hv
        refine .inside (visit?_did hs d e) ?_ hk
        have hd : d ≠ .announced := fun hd => hn rfl (congrArg Mark.did hd)
        simp [ha, hd.symm]
    | left hs hm hr => exact (h.knows_left (.left hs hm hr) rfl hk).imp_right fun hb => ⟨rfl, hb⟩
    | turned hs => exact (h.knows_left (.turned hs) rfl hk).imp_right fun hb => ⟨rfl, hb⟩
  · exact .inl (hk.congr (visit?_elsewhere hi ls) (Line.after_greet (Line.affect_elsewhere hi)))

/-- A call that has broken off leaves its machine in the state that it has found, with another
context. It comes to an error, to that of an action only if the machine aborts. -/
theorem brokenOff {before : List (Line μ)} (h : Told e₀ (l.engine, before))
    (hb : l.BreaksOff before) : ∃ v f p q, visit? l.call.machine before = some v ∧
      l.mark = .left (.error f) ∧ v.found.pair? l.call.machine = some p ∧
      l.engine.pair? l.call.machine = some q ∧ q.1 = p.1 ∧ q.2 ≠ p.2 ∧
      ∀ a, f = .action a →
        (l.engine.machines[l.call.machine]?).map Machine.failure = some .abort := by
  obtain ⟨v, m, event, f, hv, hm, -, hf, hb⟩ := hb
  obtain ⟨-, m', hm', he, -⟩ := h.visited hv
  rw [hm] at hm'
  cases hm'
  obtain ⟨live, hl, hs, hc⟩ := hb.affect
  rw [hl] at he
  refine ⟨v, f, (m.live.state, m.live.context), (live.state, live.context), hv, hf, ?_, ?_, hs, hc,
    fun a ha => ?_⟩
  · rw [Engine.pair?, hm]
    rfl
  · rw [Engine.pair?, he]
    rfl
  · subst ha
    rw [he]
    exact congrArg some hb.failure

end Told

/-! ## Subscriptions that follow a machine -/

/-- A subscription to the states of a machine began while no call was inside. -/
def JoinedOutside (i serial : Nat) (ls : List (Line μ)) : Prop :=
  ∃ before l after, ls = before ++ l :: after ∧ visit? i before = none ∧
    l.Joins (stateChannel i) serial

/-- A call on a machine has broken off since a subscription to its states was handed something. -/
def Missed (i serial : Nat) (ls : List (Line μ)) : Prop :=
  ∃ before l after, ls = before ++ l :: after ∧ l.call.machine = i ∧ l.BreaksOff before ∧
    handedTo (stateChannel i) serial after = []

section

variable {e₀ e : Engine μ} {ls : List (Line μ)} {l : Line μ} {i serial : Nat}

theorem JoinedOutside.of_concat (h : JoinedOutside i serial (ls ++ [l])) :
    JoinedOutside i serial ls ∨ visit? i ls = none ∧ l.Joins (stateChannel i) serial := by
  obtain ⟨before, l', after, hs, hv, hj⟩ := h
  rcases concat_eq_split hs with ⟨rfl, rfl, rfl⟩ | ⟨after', rfl, he⟩
  · exact .inr ⟨hv, hj⟩
  · exact .inl ⟨before, l', after', he, hv, hj⟩

theorem Missed.concat (h : Missed i serial ls)
    (hl : l.handedTo (stateChannel i) serial = []) : Missed i serial (ls ++ [l]) := by
  obtain ⟨before, l', after, rfl, hi, hb, hn⟩ := h
  refine ⟨before, l', after ++ [l], by simp, hi, hb, ?_⟩
  rw [handedTo_concat, hn, hl]
  rfl

namespace Told

theorem joinedOutside_lt (h : Told e₀ (e, ls)) (hj : JoinedOutside i serial ls)
    (hc : stateChannel i < e.board.channels.length) :
    serial < (e.board.channel (stateChannel i)).next := by
  obtain ⟨before, l, after, rfl, -, hj⟩ := hj
  exact h.joined_lt (by simp) hj hc

/-- A subscription begins while no call is inside at a line that lets none in. -/
theorem joins_outside (hf : Fits ls l) (hv : visit? i ls = none)
    (hj : l.Joins (stateChannel i) serial) :
    visit? i (ls ++ [l]) = none ∧ ∀ m, l.affect i m = m := by
  by_cases hi : l.call.machine = i
  · subst hi
    cases hf with
    | beside hw =>
      exact ⟨(visit?_beside (hw _) ls).trans hv, Line.affect_of_ne (Line.ne_did hw)⟩
    | admitted =>
      obtain ⟨r, hr, -⟩ := hj
      cases hr
    | did hs => exact absurd (hv.symm.trans hs) (by simp)
    | left hs => exact absurd (hv.symm.trans hs) (by simp)
    | turned hs => exact absurd (hv.symm.trans hs) (by simp)
  · exact ⟨(visit?_elsewhere hi ls).trans hv, Line.affect_elsewhere hi⟩

/-- At the line of an announcement subscribers come to know what they are to know. -/
theorem knows_announced (h : Told e₀ (l.engine, ls)) (hf : Fits ls l) (hi : l.call.machine = i)
    (hm : l.mark = .did .announced)
    (hn : serial < (l.engine.board.channel (stateChannel i)).next)
    (ha : l.after.board.Active (stateChannel i) serial) :
    Knows i (l.after, ls ++ [l]) (handedTo (stateChannel i) serial (ls ++ [l])).getLast? := by
  subst hi
  cases hf with
  | beside hw => exact absurd hm (Line.ne_did hw _)
  | admitted => cases hm
  | left => cases hm
  | turned => cases hm
  | @did c e found m done more d r hs hf hr =>
    cases hm
    obtain ⟨live, he, -⟩ := h.inside hs hf
    have hg : e.greet (stateChannel c.machine) = some _ := Engine.greet_state e he
    refine .announced (visit?_did hs .announced e) (by simp) ?_
    rw [getLast?_handedTo (Line.handedTo_announced rfl rfl (by rw [hg]; rfl) hn ha)]
    refine Line.after_greet fun m => ?_
    show (if c.machine = c.machine then m else m) = m
    rw [ite_self]

/-- A subscription that began while no call was inside knows what it is to know, or has missed a
call that broke off. -/
theorem served (h : Told e₀ (e, ls)) (hj : JoinedOutside i serial ls)
    (ha : e.board.Active (stateChannel i) serial) :
    Knows i (e, ls) (handedTo (stateChannel i) serial ls).getLast? ∨ Missed i serial ls := by
  generalize hb : (e, ls) = b at h
  induction h generalizing e ls with
  | start =>
    cases hb
    obtain ⟨before, l, after, hs, -⟩ := hj
    cases before <;> cases hs
  | @quiet e₁ e' ls h hq ih =>
    cases hb
    have hm := hq.moves
    have hn := h.joinedOutside_lt hj (hm.size ▸ ha.lt)
    refine (ih hj (hm.active _ _ hn ha) rfl).imp_left fun hk => hk.congr rfl ?_
    exact Engine.greet_congr (Engine.pair?_of_machines hq.machines i)
  | @line l ls h hf ih =>
    cases hb
    have hm := l.moves
    rcases hj.of_concat with hj | ⟨hv, hj⟩
    · have hn := h.joinedOutside_lt hj (hm.size ▸ ha.lt)
      by_cases hx : l.call.machine = i ∧ l.mark = .did .announced
      · exact .inl (h.knows_announced hf hx.1 hx.2 hn ha)
      · -- the subscription is handed nothing
        have hi : l.call.machine = i → l.mark ≠ .did .announced := fun hi hl => hx ⟨hi, hl⟩
        have hnil : l.handedTo (stateChannel i) serial = [] := by
          refine Line.handedTo_eq_nil ?_ hi
          -- a subscription that begins has a new number
          rintro ⟨r, hr, hc, rfl, hx⟩
          have hnew := (hm.joined r hr hx).1
          rw [hc] at hnew
          omega
        rcases ih hj (hm.active _ _ hn ha) rfl with hk | hs
        · rcases h.knows_line hf hk hi with hk | ⟨hl, hb⟩
          · rw [handedTo_concat, hnil, List.append_nil]
            exact .inl hk
          · exact .inr ⟨ls, l, [], rfl, hl, hb, rfl⟩
        · exact .inr (hs.concat hnil)
    · obtain ⟨hv, hs⟩ := joins_outside hf hv hj
      refine .inl (.outside hv ?_)
      rw [getLast?_handedTo (Line.handedTo_joining hj)]
      exact Line.after_greet hs

end Told
end

/-- **Subscribers are up to date.** Scripts make calls on machines side by side, beside any handlers
and listeners and under any policies. Wherever their run comes to, whenever no call is inside a
machine: what a subscription to its states was handed last, that began while no call was inside and
is still active, is what the machine has, unless since then a call has broken off. And whenever a
call leaves a machine, it has announced it at last, or the machine has what the call has found, or
the call has broken off. Then it comes to an error, which is that of an action only if the machine
aborts, and leaves the machine in its state. -/
theorem subscribers_upToDate (most : Nat) (e : Engine μ) (xs : List (Script μ)) :
    (∀ p, (Pool.ofTasks e (xs.map (Script.process most))).Reaches p →
      ∃ ls, Script.Comes most e xs (p.state, ls)) ∧
    ∀ b : Book μ, Script.Comes most e xs b →
      (∀ i serial, visit? i b.2 = none → JoinedOutside i serial b.2 →
        b.1.board.Active (stateChannel i) serial → ¬ Missed i serial b.2 →
        ∃ p, b.1.pair? i = some p ∧
          (handedTo (stateChannel i) serial b.2).getLast? = some (.state p.1 p.2)) ∧
      (∀ before l after r, b.2 = before ++ l :: after → l.mark = .left r →
        ∃ v, visit? l.call.machine before = some v ∧
          ((∃ done, v.done = done ++ [.announced]) ∨
            l.engine.pair? l.call.machine = v.found.pair? l.call.machine ∨
            l.BreaksOff before)) ∧
      ∀ before l after, b.2 = before ++ l :: after → l.BreaksOff before →
        ∃ v f p q, visit? l.call.machine before = some v ∧ l.mark = .left (.error f) ∧
          v.found.pair? l.call.machine = some p ∧ l.engine.pair? l.call.machine = some q ∧
          q.1 = p.1 ∧ q.2 ≠ p.2 ∧ ∀ a, f = .action a →
            (l.engine.machines[l.call.machine]?).map Machine.failure = some .abort := by
  refine ⟨fun p hp => Script.exists_comes hp, fun b hc => ?_⟩
  have ht : Told e (b.1, b.2) := hc.told
  refine ⟨fun i serial hv hj ha hs => ?_,
    fun before l after r hl => (ht.behind hl).1.leaving (ht.behind hl).2,
    fun before l after hl => (ht.behind hl).1.brokenOff⟩
  rcases ht.served hj ha with hk | hm
  · cases hk with
    | announced hv' => exact absurd (hv.symm.trans hv') (by simp)
    | inside hv' => exact absurd (hv.symm.trans hv') (by simp)
    | outside _ hk =>
      -- it was handed something when it began
      obtain ⟨before, l, after, he, -, hl⟩ := hj
      have hne := handedTo_ne_nil (he ▸ List.mem_append_right _ (List.mem_cons_self ..)) hl
      have hk : b.1.greet (stateChannel i) = _ := hk
      rw [Engine.greet_state_eq, List.getLast?_eq_some_getLast hne] at hk
      obtain ⟨p, hp, hn⟩ := Option.map_eq_some_iff.mp hk
      exact ⟨p, hp, by rw [List.getLast?_eq_some_getLast hne, ← hn]⟩
  · exact absurd hm hs

/-! ## A subscriber that is left behind -/

/-- A machine that aborts. On an event it sets a value, and then something fails. -/
def failingLate : Engine Unit where
  board := { memory := (), channels := [{}, {}] }
  registry := { entries := [
    ("set", (0, { run _ _ := .finish (.ok (.obj [("x", .int 1)])) })),
    ("fail", (1, { run _ _ := .finish (.error { kind := "RuntimeError", text := "down" }) }))] }
  machines := [{
    failure := .abort
    chart := { initial := "open", states := [("open", { transitions := [{
      target := "closed", event := "CLOSE"
      actions := [{ action := "set" }, { action := "fail" }] }] }), ("closed", {})] }
    actions := [("set", { category := "set" }), ("fail", { category := "fail" })]
    live := { state := "open", context := [] } }]

/-- A listener is subscribed, and then the event is sent. -/
def following : List (Script Unit) :=
  [.subscribe 1 (stateChannel 0) ⟨"seen", .finish⟩ fun _ =>
    .call { caller := 0, machine := 0, event := some { type := "CLOSE" } } fun _ => .stop]

/-- The keys of the context that a notice shows. -/
def Notice.keys : Notice → List String
  | .state _ context => context.map (·.1)
  | .report _ => []

/-- In the end no call is inside, the listener is subscribed, it was handed an empty context at
last, and the machine has another one. -/
theorem following_ends : let b := (Script.watched 1 failingLate following).state
    ((visit? 0 b.2).isNone ∧
      b.2.head?.any (fun l => l.receipts.any fun r =>
        r.channel = stateChannel 0 ∧ r.serial = 0 ∧ r.joining)) ∧
    ((b.1.board.channel (stateChannel 0)).current.any (fun s => s.serial = 0) ∧
      (b.1.board.channel (stateChannel 0)).isActive 0) ∧
    (b.1.pair? 0).map (fun p => (Notice.state p.1 p.2).keys) = some ["x"] ∧
      (handedTo (stateChannel 0) 0 b.2).getLast?.map Notice.keys = some [] := by
  rw [Script.watched, Pool.run_eq_runFor 8 (by decide +kernel)]
  decide +kernel

/-- **Counterexample**: a subscriber to a machine that aborts is left behind when an action of a
transition fails after another one has changed the context. -/
theorem not_upToDate : ¬ ∀ (most : Nat) (e : Engine Unit) (xs : List (Script Unit)) (b : Book Unit),
    Script.Comes most e xs b → ∀ i serial, visit? i b.2 = none → JoinedOutside i serial b.2 →
      b.1.board.Active (stateChannel i) serial → ∃ p, b.1.pair? i = some p ∧
        (handedTo (stateChannel i) serial b.2).getLast? = some (.state p.1 p.2) := by
  intro h
  obtain ⟨⟨hv, hj⟩, ⟨hs, ha⟩, hp, hl⟩ := following_ends
  have h := h 1 failingLate following _ (Script.comes_watched ..) 0 0
    (Option.isNone_iff_eq_none.mp hv)
  generalize (Script.watched 1 failingLate following).state = b at h hj hs ha hp hl
  have hactive : b.1.board.Active (stateChannel 0) 0 := by
    obtain ⟨s, hs, hn⟩ := List.any_eq_true.mp hs
    exact ⟨⟨s, hs, by simpa using hn⟩, ha⟩
  have hjoined : JoinedOutside 0 0 b.2 := by
    cases hls : b.2 with
    | nil =>
      rw [hls] at hj
      cases hj
    | cons l ls =>
      rw [hls] at hj
      obtain ⟨r, hr, hx⟩ := List.any_eq_true.mp hj
      exact ⟨[], l, ls, rfl, rfl, r, hr, by simpa using hx⟩
  obtain ⟨p, hpair, hlast⟩ := h hjoined hactive
  rw [hpair, Option.map_some] at hp
  rw [hlast, Option.map_some] at hl
  rw [hl] at hp
  simp at hp

end Workflow
