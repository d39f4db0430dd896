import Mathlib
import Workflow.Proofs.Engine.Turn

/-!
# Calls one after another

Calls are made side by side on machines that let them wait. Each step of the pool keeps all lanes in
order, so that at the end all calls have left, and each machine has done what it does when its calls
are made one after another in the order in which they came.

Results:
* `Lanes.step`: a step keeps the lanes in order.
* `oneInside_serveAll`: of calls that are served one after another, one at most is inside.
* `calls_serialize`: calls that are made side by side are processed one after another.
-/
namespace Workflow

variable {μ : Type}

/-! ## Who is inside -/

theorem admissions_serve (host : Host (Handler μ)) (m : Machine) (c : Call) :
    admissions (serve host m c).1 = [c] := by
  show admissions ((c, .admitted) :: (_ ++ [(c, .left _)])) = [c]
  rw [← List.singleton_append, admissions_append, admissions_append, admissions_did]
  rfl

theorem departures_serve (host : Host (Handler μ)) (m : Machine) (c : Call) :
    departures (serve host m c).1 = [(c, ((c.flow m).play host []).2)] := by
  show departures ((c, .admitted) :: (_ ++ [(c, .left _)])) = _
  rw [← List.singleton_append, departures_append, departures_append, departures_did]
  rfl

theorem admissions_serveAll (host : Host (Handler μ)) (m : Machine) (cs : List Call) :
    admissions (serveAll host m cs).1 = cs := by
  induction cs generalizing m with
  | nil => rfl
  | cons c cs ih =>
    show admissions ((serve host m c).1 ++ (serveAll host (serve host m c).2 cs).1) = c :: cs
    rw [admissions_append, admissions_serve, ih]
    rfl

/-- While one call is served, it is the only one inside. -/
theorem oneInside_serve {host : Host (Handler μ)} {m : Machine} {c : Call}
    {ls : List (Call × Mark μ)} (h : ls <+: (serve host m c).1) : OneInside ls := by
  rcases List.prefix_cons_iff.mp h with rfl | ⟨t, rfl, ht⟩
  · exact ⟨List.nil_prefix, by simp [admissions]⟩
  · rw [← List.singleton_append]
    unfold OneInside
    rw [admissions_append, departures_append]
    rcases List.prefix_concat_iff.mp ht with rfl | ht
    · -- the call has left
      rw [admissions_append, departures_append, admissions_did, departures_did]
      exact ⟨List.prefix_rfl, Nat.le_succ 1⟩
    · -- the call has done some of its deeds
      have ha : admissions t <+: _ := ht.filterMap admission?
      have hd : departures t <+: _ := ht.filterMap departure?
      rw [← admissions, admissions_did] at ha
      rw [← departures, departures_did] at hd
      rw [List.prefix_nil.mp ha, List.prefix_nil.mp hd]
      exact ⟨List.nil_prefix, by simp [admissions, admission?]⟩

/-- Of calls that are served one after another, one at most is inside. -/
theorem oneInside_serveAll {host : Host (Handler μ)} {m : Machine} {cs : List Call}
    {ls : List (Call × Mark μ)} (h : ls <+: (serveAll host m cs).1) : OneInside ls := by
  induction cs generalizing m ls with
  | nil =>
    rw [List.prefix_nil.mp h]
    exact ⟨List.nil_prefix, by simp [admissions]⟩
  | cons c cs ih =>
    obtain ⟨rest, he⟩ := h
    have he : ls ++ rest = (serve host m c).1 ++ (serveAll host (serve host m c).2 cs).1 := he
    rcases List.append_eq_append_iff.mp he with ⟨more, hs, -⟩ | ⟨ls', rfl, hs⟩
    · exact oneInside_serve ⟨more, hs.symm⟩
    · obtain ⟨hp, hl⟩ := ih ⟨rest, hs.symm⟩
      unfold OneInside
      rw [admissions_append, departures_append, admissions_serve, departures_serve]
      refine ⟨?_, ?_⟩
      · rw [List.map_append]
        exact (List.prefix_append_right_inj [c]).mpr hp
      · rw [List.length_append, List.length_append, List.length_singleton, List.length_singleton]
        omega

/-! ## All lanes -/

variable [Recorder μ]

/-- The lanes of all machines are in order; `ms` are the machines as they were at first. -/
structure Lanes (most : Nat) (calls : List Call) (reg : Registry (Handler μ))
    (host : Host (Handler μ)) (ms : List Machine) (p : Pool (Book μ) (Except CallFault Bool)) :
    Prop where
  registry : p.state.1.registry = reg
  tasks : p.tasks.length = calls.length
  nodup : p.ready.Nodup
  known : ∀ n ∈ p.ready, n < calls.length
  lane : ∀ i m, ms[i]? = some m → Lane most calls i reg host m p.toShared p.tasks

/-- Each call is made on a machine where calls wait for each other. -/
def Queued (ms : List Machine) (calls : List Call) : Prop :=
  ∀ c ∈ calls, ∃ m, ms[c.machine]? = some m ∧ m.sends = .queue

section

variable {most : Nat} {calls : List Call} {reg : Registry (Handler μ)} {host : Host (Handler μ)}
  {ms : List Machine} {p q : Pool (Book μ) (Except CallFault Bool)}

/-- A step keeps the lanes in order. -/
theorem Lanes.step (hp : host.Plays reg) (hq : Queued ms calls)
    (h : Lanes most calls reg host ms p) (hs : p.step = some q) :
    Lanes most calls reg host ms q := by
  cases hr : p.ready with
  | nil =>
    rw [Pool.step_of_nil hr] at hs
    cases hs
  | cons n rest =>
    have hn : n < calls.length := h.known n (by simp [hr])
    have hd : n ∉ rest := by
      have := h.nodup
      rw [hr] at this
      exact (List.nodup_cons.mp this).1
    have hc : calls[n]? = some calls[n] := List.getElem?_eq_getElem hn
    obtain ⟨m, hm, hms⟩ := hq calls[n] (List.getElem_mem hn)
    have hl : n < p.tasks.length := by rw [h.tasks]; exact hn
    obtain ⟨x, hx, hlane, hb⟩ := (h.lane _ m hm).turn hp hms hl hc rfl hr hd h.registry
    rw [Pool.step_of_running hr hx] at hs
    cases hs
    refine ⟨hb.registry.trans h.registry, ?_, hb.nodup h.nodup, fun k hk => ?_, fun i m' hi => ?_⟩
    · rw [List.length_set]
      exact h.tasks
    · rcases hb.known k hk with hk | hk
      · exact h.known k hk
      · exact hk
    · by_cases hne : i = calls[n].machine
      · subst hne
        obtain rfl : m = m' := Option.some.inj (hm.symm.trans hi)
        exact hlane
      · exact hb.lane hne (h.lane i m' hi)

/-- Before the first step nobody has come. -/
theorem lanes_ofTasks (e : Engine μ) : Lanes most calls e.registry host e.machines
    (Pool.ofTasks (e, []) (calls.map (Call.watch most))) := by
  refine ⟨rfl, by simp [Pool.ofTasks], List.nodup_range, fun n hn => ?_, fun i m hm => ?_⟩
  · have := List.mem_range.mp hn
    rwa [List.length_map] at this
  · refine ⟨[], none, ⟨rfl, fun _ hn => (by cases hn), List.nodup_nil, rfl, fun _ => rfl,
      fun n c hc hi _ => ?_, fun _ hn => (by cases hn), fun _ hn => (by cases hn), rfl⟩,
      .idle ⟨rfl, hm⟩⟩
    have hn : n < calls.length := (List.getElem?_eq_some_iff.mp hc).1
    refine ⟨by simpa [Pool.ofTasks] using hn, c.delay, ?_⟩
    simp [Pool.ofTasks, hc, Call.watch]

/-- Where no task is ready any more, all calls on a machine have left. -/
theorem Lanes.served {i : Nat} {m : Machine} (h : Lanes most calls reg host ms p)
    (hr : p.ready = []) (hm : ms[i]? = some m) :
    ∃ order : List Nat, order.Nodup ∧ (∀ n, n ∈ order ↔ ∃ c, calls[n]? = some c ∧ c.machine = i) ∧
      arrivals i (trail p.state.2) = named calls order ∧
      List.Forall₂ (fun n l => calls[n]? = some l.1 ∧ p.tasks[n]? = some (.done l.2)) order
        (departures (work i (trail p.state.2))) ∧
      Worked calls i host m order [] [] p.state := by
  obtain ⟨past, holder?, hq, hst⟩ := h.lane i m hm
  have none_ready (n : Nat) : n ∉ p.ready := by
    rw [hr]
    exact List.not_mem_nil
  cases hst with
  | entering hn _ _ _ => exact absurd hn (none_ready _)
  | inside hn _ _ _ _ _ => exact absurd hn (none_ready _)
  | idle hw =>
    have line : past ++ ((none : Option Nat).toList ++ (p.locks i).waiting) = past := by
      rw [hq.free rfl]
      simp
    have ha := hq.arrived
    have hn := hq.nodup
    have hmine := hq.mine
    have hc := hq.coming
    rw [line] at ha hn hmine hc
    have hres := List.forall₂_eq_eq_eq.symm ▸ hq.results
    rw [List.forall₂_map_left_iff, List.forall₂_map_right_iff] at hres
    refine ⟨past, hn, fun n => ⟨hmine n, ?_⟩, ha, hres.imp fun n l h => ?_, hw⟩
    · rintro ⟨c, hcn, hi⟩
      by_contra hmem
      exact none_ready n (hc n c hcn hi hmem).1
    · exact Prod.mk.inj h

/-- A run of calls ends with lanes in which nobody is left. -/
theorem lanes_run (most : Nat) (hp : host.Plays reg) {e : Engine μ} (he : e.registry = reg)
    (hq : Queued e.machines calls) :
    let w := (Pool.ofTasks (e, []) (calls.map (Call.watch most))).run
    Lanes most calls reg host e.machines w ∧ w.ready = [] := by
  subst he
  refine ⟨?_, Pool.ready_run _⟩
  exact (Pool.run_keeps (fun h hs => h.step hp hq hs) _ (lanes_ofTasks e)).1

end

/-! ## Calls in turn -/

section

variable {i : Nat} {m : Machine} {reg : Registry (Handler μ)} {host : Host (Handler μ)}

/-- Calls that are made in turn: each runs alone to its end before the next one comes. -/
def inTurn (most : Nat) (e : Engine μ) : List Call → Book μ
  | [] => (e, [])
  | c :: cs =>
    let b := (Pool.ofTasks (e, []) [c.watch most]).run.state
    let b' := inTurn most b.1 cs
    (b'.1, b.2 ++ b'.2)

/-- Watching calls that are made in turn changes nothing. -/
theorem inTurn_engine (most : Nat) (e : Engine μ) (cs : List Call) :
    (inTurn most e cs).1 =
      cs.foldl (fun e c => (Pool.ofTasks e [c.process most]).run.state) e := by
  induction cs generalizing e with
  | nil => rfl
  | cons c cs ih =>
    have h := (Call.run_watched most [c] e).shared
    have hb : (Pool.ofTasks e [c.process most]).run.state =
        (Pool.ofTasks (e, []) [c.watch most]).run.state.1 := congrArg Shared.state h
    rw [List.foldl_cons, hb]
    exact ih _

/-- A call that runs alone is served. -/
theorem alone_serves (most : Nat) {c : Call} {e : Engine μ} (hp : host.Plays e.registry)
    (hi : c.machine = i) (hm : e.machines[i]? = some m) (hs : m.sends = .queue) :
    let b := (Pool.ofTasks (e, []) [c.watch most]).run.state
    work i (trail b.2) = (serve host m c).1 ∧ b.1.machines[i]? = some (serve host m c).2 ∧
      b.1.registry = e.registry := by
  have hq : Queued e.machines [c] := by
    intro c' hc'
    rw [List.mem_singleton.mp hc', hi]
    exact ⟨m, hm, hs⟩
  obtain ⟨hl, hr⟩ := lanes_run most hp rfl hq
  obtain ⟨order, hn, hmem, -, -, hw⟩ := hl.served hr hm
  have ho : order = [0] := by
    refine List.perm_singleton.mp ((List.perm_ext_iff_of_nodup hn (by simp)).mpr fun n => ?_)
    rw [hmem, List.mem_singleton]
    constructor
    · rintro ⟨c', hc', -⟩
      have := (List.getElem?_eq_some_iff.mp hc').1
      simpa using this
    · rintro rfl
      exact ⟨c, rfl, hi⟩
  subst ho
  refine ⟨hw.lines.trans ?_, hw.machine, hl.registry⟩
  simp [named, serveAll]

/-- Calls on one machine that are made in turn are served one after another. -/
theorem inTurn_serves (most : Nat) {cs : List Call} {e : Engine μ} (hp : host.Plays e.registry)
    (hs : ∀ c ∈ cs, c.machine = i ∧ m.sends = .queue) (hm : e.machines[i]? = some m) :
    work i (trail (inTurn most e cs).2) = (serveAll host m cs).1 ∧
      (inTurn most e cs).1.machines[i]? = some (serveAll host m cs).2 := by
  induction cs generalizing e m with
  | nil => exact ⟨rfl, hm⟩
  | cons c cs ih =>
    obtain ⟨hi, hq⟩ := hs c (by simp)
    obtain ⟨hw, hm', hr⟩ := alone_serves most hp hi hm hq
    have hs' : ∀ c' ∈ cs, c'.machine = i ∧ (serve host m c).2.sends = .queue := fun c' hc' =>
      ⟨(hs c' (by simp [hc'])).1, (affect_sends ..).trans hq⟩
    have h := ih (by rw [hr]; exact hp) hs' hm'
    refine ⟨?_, h.2⟩
    show work i (trail (_ ++ _)) = _
    unfold trail at hw h ⊢
    rw [List.map_append, work_append, hw, h.1]
    rfl

end

/-! ## Calls side by side -/

/-- The calls on a machine are processed one after another, in the order in which they come: `order`
has their numbers, `p` is what has become of all calls, and `ls` tells what has been done. -/
structure Serialized (most : Nat) (e : Engine μ) (calls : List Call) (i : Nat)
    (p : Pool (Engine μ) (Except CallFault Bool)) (ls : List (Call × Mark μ)) (order : List Nat) :
    Prop where
  nodup : order.Nodup
  mem : ∀ n, n ∈ order ↔ ∃ c, calls[n]? = some c ∧ c.machine = i
  arrivals : arrivals i ls = named calls order
  /-- At all times at most one call is inside. -/
  inside : ∀ past, past <+: ls → OneInside (work i past)
  admissions : admissions (work i ls) = named calls order
  results : List.Forall₂ (fun n l => calls[n]? = some l.1 ∧ p.result? n = some l.2) order
    (departures (work i ls))
  /-- What is done on the machine is what the calls do that are made in turn. -/
  work : work i ls = work i (trail (inTurn most e (named calls order)).2)
  machine : p.state.machines[i]? = ((named calls order).foldl
    (fun e c => (Pool.ofTasks e [c.process most]).run.state) e).machines[i]?

/-- **Calls that are made side by side are processed one after another**, machine by machine, if
they wait for each other and all handlers are steady. -/
theorem calls_serialize (most : Nat) (e : Engine μ) (calls : List Call) (hs : e.registry.Steady)
    (hq : Queued e.machines calls) :
    let p := (Pool.ofTasks e (calls.map (Call.process most))).run
    let w := (Pool.ofTasks (e, []) (calls.map (Call.watch most))).run
    p.state = w.state.1 ∧ (∀ n, p.result? n = w.result? n) ∧
      ∀ i m, e.machines[i]? = some m →
        ∃ order, Serialized most e calls i p (trail w.state.2) order := by
  intro p w
  have hm : p.Mirrors w := Call.run_watched most calls e
  have hstate : p.state = w.state.1 := congrArg Shared.state hm.shared
  obtain ⟨host, hp⟩ := hs.exists_host
  obtain ⟨hl, hr⟩ := lanes_run most hp rfl hq
  refine ⟨hstate, hm.result?, fun i m hi => ?_⟩
  obtain ⟨order, hn, hmem, ha, hres, hw⟩ := hl.served hr hi
  have hlines : work i (trail w.state.2) = (serveAll host m (named calls order)).1 :=
    hw.lines.trans (List.append_nil _)
  have hqueue : ∀ c ∈ named calls order, c.machine = i ∧ m.sends = .queue := by
    intro c hc
    obtain ⟨n, hno, hnc⟩ := List.mem_filterMap.mp hc
    obtain ⟨c', hc', hci⟩ := (hmem n).mp hno
    obtain rfl : c = c' := Option.some.inj (hnc.symm.trans hc')
    obtain ⟨m', hm', hs'⟩ := hq c (List.mem_of_getElem? hnc)
    rw [hci, hi] at hm'
    cases hm'
    exact ⟨hci, hs'⟩
  obtain ⟨htl, htm⟩ := inTurn_serves most hp hqueue hi
  refine ⟨order, hn, hmem, ha, fun past hpast => ?_, ?_, ?_, hlines.trans htl.symm, ?_⟩
  · have h : work i past <+: work i (trail w.state.2) := hpast.filter _
    rw [hlines] at h
    exact oneInside_serveAll h
  · rw [hlines]
    exact admissions_serveAll ..
  · refine hres.imp fun n l h => ⟨h.1, ?_⟩
    rw [hm.result?, Pool.result?, h.2]
  · rw [hstate, ← inTurn_engine, htm]
    exact hw.machine

/-- A handler that pauses once, and then counts. -/
def counter : Handler Unit where
  run _ context :=
    let n := match context.get? "n" with
      | some (.int n) => n
      | _ => 0
    .pause (.finish (.ok (.obj [("n", .int (n + 1))])))

/-- A machine that counts the events that are sent to it, and its handler. -/
def counting : Engine Unit where
  board := { memory := () }
  registry := { entries := [("count", (0, counter))] }
  machines := [{
    chart := { initial := "on", states := [("on", { transitions := [{
      target := "on", event := "TICK", actions := [{ action := "count" }] }] })] }
    actions := [("count", { category := "count" })]
    live := { state := "on", context := [] } }]

def ticks : List Call :=
  [{ caller := 0, delay := 1, machine := 0, event := some { type := "TICK" } },
    { caller := 1, machine := 0, event := some { type := "TICK" } }, { caller := 2, machine := 0 }]

theorem counting_steady : counting.registry.Steady := by
  intro category h hr params context
  have hh : h = counter := by
    simp only [Registry.resolve, counting, Fields.get?, List.lookup] at hr
    split at hr <;> cases hr
    rfl
  subst hh
  exact ⟨_, .pause (.finish _)⟩

theorem ticks_queued : Queued counting.machines ticks := by
  intro c hc
  have hi : c.machine = 0 := by
    simp only [ticks, List.mem_cons, List.not_mem_nil, or_false] at hc
    rcases hc with rfl | rfl | rfl <;> rfl
  rw [hi]
  exact ⟨_, rfl, rfl⟩

theorem calls_serialize_ticks : counting.registry.Steady ∧ Queued counting.machines ticks ∧
    ∃ ls order, Serialized 1 counting ticks 0
      (Pool.ofTasks counting (ticks.map (Call.process 1))).run ls order := by
  obtain ⟨order, h⟩ := (calls_serialize 1 counting ticks counting_steady ticks_queued).2.2 0 _ rfl
  exact ⟨counting_steady, ticks_queued, _, order, h⟩

example : (arrivals 0 (trail (Pool.ofTasks (counting, [])
    (ticks.map (Call.watch 1))).run.state.2)).map (·.caller) = [1, 2, 0] := by cbv

end Workflow
