import Workflow.Proofs.Call.Defined
import Workflow.Proofs.Engine.Nested
import Workflow.Proofs.Engine.Telling

/-!
# Machines are started once

The first call that gets through to a machine marks it as started, whether it starts the machine or
sends it an event, and whatever it comes to. A call that starts a machine and finds it marked does
nothing. So the entry actions of the initial state run at most once in the life of a machine by a
start, and never those of another state. Calls that are refused mark nothing.

Results:
* `Call.runs_started`: a call that goes its way leaves its machine marked.
* `Told.found_by`: what calls find that get through, and what a machine is that is free.
* `started_once`: wherever scripts come to.
-/
namespace Workflow

/-! ## Calls -/

namespace Machine

variable {η : Type} {m : Machine} {e : Event} {ds : List (Deed η)} {r : Except CallFault Bool}

theorem Took.started {live : Live} {t : Transition} (h : m.Took live e t ds r)
    (hl : live.started = true) : (ds.foldl Deed.affect { m with live }).live.started = true := by
  cases h with
  | dangling => exact hl
  | halted _ ha =>
    rw [ha.affect, ha.final_eq]
    exact hl
  | @entered target ds ds' after final fault? _ ha he =>
    have hs : (entering after e t).started = true := by
      rw [ha.final_eq]
      exact hl
    show (List.foldl Deed.affect { m with live } (ds ++ (_ :: _ :: (ds' ++ [_])))).live.started = _
    rw [List.foldl_append, ha.affect, List.foldl_cons, List.foldl_cons, List.foldl_append]
    show (List.foldl Deed.affect (List.foldl Deed.affect { m with live := _ } ds')
      [.announced]).live.started = true
    rw [he.affect, he.final_eq]
    exact hs

/-- A machine that has been sent an event is marked as started. -/
theorem Sent.started (h : m.Sent e ds r) : (ds.foldl Deed.affect m).live.started = true := by
  cases h with
  | lost => rw [List.foldl_append, trying_affect]; rfl
  | unmatched => rw [List.foldl_append, trying_affect]; rfl
  | overlong => rw [trying_affect]
  | taken _ _ ht =>
    rw [List.foldl_append, trying_affect]
    exact ht.started rfl

theorem Started.started (h : m.Started ds r) : (ds.foldl Deed.affect m).live.started = true := by
  cases h with
  | again h => exact h
  | lost => rfl
  | entered _ _ he =>
    rw [List.foldl_cons, List.foldl_append]
    show (List.foldl Deed.affect (List.foldl Deed.affect { m with live := _ } _)
      [.announced]).live.started = true
    rw [he.affect, he.final_eq]
    rfl

/-- To start a machine that is marked does nothing. -/
theorem Started.idle (h : m.Started ds r) (hs : m.live.started = true) :
    ds = [] ∧ r = .ok false := by
  cases h with
  | again => exact ⟨rfl, rfl⟩
  | lost h => cases hs.symm.trans h
  | entered h => cases hs.symm.trans h

end Machine

namespace Call

variable {η : Type} {c : Call} {m : Machine} {ds : List (Deed η)} {r : Except CallFault Bool}

/-- A call that goes its way leaves its machine marked as started, whatever it comes to. -/
theorem runs_started (h : (c.flow m).Runs ds r) : (ds.foldl Deed.affect m).live.started = true := by
  rcases Call.runs_flow_cases h with ⟨e, -, h⟩ | h
  · exact h.started
  · exact h.started

theorem runs_started_of_none (h : (c.flow m).Runs ds r) (hc : c.event = none) : m.Started ds r := by
  rcases Call.runs_flow_cases h with ⟨e, he, -⟩ | h
  · cases hc.symm.trans he
  · exact h

end Call

/-! ## Calls that have got through -/

variable {μ : Type}

/-- The calls that have got through to a machine, in their order. -/
def admitted (i : Nat) (ls : List (Line μ)) : List Call := admissions (work i (trail ls))

theorem admitted_beside {i : Nat} {l : Line μ} (h : isWork i (l.call, l.mark) = false)
    (ls : List (Line μ)) : admitted i (ls ++ [l]) = admitted i ls :=
  congrArg admissions (work_concat h ls)

theorem admitted_concat {i : Nat} {l : Line μ} (h : isWork i (l.call, l.mark) = true)
    (ls : List (Line μ)) :
    admitted i (ls ++ [l]) = admitted i ls ++ (admission? (l.call, l.mark)).toList := by
  unfold admitted
  rw [work_concat_of h, admissions_append]
  cases hl : admission? (l.call, l.mark) <;> simp [admissions, hl]

/-- The machine is as it was made as long as no call has got through to it, and is marked as started
from then on. -/
inductive Marked (i : Nat) (m : Machine) (past : List Call) (e : Engine μ) : Prop where
  | fresh (hp : past = []) (hm : e.machines[i]? = some m)
  | used {m' : Machine} (hp : past ≠ []) (hm : e.machines[i]? = some m')
    (hs : m'.live.started = true)

/-- A machine is free and marked if a call has got through to it, or a call is inside that has found
it so. -/
def FoundBy (i : Nat) (m : Machine) (b : Book μ) : Prop :=
  match visit? i b.2 with
  | none => Marked i m (admitted i b.2) b.1
  | some v => ∃ past, admitted i b.2 = past ++ [v.call] ∧ Marked i m past v.found

variable {i : Nat} {m : Machine} {past : List Call} {e₀ e e' : Engine μ} {ls : List (Line μ)}
  {l : Line μ}

theorem Marked.congr (h : Marked i m past e) (he : e'.machines[i]? = e.machines[i]?) :
    Marked i m past e' := by
  cases h with
  | fresh hp hm => exact .fresh hp (he.trans hm)
  | used hp hm hs => exact .used hp (he.trans hm) hs

theorem FoundBy.congr (h : FoundBy i m (e, ls)) {ls' : List (Line μ)}
    (hv : visit? i ls' = visit? i ls) (ha : admitted i ls' = admitted i ls)
    (he : e'.machines[i]? = e.machines[i]?) : FoundBy i m (e', ls') := by
  unfold FoundBy at h ⊢
  simp only [hv, ha]
  cases hx : visit? i ls with
  | none =>
    rw [hx] at h
    exact h.congr he
  | some v =>
    rw [hx] at h
    exact h

variable [Recorder μ]

namespace Told

/-- Where no call is turned back, each call that gets through finds the machine as it was made, or
marked as started if it is not the first one. -/
theorem found_by (h : Told e₀ (e, ls)) (hm : e₀.machines[i]? = some m)
    (hb : ∀ l ∈ ls, ∀ r, l.mark = .left r → ¬IsBusy r) : FoundBy i m (e, ls) := by
  generalize hx : (e, ls) = b at h
  induction h generalizing e ls with
  | start =>
    cases hx
    exact .fresh rfl hm
  | quiet _ hq ih =>
    cases hx
    exact (ih hb rfl).congr rfl rfl (by rw [hq.machines])
  | @line l ls h hf ih =>
    cases hx
    have ih := ih (fun l hl => hb l (List.mem_append_left _ hl)) rfl
    -- a line that is about others
    by_cases hw : isWork i (l.call, l.mark) = false
    · have ha : ∀ m, l.affect i m = m := fun m => by
        unfold Line.affect
        split
        · rename_i d hd
          exact if_neg fun hi => by simp [isWork, hd, hi] at hw
        · rfl
      refine ih.congr (visit?_beside hw ls) (admitted_beside hw ls) ?_
      rw [l.after_machine, funext ha]
      exact Option.map_id' ..
    · have hw : isWork i (l.call, l.mark) = true := by simpa using hw
      have hc := admitted_concat hw ls
      unfold FoundBy at ih ⊢
      cases hf with
      | beside h => exact absurd (h i) (by simp [hw])
      | @admitted c e _ hn =>
        obtain rfl : c.machine = i := by simpa [isWork] using hw
        rw [hn] at ih
        simp only [visit?_admitted]
        exact ⟨_, hc, ih⟩
      | @did c e found m' done more d r hv hm' hr =>
        obtain rfl : c.machine = i := by simpa [isWork] using hw
        rw [hv] at ih
        simp only [visit?_did hv]
        obtain ⟨past, hp, hk⟩ := ih
        exact ⟨past, by rw [hc, hp]; exact List.append_nil _, hk⟩
      | @left c e found m' done r hv hm' hr =>
        obtain rfl : c.machine = i := by simpa [isWork] using hw
        rw [hv] at ih
        simp only [visit?_left]
        obtain ⟨past, hp, -⟩ := ih
        obtain ⟨-, m'', hm'', he, -⟩ := h.visited hv
        rw [hm'] at hm''
        cases hm''
        refine .used ?_ he (Call.runs_started hr)
        rw [hc, hp]
        simp
      | @turned c e found name hv =>
        exact absurd ⟨name, rfl⟩ (hb _ (List.mem_append_right _ (List.mem_singleton_self _)) _ rfl)

/-- What a call does that starts its machine, it does as the first one that has got through. -/
theorem start_did (h : Told e₀ (l.engine, ls)) (hf : Fits ls l) (hx : FoundBy i m (l.engine, ls))
    (hi : l.call.machine = i) (hc : l.call.event = none) {d : Deed (Handler μ)}
    (hd : l.mark = .did d) : ∃ found done more r, visit? i ls = some ⟨l.call, found, done⟩ ∧
      admitted i ls = [l.call] ∧ found.machines[i]? = some m ∧
        m.Started (done ++ d :: more) r := by
  subst hi
  cases hf with
  | beside h =>
    have hw := h l.call.machine
    simp [isWork, hd] at hw
  | @did c e found m' done more d' r hv hm' hr =>
    obtain rfl : d' = d := by simpa using hd
    have hs := Call.runs_started_of_none hr hc
    unfold FoundBy at hx
    rw [hv] at hx
    obtain ⟨past, hp, hk⟩ := hx
    cases hk with
    | fresh hn hm =>
      subst hn
      rw [hm'] at hm
      cases hm
      exact ⟨found, done, more, r, hv, hp, hm', hs⟩
    | used _ hm hu =>
      rw [hm'] at hm
      cases hm
      have hn := (hs.idle hu).1
      simp at hn
  | admitted => cases hd
  | left => cases hd
  | turned => cases hd

/-- A call that has got through behind others and starts its machine leaves it as it was. -/
theorem start_left (h : Told e₀ (l.engine, ls)) (hf : Fits ls l)
    (hx : FoundBy i m (l.engine, ls)) (hi : l.call.machine = i) (hc : l.call.event = none)
    {r : Except CallFault Bool} (hl : l.mark = .left r) (hb : ¬IsBusy r) :
    ∃ found done, visit? i ls = some ⟨l.call, found, done⟩ ∧
      ((admitted i ls = [l.call] ∧ found.machines[i]? = some m ∧ m.Started done r) ∨
        ((∃ past, past ≠ [] ∧ admitted i ls = past ++ [l.call]) ∧ done = [] ∧ r = .ok false ∧
          l.engine.machines[i]? = found.machines[i]?)) := by
  subst hi
  cases hf with
  | beside h =>
    have hw := h l.call.machine
    simp [isWork, hl] at hw
  | @left c e found m' done r' hv hm' hr =>
    obtain rfl : r' = r := by simpa using hl
    have hs := Call.runs_started_of_none hr hc
    unfold FoundBy at hx
    rw [hv] at hx
    obtain ⟨past, hp, hk⟩ := hx
    refine ⟨found, done, hv, ?_⟩
    cases hk with
    | fresh hn hm =>
      subst hn
      rw [hm'] at hm
      cases hm
      exact .inl ⟨hp, hm', hs⟩
    | used hn hm hu =>
      rw [hm'] at hm
      cases hm
      obtain ⟨rfl, rfl⟩ := hs.idle hu
      obtain ⟨-, m'', hm'', he, -⟩ := h.visited hv
      exact .inr ⟨⟨past, hn, hp⟩, rfl, rfl, he.trans hm''.symm⟩
  | turned =>
    obtain rfl := Mark.left.inj hl
    exact absurd ⟨_, rfl⟩ hb
  | admitted => cases hl
  | did => cases hl

end Told

/-! ## Scripts -/

/-- **A machine is started once.** Let calls nest as deep as there are machines, and let tasks make
calls on a machine in any order, side by side, be the calls refused that overlap or have to wait,
and whatever handlers and listeners do. Then whatever a call does that starts the machine — to have
a handler run, to report, to publish a state or to announce it —, it does as the first call that has
got through, on the machine as it was made, and in the course of a start of that machine. When a
call leaves that starts the machine, either it was the first one that got through, and has started
the machine as it was made; or others have got through before it, and then it has done nothing,
comes to false, and leaves the machine as it has found it. Calls that are refused have not got
through. -/
theorem started_once (most : Nat) (e : Engine μ) (xs : List (Script μ))
    (hd : e.machines.length ≤ most + 1) {i : Nat} {m : Machine} (hm : e.machines[i]? = some m)
    {b : Book μ} (hb : Script.Comes most e xs b) :
    ∀ before l after, b.2 = before ++ l :: after → l.call.machine = i → l.call.event = none →
      (∀ d, l.mark = .did d → ∃ found done more r, visit? i before = some ⟨l.call, found, done⟩ ∧
        admitted i before = [l.call] ∧ found.machines[i]? = some m ∧
          m.Started (done ++ d :: more) r) ∧
      ∀ r, l.mark = .left r → ∃ found done, visit? i before = some ⟨l.call, found, done⟩ ∧
        ((admitted i before = [l.call] ∧ found.machines[i]? = some m ∧ m.Started done r) ∨
          ((∃ past, past ≠ [] ∧ admitted i before = past ++ [l.call]) ∧ done = [] ∧ r = .ok false ∧
            l.engine.machines[i]? = found.machines[i]?)) := by
  intro before l after hl hi hc
  have hbusy := (hb.notBusy hd).left
  obtain ⟨ht, hf⟩ := hb.told.behind hl
  have hx := ht.found_by hm fun l' hl' => hbusy l' (by rw [hl]; exact List.mem_append_left _ hl')
  refine ⟨fun d hd => ht.start_did hf hx hi hc hd, fun r hr => ?_⟩
  exact ht.start_left hf hx hi hc hr (hbusy l (by rw [hl]; simp) r hr)

/-- A machine that greets on the way into each of its states. -/
def greeter : Machine where
  chart := { initial := "open", states := [
    ("open", { entry := [{ action := "greet" }]
               transitions := [{ target := "closed", event := "CLOSE" }] }),
    ("closed", { entry := [{ action := "greet" }] })] }
  actions := [("greet", { category := "greet" })]
  live := { state := "open", context := [] }

/-- The machine, with a handler that takes its time. -/
def greeting : Engine Unit where
  board := { memory := (), channels := [{}, {}] }
  registry := { entries := [("greet", (0, { run _ _ := .pause (.finish (.ok .null)) }))] }
  machines := [greeter]

/-- One task starts the machine, closes it and starts it again; another one starts it meanwhile. -/
def greetings : List (Script Unit) :=
  let start (caller : Nat) : Call := { caller, machine := 0 }
  let close : Call := { caller := 0, machine := 0, event := some { type := "CLOSE" } }
  [.call (start 0) fun _ => .call close fun _ => .call (start 0) fun _ => .stop,
    .call (start 1) fun _ => .stop]

/-- The word for what is noted of a call: it gets through, has a handler run, or returns. -/
def Mark.word? {μ : Type} : Mark μ → Option String
  | .admitted => some "admitted"
  | .did (.called ..) => some "called"
  | .left (.ok b) => some (toString b)
  | _ => none

/-- The entry actions run for the first start and for the event. -/
theorem greetings_words : ((Script.watched 0 greeting greetings).state.2.filterMap fun l =>
    l.mark.word?.map fun w => (l.call.caller, l.call.event.isSome, w)) =
      [(0, false, "admitted"), (0, false, "called"), (0, false, "true"),
        (1, false, "admitted"), (1, false, "false"),
        (0, true, "admitted"), (0, true, "called"), (0, true, "true"),
        (0, false, "admitted"), (0, false, "false")] := by
  rw [Script.watched, Pool.run_eq_runFor 8 (by decide +kernel)]
  decide +kernel

theorem started_once_greetings : greeting.machines.length ≤ 0 + 1 ∧
    greeting.machines[0]? = some greeter ∧
    Script.Comes 0 greeting greetings (Script.watched 0 greeting greetings).state ∧
    ((Script.watched 0 greeting greetings).state.2.filterMap fun l =>
      l.mark.word?.map fun w => (l.call.caller, l.call.event.isSome, w)) =
        [(0, false, "admitted"), (0, false, "called"), (0, false, "true"),
          (1, false, "admitted"), (1, false, "false"),
          (0, true, "admitted"), (0, true, "called"), (0, true, "true"),
          (0, false, "admitted"), (0, false, "false")] ∧
    ∀ before l after, (Script.watched 0 greeting greetings).state.2 = before ++ l :: after →
      l.call.machine = 0 → l.call.event = none →
        (∀ d, l.mark = .did d → admitted 0 before = [l.call]) ∧
        ∀ r, l.mark = .left r → admitted 0 before ≠ [l.call] → r = .ok false := by
  have hc := Script.comes_watched 0 greeting greetings
  refine ⟨by decide, rfl, hc, greetings_words, fun before l after hl hi hn => ?_⟩
  obtain ⟨hd, hr⟩ := started_once 0 greeting greetings (by decide) rfl hc before l after hl hi hn
  refine ⟨fun d hm => ?_, fun r hm hf => ?_⟩
  · obtain ⟨_, _, _, _, -, ha, -⟩ := hd d hm
    exact ha
  · obtain ⟨_, _, -, ⟨ha, -⟩ | ⟨-, -, hr, -⟩⟩ := hr r hm
    · exact absurd ha hf
    · exact hr

end Workflow
