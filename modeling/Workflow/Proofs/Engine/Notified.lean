import Mathlib.Data.List.Induction
import Workflow.Proofs.Board.Numbered
import Workflow.Proofs.Call.Entered
import Workflow.Proofs.Engine.Keeping
import Workflow.Proofs.Engine.Served
import Workflow.Proofs.Engine.Telling

/-!
# One notification for each state that is entered

A subscription to the states of a machine that is active from when a call gets through until it
leaves is notified once if the call enters a state, at the end of the call, and not at all if it
stays. Nothing else that happens notifies it.

Results:
* `Told.numbered`: subscriptions keep numbers of their own.
* `Told.visit_between`: what a call has done from when it gets through.
* `entered_notified`: wherever a run of scripts comes to.
-/
namespace Workflow

/-- Each call that goes its way enters a state or stays. -/
theorem Call.enters_or_stays {η : Type} {c : Call} {m : Machine} {ds : List (Deed η)}
    {r : Except CallFault Bool} (h : (c.flow m).Runs ds r) :
    m.Enters c.event ds r ∨ m.Stays c.event ds r := by
  obtain ⟨caller, delay, machine, _ | e⟩ := c
  · exact (Machine.start_runs_iff.mp h).enters_or_stays
  · exact (Machine.send_runs_iff.mp h).enters_or_stays

variable {μ : Type}

/-! ## The lines of a call -/

/-- What calls on a machine do with lines. -/
def deeds (i : Nat) (ls : List (Line μ)) : List (Deed (Handler μ)) := ls.filterMap (Line.deed? i)

theorem deeds_concat (i : Nat) (ls : List (Line μ)) (l : Line μ) :
    deeds i (ls ++ [l]) = deeds i ls ++ (l.deed? i).toList := by
  unfold deeds
  rw [List.filterMap_append]
  cases h : l.deed? i <;> simp [h]

/-- No call leaves a machine with the lines. -/
def NoneLeaves (i : Nat) (ls : List (Line μ)) : Prop :=
  ∀ l ∈ ls, ∀ r, l.mark = .left r → l.call.machine ≠ i

variable [Recorder μ] {e₀ e : Engine μ} {before after during : List (Line μ)} {a l : Line μ}
  {i channel serial : Nat}

/-- A line leaves subscriptions with numbers of their own. -/
theorem Board.Numbered.line (h : l.engine.board.Numbered) : l.after.board.Numbered := by
  obtain ⟨c, mark, e⟩ := l
  cases mark with
  | did d =>
    cases d with
    | reported r =>
      show (e.report c.machine r).board.Numbered
      unfold Engine.report
      split
      · exact h
      · rename_i m _
        have hl : (e.log (r.entry m.name m.live.state)).board.Numbered := h.of_channels rfl
        exact hl.post _ _
    | announced =>
      show (e.announce c.machine).board.Numbered
      unfold Engine.announce
      split
      · exact h
      · exact h.post _ _
    | _ => exact h.of_channels rfl
  | subscribed channel listener => exact Board.Numbered.subscribe h channel listener
  | _ => exact h

namespace Told

/-- From when a call gets through until it leaves, it is inside, and does what the lines about its
machine tell. -/
theorem visit_between (h : Told e₀ (e, before ++ a :: during)) (ha : a.mark = .admitted)
    (hl : NoneLeaves a.call.machine during) :
    visit? a.call.machine (before ++ a :: during) =
      some ⟨a.call, a.engine, deeds a.call.machine during⟩ := by
  induction during using List.reverseRecOn generalizing e with
  | nil =>
    obtain ⟨c, mark, found⟩ := a
    obtain rfl : mark = .admitted := ha
    exact visit?_admitted ..
  | append_singleton during x ih =>
    have he : before ++ a :: (during ++ [x]) = (before ++ a :: during) ++ x :: [] := by simp
    obtain ⟨hx, hf⟩ := h.behind he
    have ih := ih hx fun y hy => hl y (List.mem_append_left _ hy)
    rw [he, deeds_concat]
    by_cases hw : isWork a.call.machine (x.call, x.mark) = false
    · rw [visit?_beside hw, ih, Line.deed?_beside hw, Option.toList_none, List.append_nil]
    · cases hf with
      | beside h => exact absurd (h _) hw
      | @admitted c e m hn =>
        have hi : c.machine = a.call.machine := by simpa [isWork] using hw
        rw [← hi] at ih
        cases hn.symm.trans ih
      | @did c e found m done more d r hv =>
        have hi : c.machine = a.call.machine := by simpa [isWork] using hw
        have hd : (⟨c, .did d, e⟩ : Line μ).deed? a.call.machine = some d := if_pos hi
        rw [hd, ← hi, visit?_did (hi ▸ ih) d e]
        simp [hi]
      | @left c e found m done r =>
        have hi : c.machine = a.call.machine := by simpa [isWork] using hw
        exact absurd hi (hl _ (List.mem_append_right _ (List.mem_singleton_self _)) r rfl)
      | @turned c e found name =>
        have hi : c.machine = a.call.machine := by simpa [isWork] using hw
        exact absurd hi (hl _ (List.mem_append_right _ (List.mem_singleton_self _)) _ rfl)

/-! ## Subscriptions -/

/-- Subscriptions keep numbers of their own. -/
theorem numbered {ls : List (Line μ)} (h : Told e₀ (e, ls)) (hn : e₀.board.Numbered) :
    e.board.Numbered := by
  generalize hb : (e, ls) = b at h
  induction h generalizing e ls with
  | start =>
    cases hb
    exact hn
  | quiet _ hq ih =>
    cases hb
    have h := ih rfl
    cases hq with
    | touch => exact h.of_channels rfl
    | unsubscribe channel serial => exact h.unsubscribe channel serial
  | line _ _ ih =>
    cases hb
    exact (ih rfl).line

/-- How subscriptions have come and gone since a line. -/
theorem moves_since (h : Told e₀ (e, before ++ l :: after)) :
    ∃ rs, Board.Moves l.after.board e.board rs := by
  generalize hb : (e, before ++ l :: after) = b at h
  induction h generalizing e after with
  | start => simp at hb
  | quiet _ hq ih =>
    cases hb
    obtain ⟨rs, hm⟩ := ih rfl
    exact ⟨_, hm.trans hq.moves⟩
  | @line x ls h hf ih =>
    obtain ⟨rfl, hls⟩ := Prod.mk.inj hb
    rcases concat_eq_split hls.symm with ⟨rfl, rfl, rfl⟩ | ⟨after', rfl, rfl⟩
    · exact ⟨_, .of_channels rfl⟩
    · obtain ⟨rs, hm⟩ := ih rfl
      exact ⟨_, hm.trans x.moves⟩

/-- A number that is not given again at a line is not given again later. -/
theorem lt_since (h : Told e₀ (e, before ++ l :: after))
    (hn : serial < (l.engine.board.channel channel).next) :
    serial < (e.board.channel channel).next := by
  obtain ⟨rs, hm⟩ := h.moves_since
  exact Nat.lt_of_lt_of_le hn (Nat.le_trans (l.moves.next channel) (hm.next channel))

/-- A subscription that is active, and that was there at a line, was active at the line and behind
it. -/
theorem active_since (h : Told e₀ (e, before ++ l :: after))
    (hn : serial < (l.engine.board.channel channel).next) (ha : e.board.Active channel serial) :
    l.engine.board.Active channel serial ∧ l.after.board.Active channel serial := by
  obtain ⟨rs, hm⟩ := h.moves_since
  have ha := hm.active channel serial (Nat.lt_of_lt_of_le hn (l.moves.next channel)) ha
  exact ⟨l.moves.active channel serial hn ha, ha⟩

/-- A machine that was there is there at any time. -/
theorem exists_pair {m : Machine} {e' : Engine μ} {ls ls' : List (Line μ)} (h : Told e₀ (e, ls))
    (h' : Told e₀ (e', ls')) (hm : e'.machines[i]? = some m) : ∃ p, e.pair? i = some p := by
  obtain ⟨now, hn⟩ := h.machine i
  obtain ⟨now', hn'⟩ := h'.machine i
  rw [hm] at hn'
  obtain ⟨m₀, hm₀, -⟩ := Option.map_eq_some_iff.mp hn'.symm
  rw [hm₀] at hn
  exact ⟨_, congrArg _ hn⟩

end Told

namespace Line

/-- A subscription that is there is handed nothing but what is announced. -/
theorem handedTo_present (hn : serial < (l.engine.board.channel (stateChannel i)).next)
    (hl : l.call.machine = i → l.mark ≠ .did .announced) :
    l.handedTo (stateChannel i) serial = [] := by
  refine handedTo_eq_nil ?_ hl
  -- a subscription that begins has a new number
  rintro ⟨r, hr, hc, rfl, hj⟩
  have hnew := (l.moves.joined r hr hj).1
  rw [hc] at hnew
  omega

/-- When a machine is announced, each subscription that stays active is handed once what the machine
has. -/
theorem handedTo_once {p : String × Context} (hm : l.mark = .did .announced)
    (hi : l.call.machine = i) (hp : l.engine.pair? i = some p) (hn : l.engine.board.Numbered)
    (hb : l.engine.board.Active (stateChannel i) serial)
    (ha : l.after.board.Active (stateChannel i) serial) :
    l.handedTo (stateChannel i) serial = [.state p.1 p.2] := by
  subst hi
  obtain ⟨c, mark, e⟩ := l
  obtain rfl : mark = .did .announced := hm
  obtain ⟨m, hx, rfl⟩ := Option.map_eq_some_iff.mp hp
  have he : (e.announce c.machine).board = e.board.post e.greet (stateChannel c.machine)
      (.copies fun memory => (Engine.notice m.live, memory)) := by rw [Engine.announce, hx]
  have ha : (e.announce c.machine).board.Active (stateChannel c.machine) serial := ha
  rw [he] at ha
  have h := Board.postReceipts_active hn hb ha
  show Board.handedTo _ _ (e.announceReceipts c.machine) = _
  rw [Engine.announceReceipts, hx]
  exact h

end Line

/-! ## The passage of a call -/

/-- A call gets through to a machine with one line of a journal, and the next call that leaves the
machine leaves it with another line. -/
structure Passage (ls before : List (Line μ)) (a : Line μ) (during : List (Line μ)) (l : Line μ)
    (r : Except CallFault Bool) : Prop where
  lines : ∃ after, ls = before ++ a :: (during ++ l :: after)
  admitted : a.mark = .admitted
  left : l.mark = .left r
  machine : l.call.machine = a.call.machine
  between : NoneLeaves a.call.machine during

namespace Passage

variable {ls : List (Line μ)} {r : Except CallFault Bool}

omit [Recorder μ] in
/-- If the machine is announced in between, that is the last line before the call leaves. -/
theorem announced_last (h : Passage ls before a during l r) (hs : Sound ls)
    {past more : List (Line μ)} {x : Line μ} (hd : during = past ++ x :: more)
    (hx : x.mark = .did .announced) (hi : x.call.machine = a.call.machine) :
    more = [] ∧ l.call = x.call ∧ l.engine.machines = x.engine.machines := by
  obtain ⟨after, hls⟩ := h.lines
  have hsplit : ls = (before ++ a :: past) ++ x :: (more ++ l :: after) := by
    rw [hls, hd]
    simp
  obtain ⟨r', e', rest, he, hm⟩ := (hs.inPlace hsplit).leaves hx
  cases more with
  | nil =>
    rw [List.nil_append] at he
    obtain ⟨rfl, -⟩ := List.cons.inj he
    exact ⟨rfl, rfl, hm⟩
  | cons y more =>
    -- no call leaves the machine in between
    rw [List.cons_append] at he
    obtain ⟨rfl, -⟩ := List.cons.inj he
    exact absurd hi (h.between ⟨x.call, .left r', e'⟩ (by rw [hd]; simp) r' rfl)

/-- The call that leaves is the one that has got through. It has entered a state or stayed. -/
theorem goes (h : Passage ls before a during l r) (ht : Told e₀ (e, ls)) :
    l.call = a.call ∧ ∃ m, a.engine.machines[a.call.machine]? = some m ∧
      (m.Enters a.call.event (deeds a.call.machine during) r ∨
        m.Stays a.call.event (deeds a.call.machine during) r) := by
  obtain ⟨after, hls⟩ := h.lines
  obtain ⟨-, hfa⟩ := ht.behind hls
  have hsplit : ls = (before ++ a :: during) ++ l :: after := by
    rw [hls]
    simp
  obtain ⟨htl, hfl⟩ := ht.behind hsplit
  have hv := htl.visit_between h.admitted h.between
  have hm : ∃ m, a.engine.machines[a.call.machine]? = some m := by
    cases hfa with
    | beside hw =>
      have := hw a.call.machine
      simp [isWork, h.admitted] at this
    | admitted _ hm => exact ⟨_, hm⟩
    | did => cases h.admitted
    | left => cases h.admitted
    | turned => cases h.admitted
  obtain ⟨m, hm⟩ := hm
  rw [← h.machine] at hv hm ⊢
  cases hfl with
  | beside hw => exact absurd h.left (Line.ne_left hw r)
  | admitted => cases h.left
  | did => cases h.left
  | @left c e found m' done r' hv' hm' hr =>
    obtain rfl : r' = r := Mark.left.inj h.left
    cases hv.symm.trans hv'
    cases hm.symm.trans hm'
    exact ⟨rfl, m, hm, Call.enters_or_stays hr⟩
  | @turned c e found name hv' =>
    obtain rfl : _ = r := Mark.left.inj h.left
    have hx := Option.some.inj (hv.symm.trans hv')
    rw [Visit.mk.injEq] at hx
    obtain ⟨hc, -, hd⟩ := hx
    refine ⟨hc.symm, m, hm, .inr ?_⟩
    rw [hd]
    exact .turned ..

/-- A subscription that is there when the call gets through is handed nothing by lines with which
the machine is not announced. -/
theorem handedTo_nil (h : Passage ls before a during l r) (ht : Told e₀ (e, ls))
    (hn : serial < (a.engine.board.channel (stateChannel i)).next) {past more : List (Line μ)}
    (hp : a :: (during ++ [l]) = past ++ more)
    (hq : ∀ x ∈ past, x.call.machine = i → x.mark ≠ .did .announced) :
    handedTo (stateChannel i) serial past = [] := by
  obtain ⟨after, hls⟩ := h.lines
  have hls : ls = before ++ (past ++ more) ++ after := by rw [← hp, hls]; simp
  refine List.flatMap_eq_nil_iff.mpr fun x hx => Line.handedTo_present ?_ (hq x hx)
  obtain ⟨past', more', rfl⟩ := List.append_of_mem hx
  cases past' with
  | nil =>
    obtain ⟨rfl, -⟩ := List.cons.inj hp
    exact hn
  | cons y past' =>
    obtain ⟨rfl, -⟩ := List.cons.inj hp
    have hsplit : ls = (before ++ a :: past') ++ x :: (more' ++ more ++ after) := by
      rw [hls]
      simp
    exact (ht.behind hsplit).1.lt_since hn

omit [Recorder μ] in
/-- A call that enters a state announces its machine with the last line before it leaves. -/
theorem announces {m : Machine} (h : Passage ls before a during l r) (hs : Sound ls)
    (hl : l.call = a.call) (hm : m.Enters a.call.event (deeds a.call.machine during) r) :
    ∃ past e', during = past ++ [⟨a.call, .did .announced, e'⟩] ∧
      l.engine.machines = e'.machines ∧
      ∀ x ∈ past, x.call.machine = a.call.machine → x.mark ≠ .did .announced := by
  obtain ⟨done, hd⟩ := hm.announced
  have hmem : .announced ∈ deeds a.call.machine during := hd ▸ List.mem_append_right _ (by simp)
  obtain ⟨x, hx, hdeed⟩ := List.mem_filterMap.mp hmem
  obtain ⟨hi, hmark⟩ := Line.deed?_eq_some.mp hdeed
  obtain ⟨past, more, hsplit⟩ := List.append_of_mem hx
  obtain ⟨rfl, hcall, hmach⟩ := h.announced_last hs hsplit hmark hi
  obtain ⟨c, mark, e'⟩ := x
  obtain rfl : mark = .did .announced := hmark
  obtain rfl : l.call = c := hcall
  refine ⟨past, e', hl ▸ hsplit, hmach, fun y hy hi' hy' => ?_⟩
  -- another line like this one would be the last one, too
  obtain ⟨past', more', rfl⟩ := List.append_of_mem hy
  have hsplit : during = past' ++ y :: (more' ++ [⟨l.call, .did .announced, e'⟩]) := by
    simp [hsplit]
  have hnil := (h.announced_last hs hsplit hy' hi').1
  simp at hnil

end Passage

/-- What the subscriptions to the states of its machine are handed in the passage of a call, which
are active all the time: if the call enters a state, nothing before its last deed, and with that
once what the call leaves; and nothing at all if it stays. -/
structure Notifies (m : Machine) (a : Line μ) (during : List (Line μ)) (l : Line μ)
    (r : Except CallFault Bool) : Prop where
  entered : m.Enters a.call.event (deeds a.call.machine during) r →
    ∃ past e' p, during = past ++ [⟨a.call, .did .announced, e'⟩] ∧
      l.engine.pair? a.call.machine = some p ∧
      ∀ serial, a.engine.board.Active (stateChannel a.call.machine) serial →
        l.engine.board.Active (stateChannel a.call.machine) serial →
          handedTo (stateChannel a.call.machine) serial (a :: past) = [] ∧
          handedTo (stateChannel a.call.machine) serial (a :: (during ++ [l])) =
            [.state p.1 p.2]
  stayed : ¬ m.Enters a.call.event (deeds a.call.machine during) r →
    m.Stays a.call.event (deeds a.call.machine during) r ∧
      ∀ serial, a.engine.board.Active (stateChannel a.call.machine) serial →
        handedTo (stateChannel a.call.machine) serial (a :: (during ++ [l])) = []

/-- **Each state that is entered is notified once**, whatever handlers and listeners do, if
subscriptions have numbers of their own at first. Scripts make calls on machines side by side.
Wherever their run comes to: a call that gets through to a machine and leaves it either enters a
state, and then each subscription to the states of the machine that is active all the time is handed
once what the machine has when the call leaves it, by the last deed of the call; or it stays, and
subscriptions are handed nothing. And at no other lines are they handed anything: neither when a
call comes to the machine nor when it is refused. -/
theorem entered_notified (most : Nat) (e : Engine μ) (xs : List (Script μ))
    (hn : e.board.Numbered) :
    (∀ p, (Pool.ofTasks e (xs.map (Script.process most))).Reaches p →
      ∃ ls, Script.Comes most e xs (p.state, ls)) ∧
    ∀ b : Book μ, Script.Comes most e xs b →
      (∀ before a during l r, Passage b.2 before a during l r →
        l.call = a.call ∧ ∃ m, a.engine.machines[a.call.machine]? = some m ∧
          Notifies m a during l r) ∧
      ∀ l ∈ b.2, ∀ i serial, l.engine.board.Active (stateChannel i) serial →
        (l.call.machine = i → l.mark ≠ .did .announced) →
          l.handedTo (stateChannel i) serial = [] := by
  refine ⟨fun p hp => Script.exists_comes hp, fun b hc => ?_⟩
  have ht : Told e (b.1, b.2) := hc.told
  have hs : Sound b.2 := rules_kept.comes .nil (fun _ => rfl) hc
  have numbered {before after : List (Line μ)} {l : Line μ} (hl : b.2 = before ++ l :: after) :
      l.engine.board.Numbered := (ht.behind hl).1.numbered hn
  refine ⟨fun before a during l r h => ?_, fun l hl i serial ha hm => ?_⟩
  · obtain ⟨hcall, m, hm, hgoes⟩ := h.goes ht
    obtain ⟨after, hls⟩ := h.lines
    have lt {serial : Nat} (ha : a.engine.board.Active (stateChannel a.call.machine) serial) :
        serial < (a.engine.board.channel (stateChannel a.call.machine)).next :=
      (numbered hls).active_lt ha
    refine ⟨hcall, m, hm, ⟨fun he => ?_, fun he => ?_⟩⟩
    · obtain ⟨past, e', rfl, hmach, hpast⟩ := h.announces hs hcall he
      have hx : b.2 = (before ++ a :: past) ++ ⟨a.call, .did .announced, e'⟩ :: (l :: after) := by
        rw [hls]
        simp
      have hy : b.2 = (before ++ a :: past ++ [⟨a.call, .did .announced, e'⟩]) ++ l :: after := by
        rw [hls]
        simp
      obtain ⟨htx, -⟩ := ht.behind hx
      obtain ⟨htl, -⟩ := ht.behind hy
      obtain ⟨p, hp⟩ := htx.exists_pair (ht.behind hls).1 hm
      refine ⟨past, e', p, rfl, (Engine.pair?_of_machines hmach _).trans hp, fun serial ha hl => ?_⟩
      have hbefore : handedTo (stateChannel a.call.machine) serial (a :: past) = [] := by
        have hsplit : a :: (past ++ [⟨a.call, .did .announced, e'⟩] ++ [l]) =
            (a :: past) ++ [⟨a.call, .did .announced, e'⟩, l] := by simp
        refine h.handedTo_nil ht (lt ha) hsplit fun x hx hi hmark => ?_
        rcases List.mem_cons.mp hx with rfl | hx
        · cases h.admitted.symm.trans hmark
        · exact hpast x hx hi hmark
      obtain ⟨hb, hb'⟩ := htl.active_since (htx.lt_since (lt ha)) hl
      have honce := Line.handedTo_once (l := ⟨a.call, .did .announced, e'⟩) rfl rfl hp (numbered hx)
        hb hb'
      have hlast : l.handedTo (stateChannel a.call.machine) serial = [] :=
        Line.handedTo_present ((numbered hy).active_lt hl) fun _ hmark => by
          cases h.left.symm.trans hmark
      refine ⟨hbefore, ?_⟩
      rw [← List.cons_append, ← List.cons_append, handedTo_concat, handedTo_concat, hbefore, honce,
        hlast]
      rfl
    · have hstays := hgoes.resolve_left he
      refine ⟨hstays, fun serial ha => h.handedTo_nil ht (lt ha) (List.append_nil _).symm ?_⟩
      intro x hx hi hmark
      rcases List.mem_cons.mp hx with rfl | hx
      · cases h.admitted.symm.trans hmark
      · rcases List.mem_append.mp hx with hx | hx
        · exact hstays.unannounced
            (List.mem_filterMap.mpr ⟨x, hx, Line.deed?_eq_some.mpr ⟨hi, hmark⟩⟩)
        · rw [List.mem_singleton.mp hx] at hmark
          cases h.left.symm.trans hmark
  · obtain ⟨before, after, hls⟩ := List.append_of_mem hl
    exact Line.handedTo_present ((numbered hls).active_lt ha) hm

/-- A machine that aborts. On an event it is closed, and then something fails. -/
def abortingEngine : Engine Unit where
  board := { memory := (), channels := [{}, {}] }
  registry := { entries := [
    ("fail", (0, { run _ _ := .finish (.error { kind := "RuntimeError", text := "jammed" }) }))] }
  machines := [{
    failure := .abort
    chart := { initial := "open", states := [
      ("open", { transitions := [{ target := "closed", event := "CLOSE" }] }),
      ("closed", { entry := [{ action := "fail" }] })] }
    actions := [("fail", { category := "fail" })]
    live := { state := "open", context := [] } }]

/-- A listener is subscribed, and the event is sent twice. -/
def closeTwice : List (Script Unit) :=
  let close : Call := { caller := 0, machine := 0, event := some { type := "CLOSE" } }
  [.subscribe 1 (stateChannel 0) ⟨"seen", .finish⟩ fun _ =>
    .call close fun _ => .call close fun _ => .stop]

/-- The state that a notice shows. -/
def Notice.state? : Notice → Option String
  | .state name _ => some name
  | .report _ => none

/-- The listener is greeted, and then notified once. -/
theorem closeTwice_handed :
    (handedTo (stateChannel 0) 0
      (Script.watched 1 abortingEngine closeTwice).state.2).map Notice.state? =
      [some "open", some "closed"] := by
  rw [Script.watched, Pool.run_eq_runFor 8 (by decide +kernel)]
  decide +kernel

theorem entered_notified_aborting : abortingEngine.board.Numbered ∧
    (handedTo (stateChannel 0) 0
      (Script.watched 1 abortingEngine closeTwice).state.2).map Notice.state? =
      [some "open", some "closed"] ∧
    ∀ before a during l r,
      Passage (Script.watched 1 abortingEngine closeTwice).state.2 before a during l r →
      l.call = a.call ∧ ∃ m, a.engine.machines[a.call.machine]? = some m ∧
        Notifies m a during l r := by
  have hn : abortingEngine.board.Numbered := .of_empty (by simp [abortingEngine])
  exact ⟨hn, closeTwice_handed,
    ((entered_notified 1 abortingEngine closeTwice hn).2 _ (Script.comes_watched ..)).1⟩

end Workflow
