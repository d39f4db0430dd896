import Workflow.Proofs.Board.Receipt
import Workflow.Proofs.Engine.Told

/-!
# What subscriptions are handed

A journal tells what each subscription to the states of a machine is handed: a greeting when it is
made, and what is announced as long as it is active. Whatever it is handed is what the machine has
at that moment.

Results:
* `Line.moves`: how subscriptions come and go at a line.
* `Line.handedTo_joining`, `Line.handedTo_announced`, `Line.handedTo_eq_nil`: what a subscription is
  handed at a line.
* `Told.joined_lt`: a subscription that has begun has a number that is not given again.
-/
namespace Workflow

variable {μ : Type} [Recorder μ]

namespace Engine

def reportReceipts (e : Engine μ) (i : Nat) (r : Report) : List (Receipt Notice) :=
  match e.machines[i]? with
  | none => []
  | some m =>
    let e := e.log (r.entry m.name m.live.state)
    e.board.postReceipts e.greet (reportChannel i) (.shared (.report r))

def announceReceipts (e : Engine μ) (i : Nat) : List (Receipt Notice) :=
  match e.machines[i]? with
  | none => []
  | some m =>
    let copies := Delivery.copies fun memory => (notice m.live, memory)
    e.board.postReceipts e.greet (stateChannel i) copies

theorem report_moves (e : Engine μ) (i : Nat) (r : Report) :
    Board.Moves e.board (e.report i r).board (e.reportReceipts i r) := by
  unfold report reportReceipts
  cases e.machines[i]? with
  | none => exact .of_channels rfl
  | some m =>
    have hl : Board.Moves e.board (e.log (r.entry m.name m.live.state)).board [] :=
      .of_channels rfl
    exact hl.trans (Board.post_moves ..)

theorem announce_moves (e : Engine μ) (i : Nat) :
    Board.Moves e.board (e.announce i).board (e.announceReceipts i) := by
  unfold announce announceReceipts
  cases e.machines[i]? with
  | none => exact .of_channels rfl
  | some m => exact Board.post_moves ..

omit [Recorder μ] in
theorem Quiet.moves {e e' : Engine μ} (h : e.Quiet e') : Board.Moves e.board e'.board [] := by
  cases h with
  | touch => exact .of_channels rfl
  | unsubscribe channel serial => exact Board.moves_unsubscribe e.board channel serial

end Engine

/-! ## Lines -/

namespace Line

/-- What subscriptions are handed at a line. -/
def receipts (l : Line μ) : List (Receipt Notice) :=
  match l.mark with
  | .did (.reported r) => l.engine.reportReceipts l.call.machine r
  | .did .announced => l.engine.announceReceipts l.call.machine
  | .subscribed channel listener =>
    l.engine.board.subscribeReceipts l.engine.greet channel listener
  | _ => []

/-- At a line, a subscription to a channel begins with a greeting. -/
def Joins (channel serial : Nat) (l : Line μ) : Prop :=
  ∃ r ∈ l.receipts, r.channel = channel ∧ r.serial = serial ∧ r.joining = true

/-- The notices that a subscription is handed at a line. -/
def handedTo (channel serial : Nat) (l : Line μ) : List Notice :=
  (l.receipts.filter fun r => r.channel = channel ∧ r.serial = serial).map (·.notice)

/-- How subscriptions come and go at a line. -/
theorem moves (l : Line μ) : Board.Moves l.engine.board l.after.board l.receipts := by
  obtain ⟨c, mark, e⟩ := l
  cases mark with
  | did d =>
    cases d with
    | reported r => exact e.report_moves c.machine r
    | announced => exact e.announce_moves c.machine
    | _ => exact .of_channels rfl
  | subscribed channel listener => exact Board.subscribe_moves ..
  | _ => exact .of_channels rfl

/-- Receipts are for what listeners are handed. -/
theorem receipts_handed {l : Line μ} {r : Receipt Notice} (h : r ∈ l.receipts) :
    (r.channel, r.notice) ∈ l.handed := by
  obtain ⟨c, mark, e⟩ := l
  unfold receipts at h
  unfold handed
  cases mark with
  | did d =>
    cases d with
    | reported x =>
      dsimp only at h ⊢
      unfold Engine.reportReceipts at h
      unfold Engine.watchReport
      cases hm : e.machines[c.machine]? with
      | none =>
        rw [hm] at h
        cases h
      | some m =>
        rw [hm] at h
        exact Board.tellReceipts_handed h
    | announced =>
      dsimp only at h ⊢
      unfold Engine.announceReceipts at h
      unfold Engine.watchAnnounce
      cases hm : e.machines[c.machine]? with
      | none =>
        rw [hm] at h
        cases h
      | some m =>
        rw [hm] at h
        exact Board.tellReceipts_handed h
    | _ => cases h
  | subscribed channel listener => exact Board.subscribeReceipts_handed h
  | _ => cases h

variable {l : Line μ} {i channel serial : Nat} {n : Notice}

theorem mem_handedTo : n ∈ l.handedTo channel serial ↔
    ∃ r ∈ l.receipts, (r.channel = channel ∧ r.serial = serial) ∧ r.notice = n := by
  simp [handedTo, and_assoc]

/-- What a subscription to the states of a machine is handed is what a new one would be greeted
with. -/
theorem greet_of_mem (h : n ∈ l.handedTo (stateChannel i) serial) :
    l.engine.greet (stateChannel i) = some n := by
  obtain ⟨r, hr, ⟨hc, -⟩, rfl⟩ := mem_handedTo.mp h
  exact greet_of_handed (hc ▸ receipts_handed hr)

theorem handedTo_joining (h : l.Joins channel serial) : l.handedTo channel serial ≠ [] := by
  obtain ⟨r, hr, hc, hs, -⟩ := h
  exact List.ne_nil_of_mem (mem_handedTo.mpr ⟨r, hr, ⟨hc, hs⟩, rfl⟩)

/-- When a machine is announced, each subscription to its states is handed something that was there
before and still is there behind. -/
theorem handedTo_announced (hm : l.mark = .did .announced) (hi : l.call.machine = i)
    (hs : (l.engine.greet (stateChannel i)).isSome)
    (hn : serial < (l.engine.board.channel (stateChannel i)).next)
    (ha : l.after.board.Active (stateChannel i) serial) :
    l.handedTo (stateChannel i) serial ≠ [] := by
  subst hi
  obtain ⟨c, mark, e⟩ := l
  obtain rfl : mark = .did .announced := hm
  cases hx : e.machines[c.machine]? with
  | none => simp [Engine.greet, stateChannel, hx] at hs
  | some m =>
    have hb : (e.announce c.machine).board = e.board.post e.greet (stateChannel c.machine)
        (.copies fun memory => (Engine.notice m.live, memory)) := by rw [Engine.announce, hx]
    have ha : (e.announce c.machine).board.Active (stateChannel c.machine) serial := ha
    rw [hb] at ha
    obtain ⟨r, hr, hc, hs, -⟩ := Board.exists_postReceipt hn ha
    refine List.ne_nil_of_mem (mem_handedTo.mpr ⟨r, ?_, ⟨hc, hs⟩, rfl⟩)
    show r ∈ e.announceReceipts c.machine
    rwa [Engine.announceReceipts, hx]

/-- A subscription to the states of a machine is handed nothing at a line at which it does not begin
and the machine is not announced. -/
theorem handedTo_eq_nil (hj : ¬ l.Joins (stateChannel i) serial)
    (hm : l.call.machine = i → l.mark ≠ .did .announced) :
    l.handedTo (stateChannel i) serial = [] := by
  refine List.eq_nil_iff_forall_not_mem.mpr fun n hn => ?_
  obtain ⟨r, hr, ⟨hc, hs⟩, -⟩ := mem_handedTo.mp hn
  cases hx : r.joining with
  | true => exact hj ⟨r, hr, hc, hs, hx⟩
  | false =>
    obtain ⟨c, mark, e⟩ := l
    unfold receipts at hr
    cases mark with
    | did d =>
      cases d with
      | reported x =>
        dsimp only at hr
        unfold Engine.reportReceipts at hr
        split at hr
        · cases hr
        · -- the report is posted on another channel
          have h : stateChannel i = reportChannel c.machine :=
            hc ▸ Board.tellReceipts_channel hr hx
          simp only [stateChannel, reportChannel] at h
          omega
      | announced =>
        dsimp only at hr
        unfold Engine.announceReceipts at hr
        split at hr
        · cases hr
        · have h : stateChannel i = stateChannel c.machine := hc ▸ Board.tellReceipts_channel hr hx
          simp only [stateChannel] at h
          have hi : c.machine = i := by omega
          exact hm hi rfl
      | _ => cases hr
    | subscribed channel listener =>
      have hg := Board.subscribeReceipts_joining hr
      rw [hx] at hg
      cases hg
    | _ => cases hr

end Line

/-! ## Journals -/

/-- The notices that a subscription is handed in the course of a journal. -/
def handedTo (channel serial : Nat) (ls : List (Line μ)) : List Notice :=
  ls.flatMap (Line.handedTo channel serial)

theorem handedTo_concat (channel serial : Nat) (ls : List (Line μ)) (l : Line μ) :
    handedTo channel serial (ls ++ [l]) =
      handedTo channel serial ls ++ l.handedTo channel serial := by
  simp [handedTo]

theorem handedTo_ne_nil {ls : List (Line μ)} {l : Line μ} {channel serial : Nat} (hl : l ∈ ls)
    (hj : l.Joins channel serial) : handedTo channel serial ls ≠ [] := fun h =>
  Line.handedTo_joining hj (List.flatMap_eq_nil_iff.mp h l hl)

/-- A subscription that is handed something knows what the machine has at that moment. -/
theorem getLast?_handedTo {l : Line μ} {i serial : Nat}
    (h : l.handedTo (stateChannel i) serial ≠ []) (ls : List (Line μ)) :
    (handedTo (stateChannel i) serial (ls ++ [l])).getLast? = l.engine.greet (stateChannel i) := by
  rw [handedTo_concat, List.getLast?_append_of_ne_nil _ h, List.getLast?_eq_some_getLast h,
    Line.greet_of_mem (List.getLast_mem h)]

/-- A subscription that has begun has a number that is not given again. -/
theorem Told.joined_lt {e₀ e : Engine μ} {ls : List (Line μ)} {l : Line μ} {channel serial : Nat}
    (h : Told e₀ (e, ls)) (hl : l ∈ ls) (hj : l.Joins channel serial)
    (hc : channel < e.board.channels.length) : serial < (e.board.channel channel).next := by
  generalize hb : (e, ls) = b at h
  induction h generalizing e ls with
  | start =>
    cases hb
    cases hl
  | quiet _ hq ih =>
    cases hb
    have hm := hq.moves
    exact Nat.lt_of_lt_of_le (ih hl (hm.size ▸ hc) rfl) (hm.next channel)
  | @line x ls h hf ih =>
    cases hb
    have hm := x.moves
    rcases List.mem_append.mp hl with hl | hl
    · exact Nat.lt_of_lt_of_le (ih hl (hm.size ▸ hc) rfl) (hm.next channel)
    · rw [List.mem_singleton.mp hl] at hj
      obtain ⟨r, hr, rfl, rfl, hx⟩ := hj
      exact (hm.joined r hr hx).2 (hm.size ▸ hc)

end Workflow
