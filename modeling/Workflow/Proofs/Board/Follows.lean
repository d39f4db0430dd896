import Workflow.Board
import Workflow.Proofs.Board.Ledger

/-!
# Boards, channel by channel

What listeners do changes the subscriptions of a board. On each of its channels that is what a
notifier does: listeners subscribe, and subscriptions are ended.

Results:
* `Follows.react`, `Follows.subscribe`: the changes that are made, seen on each channel.
-/
namespace Workflow

/-- Of the changes on a board, those of one channel. -/
def Change.on {l : Type} (i : Nat) (cs : List (Nat × Change l)) : List (Change l) :=
  (cs.filter (·.1 = i)).map (·.2)

namespace Change

variable {l : Type}

@[simp] theorem on_append (i : Nat) (cs ds : List (Nat × Change l)) :
    on i (cs ++ ds) = on i cs ++ on i ds := by simp [on]

theorem on_self (i : Nat) (c : Change l) : on i [(i, c)] = [c] := by simp [on]

theorem on_of_ne {i j : Nat} (h : i ≠ j) (c : Change l) : on j [(i, c)] = [] := by simp [on, h]

@[simp] theorem mem_on {i : Nat} {cs : List (Nat × Change l)} {c : Change l} :
    c ∈ on i cs ↔ (i, c) ∈ cs := by simp [on]

end Change

namespace Board

variable {μ ν : Type}

/-- What a reaction does to the subscriptions of a board. -/
def changes (greet : Nat → Option ν) :
    Reaction μ ν → Board μ ν → List (Nat × Change (Listener μ ν))
  | .finish _, _ => []
  | .raise _ _, _ => []
  | .touch change next, b => changes greet (next b.memory) (b.touch change)
  | .unsubscribe i serial next, b =>
    [(i, .leave serial)] ++ changes greet next (b.unsubscribe i serial)
  | .subscribe i label call next, b =>
    match greet i with
    | none =>
      [(i, .join ⟨(b.channel i).next, ⟨label, call⟩⟩)] ++
        let (b, serial) := b.add i ⟨label, call⟩
        changes greet (next (.ok serial)) b
    | some notice =>
      changes greet (call notice) b ++
        match react greet (call notice) b with
        | ⟨b, _, some e⟩ => changes greet (next (.error e)) b
        | ⟨b, _, none⟩ =>
          [(i, .join ⟨(b.channel i).next, ⟨label, call⟩⟩)] ++
            let (b, serial) := b.add i ⟨label, call⟩
            changes greet (next (.ok serial)) b

/-- What is done to the subscriptions of a board when a listener subscribes. -/
def subscribeChanges (greet : Nat → Option ν) (b : Board μ ν) (i : Nat) (listener : Listener μ ν) :
    List (Nat × Change (Listener μ ν)) :=
  match greet i with
  | none => [(i, .join ⟨(b.channel i).next, listener⟩)]
  | some notice =>
    changes greet (listener.call notice) b ++
      match react greet (listener.call notice) b with
      | ⟨_, _, some _⟩ => []
      | ⟨b, _, none⟩ => [(i, .join ⟨(b.channel i).next, listener⟩)]

/-! ## One channel of a board -/

theorem channel_onChannel (b : Board μ ν) (i j : Nat)
    (change : Notifier (Listener μ ν) → Notifier (Listener μ ν)) :
    (b.onChannel i change).channel j =
      if i = j ∧ i < b.channels.length then change (b.channel j) else b.channel j := by
  unfold onChannel channel
  rw [List.getElem?_modify]
  by_cases hj : i = j
  · subst hj
    by_cases hl : i < b.channels.length
    · simp [hl]
    · simp [hl]
  · cases b.channels[j]? <;> simp [hj]

/-- From one board to another, each channel has gone through its share of some changes, whatever is
being posted on it meanwhile. -/
structure Follows (b : Board μ ν) (cs : List (Nat × Change (Listener μ ν))) (b' : Board μ ν) :
    Prop where
  size : b'.channels.length = b.channels.length
  runs : ∀ j < b.channels.length, ∀ due,
    Scene.Runs ⟨due, b.channel j⟩ (Change.on j cs) ⟨due, b'.channel j⟩

namespace Follows

variable {greet : Nat → Option ν} {b b' b'' : Board μ ν}
  {cs ds : List (Nat × Change (Listener μ ν))}

theorem of_channels (h : b'.channels = b.channels) : b.Follows [] b' where
  size := congrArg List.length h
  runs j _ due := by
    have hc : b'.channel j = b.channel j := by rw [channel, channel, h]
    exact hc ▸ .rest _

theorem trans (h : b.Follows cs b') (h' : b'.Follows ds b'') : b.Follows (cs ++ ds) b'' where
  size := h'.size.trans h.size
  runs j hj due := by
    rw [Change.on_append]
    exact (h.runs j hj due).trans (h'.runs j (h.size ▸ hj) due)

/-- Where there is no channel, nothing happens. -/
theorem exists_runs (h : b.Follows cs b') (j : Nat) :
    ∃ ds, Scene.Runs ⟨[], b.channel j⟩ ds ⟨[], b'.channel j⟩ := by
  by_cases hj : j < b.channels.length
  · exact ⟨_, h.runs j hj []⟩
  · have hc : b'.channel j = b.channel j := by
      rw [channel, channel, List.getElem?_eq_none (Nat.le_of_not_lt hj),
        List.getElem?_eq_none (h.size ▸ Nat.le_of_not_lt hj)]
    exact ⟨[], hc ▸ .rest _⟩

/-- One channel is changed. -/
theorem onChannel {i : Nat} {c : Change (Listener μ ν)}
    {change : Notifier (Listener μ ν) → Notifier (Listener μ ν)}
    (h : ∀ due, Scene.Step ⟨due, b.channel i⟩ [c] ⟨due, change (b.channel i)⟩) :
    b.Follows [(i, c)] (b.onChannel i change) where
  size := by simp [Board.onChannel]
  runs j hj due := by
    rw [channel_onChannel]
    by_cases hi : i = j
    · subst hi
      rw [if_pos ⟨rfl, hj⟩, Change.on_self]
      exact (h due).run
    · rw [if_neg (fun h => hi h.1), Change.on_of_ne hi]
      exact .rest _

theorem unsubscribe (b : Board μ ν) (i serial : Nat) :
    b.Follows [(i, .leave serial)] (b.unsubscribe i serial) :=
  .onChannel fun _ => .unsubscribe serial

theorem add (b : Board μ ν) (i : Nat) (listener : Listener μ ν) :
    b.Follows [(i, .join ⟨(b.channel i).next, listener⟩)] (b.add i listener).1 :=
  .onChannel fun _ => .subscribe listener

/-- A reaction. -/
theorem react (greet : Nat → Option ν) (r : Reaction μ ν) (b : Board μ ν) :
    b.Follows (changes greet r b) (Board.react greet r b).board := by
  induction r generalizing b with
  | finish left => exact .of_channels rfl
  | raise left e => exact .of_channels rfl
  | touch change next ih =>
    have h : b.Follows [] (b.touch change) := .of_channels rfl
    exact h.trans (ih _ _)
  | unsubscribe i serial next ih => exact (Follows.unsubscribe b i serial).trans (ih _)
  | subscribe i label call next ihc ihn =>
    unfold Board.react changes
    cases hg : greet i with
    | none => exact (Follows.add b i ⟨label, call⟩).trans (ihn _ _)
    | some notice =>
      have hc := ihc notice b
      dsimp only
      generalize Board.react greet (call notice) b = w at hc ⊢
      obtain ⟨b', left, _ | e⟩ := w
      · exact hc.trans ((Follows.add b' i ⟨label, call⟩).trans (ihn _ _))
      · exact hc.trans (ihn _ _)

theorem subscribe (greet : Nat → Option ν) (b : Board μ ν) (i : Nat) (listener : Listener μ ν) :
    b.Follows (b.subscribeChanges greet i listener) (b.subscribe greet i listener).1 := by
  unfold Board.subscribe subscribeChanges
  cases hg : greet i with
  | none => exact .add b i listener
  | some notice =>
    have hc := Follows.react greet (listener.call notice) b
    simp only [Option.map_some]
    generalize Board.react greet (listener.call notice) b = w at hc ⊢
    obtain ⟨b', left, _ | e⟩ := w
    · exact hc.trans (.add b' i listener)
    · rw [List.append_nil]
      exact hc

end Follows

end Board
end Workflow
