import Workflow.Proofs.Board.Receipt
import Workflow.Proofs.Board.Turns

/-!
# Subscriptions with numbers of their own

On a board, the current subscriptions to a channel have different numbers, below that of the next
one. So each of them is told once at most when something is posted, however listeners subscribe and
unsubscribe meanwhile.

Results:
* `Numbered.follows`: whatever is done with a board, subscriptions keep numbers of their own.
* `postReceipts_active`: what is posted is handed once to each subscription that stays active.
-/
namespace Workflow.Board

variable {μ ν : Type}

/-- The current subscriptions to each channel have different numbers, below that of the next one. -/
structure Numbered (b : Board μ ν) : Prop where
  nodup : ∀ i, ((b.channel i).current.map (·.serial)).Nodup
  lt : ∀ i, ∀ s ∈ (b.channel i).current, s.serial < (b.channel i).next

namespace Numbered

variable {greet : Nat → Option ν} {b b' : Board μ ν}

/-- Where nobody listens, there is no number to be given twice. -/
theorem of_empty (h : ∀ n ∈ b.channels, n.current = []) : b.Numbered := by
  have hc (i : Nat) : (b.channel i).current = [] := by
    unfold channel
    cases hi : b.channels[i]? with
    | none => rfl
    | some n => exact h n (List.mem_of_getElem? hi)
  refine ⟨fun i => ?_, fun i s hs => ?_⟩
  · rw [hc]
    exact List.nodup_nil
  · rw [hc] at hs
    cases hs

theorem active_lt (h : b.Numbered) {i serial : Nat} (ha : b.Active i serial) :
    serial < (b.channel i).next := by
  obtain ⟨⟨s, hs, rfl⟩, -⟩ := ha
  exact h.lt i s hs

/-- A notifier gives each subscription a number of its own. -/
theorem runs {l : Type} {c c' : Scene l} {cs : List (Change l)} (h : c.Runs cs c')
    (hc : (c.notifier.current.map (·.serial)).Nodup ∧
      ∀ s ∈ c.notifier.current, s.serial < c.notifier.next) :
    (c'.notifier.current.map (·.serial)).Nodup ∧
      ∀ s ∈ c'.notifier.current, s.serial < c'.notifier.next := by
  induction h with
  | rest => exact hc
  | step _ hs ih =>
    obtain ⟨hn, hl⟩ := ih
    cases hs with
    | @subscribe due n listener =>
      simp only [Notifier.subscribe, List.map_append, List.nodup_append, List.mem_append]
      refine ⟨⟨hn, by simp, fun k hk k' hk' => ?_⟩, fun s hs => ?_⟩
      · obtain ⟨s, hs, rfl⟩ := List.mem_map.mp hk
        rw [List.mem_singleton.mp hk']
        exact Nat.ne_of_lt (hl s hs)
      · rcases hs with hs | hs
        · exact Nat.lt_succ_of_lt (hl s hs)
        · rw [List.mem_singleton.mp hs]
          exact Nat.lt_succ_self _
    | @unsubscribe due n serial =>
      unfold Notifier.unsubscribe
      split
      · exact ⟨hn.sublist (List.filter_sublist.map _), fun s hs => hl s (List.mem_filter.mp hs).1⟩
      · exact ⟨hn, hl⟩
    | _ => exact ⟨hn, hl⟩

/-- Whatever is done with a board, subscriptions keep numbers of their own. -/
theorem follows {cs : List (Nat × Change (Listener μ ν))} (h : b.Numbered) (hf : b.Follows cs b') :
    b'.Numbered := by
  have hb (i : Nat) : ((b'.channel i).current.map (·.serial)).Nodup ∧
      ∀ s ∈ (b'.channel i).current, s.serial < (b'.channel i).next := by
    obtain ⟨ds, hr⟩ := hf.exists_runs i
    exact runs hr ⟨h.nodup i, h.lt i⟩
  exact ⟨fun i => (hb i).1, fun i => (hb i).2⟩

theorem of_channels (h : b.Numbered) (hc : b'.channels = b.channels) : b'.Numbered :=
  h.follows (.of_channels hc)

theorem unsubscribe (h : b.Numbered) (i serial : Nat) : (b.unsubscribe i serial).Numbered :=
  h.follows (.unsubscribe b i serial)

theorem subscribe (h : b.Numbered) (i : Nat) (listener : Listener μ ν) :
    (b.subscribe greet i listener).1.Numbered := h.follows (.subscribe greet b i listener)

theorem post [Recorder μ] (h : b.Numbered) (i : Nat) (d : Delivery μ ν) :
    (b.post greet i d).Numbered := h.follows (follows_turns greet i _ d b)

end Numbered

/-! ## What a subscription is handed -/

/-- The notices among receipts that are for one subscription. -/
def handedTo (i serial : Nat) (rs : List (Receipt ν)) : List ν :=
  (rs.filter fun r => r.channel = i ∧ r.serial = serial).map (·.notice)

theorem handedTo_append (i serial : Nat) (rs rs' : List (Receipt ν)) :
    handedTo i serial (rs ++ rs') = handedTo i serial rs ++ handedTo i serial rs' := by
  simp [handedTo]

variable {greet : Nat → Option ν} {b : Board μ ν} {i serial : Nat}

/-- Reactions hand nothing to a subscription that has begun already. -/
theorem handedTo_receipts (hn : serial < (b.channel i).next) (r : Reaction μ ν) :
    handedTo i serial (receipts greet r b) = [] := by
  refine List.map_eq_nil_iff.mpr (List.filter_eq_nil_iff.mpr fun x hx => ?_)
  have hj := (react_moves greet r b).joined x hx (receipts_joining hx)
  simp only [decide_eq_true_eq, not_and]
  rintro rfl rfl
  exact absurd hj.1 (Nat.not_le_of_lt hn)

variable [Recorder μ]

/-- Where copies are made, subscriptions that are not among those that are told are handed nothing,
and one that is, and stays active, is handed one copy. -/
theorem handedTo_tellReceipts {notice : ν} {ss : List (Subscription (Listener μ ν))}
    (hs : (ss.map (·.serial)).Nodup) (hn : serial < (b.channel i).next)
    (ha :
      ((tellAll greet i ss (.copies fun m => (notice, m)) b).channel i).isActive serial = true) :
    handedTo i serial (tellReceipts greet i ss (.copies fun m => (notice, m)) b) =
      if serial ∈ ss.map (·.serial) then [notice] else [] := by
  induction ss generalizing b with
  | nil => rfl
  | cons s rest ih =>
    rw [List.map_cons, List.nodup_cons] at hs
    have alive :=
      (tellAll_moves greet i (s :: rest) (.copies fun m => (notice, m)) b).alive i serial ha
    unfold tellAll at ha
    unfold tellReceipts
    split at ha
    · rename_i hact
      rw [if_pos hact]
      have hm := tell_moves greet s.listener notice b
      have ih := ih hs.2 (Nat.lt_of_lt_of_le hn (hm.next i)) ha
      have first (rs : List (Receipt ν)) : handedTo i serial (⟨i, s.serial, notice, false⟩ :: rs) =
          (if serial = s.serial then [notice] else []) ++ handedTo i serial rs := by
        by_cases hx : serial = s.serial
        · simp [handedTo, hx]
        · simp [handedTo, hx, Ne.symm hx]
      refine (first _).trans ?_
      rw [handedTo_append, handedTo_receipts hn, List.nil_append]
      refine (congrArg _ ih).trans ?_
      by_cases hx : serial = s.serial
      · subst hx
        simp [hs.1]
      · simp [hx]
    · rename_i hact
      rw [if_neg hact, ih hs.2 hn ha]
      have hne : serial ≠ s.serial := by
        rintro rfl
        exact hact alive
      simp [hne]

/-- What is posted in copies is handed once to each subscription that stays active. -/
theorem postReceipts_active {notice : ν} (h : b.Numbered) (hb : b.Active i serial)
    (ha : (b.post greet i (.copies fun m => (notice, m))).Active i serial) :
    handedTo i serial (b.postReceipts greet i (.copies fun m => (notice, m))) = [notice] := by
  obtain ⟨⟨s, hs, rfl⟩, -⟩ := hb
  have h := handedTo_tellReceipts (h.nodup i) (h.lt i s hs) ha.2
  rwa [if_pos (List.mem_map_of_mem hs)] at h

end Workflow.Board
