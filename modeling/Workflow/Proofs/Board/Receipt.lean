import Workflow.Proofs.Board.Follows
import Workflow.Proofs.Board.Handed

/-!
# Receipts

What subscriptions are handed: each is handed a greeting when it is made, if there is one, and what
is posted as long as it is active. Subscriptions are known by their numbers, which are never given
twice, and an active one was there all the time since it was made.

Results:
* `Follows.moves`, `react_moves`, `tellAll_moves`, `subscribe_moves`: how subscriptions come and go.
* `exists_receipt`: what is posted is handed to each subscription that stays active.
* `receipts_handed`, `tellReceipts_handed`: receipts are for what listeners are handed.
-/
namespace Workflow

/-- What a subscription is handed: its channel, its number, the notice, and whether it is a greeting
by which the subscription begins. -/
structure Receipt (ν : Type) where
  channel : Nat
  serial : Nat
  notice : ν
  joining : Bool

namespace Board

variable {μ ν : Type}

/-- A subscription to a channel is there, and active. -/
def Active (b : Board μ ν) (i serial : Nat) : Prop :=
  (∃ s ∈ (b.channel i).current, s.serial = serial) ∧ (b.channel i).isActive serial = true

theorem Active.lt {b : Board μ ν} {i serial : Nat} (h : b.Active i serial) :
    i < b.channels.length := by
  obtain ⟨⟨s, hs, -⟩, -⟩ := h
  refine Nat.lt_of_not_le fun hi => ?_
  rw [channel, List.getElem?_eq_none hi] at hs
  cases hs

/-- What subscriptions are handed in a reaction. A listener that raises when it is greeted is not
subscribed. -/
def receipts (greet : Nat → Option ν) : Reaction μ ν → Board μ ν → List (Receipt ν)
  | .finish _, _ => []
  | .raise _ _, _ => []
  | .touch change next, b => receipts greet (next b.memory) (b.touch change)
  | .unsubscribe i serial next, b => receipts greet next (b.unsubscribe i serial)
  | .subscribe i label call next, b =>
    match greet i with
    | none =>
      let (b, serial) := b.add i ⟨label, call⟩
      receipts greet (next (.ok serial)) b
    | some notice =>
      receipts greet (call notice) b ++
        match react greet (call notice) b with
        | ⟨b, _, some e⟩ => receipts greet (next (.error e)) b
        | ⟨b, _, none⟩ =>
          let (b, serial) := b.add i ⟨label, call⟩
          ⟨i, serial, notice, true⟩ :: receipts greet (next (.ok serial)) b

def subscribeReceipts (greet : Nat → Option ν) (b : Board μ ν) (i : Nat)
    (listener : Listener μ ν) : List (Receipt ν) :=
  match greet i with
  | none => []
  | some notice =>
    receipts greet (listener.call notice) b ++
      match react greet (listener.call notice) b with
      | ⟨_, _, some _⟩ => []
      | ⟨b, _, none⟩ => [⟨i, (b.add i listener).2, notice, true⟩]

/-! ## How subscriptions come and go -/

/-- From one board to another, subscriptions have come and gone, and were handed something:
greetings go to new ones. -/
structure Moves (b b' : Board μ ν) (rs : List (Receipt ν)) : Prop where
  size : b'.channels.length = b.channels.length
  next : ∀ i, (b.channel i).next ≤ (b'.channel i).next
  alive : ∀ i serial, (b'.channel i).isActive serial = true → (b.channel i).isActive serial = true
  active : ∀ i serial, serial < (b.channel i).next → b'.Active i serial → b.Active i serial
  joined : ∀ r ∈ rs, r.joining = true → (b.channel r.channel).next ≤ r.serial ∧
    (r.channel < b.channels.length → r.serial < (b'.channel r.channel).next)

section

variable {greet : Nat → Option ν} {b b' b'' : Board μ ν} {rs rs' : List (Receipt ν)}

theorem Moves.trans (h : Moves b b' rs) (h' : Moves b' b'' rs') :
    Moves b b'' (rs ++ rs') where
  size := h'.size.trans h.size
  next i := Nat.le_trans (h.next i) (h'.next i)
  alive i serial ha := h.alive i serial (h'.alive i serial ha)
  active i serial hn ha :=
    h.active i serial hn (h'.active i serial (Nat.lt_of_lt_of_le hn (h.next i)) ha)
  joined r hr hj := by
    rcases List.mem_append.mp hr with hr | hr
    · obtain ⟨hn, hs⟩ := h.joined r hr hj
      exact ⟨hn, fun hl => Nat.lt_of_lt_of_le (hs hl) (h'.next _)⟩
    · obtain ⟨hn, hs⟩ := h'.joined r hr hj
      exact ⟨Nat.le_trans (h.next _) hn, fun hl => hs (h.size ▸ hl)⟩

/-- Whatever is done with a board, subscriptions come with new numbers, and go for good. -/
theorem Follows.moves {cs : List (Nat × Change (Listener μ ν))} (h : b.Follows cs b') :
    Moves b b' [] where
  size := h.size
  next i := by
    obtain ⟨ds, hr⟩ := h.exists_runs i
    exact hr.next_le.1
  alive i serial ha := by
    obtain ⟨ds, hr⟩ := h.exists_runs i
    exact ((hr.isActive_iff serial).mp ha).1
  active i serial hn ha := by
    obtain ⟨ds, hr⟩ := h.exists_runs i
    obtain ⟨⟨s, hs, rfl⟩, ha⟩ := ha
    refine ⟨⟨s, ?_, rfl⟩, ((hr.isActive_iff s.serial).mp ha).1⟩
    exact (hr.mem_current hs).resolve_right (Nat.not_le_of_lt hn)
  joined := by simp

/-- Where no subscription comes or goes, nothing is moved. -/
theorem Moves.of_channels (h : b'.channels = b.channels) : Moves b b' [] :=
  (Follows.of_channels h).moves

theorem moves_unsubscribe (b : Board μ ν) (i serial : Nat) :
    Moves b (b.unsubscribe i serial) [] := (Follows.unsubscribe b i serial).moves

theorem moves_add (b : Board μ ν) (i : Nat) (listener : Listener μ ν) :
    Moves b (b.add i listener).1 [] := (Follows.add b i listener).moves

/-- A subscription that begins with a greeting. -/
theorem moves_join (notice : ν) (i : Nat) (b : Board μ ν) (listener : Listener μ ν) :
    Moves b (b.add i listener).1 [⟨i, (b.add i listener).2, notice, true⟩] := by
  have h := moves_add b i listener
  refine ⟨h.size, h.next, h.alive, h.active, fun r hr _ => ?_⟩
  rw [List.mem_singleton.mp hr]
  refine ⟨Nat.le_refl _, fun hl => ?_⟩
  show (b.channel i).next < ((b.onChannel i _).channel i).next
  rw [channel_onChannel, if_pos ⟨rfl, hl⟩]
  exact Nat.lt_succ_self _

/-- A reaction. -/
theorem react_moves (greet : Nat → Option ν) (r : Reaction μ ν) (b : Board μ ν) :
    Moves b (react greet r b).board (receipts greet r b) := by
  induction r generalizing b with
  | finish left => exact .of_channels rfl
  | raise left e => exact .of_channels rfl
  | touch change next ih =>
    have h : Moves b (b.touch change) [] := .of_channels rfl
    exact h.trans (ih _ _)
  | unsubscribe i serial next ih => exact (moves_unsubscribe b i serial).trans (ih _)
  | subscribe i label call next ihc ihn =>
    unfold react receipts
    cases hg : greet i with
    | none => exact (moves_add b i ⟨label, call⟩).trans (ihn _ _)
    | some notice =>
      have hc := ihc notice b
      dsimp only
      generalize react greet (call notice) b = w at hc ⊢
      obtain ⟨b', left, _ | e⟩ := w
      · exact hc.trans ((moves_join notice i b' ⟨label, call⟩).trans (ihn _ _))
      · exact hc.trans (ihn _ _)

theorem subscribe_moves (greet : Nat → Option ν) (b : Board μ ν) (i : Nat)
    (listener : Listener μ ν) :
    Moves b (b.subscribe greet i listener).1 (b.subscribeReceipts greet i listener) := by
  unfold subscribe subscribeReceipts
  cases hg : greet i with
  | none => exact moves_add b i listener
  | some notice =>
    have hc := react_moves greet (listener.call notice) b
    simp only [Option.map_some]
    generalize react greet (listener.call notice) b = w at hc ⊢
    obtain ⟨b', left, _ | e⟩ := w
    · exact hc.trans (moves_join notice i b' listener)
    · rw [List.append_nil]
      exact hc

/-! ## Posting -/

variable [Recorder μ]

def tellReceipts (greet : Nat → Option ν) (i : Nat) :
    List (Subscription (Listener μ ν)) → Delivery μ ν → Board μ ν → List (Receipt ν)
  | [], _, _ => []
  | s :: rest, d, b =>
    if (b.channel i).isActive s.serial then
      let (notice, b) := Delivery.notice d b
      ⟨i, s.serial, notice, false⟩ :: (receipts greet (s.listener.call notice) b ++
        let (b, left) := tell greet s.listener notice b
        tellReceipts greet i rest (Delivery.after d left) b)
    else tellReceipts greet i rest d b

/-- What subscriptions are handed when a notice is posted on a channel. -/
def postReceipts (greet : Nat → Option ν) (i : Nat) (d : Delivery μ ν) (b : Board μ ν) :
    List (Receipt ν) :=
  tellReceipts greet i (b.channel i).current d b

theorem tell_moves (greet : Nat → Option ν) (listener : Listener μ ν) (notice : ν)
    (b : Board μ ν) : Moves b (tell greet listener notice b).1
      (receipts greet (listener.call notice) b) := by
  have h := react_moves greet (listener.call notice) b
  unfold tell
  generalize react greet (listener.call notice) b = w at h ⊢
  obtain ⟨b', left, _ | e⟩ := w
  · exact h
  · have ht : Moves b' (b'.touch (Recorder.record (raisedEntry listener.label e))) [] :=
      .of_channels rfl
    have h := h.trans ht
    rwa [List.append_nil] at h

omit [Recorder μ] in
theorem notice_moves (d : Delivery μ ν) (b : Board μ ν) :
    Moves b (Delivery.notice d b).2 [] := by
  cases d <;> exact .of_channels rfl

omit [Recorder μ] in
/-- A subscription that is handed what is posted was there before. -/
theorem Moves.post {r : Receipt ν} (h : Moves b b' rs) (hr : r.joining = false) :
    Moves b b' (r :: rs) := by
  refine ⟨h.size, h.next, h.alive, h.active, fun r' hr' hj => ?_⟩
  rcases List.mem_cons.mp hr' with rfl | hr'
  · rw [hr] at hj
    cases hj
  · exact h.joined r' hr' hj

theorem tellAll_moves (greet : Nat → Option ν) (i : Nat)
    (ss : List (Subscription (Listener μ ν))) (d : Delivery μ ν) (b : Board μ ν) :
    Moves b (tellAll greet i ss d b) (tellReceipts greet i ss d b) := by
  induction ss generalizing d b with
  | nil => exact .of_channels rfl
  | cons s rest ih =>
    unfold tellAll tellReceipts
    split
    · have ht := tell_moves greet s.listener (Delivery.notice d b).1 (Delivery.notice d b).2
      refine Moves.post ?_ rfl
      exact (notice_moves d b).trans (ht.trans (ih _ _))
    · exact ih d b

theorem post_moves (greet : Nat → Option ν) (i : Nat) (d : Delivery μ ν) (b : Board μ ν) :
    Moves b (b.post greet i d) (b.postReceipts greet i d) := tellAll_moves ..

omit [Recorder μ] in
/-- Reactions hand out greetings only. -/
theorem receipts_joining {r : Reaction μ ν} {x : Receipt ν} (h : x ∈ receipts greet r b) :
    x.joining = true := by
  induction r generalizing b with
  | finish left => cases h
  | raise left e => cases h
  | touch change next ih => exact ih _ h
  | unsubscribe i serial next ih => exact ih h
  | subscribe i label call next ihc ihn =>
    unfold receipts at h
    cases hg : greet i with
    | none =>
      rw [hg] at h
      exact ihn _ h
    | some notice =>
      rw [hg] at h
      dsimp only at h
      generalize react greet (call notice) b = w at h
      obtain ⟨b', left, _ | e⟩ := w
      · rcases List.mem_append.mp h with h | h
        · exact ihc _ h
        · rcases List.mem_cons.mp h with rfl | h
          · rfl
          · exact ihn _ h
      · rcases List.mem_append.mp h with h | h
        · exact ihc _ h
        · exact ihn _ h

omit [Recorder μ] in
theorem subscribeReceipts_joining {i : Nat} {listener : Listener μ ν} {x : Receipt ν}
    (h : x ∈ b.subscribeReceipts greet i listener) : x.joining = true := by
  unfold subscribeReceipts at h
  split at h
  · cases h
  · rcases List.mem_append.mp h with h | h
    · exact receipts_joining h
    · split at h
      · cases h
      · rw [List.mem_singleton.mp h]

/-- What is handed besides greetings is handed on the channel that is posted on. -/
theorem tellReceipts_channel {i : Nat} {ss : List (Subscription (Listener μ ν))}
    {d : Delivery μ ν} {x : Receipt ν} (h : x ∈ tellReceipts greet i ss d b)
    (hx : x.joining = false) : x.channel = i := by
  induction ss generalizing d b with
  | nil => cases h
  | cons s rest ih =>
    unfold tellReceipts at h
    split at h
    · rcases List.mem_cons.mp h with rfl | h
      · rfl
      · rcases List.mem_append.mp h with h | h
        · rw [receipts_joining h] at hx
          cases hx
        · exact ih h
    · exact ih h

/-- What is posted is handed to each subscription that is active behind it. -/
theorem exists_receipt {i : Nat} {ss : List (Subscription (Listener μ ν))} {d : Delivery μ ν}
    {s : Subscription (Listener μ ν)} (hs : s ∈ ss)
    (ha : ((tellAll greet i ss d b).channel i).isActive s.serial = true) :
    ∃ x ∈ tellReceipts greet i ss d b, x.channel = i ∧ x.serial = s.serial ∧ x.joining = false := by
  induction ss generalizing d b with
  | nil => cases hs
  | cons s' rest ih =>
    have alive := (tellAll_moves greet i (s' :: rest) d b).alive i s.serial ha
    unfold tellAll at ha
    unfold tellReceipts
    rcases List.mem_cons.mp hs with rfl | hs
    · rw [if_pos alive]
      exact ⟨_, List.mem_cons_self .., rfl, rfl, rfl⟩
    · split at ha
      · rename_i hs'
        obtain ⟨x, hx, h⟩ := ih hs ha
        rw [if_pos hs']
        exact ⟨x, List.mem_cons_of_mem _ (List.mem_append_right _ hx), h⟩
      · rename_i hs'
        obtain ⟨x, hx, h⟩ := ih hs ha
        rw [if_neg hs']
        exact ⟨x, hx, h⟩

/-- What is posted on a channel is handed to each old subscription that is active behind it. -/
theorem exists_postReceipt {i serial : Nat} {d : Delivery μ ν}
    (hn : serial < (b.channel i).next) (ha : (b.post greet i d).Active i serial) :
    ∃ x ∈ b.postReceipts greet i d, x.channel = i ∧ x.serial = serial ∧ x.joining = false := by
  obtain ⟨⟨s, hs, rfl⟩, -⟩ := (post_moves greet i d b).active i serial hn ha
  exact exists_receipt hs ha.2

/-! ## Receipts are for what listeners are handed -/

omit [Recorder μ] in
theorem receipts_handed {r : Reaction μ ν} {x : Receipt ν} (h : x ∈ receipts greet r b) :
    (x.channel, x.notice) ∈ (watchReact greet r b).2 := by
  induction r generalizing b with
  | finish left => cases h
  | raise left e => cases h
  | touch change next ih => exact ih _ h
  | unsubscribe i serial next ih => exact ih h
  | subscribe i label call next ihc ihn =>
    unfold receipts at h
    unfold watchReact
    cases hg : greet i with
    | none =>
      rw [hg] at h
      exact ihn _ h
    | some notice =>
      rw [hg] at h
      have hc := @ihc notice b
      have hw := watchReact_fst greet (call notice) b
      dsimp only at h ⊢
      rw [← hw] at h
      generalize watchReact greet (call notice) b = w at h hc ⊢
      obtain ⟨⟨b', left, _ | e⟩, hs⟩ := w
      · rcases List.mem_append.mp h with h | h
        · exact List.mem_cons_of_mem _ (List.mem_append_left _ (hc h))
        · rcases List.mem_cons.mp h with rfl | h
          · exact List.mem_cons_self ..
          · exact List.mem_cons_of_mem _ (List.mem_append_right _ (ihn _ h))
      · rcases List.mem_append.mp h with h | h
        · exact List.mem_cons_of_mem _ (List.mem_append_left _ (hc h))
        · exact List.mem_cons_of_mem _ (List.mem_append_right _ (ihn _ h))

omit [Recorder μ] in
theorem subscribeReceipts_handed {i : Nat} {listener : Listener μ ν} {x : Receipt ν}
    (h : x ∈ b.subscribeReceipts greet i listener) :
    (x.channel, x.notice) ∈ (b.watchSubscribe greet i listener).2 := by
  unfold subscribeReceipts at h
  unfold watchSubscribe
  cases hg : greet i with
  | none =>
    rw [hg] at h
    cases h
  | some notice =>
    rw [hg] at h
    have hc := @receipts_handed μ ν greet b (listener.call notice) x
    have hw := watchReact_fst greet (listener.call notice) b
    dsimp only at h ⊢
    rw [← hw] at h
    generalize watchReact greet (listener.call notice) b = w at h hc ⊢
    obtain ⟨⟨b', left, _ | e⟩, hs⟩ := w
    · rcases List.mem_append.mp h with h | h
      · exact List.mem_cons_of_mem _ (hc h)
      · rw [List.mem_singleton.mp h]
        exact List.mem_cons_self ..
    · rw [List.append_nil] at h
      exact List.mem_cons_of_mem _ (hc h)

theorem tellReceipts_handed {i : Nat} {ss : List (Subscription (Listener μ ν))}
    {d : Delivery μ ν} {x : Receipt ν} (h : x ∈ tellReceipts greet i ss d b) :
    (x.channel, x.notice) ∈ (watchTellAll greet i ss d b).2 := by
  induction ss generalizing d b with
  | nil => cases h
  | cons s rest ih =>
    unfold tellReceipts at h
    unfold watchTellAll
    split at h
    · rename_i ha
      rw [if_pos ha]
      dsimp only at h ⊢
      rcases List.mem_cons.mp h with rfl | h
      · exact List.mem_cons_self ..
      · rcases List.mem_append.mp h with h | h
        · refine List.mem_cons_of_mem _ (List.mem_append_left _ ?_)
          have hr := receipts_handed h
          unfold watchTell
          generalize watchReact greet (s.listener.call _) _ = w at hr ⊢
          obtain ⟨⟨b', left, _ | e⟩, hs⟩ := w
          · exact hr
          · exact hr
        · rw [← watchTell_fst] at h
          exact List.mem_cons_of_mem _ (List.mem_append_right _ (ih h))
    · rename_i ha
      rw [if_neg ha]
      exact ih h

end

end Board
end Workflow
