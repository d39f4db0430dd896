import Workflow.Board

/-!
# What listeners are handed

A board can be watched while listeners react: it is told which notice the listeners of which channel
are handed.

Results:
* `watchReact_fst`, `watchTellAll_fst`: watching changes nothing.
* `mem_watchReact`: in a reaction, new listeners are handed what the board greets them with.
* `mem_watchTellAll`: listeners are handed copies of what is posted, or a greeting.
-/
namespace Workflow.Board

variable {μ ν : Type}

/-- Carries out a reaction, and tells what listeners are handed by it. -/
def watchReact (greet : Nat → Option ν) :
    Reaction μ ν → Board μ ν → Reacted μ ν × List (Nat × ν)
  | .finish left, b => (⟨b, left, none⟩, [])
  | .raise left e, b => (⟨b, left, some e⟩, [])
  | .touch change next, b => watchReact greet (next b.memory) (b.touch change)
  | .unsubscribe i serial next, b => watchReact greet next (b.unsubscribe i serial)
  | .subscribe i label call next, b =>
    match greet i with
    | none =>
      let (b, serial) := b.add i ⟨label, call⟩
      watchReact greet (next (.ok serial)) b
    | some notice =>
      match watchReact greet (call notice) b with
      | (⟨b, _, some e⟩, hs) =>
        let (r, hs') := watchReact greet (next (.error e)) b
        (r, (i, notice) :: (hs ++ hs'))
      | (⟨b, _, none⟩, hs) =>
        let (b, serial) := b.add i ⟨label, call⟩
        let (r, hs') := watchReact greet (next (.ok serial)) b
        (r, (i, notice) :: (hs ++ hs'))

/-- Subscribes a listener to a channel, and tells what listeners are handed by it. -/
def watchSubscribe (greet : Nat → Option ν) (b : Board μ ν) (i : Nat) (listener : Listener μ ν) :
    (Board μ ν × Except Raised Nat) × List (Nat × ν) :=
  match greet i with
  | none => (((b.add i listener).1, .ok (b.add i listener).2), [])
  | some notice =>
    match watchReact greet (listener.call notice) b with
    | (⟨b, _, some e⟩, hs) => ((b, .error e), (i, notice) :: hs)
    | (⟨b, _, none⟩, hs) =>
      (((b.add i listener).1, .ok (b.add i listener).2), (i, notice) :: hs)

theorem watchReact_fst (greet : Nat → Option ν) (r : Reaction μ ν) (b : Board μ ν) :
    (watchReact greet r b).1 = react greet r b := by
  induction r generalizing b with
  | finish left => rfl
  | raise left e => rfl
  | touch change next ih => exact ih _ _
  | unsubscribe i serial next ih => exact ih _
  | subscribe i label call next ihc ihn =>
    unfold watchReact react
    cases greet i with
    | none => exact ihn _ _
    | some notice =>
      have hc := ihc notice b
      dsimp only
      rw [← hc]
      rcases watchReact greet (call notice) b with ⟨⟨b', left, _ | e⟩, hs⟩
      · exact ihn _ _
      · exact ihn _ _

theorem watchSubscribe_fst (greet : Nat → Option ν) (b : Board μ ν) (i : Nat)
    (listener : Listener μ ν) :
    (b.watchSubscribe greet i listener).1 = b.subscribe greet i listener := by
  unfold watchSubscribe subscribe
  cases greet i with
  | none => rfl
  | some notice =>
    have h := watchReact_fst greet (listener.call notice) b
    simp only [Option.map_some]
    rw [← h]
    rcases watchReact greet (listener.call notice) b with ⟨⟨b', left, _ | e⟩, hs⟩
    · rfl
    · rfl

/-- In a reaction, new listeners are handed what the board greets them with. -/
theorem mem_watchReact {greet : Nat → Option ν} {r : Reaction μ ν} {b : Board μ ν} {x : Nat × ν}
    (h : x ∈ (watchReact greet r b).2) : greet x.1 = some x.2 := by
  induction r generalizing b with
  | finish left => cases h
  | raise left e => cases h
  | touch change next ih => exact ih _ h
  | unsubscribe i serial next ih => exact ih h
  | subscribe i label call next ihc ihn =>
    unfold watchReact at h
    cases hg : greet i with
    | none =>
      rw [hg] at h
      exact ihn _ h
    | some notice =>
      rw [hg] at h
      have hc := @ihc notice b
      dsimp only at h
      -- the new listener is greeted, it reacts, and the reaction goes on
      generalize watchReact greet (call notice) b = w at h hc
      obtain ⟨⟨b', left, _ | e⟩, hs⟩ := w
      · rcases List.mem_cons.mp h with rfl | h
        · exact hg
        · exact (List.mem_append.mp h).elim hc (ihn _)
      · rcases List.mem_cons.mp h with rfl | h
        · exact hg
        · exact (List.mem_append.mp h).elim hc (ihn _)

theorem mem_watchSubscribe {greet : Nat → Option ν} {b : Board μ ν} {i : Nat}
    {listener : Listener μ ν} {x : Nat × ν} (h : x ∈ (b.watchSubscribe greet i listener).2) :
    greet x.1 = some x.2 := by
  unfold watchSubscribe at h
  cases hg : greet i with
  | none =>
    rw [hg] at h
    cases h
  | some notice =>
    rw [hg] at h
    have hc := @mem_watchReact μ ν greet (listener.call notice) b x
    dsimp only at h
    generalize watchReact greet (listener.call notice) b = w at h hc
    obtain ⟨⟨b', left, _ | e⟩, hs⟩ := w
    · rcases List.mem_cons.mp h with rfl | h
      · exact hg
      · exact hc h
    · rcases List.mem_cons.mp h with rfl | h
      · exact hg
      · exact hc h

/-! ## Posting -/

variable [Recorder μ]

def watchTell (greet : Nat → Option ν) (listener : Listener μ ν) (notice : ν) (b : Board μ ν) :
    (Board μ ν × ν) × List (Nat × ν) :=
  match watchReact greet (listener.call notice) b with
  | (⟨b, left, none⟩, hs) => ((b, left), hs)
  | (⟨b, left, some e⟩, hs) =>
    ((b.touch (Recorder.record (raisedEntry listener.label e)), left), hs)

def watchTellAll (greet : Nat → Option ν) (i : Nat) :
    List (Subscription (Listener μ ν)) → Delivery μ ν → Board μ ν → Board μ ν × List (Nat × ν)
  | [], _, b => (b, [])
  | s :: rest, d, b =>
    if (b.channel i).isActive s.serial then
      let (notice, b) := Delivery.notice d b
      let ((b, left), hs) := watchTell greet s.listener notice b
      let (b, hs') := watchTellAll greet i rest (Delivery.after d left) b
      (b, (i, notice) :: (hs ++ hs'))
    else watchTellAll greet i rest d b

/-- Posts a notice on a channel, and tells what listeners are handed by it. -/
def watchPost (greet : Nat → Option ν) (i : Nat) (d : Delivery μ ν) (b : Board μ ν) :
    Board μ ν × List (Nat × ν) :=
  watchTellAll greet i (b.channel i).current d b

theorem watchTell_fst (greet : Nat → Option ν) (listener : Listener μ ν) (notice : ν)
    (b : Board μ ν) : (watchTell greet listener notice b).1 = tell greet listener notice b := by
  have h := watchReact_fst greet (listener.call notice) b
  unfold watchTell tell
  rw [← h]
  rcases watchReact greet (listener.call notice) b with ⟨⟨b', left, _ | e⟩, hs⟩
  · rfl
  · rfl

theorem watchTellAll_fst (greet : Nat → Option ν) (i : Nat)
    (ss : List (Subscription (Listener μ ν))) (d : Delivery μ ν) (b : Board μ ν) :
    (watchTellAll greet i ss d b).1 = tellAll greet i ss d b := by
  induction ss generalizing d b with
  | nil => rfl
  | cons s ss ih =>
    unfold watchTellAll tellAll
    by_cases ha : (b.channel i).isActive s.serial
    · rw [if_pos ha, if_pos ha]
      dsimp only
      rw [ih, ← watchTell_fst]
    · rw [if_neg ha, if_neg ha]
      exact ih d b

theorem watchPost_fst (greet : Nat → Option ν) (i : Nat) (d : Delivery μ ν) (b : Board μ ν) :
    (watchPost greet i d b).1 = post greet i d b := watchTellAll_fst ..

theorem mem_watchTell {greet : Nat → Option ν} {listener : Listener μ ν} {notice : ν}
    {b : Board μ ν} {x : Nat × ν} (h : x ∈ (watchTell greet listener notice b).2) :
    greet x.1 = some x.2 := by
  unfold watchTell at h
  have hc := @mem_watchReact μ ν greet (listener.call notice) b x
  generalize watchReact greet (listener.call notice) b = w at h hc
  obtain ⟨⟨b', left, _ | e⟩, hs⟩ := w
  · exact hc h
  · exact hc h

/-- What listeners are handed when copies of a notice are made, or what is on another channel than
the one that is posted on, is a copy or a greeting. -/
theorem mem_watchTellAll {greet : Nat → Option ν} {i : Nat}
    {ss : List (Subscription (Listener μ ν))} {d : Delivery μ ν} {b : Board μ ν} {x : Nat × ν}
    (h : x ∈ (watchTellAll greet i ss d b).2) :
    greet x.1 = some x.2 ∨
      x.1 = i ∧ ∀ notice, (d = .copies fun m => (notice, m)) → x.2 = notice := by
  induction ss generalizing d b with
  | nil => cases h
  | cons s ss ih =>
    unfold watchTellAll at h
    by_cases ha : (b.channel i).isActive s.serial
    · rw [if_pos ha] at h
      dsimp only at h
      rcases List.mem_cons.mp h with rfl | h
      · refine .inr ⟨rfl, fun notice hd => ?_⟩
        subst hd
        rfl
      · rcases List.mem_append.mp h with h | h
        · exact .inl (mem_watchTell h)
        · rcases ih h with h | ⟨hi, hn⟩
          · exact .inl h
          · refine .inr ⟨hi, fun notice hd => hn notice ?_⟩
            subst hd
            rfl
    · rw [if_neg ha] at h
      exact ih h

end Workflow.Board
