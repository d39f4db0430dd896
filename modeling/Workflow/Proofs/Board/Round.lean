import Workflow.Proofs.Board.Aside
import Workflow.Proofs.Board.Turns

/-!
# Who is called

While a notice is posted on a channel, the listeners that are called may subscribe and unsubscribe
as they like, and raise errors. A subscription that was there when the post began is called unless
one that was called before it has ended it. No other is called, and nobody is called twice. Each
error gives one log entry, and for each call one notice is made.

Results:
* `turns_split`: what has become of the board by the time of a turn.
* `Shows.turns`: what the turns leave in the host's memory.
* `post_exact`: who is called, and what is logged and made for it.
-/
namespace Workflow.Board

variable {μ ν τ : Type} [Recorder μ] {greet : Nat → Option ν} {i : Nat} {b : Board μ ν}
  {d : Delivery μ ν} {ss : List (Subscription (Listener μ ν))} {before after : List (Turn μ ν)}

/-! ## One turn after another -/

/-- Each subscription has one turn. -/
theorem turns_subscription (greet : Nat → Option ν) (i : Nat)
    (ss : List (Subscription (Listener μ ν))) (d : Delivery μ ν) (b : Board μ ν) :
    (turns greet i ss d b).map (·.subscription) = ss := by
  induction ss generalizing d b with
  | nil => rfl
  | cons s rest ih => exact congrArg (s :: ·) (ih _ _)

/-- The later turns are those of the other subscriptions, on the board that is there by then. -/
theorem turns_split (h : turns greet i ss d b = before ++ after) :
    (∃ rest d', after = turns greet i rest d' (behindAll greet i b before)) ∧
      b.Follows (before.flatMap (·.changes greet i)) (behindAll greet i b before) := by
  induction before generalizing ss d b with
  | nil => exact ⟨⟨ss, d, h.symm⟩, .of_channels rfl⟩
  | cons t before ih =>
    cases ss with
    | nil => cases h
    | cons s rest =>
      obtain ⟨rfl, hrest⟩ := List.cons.inj h
      obtain ⟨hr, hf⟩ := ih hrest
      exact ⟨hr, (Turn.follows greet i _).trans hf⟩

/-- A turn finds the board that the earlier ones have left. -/
theorem turns_found {t : Turn μ ν} (h : turns greet i ss d b = before ++ t :: after) :
    t.found = behindAll greet i b before := by
  obtain ⟨⟨rest, d', h⟩, -⟩ := turns_split h
  cases rest with
  | nil => cases h
  | cons s rest =>
    obtain ⟨rfl, -⟩ := List.cons.inj h
    rfl

/-- Where copies are delivered, each turn has a copy of its own. -/
theorem turns_copies {make : μ → ν × μ} {t : Turn μ ν}
    (h : t ∈ turns greet i ss (.copies make) b) : t.delivery = .copies make := by
  induction ss generalizing b with
  | nil => cases h
  | cons s rest ih =>
    rcases List.mem_cons.mp h with rfl | h
    · rfl
    · have hp : Turn.passed greet i ⟨s, .copies make, b⟩ = .copies make := by
        unfold Turn.passed
        split <;> rfl
      rw [hp] at h
      exact ih h

/-! ## What the turns leave in the memory -/

/-- What becomes of a thing that is seen of the memory when a notice is made. -/
def Delivery.Makes (see : μ → τ) (making : τ → τ) (d : Delivery μ ν) : Prop :=
  ∀ b : Board μ ν, see (Delivery.notice d b).2.memory = making (see b.memory)

omit [Recorder μ] in
theorem Delivery.Makes.passed {see : μ → τ} {making : τ → τ} (h : Delivery.Makes see making d)
    (left : ν) : Delivery.Makes see making (Delivery.after d left) := by
  cases d <;> exact h

/-- What becomes in a turn of a thing that is seen of the memory, if a notice is made for a call,
and an entry is logged for an error. -/
def Turn.mark (greet : Nat → Option ν) (i : Nat) (making : τ → τ) (logging : Log.Entry → τ → τ)
    (x : τ) (t : Turn μ ν) : τ :=
  if t.called i then
    match t.logged? greet i with
    | none => making x
    | some entry => logging entry (making x)
  else x

section

variable {see : μ → τ} {making : τ → τ} {logging : Log.Entry → τ → τ} {x : τ}

theorem Shows.turn (greet : Nat → Option ν) (i : Nat) {t : Turn μ ν} (h : t.found.Shows see x)
    (hl : t.subscription.listener.Aside see) (hm : Delivery.Makes see making t.delivery)
    (hr : ∀ entry m, see (Recorder.record entry m) = logging entry (see m)) :
    (t.behind greet i).Shows see (t.mark greet i making logging x) := by
  unfold Turn.behind Turn.mark
  split
  · have hg : t.given.2.Shows see (making x) :=
      ⟨(hm t.found).trans (congrArg making h.seen), by
        unfold Turn.given
        cases t.delivery <;> exact h.aside⟩
    have hb : (t.reacted greet).board.Shows see (making x) := hg.react (hl _)
    cases t.logged? greet i with
    | none => exact hb
    | some entry => exact ⟨(hr entry _).trans (congrArg (logging entry) hb.seen), hb.aside⟩
  · exact h

/-- What the turns make of a thing that listeners leave alone. -/
theorem Shows.turns (greet : Nat → Option ν) (i : Nat) (logging : Log.Entry → τ → τ)
    (h : b.Shows see x) (hl : ∀ s ∈ ss, s.listener.Aside see)
    (hm : Delivery.Makes see making d)
    (hr : ∀ entry m, see (Recorder.record entry m) = logging entry (see m)) :
    (behindAll greet i b (turns greet i ss d b)).Shows see
      ((turns greet i ss d b).foldl (Turn.mark greet i making logging) x) := by
  induction ss generalizing d b x with
  | nil => exact h
  | cons s rest ih =>
    obtain ⟨hs, hrest⟩ := List.forall_mem_cons.mp hl
    have ht : (Turn.behind greet i ⟨s, d, b⟩).Shows see
        (Turn.mark greet i making logging x ⟨s, d, b⟩) := Shows.turn greet i h hs hm hr
    refine ih ht hrest ?_
    unfold Turn.passed
    split
    · exact hm.passed _
    · exact hm

end

omit [Recorder μ] in
theorem foldl_mark_logs (log : List Log.Entry) (ts : List (Turn μ ν)) :
    ts.foldl (Turn.mark greet i id fun entry log => log ++ [entry]) log =
      log ++ ts.filterMap (·.logged? greet i) := by
  induction ts generalizing log with
  | nil => simp
  | cons t ts ih =>
    rw [List.foldl_cons, ih, Turn.mark, List.filterMap_cons]
    cases ht : t.called i with
    | false => simp [Turn.logged?, ht]
    | true => cases t.logged? greet i <;> simp

omit [Recorder μ] in
theorem foldl_mark_count (n : Nat) (ts : List (Turn μ ν)) :
    ts.foldl (Turn.mark greet i (· + 1) fun _ n => n) n = n + ts.countP (·.called i) := by
  induction ts generalizing n with
  | nil => rfl
  | cons t ts ih =>
    rw [List.foldl_cons, ih, Turn.mark, List.countP_cons]
    cases ht : t.called i with
    | false => simp
    | true => cases t.logged? greet i <;> simp <;> omega

/-! ## Who is called -/

/-- A subscription that was there when the post began is called unless it has been ended by then. -/
theorem called_iff {t : Turn μ ν} (h : turns greet i ss d b = before ++ t :: after)
    (hi : i < b.channels.length) (ha : (b.channel i).isActive t.subscription.serial = true) :
    t.called i = true ↔
      ∀ t' ∈ before, (i, .leave t.subscription.serial) ∉ t'.changes greet i := by
  have hr := ((turns_split h).2.runs i hi []).isActive_iff t.subscription.serial
  unfold Turn.called
  rw [turns_found h, hr, and_iff_right ha, Change.mem_left, Change.mem_on]
  simp

/-- What is subscribed meanwhile has a number that no subscription had when the post began. -/
theorem next_le_of_join {t : Turn μ ν} {s : Subscription (Listener μ ν)}
    (h : t ∈ turns greet i ss d b) (hi : i < b.channels.length)
    (hs : (i, .join s) ∈ t.changes greet i) : (b.channel i).next ≤ s.serial := by
  obtain ⟨before, after, h⟩ := List.append_of_mem h
  rw [← List.singleton_append, ← List.append_assoc] at h
  refine (((turns_split h).2.runs i hi []).next_le).2 s ?_
  simp [hs]

/-- **A post calls the subscriptions that were there when it began and are active when their turn
comes**, in the order in which they were made, and each once, whatever the listeners do that are
called. Each subscription has one turn. It is called then unless a listener that was called before
has ended it; no error of another listener prevents that. Nothing that is subscribed meanwhile is
called, though its listener may be one that was just taken out. What the listeners do to the
subscriptions in their turns is what becomes of the channels. Each error that a listener raises
gives one log entry, and no other is made. Where copies are delivered, one is made for each call. -/
theorem post_exact {cs : List (Change (Listener μ ν))}
    {due : List (List (Subscription (Listener μ ν)))} {b : Board μ ν} {i : Nat}
    (h : Scene.Runs {} cs ⟨due, b.channel i⟩) (ha : Change.MadeFirst cs)
    (greet : Nat → Option ν) (d : Delivery μ ν) :
    ∃ ts, ts = turns greet i (b.channel i).current d b ∧
    ts.map (·.subscription) = (b.channel i).current ∧
    (b.channel i).current.Pairwise (·.serial < ·.serial) ∧
    b.post greet i d = behindAll greet i b ts ∧
    b.Follows (ts.flatMap (·.changes greet i)) (b.post greet i d) ∧
    (∀ before t after, ts = before ++ t :: after → t.found = behindAll greet i b before ∧
      (t.called i = true ↔
        ∀ t' ∈ before, (i, .leave t.subscription.serial) ∉ t'.changes greet i)) ∧
    (∀ t ∈ ts, ∀ s, (i, .join s) ∈ t.changes greet i →
      ∀ t' ∈ ts, t'.subscription.serial ≠ s.serial) ∧
    (∀ logs : μ → List Log.Entry,
      (∀ entry m, logs (Recorder.record entry m) = logs m ++ [entry]) → b.Aside logs →
      d.Aside logs →
      logs (b.post greet i d).memory = logs b.memory ++ ts.filterMap (·.logged? greet i)) ∧
    ∀ make, d = .copies make → (∀ t ∈ ts, t.delivery = .copies make) ∧
      ∀ made : μ → Nat, (∀ m, made (make m).2 = made m + 1) →
        (∀ entry m, made (Recorder.record entry m) = made m) → b.Aside made →
        made (b.post greet i d).memory = made b.memory + ts.countP (·.called i) := by
  have ht : (b.channel i).Tallies cs := h.tallies ha
  have hpost : b.post greet i d = _ := tellAll_eq greet i (b.channel i).current d b
  have hmap := turns_subscription greet i (b.channel i).current d b
  -- who has a turn was there and active
  have hmem (t) (h : t ∈ turns greet i (b.channel i).current d b) :
      t.subscription ∈ (b.channel i).current := by
    have hm := List.mem_map_of_mem (f := Turn.subscription) h
    rwa [hmap] at hm
  have hact (t) (h : t ∈ turns greet i (b.channel i).current d b) :
      b.Active i t.subscription.serial :=
    ⟨⟨_, hmem t h, rfl⟩, (ht.mem_current.mp (hmem t h)).2⟩
  refine ⟨_, rfl, hmap, ht.sorted, hpost, follows_turns .., fun before t after hs => ?_,
    fun t hm s hs t' hm' he => ?_, fun logs hr hl hd => ?_,
    fun make hc => ⟨fun t hm => ?_, fun made hm hr hl => ?_⟩⟩
  · have hm : t ∈ turns greet i (b.channel i).current d b := hs ▸ by simp
    exact ⟨turns_found hs, called_iff hs (hact t hm).lt (hact t hm).2⟩
  · have hn := next_le_of_join hm (hact t hm).lt hs
    have hlt := ht.serial_lt (ht.mem_current.mp (hmem t' hm')).1
    omega
  · have hmk : Delivery.Makes logs id d := fun b => by
      cases d with
      | shared notice => rfl
      | copies make => exact hd _
    have hs := Shows.turns greet i (fun entry log => log ++ [entry]) ⟨rfl, hl⟩ (hl i) hmk hr
    rw [hpost, hs.seen, foldl_mark_logs]
  · subst hc
    exact turns_copies hm
  · subst hc
    have hmk : Delivery.Makes made (· + 1) (.copies make : Delivery μ ν) := fun b => hm b.memory
    have hs := Shows.turns greet i (fun _ n => n) ⟨rfl, hl⟩ (hl i) hmk hr
    rw [hpost, hs.seen, foldl_mark_count]

/-! ## A listener that clears up -/

/-- A listener that ends its own subscription and the third one, and subscribes an idle one. -/
def clearing : Listener (List Log.Entry) Unit where
  label := "clearing"
  call _ := .unsubscribe 0 0 <| .unsubscribe 0 2 <|
    .subscribe 0 idle.label idle.call fun _ => .finish ()

def raising : Listener (List Log.Entry) Unit := ⟨"raising", fun _ => .raise () ⟨"ValueError", "no"⟩⟩

/-- A board on which those two and an idle one have subscribed. -/
def clearedBoard : Board (List Log.Entry) Unit where
  memory := []
  channels := [⟨[⟨0, clearing⟩, ⟨1, raising⟩, ⟨2, idle⟩], 3, []⟩]

theorem clearedBoard_aside : clearedBoard.Aside id := by
  intro i s hs
  obtain rfl | hi := Nat.eq_zero_or_pos i
  · change s ∈ [⟨0, clearing⟩, ⟨1, raising⟩, ⟨2, idle⟩] at hs
    simp only [List.mem_cons, List.not_mem_nil, or_false] at hs
    rcases hs with rfl | rfl | rfl
    · exact fun _ =>
        .unsubscribe (.unsubscribe (.subscribe (fun _ => .finish ()) fun _ => .finish ()))
    · exact fun _ => .raise () _
    · exact fun _ => .finish ()
  · have hc : clearedBoard.channel i = {} := by
      rw [channel, List.getElem?_eq_none hi]
      rfl
    rw [hc] at hs
    cases hs

/-- The third subscription is ended before its turn comes. The error of the second one is logged. -/
theorem post_exact_cleared : ∃ (cs : List (Change (Listener (List Log.Entry) Unit)))
    (ts : List (Turn (List Log.Entry) Unit)),
    Scene.Runs {} cs ⟨[], clearedBoard.channel 0⟩ ∧ Change.MadeFirst cs ∧
      ts.map (·.called 0) = [true, true, false] ∧
      (clearedBoard.post (fun _ => none) 0 (.shared ())).memory =
        [raisedEntry "raising" ⟨"ValueError", "no"⟩] := by
  have hr := (((Scene.Runs.rest {}).step (.subscribe clearing)).step (.subscribe raising)).step
    (.subscribe idle)
  have ha := ((Change.MadeFirst.nil.join ⟨0, clearing⟩).join ⟨1, raising⟩).join ⟨2, idle⟩
  obtain ⟨ts, hts, -, -, -, -, -, -, hlog, -⟩ :=
    post_exact (b := clearedBoard) (i := 0) hr ha (fun _ => none) (.shared ())
  exact ⟨_, ts, hr, ha, hts ▸ rfl,
    (hlog id (fun _ _ => rfl) clearedBoard_aside trivial).trans (hts ▸ rfl)⟩

end Workflow.Board
