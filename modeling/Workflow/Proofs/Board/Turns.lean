import Workflow.Proofs.Board.Follows

/-!
# Turns

A posted notice gives each subscription of its channel a turn. A subscription that is active by then
is called, and what its listener does to the subscriptions of the board is seen in the turns behind
it. So on each of its channels a board does what notifiers do: subscribe, unsubscribe, and post.

Results:
* `tellAll_eq`: a post is turn after turn.
* `follows_turns`, `runs_turns`, `runs_perform`: what is done with a board, seen on one channel.
* `subscriptions_exact`: the subscriptions of a channel, whatever was done with it.
-/
namespace Workflow.Board

variable {μ ν : Type}

/-! ## Turns -/

/-- The turn of a subscription: what is delivered, and the board that is found. -/
structure Turn (μ ν : Type) where
  subscription : Subscription (Listener μ ν)
  delivery : Delivery μ ν
  found : Board μ ν

namespace Turn

/-- Is the subscription active when its turn comes? -/
def called (i : Nat) (t : Turn μ ν) : Bool := (t.found.channel i).isActive t.subscription.serial

/-- The notice for the listener, and the board once it is made. -/
def given (t : Turn μ ν) : ν × Board μ ν := Delivery.notice t.delivery t.found

/-- What the listener does when it is called. -/
def reaction (t : Turn μ ν) : Reaction μ ν := t.subscription.listener.call t.given.1

def reacted (greet : Nat → Option ν) (t : Turn μ ν) : Reacted μ ν :=
  react greet t.reaction t.given.2

def changes (greet : Nat → Option ν) (i : Nat) (t : Turn μ ν) :
    List (Nat × Change (Listener μ ν)) :=
  if t.called i then Board.changes greet t.reaction t.given.2 else []

def logged? (greet : Nat → Option ν) (i : Nat) (t : Turn μ ν) : Option Log.Entry :=
  if t.called i then (t.reacted greet).error.map (raisedEntry t.subscription.listener.label)
  else none

/-- The delivery to the subscriptions whose turn comes later. -/
def passed (greet : Nat → Option ν) (i : Nat) (t : Turn μ ν) : Delivery μ ν :=
  if t.called i then Delivery.after t.delivery (t.reacted greet).left else t.delivery

variable [Recorder μ]

/-- The board behind the turn. -/
def behind (greet : Nat → Option ν) (i : Nat) (t : Turn μ ν) : Board μ ν :=
  if t.called i then
    match t.logged? greet i with
    | none => (t.reacted greet).board
    | some entry => (t.reacted greet).board.touch (Recorder.record entry)
  else t.found

theorem behind_of_called (greet : Nat → Option ν) {i : Nat} {t : Turn μ ν} (h : t.called i = true) :
    t.behind greet i = (tell greet t.subscription.listener t.given.1 t.given.2).1 ∧
      (t.reacted greet).left = (tell greet t.subscription.listener t.given.1 t.given.2).2 := by
  simp only [behind, logged?, h, if_true]
  unfold tell reacted reaction
  generalize react greet (t.subscription.listener.call t.given.1) t.given.2 = w
  obtain ⟨b, left, _ | e⟩ := w <;> exact ⟨rfl, rfl⟩

theorem behind_channels (greet : Nat → Option ν) (i : Nat) (t : Turn μ ν)
    (h : t.called i = true) : (t.behind greet i).channels = (t.reacted greet).board.channels := by
  unfold behind
  rw [if_pos h]
  split <;> rfl

/-- What becomes of the board in a turn. -/
theorem follows (greet : Nat → Option ν) (i : Nat) (t : Turn μ ν) :
    t.found.Follows (t.changes greet i) (t.behind greet i) := by
  unfold changes
  split
  · rename_i h
    have hg : t.found.Follows [] t.given.2 := by
      unfold given
      cases t.delivery <;> exact .of_channels rfl
    have hr := hg.trans (Follows.react greet t.reaction t.given.2)
    have hb := hr.trans (.of_channels (t.behind_channels greet i h))
    rwa [List.append_nil] at hb
  · rename_i h
    rw [behind, if_neg h]
    exact .of_channels rfl

end Turn

variable [Recorder μ]

/-- The turns of some subscriptions to a channel. -/
def turns (greet : Nat → Option ν) (i : Nat) :
    List (Subscription (Listener μ ν)) → Delivery μ ν → Board μ ν → List (Turn μ ν)
  | [], _, _ => []
  | s :: rest, d, b =>
    let t : Turn μ ν := ⟨s, d, b⟩
    t :: turns greet i rest (t.passed greet i) (t.behind greet i)

/-- The board behind some turns. -/
def behindAll (greet : Nat → Option ν) (i : Nat) (b : Board μ ν) (ts : List (Turn μ ν)) :
    Board μ ν := ts.foldl (fun _ t => t.behind greet i) b

theorem tellAll_cons (greet : Nat → Option ν) (i : Nat) (t : Turn μ ν)
    (rest : List (Subscription (Listener μ ν))) :
    tellAll greet i (t.subscription :: rest) t.delivery t.found =
      tellAll greet i rest (t.passed greet i) (t.behind greet i) := by
  rw [tellAll]
  split
  · rename_i h
    replace h : t.called i = true := h
    obtain ⟨hb, hl⟩ := Turn.behind_of_called greet h
    rw [Turn.passed, if_pos h, hb, hl]
    rfl
  · rename_i h
    replace h : ¬t.called i = true := h
    rw [Turn.passed, if_neg h, Turn.behind, if_neg h]

/-- A post on a channel, turn after turn. -/
theorem tellAll_eq (greet : Nat → Option ν) (i : Nat) (ss : List (Subscription (Listener μ ν)))
    (d : Delivery μ ν) (b : Board μ ν) :
    tellAll greet i ss d b = behindAll greet i b (turns greet i ss d b) := by
  induction ss generalizing d b with
  | nil => rfl
  | cons s rest ih => exact (tellAll_cons greet i ⟨s, d, b⟩ rest).trans (ih _ _)

/-- What is done to the subscriptions of a board when a notice is posted. -/
def postChanges (greet : Nat → Option ν) (b : Board μ ν) (i : Nat) (d : Delivery μ ν) :
    List (Nat × Change (Listener μ ν)) :=
  (turns greet i (b.channel i).current d b).flatMap (·.changes greet i)

theorem follows_turns (greet : Nat → Option ν) (i : Nat) (ss : List (Subscription (Listener μ ν)))
    (d : Delivery μ ν) (b : Board μ ν) :
    b.Follows ((turns greet i ss d b).flatMap (·.changes greet i)) (tellAll greet i ss d b) := by
  induction ss generalizing d b with
  | nil => exact .of_channels rfl
  | cons s rest ih =>
    let t : Turn μ ν := ⟨s, d, b⟩
    rw [turns, List.flatMap_cons, tellAll_cons greet i t rest]
    exact (t.follows greet i).trans (ih _ _)

/-- Where a notice is posted, the subscriptions have their turns. -/
theorem runs_turns (greet : Nat → Option ν) (i : Nat) (ss : List (Subscription (Listener μ ν)))
    (d : Delivery μ ν) {b : Board μ ν} (hi : i < b.channels.length)
    (due : List (List (Subscription (Listener μ ν)))) :
    Scene.Runs ⟨ss :: due, b.channel i⟩
      (Change.on i ((turns greet i ss d b).flatMap (·.changes greet i)))
      ⟨due, (tellAll greet i ss d b).channel i⟩ := by
  induction ss generalizing d b with
  | nil => exact Scene.Step.close.run
  | cons s rest ih =>
    let t : Turn μ ν := ⟨s, d, b⟩
    have hs : Scene.Step ⟨(s :: rest) :: due, b.channel i⟩ [] ⟨rest :: due, b.channel i⟩ := by
      cases h : t.called i with
      | true => exact .call h
      | false => exact .pass h
    have ht := t.follows greet i
    rw [turns, List.flatMap_cons, Change.on_append, tellAll_cons greet i t rest]
    exact hs.run.trans ((ht.runs i hi _).trans (ih _ (ht.size ▸ hi)))

/-! ## What a host does with a board -/

/-- What a host does with a board. -/
inductive BoardOp (μ ν : Type) where
  | subscribe (channel : Nat) (listener : Listener μ ν)
  | unsubscribe (channel serial : Nat)
  | post (channel : Nat) (d : Delivery μ ν)

/-- Does something with a board. -/
def perform (greet : Nat → Option ν) (b : Board μ ν) : BoardOp μ ν → Board μ ν
  | .subscribe i listener => (b.subscribe greet i listener).1
  | .unsubscribe i serial => b.unsubscribe i serial
  | .post i d => b.post greet i d

def performChanges (greet : Nat → Option ν) (b : Board μ ν) :
    BoardOp μ ν → List (Nat × Change (Listener μ ν))
  | .subscribe i listener => b.subscribeChanges greet i listener
  | .unsubscribe i serial => [(i, .leave serial)]
  | .post i d => b.postChanges greet i d

/-- Whatever a host does with a board, each channel goes through a run of its own. -/
theorem runs_perform (greet : Nat → Option ν) (b : Board μ ν) (op : BoardOp μ ν) {j : Nat}
    (hj : j < b.channels.length) (due : List (List (Subscription (Listener μ ν)))) :
    Scene.Runs ⟨due, b.channel j⟩ (Change.on j (b.performChanges greet op))
      ⟨due, (b.perform greet op).channel j⟩ := by
  cases op with
  | subscribe i listener => exact (Follows.subscribe greet b i listener).runs j hj due
  | unsubscribe i serial => exact (Follows.unsubscribe b i serial).runs j hj due
  | post i d =>
    by_cases hi : i = j
    · subst hi
      exact Scene.Step.post.run.trans (runs_turns greet i _ d hj due)
    · exact (follows_turns greet i _ d b).runs j hj due

/-- **The subscriptions of a channel are those that were made and not ended**, in the order in which
they were made, each once, at every moment: whatever was subscribed, ended and posted, also while
notices were being posted, one within another. Just these are active. A subscription that is to end
is found if it has not ended yet; it is taken out of the list and nothing else is, and no other
becomes inactive. To end it again changes nothing. Whatever a host does next with a board on which
the channel is, and whatever its listeners do, it is one more part of such a run. -/
theorem subscriptions_exact {cs : List (Change (Listener μ ν))} {c : Scene (Listener μ ν)}
    (h : Scene.Runs {} cs c) (ha : Change.MadeFirst cs) :
    c.notifier.current = (Change.made cs).filter (fun s => s.serial ∉ Change.left cs) ∧
    (Change.made cs).Pairwise (·.serial < ·.serial) ∧
    (∀ s ∈ Change.made cs, c.notifier.isActive s.serial = true ↔ s ∈ c.notifier.current) ∧
    (∀ s ∈ Change.made cs,
      c.notifier.unsubscribe? s.serial = some (c.notifier.unsubscribe s.serial)) ∧
    (∀ s ∈ c.notifier.current, ∃ before after, c.notifier.current = before ++ s :: after ∧
      (c.notifier.unsubscribe s.serial).current = before ++ after ∧
      ∀ k ≠ s.serial, (c.notifier.unsubscribe s.serial).isActive k = c.notifier.isActive k) ∧
    (∀ serial ∈ Change.left cs, c.notifier.unsubscribe serial = c.notifier) ∧
    ∀ (greet : Nat → Option ν) (b : Board μ ν) (j : Nat) (op : BoardOp μ ν),
      b.channel j = c.notifier → j < b.channels.length →
      Scene.Runs c (Change.on j (b.performChanges greet op))
        { c with notifier := (b.perform greet op).channel j } := by
  have ht := h.tallies ha
  refine ⟨ht.current, ht.made_sorted, fun s hs => ?_, fun s hs => ht.unsubscribe?_eq hs,
    fun s hs => ?_, fun serial hs => ?_, fun greet b j op hb hj => ?_⟩
  · exact ⟨fun hact => ht.mem_current.mpr ⟨hs, hact⟩, fun hm => (ht.mem_current.mp hm).2⟩
  · obtain ⟨before, after, hc, hu, -⟩ := ht.split hs
    refine ⟨before, after, hc, hu, fun k hk => Bool.eq_iff_iff.mpr ?_⟩
    rw [Notifier.isActive_unsubscribe]
    exact and_iff_right hk
  · refine Notifier.unsubscribe_of_not_isActive (Bool.eq_false_iff.mpr fun hact => ?_)
    exact (ht.active serial).mp hact hs
  · have hr := runs_perform greet b op hj c.due
    rwa [hb] at hr

/-! ## A listener that subscribes twice -/

/-- A log is a memory. -/
instance : Recorder (List Log.Entry) := ⟨fun entry log => log ++ [entry]⟩

/-- A listener subscribes twice, and the second of its subscriptions is ended twice. -/
def twice {l : Type} (listener : l) : List (Change l) :=
  [.join ⟨0, listener⟩, .join ⟨1, listener⟩, .leave 1, .leave 1]

/-- A listener that does nothing. -/
def idle : Listener (List Log.Entry) Unit := ⟨"idle", fun _ => .finish ()⟩

/-- The second subscription is ended while a notice is posted, within the call of the first one, and
so it is passed. It is ended again when the post is over. -/
theorem subscriptions_exact_twice : ∃ c : Scene (Listener (List Log.Entry) Unit),
    Scene.Runs {} (twice idle) c ∧ Change.MadeFirst (twice idle) ∧ c.due = [] ∧
      c.notifier.current = [⟨0, idle⟩] ∧ c.notifier.unsubscribe 1 = c.notifier := by
  have hr := (((((((Scene.Runs.rest {}).step (.subscribe idle)).step
    (.subscribe idle)).step .post).step (.call rfl)).step (.unsubscribe 1)).step
    (.pass rfl)).step .close |>.step (.unsubscribe 1)
  have ha : Change.MadeFirst (twice idle) :=
    (((Change.MadeFirst.nil.join ⟨0, idle⟩).join ⟨1, idle⟩).leave
      (s := ⟨1, idle⟩) (by simp)).leave (s := ⟨1, idle⟩) (by simp)
  obtain ⟨hc, -, -, -, -, hl, -⟩ := subscriptions_exact hr ha
  exact ⟨_, hr, ha, rfl, hc, hl 1 (by simp)⟩

end Workflow.Board
