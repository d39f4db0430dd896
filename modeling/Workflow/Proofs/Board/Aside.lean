import Workflow.Proofs.Board.Receipt

/-!
# Listeners that stay aside

A listener stays aside of a part of the host's memory if it leaves that part as it is, and so do all
listeners that it subscribes. It may write into what it is told, raise errors, subscribe and
unsubscribe, and remember things elsewhere. Whatever is posted on a board whose listeners stay
aside, and whoever subscribes to it, that part of the memory stays what it is, and the listeners
stay aside.

Results:
* `Shows.react`: what a listener does.
* `Shows.post`, `Shows.subscribe`: what is done with a board.
-/
namespace Workflow

variable {μ ν τ : Type} {see : μ → τ}

/-- What a listener does leaves alone what is seen of the memory. -/
inductive Reaction.Aside (see : μ → τ) : Reaction μ ν → Prop where
  | finish (left : ν) : Aside see (.finish left)
  | raise (left : ν) (e : Raised) : Aside see (.raise left e)
  | touch {change : μ → μ} {next : μ → Reaction μ ν} (hc : ∀ m, see (change m) = see m)
    (hn : ∀ m, Aside see (next m)) : Aside see (.touch change next)
  | unsubscribe {channel serial : Nat} {next : Reaction μ ν} (hn : Aside see next) :
    Aside see (.unsubscribe channel serial next)
  | subscribe {channel : Nat} {label : String} {call : ν → Reaction μ ν}
    {next : Except Raised Nat → Reaction μ ν} (hc : ∀ notice, Aside see (call notice))
    (hn : ∀ r, Aside see (next r)) : Aside see (.subscribe channel label call next)

/-- Whatever a listener is told, it leaves alone what is seen of the memory. -/
def Listener.Aside (see : μ → τ) (l : Listener μ ν) : Prop := ∀ notice, (l.call notice).Aside see

/-- To make a notice leaves alone what is seen of the memory. -/
def Delivery.Aside (see : μ → τ) : Delivery μ ν → Prop
  | .shared _ => True
  | .copies make => ∀ m, see (make m).2 = see m

namespace Board

/-- What is seen of a memory in which a log entry is taken depends on what was seen of it before;
and nothing is seen of an entry about a listener that raised an error. -/
structure Sees [Recorder μ] (see : μ → τ) : Prop where
  record : ∀ (entry : Log.Entry) {m m' : μ}, see m = see m' →
    see (Recorder.record entry m) = see (Recorder.record entry m')
  raised : ∀ (label : String) (e : Raised) (m : μ),
    see (Recorder.record (raisedEntry label e) m) = see m

/-- All listeners leave alone what is seen of the memory. -/
def Aside (see : μ → τ) (b : Board μ ν) : Prop :=
  ∀ i, ∀ s ∈ (b.channel i).current, s.listener.Aside see

/-- Of a board's memory a certain thing is seen, and all listeners leave it alone. -/
structure Shows (see : μ → τ) (t : τ) (b : Board μ ν) : Prop where
  seen : see b.memory = t
  aside : b.Aside see

theorem aside_after {d : Delivery μ ν} (h : d.Aside see) (left : ν) :
    (Delivery.after d left).Aside see := by
  cases d with
  | shared notice => trivial
  | copies make => exact h

namespace Shows

variable {t : τ} {greet : Nat → Option ν} {b : Board μ ν}

/-- Nothing is seen of a change of the memory. -/
theorem touch (h : b.Shows see t) {change : μ → μ} (hc : ∀ m, see (change m) = see m) :
    (b.touch change).Shows see t := ⟨(hc _).trans h.seen, h.aside⟩

theorem onChannel (h : b.Shows see t) (i : Nat)
    {change : Notifier (Listener μ ν) → Notifier (Listener μ ν)}
    (hc : ∀ s ∈ (change (b.channel i)).current, s.listener.Aside see) :
    (b.onChannel i change).Shows see t := by
  refine ⟨h.seen, fun j => ?_⟩
  rw [channel_onChannel]
  split
  · rename_i hj
    exact hj.1 ▸ hc
  · exact h.aside j

theorem unsubscribe (h : b.Shows see t) (i serial : Nat) :
    (b.unsubscribe i serial).Shows see t := by
  refine h.onChannel i ?_
  unfold Notifier.unsubscribe
  split
  · exact fun s hs => h.aside i s (List.mem_filter.mp hs).1
  · exact h.aside i

theorem add (h : b.Shows see t) (i : Nat) {listener : Listener μ ν} (hl : listener.Aside see) :
    (b.add i listener).1.Shows see t := by
  refine h.onChannel i fun s hs => ?_
  rcases List.mem_append.mp hs with hs | hs
  · exact h.aside i s hs
  · rw [List.mem_singleton.mp hs]
    exact hl

/-- What a listener does that stays aside leaves alone what is seen. -/
theorem react (h : b.Shows see t) {r : Reaction μ ν} (hr : r.Aside see) :
    (Board.react greet r b).board.Shows see t := by
  induction hr generalizing b with
  | finish left => exact h
  | raise left e => exact h
  | touch hc _ ih => exact ih _ (h.touch hc)
  | unsubscribe _ ih => exact ih (h.unsubscribe _ _)
  | @subscribe i label call next hc _ ihc ihn =>
    unfold Board.react
    cases greet i with
    | none => exact ihn _ (@add _ _ _ _ _ _ h i ⟨label, call⟩ hc)
    | some notice =>
      have hb := ihc notice h
      dsimp only
      generalize Board.react greet (call notice) b = w at hb ⊢
      obtain ⟨b', left, _ | e⟩ := w
      · exact ihn _ (@add _ _ _ _ _ _ hb i ⟨label, call⟩ hc)
      · exact ihn _ hb

theorem subscribe (h : b.Shows see t) (i : Nat) {listener : Listener μ ν}
    (hl : listener.Aside see) : (b.subscribe greet i listener).1.Shows see t := by
  unfold Board.subscribe
  cases greet i with
  | none => exact h.add i hl
  | some notice =>
    have hb : (Board.react greet (listener.call notice) b).board.Shows see t := h.react (hl notice)
    simp only [Option.map_some]
    generalize Board.react greet (listener.call notice) b = w at hb ⊢
    obtain ⟨b', left, _ | e⟩ := w
    · exact hb.add i hl
    · exact hb

variable [Recorder μ]

/-- A listener is told something. If it raises an error, that is logged, which is not seen. -/
theorem tell (h : b.Shows see t) (hs : Sees see) {listener : Listener μ ν}
    (hl : listener.Aside see) (notice : ν) : (tell greet listener notice b).1.Shows see t := by
  have hb : (Board.react greet (listener.call notice) b).board.Shows see t := h.react (hl notice)
  unfold Board.tell
  generalize Board.react greet (listener.call notice) b = w at hb ⊢
  obtain ⟨b', left, _ | e⟩ := w
  · exact hb
  · exact hb.touch (hs.raised _ e)

omit [Recorder μ] in
theorem notice (h : b.Shows see t) {d : Delivery μ ν} (hd : d.Aside see) :
    (Delivery.notice d b).2.Shows see t := by
  cases d with
  | shared notice => exact h
  | copies make => exact ⟨(hd _).trans h.seen, h.aside⟩

theorem tellAll (h : b.Shows see t) (hs : Sees see) (i : Nat)
    {ss : List (Subscription (Listener μ ν))} (hl : ∀ s ∈ ss, s.listener.Aside see)
    {d : Delivery μ ν} (hd : d.Aside see) : (tellAll greet i ss d b).Shows see t := by
  induction ss generalizing d b with
  | nil => exact h
  | cons s rest ih =>
    obtain ⟨hl, hrest⟩ := List.forall_mem_cons.mp hl
    unfold Board.tellAll
    split
    · exact ih ((h.notice hd).tell hs hl _) hrest (aside_after hd _)
    · exact ih h hrest hd

theorem post (h : b.Shows see t) (hs : Sees see) (i : Nat) {d : Delivery μ ν} (hd : d.Aside see) :
    (b.post greet i d).Shows see t := h.tellAll hs i (h.aside i) hd

end Shows
end Board
end Workflow
