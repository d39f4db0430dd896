import Workflow.Proofs.Board.Aside
import Workflow.Proofs.Engine.Script
import Workflow.Proofs.Engine.Steady
import Workflow.Proofs.Pool.Twin

/-!
# Engines with other listeners

Two engines are alike if they have the same machines and handlers, and the same is seen of their
memories, whoever listens. If the handlers look at nothing else, and all listeners stay aside, then
scripts that make the same calls keep the engines alike, even if they subscribe other listeners:
calls do the same deeds, and come to the same.

Results:
* `Engine.Alike.report`, `Engine.Alike.announce`: what is done with an engine.
* `Engine.twins_watchFlow`: what a call does.
* `Script.twins_watch`: what a script does.
-/
namespace Workflow

variable {μ τ α : Type} {see : μ → τ}

/-! ## Work and scripts that agree -/

/-- Work that goes alike beside memories of which the same is seen. -/
inductive Work.Agree (see : μ → τ) : Work μ α → Work μ α → Prop where
  | finish (a : α) : Agree see (.finish a) (.finish a)
  | log (entry : Log.Entry) {next next' : Work μ α} (h : Agree see next next') :
    Agree see (.log entry next) (.log entry next')
  | touch {change change' : μ → μ} {next next' : μ → Work μ α}
    (hc : ∀ m m', see m = see m' → see (change m) = see (change' m'))
    (hn : ∀ m m', see m = see m' → Agree see (next m) (next' m')) :
    Agree see (.touch change next) (.touch change' next')
  | pause {next next' : Work μ α} (h : Agree see next next') :
    Agree see (.pause next) (.pause next')
  | send (machine : Nat) (event : Event) {next next' : Except CallFault Bool → Work μ α}
    (hn : ∀ r, Agree see (next r) (next' r)) :
    Agree see (.send machine event next) (.send machine event next')

/-- A handler looks at nothing of the memory but what is seen. -/
def Handler.Blind (see : μ → τ) (h : Handler μ) : Prop :=
  ∀ params context, (h.run params context).Agree see (h.run params context)

/-- All handlers that can be found look at nothing but what is seen. -/
def Registry.Blind (see : μ → τ) (r : Registry (Handler μ)) : Prop :=
  ∀ category h, r.resolve category = some h → h.Blind see

/-- Scripts that make the same calls beside memories of which the same is seen. Each may subscribe
listeners that stay aside, unsubscribe any, and remember what is not seen, where the other does
not. -/
inductive Script.Agree (see : μ → τ) : Script μ → Script μ → Prop where
  | stop : Agree see .stop .stop
  | touch {change change' : μ → μ} {next next' : μ → Script μ}
    (hc : ∀ m m', see m = see m' → see (change m) = see (change' m'))
    (hn : ∀ m m', see m = see m' → Agree see (next m) (next' m')) :
    Agree see (.touch change next) (.touch change' next')
  | pause {next next' : Script μ} (h : Agree see next next') :
    Agree see (.pause next) (.pause next')
  | call (c : Call) {next next' : Except CallFault Bool → Script μ}
    (hn : ∀ r, Agree see (next r) (next' r)) : Agree see (.call c next) (.call c next')
  | firstNotes {change : μ → μ} {next : μ → Script μ} {y : Script μ}
    (hc : ∀ m, see (change m) = see m) (hn : ∀ m, Agree see (next m) y) :
    Agree see (.touch change next) y
  | firstSubscribes {caller channel : Nat} {listener : Listener μ Notice}
    {next : Except Raised Nat → Script μ} {y : Script μ} (hl : listener.Aside see)
    (hn : ∀ r, Agree see (next r) y) : Agree see (.subscribe caller channel listener next) y
  | firstUnsubscribes {channel serial : Nat} {next y : Script μ} (h : Agree see next y) :
    Agree see (.unsubscribe channel serial next) y
  | secondNotes {change : μ → μ} {next : μ → Script μ} {x : Script μ}
    (hc : ∀ m, see (change m) = see m) (hn : ∀ m, Agree see x (next m)) :
    Agree see x (.touch change next)
  | secondSubscribes {caller channel : Nat} {listener : Listener μ Notice}
    {next : Except Raised Nat → Script μ} {x : Script μ} (hl : listener.Aside see)
    (hn : ∀ r, Agree see x (next r)) : Agree see x (.subscribe caller channel listener next)
  | secondUnsubscribes {channel serial : Nat} {next x : Script μ} (h : Agree see x next) :
    Agree see x (.unsubscribe channel serial next)

/-! ## Engines -/

/-- Two engines with the same machines and handlers, of whose memories the same is seen. All that
listen stay aside. -/
structure Engine.Alike (see : μ → τ) (reg : Registry (Handler μ)) (e e' : Engine μ) : Prop where
  machines : e'.machines = e.machines
  first : e.registry = reg
  second : e'.registry = reg
  boards : ∃ t, e.board.Shows see t ∧ e'.board.Shows see t

namespace Engine.Alike

variable {reg : Registry (Handler μ)} {e e' : Engine μ}

theorem symm (h : e.Alike see reg e') : e'.Alike see reg e :=
  ⟨h.machines.symm, h.second, h.first, h.boards.imp fun _ ht => ht.symm⟩

theorem seen (h : e.Alike see reg e') : see e.memory = see e'.memory := by
  obtain ⟨t, ht, ht'⟩ := h.boards
  exact ht.seen.trans ht'.seen.symm

theorem touch (h : e.Alike see reg e') {change change' : μ → μ}
    (hc : ∀ m m', see m = see m' → see (change m) = see (change' m')) :
    (e.touch change).Alike see reg (e'.touch change') := by
  obtain ⟨t, ht, ht'⟩ := h.boards
  exact ⟨h.machines, h.first, h.second, _, ⟨hc _ _ h.seen, ht.aside⟩, ⟨rfl, ht'.aside⟩⟩

theorem publish (h : e.Alike see reg e') (i : Nat) (live : Live) :
    (e.publish i live).Alike see reg (e'.publish i live) :=
  ⟨congrArg (List.modify · i _) h.machines, h.first, h.second, h.boards⟩

/-- What one engine remembers that is not seen. -/
theorem notes (h : e.Alike see reg e') {change : μ → μ} (hc : ∀ m, see (change m) = see m) :
    (e.touch change).Alike see reg e' := by
  obtain ⟨t, ht, ht'⟩ := h.boards
  exact ⟨h.machines, h.first, h.second, t, ht.touch hc, ht'⟩

theorem subscribe (h : e.Alike see reg e') (channel : Nat) {listener : Listener μ Notice}
    (hl : listener.Aside see) : (e.subscribe channel listener).1.Alike see reg e' := by
  obtain ⟨t, ht, ht'⟩ := h.boards
  exact ⟨h.machines, h.first, h.second, t, ht.subscribe channel hl, ht'⟩

theorem unsubscribe (h : e.Alike see reg e') (channel serial : Nat) :
    (e.unsubscribe channel serial).Alike see reg e' := by
  obtain ⟨t, ht, ht'⟩ := h.boards
  exact ⟨h.machines, h.first, h.second, t, ht.unsubscribe channel serial, ht'⟩

variable [Recorder μ]

theorem log (h : e.Alike see reg e') (hs : Board.Sees see) (entry : Log.Entry) :
    (e.log entry).Alike see reg (e'.log entry) := h.touch fun _ _ => hs.record entry

theorem report (h : e.Alike see reg e') (hs : Board.Sees see) (i : Nat) (r : Report) :
    (e.report i r).Alike see reg (e'.report i r) := by
  unfold Engine.report
  rw [h.machines]
  cases e.machines[i]? with
  | none => exact h
  | some m =>
    have h := h.log hs (r.entry m.name m.live.state)
    obtain ⟨t, ht, ht'⟩ := h.boards
    exact ⟨h.machines, h.first, h.second, t, ht.post hs _ trivial, ht'.post hs _ trivial⟩

theorem announce (h : e.Alike see reg e') (hs : Board.Sees see) (i : Nat) :
    (e.announce i).Alike see reg (e'.announce i) := by
  unfold Engine.announce
  rw [h.machines]
  cases e.machines[i]? with
  | none => exact h
  | some m =>
    obtain ⟨t, ht, ht'⟩ := h.boards
    exact ⟨rfl, h.first, h.second, t, ht.post hs _ fun _ => rfl, ht'.post hs _ fun _ => rfl⟩

end Engine.Alike

/-! ## Journals -/

/-- What a line tells of calls: what is noted of which call, and the machines and what is seen of
the memory just before. -/
def Line.gist? (see : μ → τ) (l : Line μ) : Option (Call × Mark μ × List Machine × τ) :=
  match l.mark with
  | .subscribed .. => none
  | mark => some (l.call, mark, l.engine.machines, see l.engine.memory)

/-- What a journal tells of calls. -/
def gist (see : μ → τ) (ls : List (Line μ)) : List (Call × Mark μ × List Machine × τ) :=
  ls.filterMap (Line.gist? see)

theorem gist_append (see : μ → τ) (ls ls' : List (Line μ)) :
    gist see (ls ++ ls') = gist see ls ++ gist see ls' := List.filterMap_append

/-- Engines that are alike, with journals that tell the same of calls. -/
structure Book.Alike (see : μ → τ) (reg : Registry (Handler μ)) (b b' : Book μ) : Prop where
  engine : b.1.Alike see reg b'.1
  journal : gist see b'.2 = gist see b.2

namespace Book.Alike

variable {reg : Registry (Handler μ)} {b b' : Book μ} {e e' : Engine μ}

theorem symm (h : Book.Alike see reg b b') : Book.Alike see reg b' b :=
  ⟨h.engine.symm, h.journal.symm⟩

theorem onEngine (h : Book.Alike see reg b b') (he : e.Alike see reg e') :
    Book.Alike see reg (e, b.2) (e', b'.2) := ⟨he, h.journal⟩

/-- A line about a call is written in both journals. -/
theorem line (h : Book.Alike see reg b b') (he : e.Alike see reg e') (c : Call) (mark : Mark μ) :
    Book.Alike see reg (e, b.2 ++ [⟨c, mark, b.1⟩]) (e', b'.2 ++ [⟨c, mark, b'.1⟩]) := by
  have hl : Line.gist? see ⟨c, mark, b'.1⟩ = Line.gist? see ⟨c, mark, b.1⟩ := by
    simp only [Line.gist?, h.engine.machines, h.engine.seen]
  have hl : gist see [⟨c, mark, b'.1⟩] = gist see [⟨c, mark, b.1⟩] := by
    simp only [gist, List.filterMap_cons, hl]
  refine ⟨he, ?_⟩
  rw [gist_append, gist_append, h.journal, hl]

/-- A line about a subscription is written in one of them. -/
theorem subscribed (h : Book.Alike see reg b b') (he : e.Alike see reg b'.1) (c : Call)
    (channel : Nat) (listener : Listener μ Notice) :
    Book.Alike see reg (e, b.2 ++ [⟨c, .subscribed channel listener, b.1⟩]) b' := by
  refine ⟨he, ?_⟩
  rw [gist_append, h.journal]
  exact (List.append_nil _).symm

end Book.Alike

/-! ## Calls -/

namespace Engine

open Process

variable [Recorder μ] {reg : Registry (Handler μ)} {send : Watcher μ}

omit [Recorder μ] in
theorem twins_note {p q : Process (Book μ) α} (c : Call) (mark : Mark μ)
    (h : p.Twins (Book.Alike see reg) q) :
    (c.note mark p).Twins (Book.Alike see reg) (c.note mark q) :=
  .act (fun _ _ hb => hb.line hb.engine c mark) fun _ _ _ => h

omit [Recorder μ] in
/-- A deed is done and noted on both engines. -/
theorem twins_doing {c : Call} {change : Engine μ → Engine μ}
    {deed : Engine μ → Deed (Handler μ)} {next : Engine μ → Process (Book μ) α}
    (hc : ∀ e e', e.Alike see reg e' → (change e).Alike see reg (change e'))
    (hd : ∀ e e', e.Alike see reg e' → deed e' = deed e)
    (hn : ∀ e e', e.Alike see reg e' → (next e).Twins (Book.Alike see reg) (next e')) :
    (c.doing change deed next).Twins (Book.Alike see reg) (c.doing change deed next) := by
  refine .act (fun b b' hb => ?_) fun b b' hb => hn _ _ hb.engine
  rw [hd _ _ hb.engine]
  exact hb.line (hc _ _ hb.engine) c _

theorem twins_watchWork (hs : Board.Sees see)
    (hsend : ∀ i e, (send i e).Twins (Book.Alike see reg) (send i e)) {w w' : Work μ α}
    (h : w.Agree see w') :
    (watchWork send w).Twins (Book.Alike see reg) (watchWork send w') := by
  induction h with
  | finish a => exact .done a
  | log entry _ ih =>
    exact .act (fun _ _ hb => hb.onEngine (hb.engine.log hs entry)) fun _ _ _ => ih
  | touch hc _ ih =>
    exact .act (fun _ _ hb => hb.onEngine (hb.engine.touch hc)) fun _ _ hb => ih _ _ hb.engine.seen
  | pause _ ih => exact .pause ih
  | send machine event _ ih => exact (hsend machine event).bind ih

/-- A call does the same deeds on both engines, if the handlers look at nothing but what is seen. -/
theorem twins_watchFlow (hs : Board.Sees see) (hreg : reg.Blind see)
    (hsend : ∀ i e, (send i e).Twins (Book.Alike see reg) (send i e)) (c : Call)
    {x : Flow (Handler μ) α} (hx : x.Invokes fun h => ∃ category, reg.resolve category = some h) :
    (watchFlow send c x).Twins (Book.Alike see reg) (watchFlow send c x) := by
  induction hx with
  | done a => exact .done a
  | log _ ih => exact twins_doing (fun _ _ h => h.log hs _) (fun _ _ _ => rfl) fun _ _ _ => ih
  | report _ ih =>
    exact twins_doing (fun _ _ h => h.report hs _ _) (fun _ _ _ => rfl) fun _ _ _ => ih
  | publish _ ih =>
    exact twins_doing (fun _ _ h => h.publish _ _) (fun _ _ _ => rfl) fun _ _ _ => ih
  | announce _ ih =>
    exact twins_doing (fun _ _ h => h.announce hs _) (fun _ _ _ => rfl) fun _ _ _ => ih
  | @resolve category next _ ih =>
    refine twins_doing (fun _ _ h => h) (fun e e' h => by rw [h.first, h.second]) fun e e' h => ?_
    rw [h.first, h.second]
    exact ih _ fun g hg => ⟨category, hg⟩
  | @invoke handler params context next hh _ ih =>
    obtain ⟨category, hh⟩ := hh
    exact twins_note c _ ((twins_watchWork hs hsend (hreg category handler hh params context)).bind
      fun o => twins_note c _ (ih o))

omit [Recorder μ] in
/-- A call that comes to a machine goes on alike on both engines. -/
theorem twins_lock {c : Call} {body : Machine → Process (Book μ) (Except CallFault Bool)}
    (h : ∀ m, (body m).Twins (Book.Alike see reg) (body m)) :
    (watchLock c body).Twins (Book.Alike see reg) (watchLock c body) := by
  refine .act (fun _ _ hb => hb.line hb.engine c .arrived) fun b b' hb => ?_
  rw [hb.engine.machines]
  cases b.1.machines[c.machine]? with
  | none => exact .done _
  | some m =>
    refine .take fun taken => ?_
    cases taken with
    | false => exact twins_note c _ (.done _)
    | true =>
      refine .act (fun _ _ hb => hb.line hb.engine c .admitted) fun b b' hb => ?_
      rw [hb.engine.machines]
      exact (h _).bind fun r => twins_note c _ (.give (.done r))

theorem twins_watchWithin (hs : Board.Sees see) (hreg : reg.Blind see) (caller depth i : Nat)
    (event : Event) : (watchWithin caller depth i event : Process (Book μ) _).Twins
      (Book.Alike see reg) (watchWithin caller depth i event) := by
  induction depth generalizing i event with
  | zero => exact twins_lock fun m => .done _
  | succ depth ih =>
    exact twins_lock fun m => twins_watchFlow hs hreg ih _ (Call.invokes_flow _ m)

end Engine

/-! ## Scripts -/

/-- Scripts that agree go side by side and keep the engines alike. -/
theorem Script.twins_watch [Recorder μ] {reg : Registry (Handler μ)} (hs : Board.Sees see)
    (hreg : reg.Blind see) (most : Nat) {x y : Script μ} (h : x.Agree see y) :
    (x.watch most).Twins (Book.Alike see reg) (y.watch most) := by
  induction h with
  | stop => exact .done ()
  | touch hc _ ih =>
    exact .act (fun _ _ hb => hb.onEngine (hb.engine.touch hc)) fun _ _ hb => ih _ _ hb.engine.seen
  | pause _ ih => exact .pause ih
  | call c _ ih =>
    refine .bind (.pauses (Engine.twins_lock fun m => ?_) c.delay) ih
    exact Engine.twins_watchFlow hs hreg (Engine.twins_watchWithin hs hreg c.caller most) c
      (c.invokes_flow m)
  | firstNotes hc _ ih =>
    exact .first (fun _ _ hb => ⟨hb.engine.notes hc, hb.journal⟩) fun _ => ih _
  | firstSubscribes hl _ ih =>
    exact .first (fun _ _ hb => hb.subscribed (hb.engine.subscribe _ hl) _ _ _) fun _ => ih _
  | firstUnsubscribes _ ih =>
    exact .first (fun _ _ hb => ⟨hb.engine.unsubscribe _ _, hb.journal⟩) fun _ => ih
  | secondNotes hc _ ih =>
    exact .second (fun _ _ hb => ⟨(hb.engine.symm.notes hc).symm, hb.journal⟩) fun _ => ih _
  | secondSubscribes hl _ ih =>
    exact .second (fun _ _ hb =>
      (hb.symm.subscribed (hb.engine.symm.subscribe _ hl) _ _ _).symm) fun _ => ih _
  | secondUnsubscribes _ ih =>
    exact .second (fun _ _ hb => ⟨(hb.engine.symm.unsubscribe _ _).symm, hb.journal⟩) fun _ => ih

end Workflow
