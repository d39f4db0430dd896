import Workflow.Proofs.Engine.Twin

/-!
# Listeners have no influence

A memory is split in three: the host's part, on which handlers and callers act, the listeners' part,
where listeners keep what they remember, and the log. Listeners that touch no other part may write
into what they are told, raise errors, subscribe further listeners and end any subscription. Whoever
listens, the same calls do the same deeds and come to the same, and leave the machines, the host's
part and the log the same, but for entries about listeners that raised an error.

Results:
* `SplitMemory.sees`, `Registry.blind_onHost`: what is seen of a split memory, and that
  handlers see no more.
* `observers_powerless`: scripts that make the same calls before other listeners.
-/
namespace Workflow

variable {α β γ : Type}

/-! ## Split memories -/

/-- A memory with a part for handlers and callers, a part for listeners, and a log. -/
structure SplitMemory (α β : Type) where
  host : α
  listeners : β
  log : List Log.Entry := []

instance : Recorder (SplitMemory α β) where
  record entry h := { h with log := h.log ++ [entry] }

/-- Is the entry about a listener that raised an error? -/
def Log.Entry.aboutListener (e : Log.Entry) : Bool :=
  e.source == .notifier && e.message == "Listener raised during notification"

/-- What is seen of a memory: the host's part, and the log without the entries about listeners. -/
def SplitMemory.seen (h : SplitMemory α β) : α × List Log.Entry :=
  (h.host, h.log.filter (!·.aboutListener))

theorem SplitMemory.sees :
    Board.Sees (SplitMemory.seen : SplitMemory α β → α × List Log.Entry) where
  record entry {h h'} he := by
    obtain ⟨hs, hl⟩ := Prod.mk.inj he
    simp only [SplitMemory.seen, Recorder.record, hs, List.filter_append, hl]
  raised label e h := by
    have hr : (Board.raisedEntry label e).aboutListener = true := rfl
    simp [SplitMemory.seen, Recorder.record, hr]

/-- Work on the host's part, as work on the whole memory. -/
def Work.onHost : Work α γ → Work (SplitMemory α β) γ
  | .finish a => .finish a
  | .log entry next => .log entry next.onHost
  | .touch change next =>
    .touch (fun h => { h with host := change h.host }) fun h => (next h.host).onHost
  | .pause next => .pause next.onHost
  | .send machine event next => .send machine event fun r => (next r).onHost

/-- A handler that works on the host's part. -/
def Handler.onHost (h : Handler α) : Handler (SplitMemory α β) where
  run params context := (h.run params context).onHost

/-- Handlers that work on the host's part. -/
def Registry.onHost (r : Registry (Handler α)) : Registry (Handler (SplitMemory α β)) where
  entries := r.entries.map fun e => (e.1, e.2.1, e.2.2.onHost)

theorem Work.agree_onHost (w : Work α γ) :
    (w.onHost : Work (SplitMemory α β) γ).Agree SplitMemory.seen w.onHost := by
  induction w with
  | finish a => exact .finish a
  | log entry next ih => exact .log entry ih
  | touch change next ih =>
    refine .touch (fun h h' he => ?_) fun h h' he => ?_
    · obtain ⟨hs, hl⟩ := Prod.mk.inj he
      simp only [SplitMemory.seen, hs, hl]
    · rw [(Prod.mk.inj he).1]
      exact ih _
  | pause next ih => exact .pause ih
  | send machine event next ih => exact .send machine event ih

theorem Registry.resolve_onHost (r : Registry (Handler α)) (category : String) :
    (r.onHost : Registry (Handler (SplitMemory α β))).resolve category =
      (r.resolve category).map Handler.onHost := by
  obtain ⟨entries⟩ := r
  simp only [resolve, onHost, Fields.get?]
  induction entries with
  | nil => rfl
  | cons e entries ih =>
    obtain ⟨name, identity, h⟩ := e
    simp only [List.map_cons, List.lookup_cons]
    cases category == name with
    | true => rfl
    | false => exact ih

/-- Handlers that work on the host's part look at nothing but what is seen. -/
theorem Registry.blind_onHost (r : Registry (Handler α)) :
    (r.onHost : Registry (Handler (SplitMemory α β))).Blind SplitMemory.seen := by
  intro category h hh params context
  rw [resolve_onHost] at hh
  obtain ⟨h, -, rfl⟩ := Option.map_eq_some_iff.mp hh
  exact (h.run params context).agree_onHost

/-! ## Runs -/

/-- Two runs differ in what listeners do, and in nothing else: they have the same machines, host's
part and log, the same queue and locks, and the same tasks have ended; and on the way, the same was
noted of the same calls, beside the same machines, host's part and log. -/
structure Unmoved (p p' : Pool (Book (SplitMemory α β)) Unit) : Prop where
  machines : p'.state.1.machines = p.state.1.machines
  seen : p'.state.1.memory.seen = p.state.1.memory.seen
  journal : gist SplitMemory.seen p'.state.2 = gist SplitMemory.seen p.state.2
  locks : p'.locks = p.locks
  ready : p'.ready = p.ready
  result : ∀ task, p'.result? task = p.result? task

theorem Pool.Twins.unmoved {reg : Registry (Handler (SplitMemory α β))}
    {p p' : Pool (Book (SplitMemory α β)) Unit} (h : p.Twins (Book.Alike SplitMemory.seen reg) p') :
    Unmoved p p' where
  machines := h.shared.state.engine.machines
  seen := h.shared.state.engine.seen.symm
  journal := h.shared.state.journal
  locks := h.shared.locks
  ready := h.shared.ready
  result := h.result?

/-- **Listeners have no influence.** Let two engines have the same machines, the same handlers on
the same host's part of memory, and any listeners that keep to their own part: they write into what
they are told, raise errors, subscribe listeners of their kind, end any subscriptions, and remember
things. Let scripts make the same calls on both, be they starts or events, with any pauses, and
subscribe or unsubscribe as they like. Then at every step of the two runs, and at their ends, the
machines are the same, with their states and contexts, and so are the host's part and the log, but
for entries about listeners that raised; and the journals tell the same of the calls: who came, was
let in or refused and left, with what result or error, which handlers were called with which
parameters and contexts and what they came to, what was reported and announced, and beside which
machines. -/
theorem observers_powerless (most : Nat) (reg : Registry (Handler α))
    (e e' : Engine (SplitMemory α β)) {xs xs' : List (Script (SplitMemory α β))}
    (hm : e'.machines = e.machines)
    (hr : e.registry = reg.onHost) (hr' : e'.registry = reg.onHost)
    (hv : e'.memory.seen = e.memory.seen) (hl : e.board.Aside SplitMemory.seen)
    (hl' : e'.board.Aside SplitMemory.seen)
    (hx : List.Forall₂ (Script.Agree SplitMemory.seen) xs xs') :
    (∀ n, Unmoved ((Pool.ofTasks (e, []) (xs.map (Script.watch most))).runFor n)
      ((Pool.ofTasks (e', []) (xs'.map (Script.watch most))).runFor n)) ∧
    Unmoved (Script.watched most e xs) (Script.watched most e' xs') := by
  have he : e.Alike SplitMemory.seen reg.onHost e' := ⟨hm, hr, hr', _, ⟨rfl, hl⟩, hv, hl'⟩
  have hb : Book.Alike SplitMemory.seen reg.onHost (e, []) (e', []) := ⟨he, rfl⟩
  have hp : List.Forall₂ (Process.Twins (Book.Alike SplitMemory.seen reg.onHost))
      (xs.map (Script.watch most)) (xs'.map (Script.watch most)) := by
    rw [List.forall₂_map_left_iff, List.forall₂_map_right_iff]
    exact hx.imp fun x y h => Script.twins_watch SplitMemory.sees reg.blind_onHost most h
  have ht := Pool.twins_ofTasks hb hp
  exact ⟨fun n => (ht.runFor n).unmoved, ht.run.unmoved⟩

/-- A handler that counts in the host's part how often it is called, and raises an error. -/
def counters : Registry (Handler Nat) where
  entries := [("count", (0, { run _ _ := .pause (.touch (· + 1) fun _ =>
    .finish (.error { kind := "ValueError", text := "uncountable" })) }))]

/-- A machine that has the handler called on the way into each of its states. -/
def counted : Machine where
  chart := { initial := "open", states := [
    ("open", { entry := [{ action := "count" }]
               transitions := [{ target := "closed", event := "CLOSE" }] }),
    ("closed", { entry := [{ action := "count" }] })] }
  actions := [("count", { category := "count" })]
  live := { state := "open", context := [] }

/-- The machine, with no listeners. -/
def unwatched : Engine (SplitMemory Nat Nat) where
  board := { memory := { host := 0, listeners := 0 }, channels := [{}, {}] }
  registry := counters.onHost
  machines := [counted]

/-- A listener that counts in its part of memory, ends the first subscription to the states,
subscribes another listener, writes into what it is told, and raises an error. -/
def interfering : Listener (SplitMemory Nat Nat) Notice where
  label := "<interfering>"
  call _ := .touch (fun h => { h with listeners := h.listeners + 1 }) fun _ =>
    .unsubscribe 0 0 <| .subscribe 1 "<friend>" (fun notice => .raise notice ⟨"Error", "hear"⟩)
      fun _ => .raise (.state "nowhere" []) ⟨"Error", "boo"⟩

/-- The machine, with such a listener of its states and of its errors. -/
def interfered : Engine (SplitMemory Nat Nat) :=
  { unwatched with board := { unwatched.board with channels := [
    { current := [⟨0, interfering⟩], next := 1 }, { current := [⟨0, interfering⟩], next := 1 }] } }

/-- The machine is started, and an event is sent to it. -/
def startAndSend : List (Script (SplitMemory Nat Nat)) :=
  [.call { caller := 0, machine := 0 } fun _ =>
    .call { caller := 0, machine := 0, event := some { type := "CLOSE" } } fun _ => .stop]

theorem interfering_aside : interfering.Aside SplitMemory.seen := fun _ =>
  .touch (fun _ => rfl) fun _ => .unsubscribe <| .subscribe (fun _ => .raise ..) fun _ => .raise ..

theorem interfered_aside : interfered.board.Aside SplitMemory.seen := by
  intro i s hs
  have h : s.listener = interfering := by
    match i with
    | 0 => rw [List.mem_singleton.mp hs]
    | 1 => rw [List.mem_singleton.mp hs]
    | _ + 2 => cases hs
  rw [h]
  exact interfering_aside

/-- The listeners are told of both failures, and three errors are logged. -/
theorem startAndSend_memory :
    (Script.watched 0 unwatched startAndSend).state.1.memory.listeners = 0 ∧
    (Script.watched 0 interfered startAndSend).state.1.memory.listeners = 2 ∧
    (Script.watched 0 unwatched startAndSend).state.1.memory.log.length = 5 ∧
    (Script.watched 0 interfered startAndSend).state.1.memory.log.length = 8 := by
  rw [Script.watched, Script.watched, Pool.run_eq_runFor 8 (by decide +kernel),
    Pool.run_eq_runFor 8 (by decide +kernel)]
  decide +kernel

theorem observers_powerless_interfering : interfered.machines = unwatched.machines ∧
    unwatched.registry = counters.onHost ∧ interfered.registry = counters.onHost ∧
    interfered.memory.seen = unwatched.memory.seen ∧ unwatched.board.Aside SplitMemory.seen ∧
    interfered.board.Aside SplitMemory.seen ∧
    List.Forall₂ (Script.Agree SplitMemory.seen) startAndSend startAndSend ∧
    (Script.watched 0 unwatched startAndSend).state.1.memory.log.length = 5 ∧
    (Script.watched 0 interfered startAndSend).state.1.memory.log.length = 8 ∧
    Unmoved (Script.watched 0 unwatched startAndSend)
      (Script.watched 0 interfered startAndSend) := by
  have ha : unwatched.board.Aside SplitMemory.seen := by
    intro i s hs
    match i with
    | 0 => cases hs
    | 1 => cases hs
    | _ + 2 => cases hs
  have hx : List.Forall₂ (Script.Agree SplitMemory.seen) startAndSend startAndSend :=
    .cons (.call _ fun _ => .call _ fun _ => .stop) .nil
  obtain ⟨-, -, hl, hl'⟩ := startAndSend_memory
  exact ⟨rfl, rfl, rfl, rfl, ha, interfered_aside, hx, hl, hl',
    (observers_powerless 0 counters unwatched interfered rfl rfl rfl rfl ha interfered_aside hx).2⟩

end Workflow
