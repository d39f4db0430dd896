import Workflow.Proofs.Call.Invoked
import Workflow.Proofs.Engine.Trail

/-!
# Steady handlers

A handler is steady if what it comes to depends on its parameters and its context alone, however
often it pauses and whatever it finds in the memory, and if it sends nothing. Where all handlers are
steady, what a call does once it has got through is settled: it is what a host plays that finds the
same handlers and gives the same answers. Only the pauses are left to the others.

Results:
* `Settled.turn`: how far a call comes in one turn.
* `settled_body`: a call that gets through does what the host plays.
-/
namespace Workflow

variable {μ α : Type}

/-- Work that comes to one result, whatever it finds in the memory, and sends nothing. -/
inductive Work.Yields : Work μ α → α → Prop where
  | finish (a : α) : Yields (.finish a) a
  | log {entry : Log.Entry} {next : Work μ α} {a : α} (h : Yields next a) :
    Yields (.log entry next) a
  | touch {change : μ → μ} {next : μ → Work μ α} {a : α} (h : ∀ m, Yields (next m) a) :
    Yields (.touch change next) a
  | pause {next : Work μ α} {a : α} (h : Yields next a) : Yields (.pause next) a

/-- A handler that answers by its parameters and its context alone. -/
def Handler.Steady (h : Handler μ) : Prop :=
  ∀ params context, ∃ o, (h.run params context).Yields o

/-- All handlers that can be found are steady. -/
def Registry.Steady (r : Registry (Handler μ)) : Prop :=
  ∀ category h, r.resolve category = some h → h.Steady

/-- A host that finds what a registry has and answers like its handlers. -/
structure Host.Plays (host : Host (Handler μ)) (r : Registry (Handler μ)) : Prop where
  find : ∀ past category, host.find past category = r.resolve category
  answer : ∀ past category h, r.resolve category = some h → ∀ params context,
    (h.run params context).Yields (host.answer past h params context)

open Classical in
theorem Registry.Steady.exists_host {r : Registry (Handler μ)} (h : r.Steady) :
    ∃ host : Host (Handler μ), host.Plays r := by
  let answer (g : Handler μ) (params : Fields Value) (context : Context) : Outcome :=
    if hg : ∃ o, (g.run params context).Yields o then hg.choose else .ok .null
  refine ⟨⟨fun _ => r.resolve, fun _ => answer⟩, fun _ _ => rfl, ?_⟩
  intro past category g hg params context
  have hy := h category g hg params context
  show (g.run params context).Yields (answer g params context)
  simp only [answer, hy, dif_pos]
  exact hy.choose_spec

/-! ## What a deed changes -/

/-- Between two books a call has done some deeds, and nothing else has happened but to the memory
and the listeners. -/
structure Notes (c : Call) (ds : List (Deed (Handler μ))) (s s' : Book μ) : Prop where
  registry : s'.1.registry = s.1.registry
  machines : s'.1.machines = s.1.machines.modify c.machine (ds.foldl Deed.affect)
  lines : trail s'.2 = trail s.2 ++ ds.map fun d => (c, .did d)

namespace Notes

variable {c : Call} {s s' s'' : Book μ} {ds ds' : List (Deed (Handler μ))}

theorem nil (c : Call) (s : Book μ) : Notes c [] s s :=
  ⟨rfl, (List.modify_id _ _).symm, (List.append_nil _).symm⟩

theorem append (h : Notes c ds s s') (h' : Notes c ds' s' s'') : Notes c (ds ++ ds') s s'' where
  registry := h'.registry.trans h.registry
  machines := by
    rw [h'.machines, h.machines, List.modify_modify_eq]
    congr 1
    funext m
    simp [List.foldl_append]
  lines := by rw [h'.lines, h.lines, List.map_append, List.append_assoc]

end Notes

/-- What happens to the memory and the listeners alone is no deed. -/
theorem notes_nil {c : Call} {s : Book μ} {e : Engine μ} (hr : e.registry = s.1.registry)
    (hm : e.machines = s.1.machines) : Notes c [] s (e, s.2) :=
  ⟨hr, by rw [hm]; exact (List.modify_id _ _).symm, (List.append_nil _).symm⟩

/-- A deed that leaves the machines alone. -/
theorem notes_quiet {c : Call} {s : Book μ} {e e' : Engine μ} {d : Deed (Handler μ)}
    (hd : (Deed.affect · d) = id) (hr : e.registry = s.1.registry)
    (hm : e.machines = s.1.machines) : Notes c [d] s (e, s.2 ++ [⟨c, .did d, e'⟩]) where
  registry := hr
  machines := by
    show e.machines = s.1.machines.modify c.machine (Deed.affect · d)
    rw [hd, hm]
    exact (List.modify_id _ _).symm
  lines := List.map_append

/-! ## What is left of a call -/

/-- What is left of a call is settled up to its pauses: it does certain deeds and comes to a certain
result, as long as the registry stays what it is. -/
inductive Settled (reg : Registry (Handler μ)) (c : Call) :
    Process (Book μ) (Except CallFault Bool) → List (Deed (Handler μ)) → Except CallFault Bool →
    Prop where
  | act {change : Book μ → Book μ} {next : Book μ → Process (Book μ) (Except CallFault Bool)}
    {ds ds' : List (Deed (Handler μ))} {r : Except CallFault Bool}
    (hc : ∀ s, s.1.registry = reg → Notes c ds s (change s))
    (hn : ∀ s, s.1.registry = reg → Settled reg c (next s) ds' r) :
    Settled reg c (.act change next) (ds ++ ds') r
  | pause {p : Process (Book μ) (Except CallFault Bool)} {ds : List (Deed (Handler μ))}
    {r : Except CallFault Bool} (h : Settled reg c p ds r) : Settled reg c (.pause p) ds r
  | leave (r : Except CallFault Bool) : Settled reg c (Engine.leave c r) [] r

/-- In one turn a call does some of its deeds and pauses, or it does all of them and gives the lock
back. -/
theorem Settled.turn {reg : Registry (Handler μ)} {c : Call}
    {p : Process (Book μ) (Except CallFault Bool)} {ds : List (Deed (Handler μ))}
    {r : Except CallFault Bool} (h : Settled reg c p ds r) (n : Nat) (s : Shared (Book μ))
    (hr : s.state.1.registry = reg) :
    (∃ ds₁ ds₂ q state, ds = ds₁ ++ ds₂ ∧ Settled reg c q ds₂ r ∧ Notes c ds₁ s.state state ∧
      p.turn n s = ({ s with state }.enqueue n, .running q)) ∨
    ∃ state, Notes c ds s.state state ∧
      p.turn n s =
        ({ s with state := Book.noted state c (.left r) }.release c.machine, .done r) := by
  induction h generalizing s with
  | @act change next ds ds' r hc _ ih =>
    have hn := hc s.state hr
    rcases ih s.state hr { s with state := change s.state } (hn.registry.trans hr) with
      ⟨ds₁, ds₂, q, state, rfl, hq, hs, ht⟩ | ⟨state, hs, ht⟩
    · exact .inl ⟨ds ++ ds₁, ds₂, q, state, (List.append_assoc ..).symm, hq, hn.append hs, ht⟩
    · exact .inr ⟨state, hn.append hs, ht⟩
  | @pause p ds r h => exact .inl ⟨[], ds, p, s.state, rfl, h, .nil c s.state, rfl⟩
  | leave r => exact .inr ⟨s.state, .nil c s.state, rfl⟩

section

variable {reg : Registry (Handler μ)} {c : Call}
  {k : α → Process (Book μ) (Except CallFault Bool)} {ds : List (Deed (Handler μ))}
  {r : Except CallFault Bool}

/-- What happens to the memory and the listeners goes without a deed. -/
theorem Settled.quiet (change : Engine μ → Engine μ)
    {next : Book μ → Process (Book μ) (Except CallFault Bool)}
    (hr : ∀ e, (change e).registry = e.registry) (hm : ∀ e, (change e).machines = e.machines)
    (hn : ∀ s, Settled reg c (next s) ds r) :
    Settled reg c (.act (fun s => (change s.1, s.2)) next) ds r :=
  Settled.act (fun s _ => notes_nil (hr s.1) (hm s.1)) fun s _ => hn s

theorem settled_watchWork [Recorder μ] (send : Engine.Watcher μ) {w : Work μ α} {a : α}
    (h : w.Yields a) (hk : Settled reg c (k a) ds r) :
    Settled reg c ((Engine.watchWork send w).bind k) ds r := by
  induction h with
  | finish a => exact hk
  | @log entry next a _ ih =>
    exact .quiet (·.log entry) (fun _ => rfl) (fun _ => rfl) fun _ => ih hk
  | @touch change next a _ ih =>
    exact .quiet (·.touch change) (fun _ => rfl) (fun _ => rfl) fun s => ih s.1.memory hk
  | pause _ ih => exact .pause (ih hk)

/-- A deed in front of what is settled. -/
theorem Settled.doing {change : Engine μ → Engine μ} {deed : Engine μ → Deed (Handler μ)}
    {next : Engine μ → Process (Book μ) α} {d : Deed (Handler μ)}
    (hd : ∀ e, e.registry = reg → deed e = d) (hr : ∀ e, (change e).registry = e.registry)
    (hm : ∀ e, (change e).machines = e.machines.modify c.machine (Deed.affect · d))
    (hn : ∀ e, e.registry = reg → Settled reg c ((next e).bind k) ds r) :
    Settled reg c ((c.doing change deed next).bind k) (d :: ds) r := by
  show Settled reg c _ ([d] ++ ds) r
  refine .act (fun s hs => ⟨hr s.1, hm s.1, ?_⟩) fun s hs => hn s.1 hs
  rw [← hd s.1 hs]
  exact List.map_append

/-- A line about a deed, which happens elsewhere. -/
theorem Settled.note {next : Process (Book μ) α} {d : Deed (Handler μ)}
    (ha : (Deed.affect · d) = id) (hn : Settled reg c (next.bind k) ds r) :
    Settled reg c ((c.note (.did d) next).bind k) (d :: ds) r := by
  show Settled reg c _ ([d] ++ ds) r
  exact .act (fun _ _ => notes_quiet ha rfl rfl) fun _ _ => hn

theorem settled_watchFlow [Recorder μ] (send : Engine.Watcher μ) {host : Host (Handler μ)}
    (hp : host.Plays reg) {x : Flow (Handler μ) (Except CallFault Bool)}
    (hx : x.Invokes fun h => ∃ category, reg.resolve category = some h)
    (past : List (Deed (Handler μ))) :
    Settled reg c ((Engine.watchFlow send c x).bind (Engine.leave c)) (x.play host past).1
      (x.play host past).2 := by
  have same (e : Engine μ) : e.machines = e.machines.modify c.machine id :=
    (List.modify_id _ _).symm
  induction hx generalizing past with
  | done a => exact .leave a
  | log _ ih => exact .doing (fun _ _ => rfl) (fun _ => rfl) same fun _ _ => ih _
  | report _ ih =>
    refine .doing (fun _ _ => rfl) (fun _ => Engine.report_registry ..) (fun e => ?_)
      fun _ _ => ih _
    rw [Engine.report_machines]
    exact same e
  | publish _ ih => exact .doing (fun _ _ => rfl) (fun _ => rfl) (fun _ => rfl) fun _ _ => ih _
  | announce _ ih =>
    refine .doing (fun _ _ => rfl) (fun _ => Engine.announce_registry ..) (fun e => ?_) fun _ _ =>
      ih _
    rw [Engine.announce_machines]
    exact same e
  | @resolve category next _ ih =>
    have hf := hp.find past category
    simp only [Flow.play, hf]
    refine .doing (fun e he => by rw [he]) (fun _ => rfl) same fun e he => ?_
    rw [he]
    exact ih _ (fun h hh => ⟨category, hh⟩) _
  | @invoke handler params context next hh _ ih =>
    obtain ⟨category, hh⟩ := hh
    refine .note rfl ?_
    rw [Process.bind_assoc]
    exact settled_watchWork send (hp.answer past category handler hh params context)
      (.note rfl (ih _ _))

end

theorem Call.invokes_flow {η : Type} {found : η → Prop} (c : Call) (m : Machine) :
    (c.flow m : Flow η _).Invokes found := by
  obtain ⟨caller, delay, machine, _ | e⟩ := c
  · exact m.invokes_start
  · exact m.invokes_send e

/-- What a call does once it has got through is what the host plays. -/
theorem settled_body [Recorder μ] {reg : Registry (Handler μ)} {host : Host (Handler μ)}
    (hp : host.Plays reg) (most : Nat) (c : Call) (m : Machine) :
    Settled reg c ((c.body most m).bind (Engine.leave c)) ((c.flow m).play host []).1
      ((c.flow m).play host []).2 :=
  settled_watchFlow _ hp (c.invokes_flow m) []

end Workflow
