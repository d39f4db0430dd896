import Workflow.Proofs.Engine.Steady

/-!
# Lanes

The calls on one machine stand in a lane: those that have left, the one that has got through, and
those that wait in the order in which they came. What the machine has done so far is what it does
when the calls that have left are served one after another, and then the first deeds of the one
that has got through.

Results:
* `serveAll_append`: calls are served one after another.
* `Queue.advance`: what a turn of the call that has got through does to its lane.
* `Beside.lane`: what concerns one machine leaves the lanes of the others.
-/
namespace Workflow

variable {μ : Type}

/-! ## One call after another -/

/-- What is noted of a call that gets through to a machine beside a host, and the machine behind
it. -/
def serve (host : Host (Handler μ)) (m : Machine) (c : Call) : List (Call × Mark μ) × Machine :=
  let s := (c.flow m).play host []
  ((c, .admitted) :: (s.1.map (fun d => (c, .did d)) ++ [(c, .left s.2)]), s.1.foldl Deed.affect m)

/-- What is noted of calls that get through one after another, and the machine behind them. -/
def serveAll (host : Host (Handler μ)) (m : Machine) :
    List Call → List (Call × Mark μ) × Machine
  | [] => ([], m)
  | c :: cs =>
    let s := serve host m c
    let t := serveAll host s.2 cs
    (s.1 ++ t.1, t.2)

theorem serveAll_append (host : Host (Handler μ)) (m : Machine) (cs cs' : List Call) :
    serveAll host m (cs ++ cs') =
      ((serveAll host m cs).1 ++ (serveAll host (serveAll host m cs).2 cs').1,
        (serveAll host (serveAll host m cs).2 cs').2) := by
  induction cs generalizing m with
  | nil => rfl
  | cons c cs ih => simp only [List.cons_append, serveAll, ih, List.append_assoc]

theorem affect_sends {η : Type} (m : Machine) (ds : List (Deed η)) :
    (ds.foldl Deed.affect m).sends = m.sends := by
  induction ds generalizing m with
  | nil => rfl
  | cons d ds ih =>
    rw [List.foldl_cons, ih]
    cases d <;> rfl

theorem serveAll_sends (host : Host (Handler μ)) (m : Machine) (cs : List Call) :
    (serveAll host m cs).2.sends = m.sends := by
  induction cs generalizing m with
  | nil => rfl
  | cons c cs ih =>
    show (serveAll host (serve host m c).2 cs).2.sends = m.sends
    rw [ih]
    exact affect_sends ..

/-! ## The lane of a machine -/

/-- The tasks of a pool of watched calls. -/
abbrev Tasks (μ : Type) := List (Task (Book μ) (Except CallFault Bool))

/-- The calls with certain numbers. -/
def named (calls : List Call) (ns : List Nat) : List Call := ns.filterMap (calls[·]?)

section

variable [Recorder μ] (most : Nat) (calls : List Call) (i : Nat)

/-- The calls on a machine, in the order in which they have come: some have left, one may have got
through, the others wait. Those that have not come yet are on their way. -/
structure Queue (s : Shared (Book μ)) (tasks : Tasks μ) (past : List Nat) (holder? : Option Nat) :
    Prop where
  arrived : arrivals i (trail s.state.2) =
    named calls (past ++ (holder?.toList ++ (s.locks i).waiting))
  mine : ∀ n ∈ past ++ (holder?.toList ++ (s.locks i).waiting),
    ∃ c, calls[n]? = some c ∧ c.machine = i
  nodup : (past ++ (holder?.toList ++ (s.locks i).waiting)).Nodup
  held : (s.locks i).held = holder?.isSome
  free : holder? = none → (s.locks i).waiting = []
  coming : ∀ n c, calls[n]? = some c → c.machine = i →
    n ∉ past ++ (holder?.toList ++ (s.locks i).waiting) → n ∈ s.ready ∧
      ∃ k, tasks[n]? = some (.running (.pauses k (Engine.watchLock c (c.body most))))
  waits : ∀ n ∈ (s.locks i).waiting, n ∉ s.ready ∧
    ∃ c m, calls[n]? = some c ∧ tasks[n]? = some (.running (Engine.enter c m (c.body most)))
  ended : ∀ n ∈ past, n ∉ s.ready
  results : past.map (fun n => (calls[n]?, tasks[n]?)) =
    (departures (work i (trail s.state.2))).map fun l => (some l.1, some (.done l.2))

variable (reg : Registry (Handler μ)) (host : Host (Handler μ)) (m : Machine)

/-- The machine has served the calls that have left, and then done some deeds more. -/
structure Worked (past : List Nat) (more : List (Call × Mark μ)) (ds : List (Deed (Handler μ)))
    (s : Book μ) : Prop where
  lines : work i (trail s.2) = (serveAll host m (named calls past)).1 ++ more
  machine : s.1.machines[i]? = some (ds.foldl Deed.affect (serveAll host m (named calls past)).2)

/-- How the machine stands: it is free, or the call that holds the lock is about to go on, or it is
inside and what is left of it is settled. -/
inductive Standing (s : Shared (Book μ)) (tasks : Tasks μ) (past : List Nat) :
    Option Nat → Prop where
  | idle (hw : Worked calls i host m past [] [] s.state) : Standing s tasks past none
  | entering {n : Nat} {c : Call} {m' : Machine} (hr : n ∈ s.ready) (hc : calls[n]? = some c)
    (ht : tasks[n]? = some (.running (Engine.enter c m' (c.body most))))
    (hw : Worked calls i host m past [] [] s.state) : Standing s tasks past (some n)
  | inside {n : Nat} {c : Call} {q : Process (Book μ) (Except CallFault Bool)}
    {ds ds' : List (Deed (Handler μ))} {r : Except CallFault Bool} (hr : n ∈ s.ready)
    (hc : calls[n]? = some c) (ht : tasks[n]? = some (.running q)) (hs : Settled reg c q ds' r)
    (hp : (c.flow (serveAll host m (named calls past)).2).play host [] = (ds ++ ds', r))
    (hw : Worked calls i host m past ((c, .admitted) :: ds.map fun d => (c, .did d)) ds s.state) :
    Standing s tasks past (some n)

/-- The lane of a machine that has served the calls that have left. -/
def Lane (s : Shared (Book μ)) (tasks : Tasks μ) : Prop :=
  ∃ past holder?, Queue most calls i s tasks past holder? ∧
    Standing most calls i reg host m s tasks past holder?

end

/-! ## What leaves a lane alone -/

/-- From one moment to another nothing has happened but what concerns the calls on a machine. -/
structure Beside (calls : List Call) (i : Nat) (s : Shared (Book μ)) (tasks : Tasks μ)
    (s' : Shared (Book μ)) (tasks' : Tasks μ) : Prop where
  registry : s'.state.1.registry = s.state.1.registry
  machines : ∀ j, j ≠ i → s'.state.1.machines[j]? = s.state.1.machines[j]?
  lines : ∃ more, trail s'.state.2 = trail s.state.2 ++ more ∧ ∀ l ∈ more, l.1.machine = i
  locks : ∀ j, j ≠ i → s'.locks j = s.locks j
  ready : ∀ (n : Nat) (c : Call), calls[n]? = some c → c.machine ≠ i →
    (n ∈ s'.ready ↔ n ∈ s.ready)
  tasks : ∀ (n : Nat) (c : Call), calls[n]? = some c → c.machine ≠ i → tasks'[n]? = tasks[n]?
  nodup : s.ready.Nodup → s'.ready.Nodup
  known : ∀ n ∈ s'.ready, n ∈ s.ready ∨ n < calls.length

namespace Beside

variable {calls : List Call} {i : Nat} {s s' s'' : Shared (Book μ)} {tasks tasks' tasks'' : Tasks μ}

theorem trans (h : Beside calls i s tasks s' tasks') (h' : Beside calls i s' tasks' s'' tasks'') :
    Beside calls i s tasks s'' tasks'' where
  registry := h'.registry.trans h.registry
  machines j hj := (h'.machines j hj).trans (h.machines j hj)
  lines := by
    obtain ⟨more, he, hm⟩ := h.lines
    obtain ⟨more', he', hm'⟩ := h'.lines
    refine ⟨more ++ more', by rw [he', he, List.append_assoc], fun l hl => ?_⟩
    rcases List.mem_append.mp hl with hl | hl
    · exact hm l hl
    · exact hm' l hl
  locks j hj := (h'.locks j hj).trans (h.locks j hj)
  ready n c hc hi := (h'.ready n c hc hi).trans (h.ready n c hc hi)
  tasks n c hc hi := (h'.tasks n c hc hi).trans (h.tasks n c hc hi)
  nodup hn := h'.nodup (h.nodup hn)
  known n hn := (h'.known n hn).elim (h.known n) .inr

/-- A change of the book that adds lines about calls on the machine. -/
theorem book {state : Book μ} (hr : state.1.registry = s.state.1.registry)
    (hm : ∀ j, j ≠ i → state.1.machines[j]? = s.state.1.machines[j]?)
    (ht : ∃ more, trail state.2 = trail s.state.2 ++ more ∧
      ∀ l ∈ more, l.1.machine = i) : Beside calls i s tasks { s with state } tasks :=
  ⟨hr, hm, ht, fun _ _ => rfl, fun _ _ _ _ => .rfl, fun _ _ _ _ => rfl, id, fun _ => .inl⟩

theorem notes {c : Call} {ds : List (Deed (Handler μ))} {state : Book μ}
    (h : Notes c ds s.state state) (hi : c.machine = i) :
    Beside calls i s tasks { s with state } tasks := by
  refine book h.registry (fun j hj => ?_) ⟨_, h.lines, fun l hl => ?_⟩
  · rw [h.machines, List.getElem?_modify_ne _ _ (hi.trans_ne hj.symm)]
  · obtain ⟨d, -, rfl⟩ := List.mem_map.mp hl
    exact hi

theorem line {c : Call} (mark : Mark μ) (hi : c.machine = i) : Beside calls i s tasks
    { s with state := Book.noted s.state c mark } tasks := by
  refine book rfl (fun _ _ => rfl) ⟨[(c, mark)], trail_noted .., fun l hl => ?_⟩
  rw [List.mem_singleton.mp hl]
  exact hi

theorem lock (l : Lock) : Beside calls i s tasks (s.setLock i l) tasks :=
  ⟨rfl, fun _ _ => rfl, ⟨[], (List.append_nil _).symm, List.forall_mem_nil _⟩,
    fun _ hj => if_neg hj, fun _ _ _ _ => .rfl, fun _ _ _ _ => rfl, id, fun _ => .inl⟩

/-- Calls on different machines are different calls. -/
theorem ne_of_machine {k n : Nat} {c c' : Call} (hc : calls[n]? = some c)
    (hc' : calls[k]? = some c') (hi : c.machine = i) (hi' : c'.machine ≠ i) : k ≠ n := by
  rintro rfl
  rw [hc] at hc'
  cases hc'
  exact hi' hi

/-- A call on the machine goes to the back of the queue. -/
theorem enqueue {n : Nat} {c : Call} (hc : calls[n]? = some c) (hi : c.machine = i)
    (hn : n ∉ s.ready) : Beside calls i s tasks (s.enqueue n) tasks where
  registry := rfl
  machines _ _ := rfl
  lines := ⟨[], (List.append_nil _).symm, List.forall_mem_nil _⟩
  locks _ _ := rfl
  ready k c' hc' hi' := by
    have hk := ne_of_machine hc hc' hi hi'
    simp [Shared.enqueue, hk]
  tasks _ _ _ _ := rfl
  nodup hd := by
    rw [Shared.enqueue, List.nodup_append]
    refine ⟨hd, by simp, fun a ha b hb => ?_⟩
    rw [List.mem_singleton.mp hb]
    rintro rfl
    exact hn ha
  known k hk := by
    rcases List.mem_append.mp hk with hk | hk
    · exact .inl hk
    · rw [List.mem_singleton.mp hk]
      exact .inr (List.getElem?_eq_some_iff.mp hc).1

/-- A call on the machine has become another task. -/
theorem set {n : Nat} {c : Call} (hc : calls[n]? = some c) (hi : c.machine = i)
    (t : Task (Book μ) (Except CallFault Bool)) : Beside calls i s tasks s (tasks.set n t) := by
  refine ⟨rfl, fun _ _ => rfl, ⟨[], (List.append_nil _).symm, List.forall_mem_nil _⟩,
    fun _ _ => rfl, fun _ _ _ _ => .rfl, fun k c' hc' hi' => ?_, id, fun _ => .inl⟩
  exact List.getElem?_set_ne (ne_of_machine hc hc' hi hi').symm

theorem arrivals_eq (h : Beside calls i s tasks s' tasks') {j : Nat} (hj : j ≠ i) :
    arrivals j (trail s'.state.2) = arrivals j (trail s.state.2) := by
  obtain ⟨more, he, hm⟩ := h.lines
  have := nothing_elsewhere (i := j) fun l hl => (hm l hl).trans_ne hj.symm
  rw [he, arrivals_append, this.1, List.append_nil]

theorem work_eq (h : Beside calls i s tasks s' tasks') {j : Nat} (hj : j ≠ i) :
    work j (trail s'.state.2) = work j (trail s.state.2) := by
  obtain ⟨more, he, hm⟩ := h.lines
  have := nothing_elsewhere (i := j) fun l hl => (hm l hl).trans_ne hj.symm
  rw [he, work_append, this.2, List.append_nil]

end Beside

section

variable [Recorder μ] {most : Nat} {calls : List Call} {i : Nat} {reg : Registry (Handler μ)}
  {host : Host (Handler μ)} {m : Machine} {s s' : Shared (Book μ)} {tasks tasks' : Tasks μ}
  {past : List Nat} {holder? : Option Nat}

/-- A queue stays what it is while nothing happens but to the call that has got through. -/
theorem Queue.congr (h : Queue most calls i s tasks past holder?)
    (ha : arrivals i (trail s'.state.2) = arrivals i (trail s.state.2))
    (hd : departures (work i (trail s'.state.2)) = departures (work i (trail s.state.2)))
    (hl : s'.locks i = s.locks i)
    (hr : ∀ n c, calls[n]? = some c → c.machine = i → holder? ≠ some n →
      (n ∈ s'.ready ↔ n ∈ s.ready))
    (ht : ∀ n c, calls[n]? = some c → c.machine = i → holder? ≠ some n → tasks'[n]? = tasks[n]?) :
    Queue most calls i s' tasks' past holder? := by
  have hn := List.nodup_append.mp h.nodup
  have hn' := List.nodup_append.mp hn.2.1
  -- those that have left and those that wait are not the one that has got through
  have past_ne (n : Nat) (hp : n ∈ past) : holder? ≠ some n := by
    rintro rfl
    exact hn.2.2 n hp n (by simp) rfl
  have waiting_ne (n : Nat) (hw : n ∈ (s.locks i).waiting) : holder? ≠ some n := by
    rintro rfl
    exact hn'.2.2 n (by simp) n hw rfl
  constructor
  · rw [ha, hl]; exact h.arrived
  · rw [hl]; exact h.mine
  · rw [hl]; exact h.nodup
  · rw [hl]; exact h.held
  · rw [hl]; exact h.free
  · rw [hl]
    intro n c hc hi hn
    have hne : holder? ≠ some n := by
      rintro rfl
      exact hn (by simp)
    obtain ⟨hr', k, hk⟩ := h.coming n c hc hi hn
    exact ⟨(hr n c hc hi hne).mpr hr', k, (ht n c hc hi hne).trans hk⟩
  · rw [hl]
    intro n hn
    obtain ⟨hr', c, m', hc, hk⟩ := h.waits n hn
    obtain ⟨c', hc', hi⟩ := h.mine n (by simp [hn])
    have hne := waiting_ne n hn
    exact ⟨fun hm => hr' ((hr n c' hc' hi hne).mp hm), c, m', hc, (ht n c' hc' hi hne).trans hk⟩
  · intro n hn hm
    obtain ⟨c, hc, hi⟩ := h.mine n (by simp [hn])
    exact h.ended n hn ((hr n c hc hi (past_ne n hn)).mp hm)
  · rw [hd, ← h.results]
    refine List.map_congr_left fun n hn => ?_
    obtain ⟨c, hc, hi⟩ := h.mine n (by simp [hn])
    rw [ht n c hc hi (past_ne n hn)]

/-- A machine stands as before while nothing happens to it or to the call that has got through. -/
theorem Standing.congr (h : Standing most calls i reg host m s tasks past holder?)
    (hw : work i (trail s'.state.2) = work i (trail s.state.2))
    (hm : s'.state.1.machines[i]? = s.state.1.machines[i]?)
    (hh : ∀ n, holder? = some n → (n ∈ s.ready → n ∈ s'.ready) ∧ tasks'[n]? = tasks[n]?) :
    Standing most calls i reg host m s' tasks' past holder? := by
  have worked {more : List (Call × Mark μ)} {ds : List (Deed (Handler μ))}
      (h : Worked calls i host m past more ds s.state) :
      Worked calls i host m past more ds s'.state :=
    ⟨hw.trans h.lines, hm.trans h.machine⟩
  cases h with
  | idle hw' => exact .idle (worked hw')
  | @entering n c m' hn hc hk hw' =>
    obtain ⟨hr, ht⟩ := hh n rfl
    exact .entering (hr hn) hc (ht.trans hk) (worked hw')
  | @inside n c q ds ds' r hn hc hk hset hp hw' =>
    obtain ⟨hr, ht⟩ := hh n rfl
    exact .inside (hr hn) hc (ht.trans hk) hset hp (worked hw')

/-- What concerns one machine leaves the lane of another one alone. -/
theorem Beside.lane {j : Nat} (h : Beside calls j s tasks s' tasks') (hj : i ≠ j)
    (hi : Lane most calls i reg host m s tasks) : Lane most calls i reg host m s' tasks' := by
  obtain ⟨past, holder?, hq, hs⟩ := hi
  have hr (n : Nat) (c : Call) (hc : calls[n]? = some c) (hi : c.machine = i) :=
    h.ready n c hc (hi.trans_ne hj)
  have ht (n : Nat) (c : Call) (hc : calls[n]? = some c) (hi : c.machine = i) :=
    h.tasks n c hc (hi.trans_ne hj)
  refine ⟨past, holder?, hq.congr (h.arrivals_eq hj) (by rw [h.work_eq hj]) (h.locks i hj)
    (fun n c hc hi _ => hr n c hc hi) (fun n c hc hi _ => ht n c hc hi),
    hs.congr (h.work_eq hj) (h.machines i hj) fun n hn => ?_⟩
  obtain ⟨c, hc, hi⟩ := hq.mine n (by simp [hn])
  exact ⟨(hr n c hc hi).mpr, ht n c hc hi⟩

/-! ## The call that has got through -/

omit [Recorder μ] in
theorem Worked.notes {more : List (Call × Mark μ)} {ds ds' : List (Deed (Handler μ))} {c : Call}
    {b b' : Book μ} (h : Worked calls i host m past more ds b) (hn : Notes c ds' b b')
    (hi : c.machine = i) :
    Worked calls i host m past (more ++ ds'.map fun d => (c, .did d)) (ds ++ ds') b' where
  lines := by rw [hn.lines, work_append, h.lines, ← hi, work_did, List.append_assoc]
  machine := by
    rw [hn.machines, hi, List.getElem?_modify_eq, h.machine, List.foldl_append]
    rfl

omit [Recorder μ] in
theorem Worked.go {ds ds' : List (Deed (Handler μ))} {c : Call} {b b' : Book μ}
    (h : Worked calls i host m past ((c, .admitted) :: ds.map fun d => (c, .did d)) ds b)
    (hn : Notes c ds' b b') (hi : c.machine = i) : Worked calls i host m past
      ((c, .admitted) :: (ds ++ ds').map fun d => (c, .did d)) (ds ++ ds') b' := by
  have := h.notes hn hi
  rwa [List.cons_append, ← List.map_append] at this

omit [Recorder μ] in
/-- A call that leaves has been served. -/
theorem Worked.leave {ds : List (Deed (Handler μ))} {c : Call} {r : Except CallFault Bool} {n : Nat}
    {b : Book μ}
    (h : Worked calls i host m past ((c, .admitted) :: ds.map fun d => (c, .did d)) ds b)
    (hc : calls[n]? = some c) (hi : c.machine = i)
    (hp : (c.flow (serveAll host m (named calls past)).2).play host [] = (ds, r)) :
    Worked calls i host m (past ++ [n]) [] [] (Book.noted b c (.left r)) := by
  have hs : serveAll host m (named calls (past ++ [n])) =
      ((serveAll host m (named calls past)).1 ++
        ((c, .admitted) :: (ds.map (fun d => (c, .did d)) ++ [(c, .left r)])),
        ds.foldl Deed.affect (serveAll host m (named calls past)).2) := by
    have hn : named calls (past ++ [n]) = named calls past ++ [c] := by
      simp [named, List.filterMap_append, hc]
    rw [hn, serveAll_append]
    simp [serveAll, serve, hp]
  constructor
  · have hl : work i [((c, .left r) : Call × Mark μ)] = [(c, .left r)] := by
      simp [work, isWork, hi]
    rw [trail_noted, work_append, h.lines, hl, hs]
    simp
  · rw [hs]
    exact h.machine

omit [Recorder μ] in
/-- A lock that is given back is free, or it passes to the first that waits. -/
theorem release_eq (s : Shared (Book μ)) (i : Nat) : s.release i =
    { s with
      locks := fun j => if j = i then
        ⟨(s.locks i).waiting.head?.isSome, (s.locks i).waiting.tail⟩ else s.locks j
      ready := s.ready ++ (s.locks i).waiting.head?.toList } := by
  unfold Shared.release
  cases (s.locks i).waiting with
  | nil => simp [Shared.setLock]
  | cons w ws => rfl

omit [Recorder μ] in
theorem Beside.release (hw : ∀ w ∈ (s.locks i).waiting, w ∉ s.ready ∧
      ∃ c, calls[w]? = some c ∧ c.machine = i) :
    Beside calls i s tasks (s.release i) tasks := by
  unfold Shared.release
  cases hl : (s.locks i).waiting with
  | nil => exact .lock {}
  | cons w ws =>
    obtain ⟨hr, c, hc, hi⟩ := hw w (by simp [hl])
    have hr' : w ∉ (s.setLock i { held := true, waiting := ws }).ready := hr
    exact (Beside.lock _).trans (.enqueue hc hi hr')

/-- When the call that has got through leaves, it joins those that have left, and the first that
waits gets through. -/
theorem Queue.leave {n : Nat} {c : Call} {r : Except CallFault Bool} {state : Book μ}
    (hq : Queue most calls i s tasks past (some n)) (hn : n ∉ s.ready) (hl : n < tasks.length)
    (hc : calls[n]? = some c)
    (ha : arrivals i (trail state.2) = arrivals i (trail s.state.2))
    (hs : departures (work i (trail state.2)) =
      departures (work i (trail s.state.2)) ++ [(c, r)])
    (hw : Worked calls i host m (past ++ [n]) [] [] state) :
    Lane most calls i reg host m (({ s with state } : Shared (Book μ)).release i)
      (tasks.set n (.done r)) := by
  have line (waiting : List Nat) : (past ++ [n]) ++ (waiting.head?.toList ++ waiting.tail) =
      past ++ ((some n).toList ++ waiting) := by
    cases waiting <;> simp
  have hd := hq.nodup
  have ne_of_mem {k : Nat} (hk : k ∈ past ∨ k ∈ (s.locks i).waiting) : n ≠ k := by
    rintro rfl
    simp only [Option.toList_some, List.singleton_append, List.nodup_append, List.nodup_cons] at hd
    rcases hk with hk | hk
    · exact hd.2.2 n hk n (by simp) rfl
    · exact hd.2.1.1 hk
  -- the first that waits joins the queue of those that are ready, and it is none of the others
  have not_ready {k : Nat} (hr : k ∉ s.ready) (hk : k ∉ (s.locks i).waiting.head?.toList) :
      k ∉ s.ready ++ (s.locks i).waiting.head?.toList := by
    simpa using ⟨hr, by simpa using hk⟩
  have head_mem {k : Nat} (hk : k ∈ (s.locks i).waiting.head?.toList) :
      k ∈ (s.locks i).waiting := List.mem_of_mem_head? (by simpa using hk)
  rw [release_eq]
  refine ⟨past ++ [n], (s.locks i).waiting.head?, ⟨?_, ?_, ?_, ?_, ?_, ?_, ?_, ?_, ?_⟩, ?_⟩
  · simp only [if_true, line]
    exact ha.trans hq.arrived
  · simp only [if_true, line]
    exact hq.mine
  · simp only [if_true, line]
    exact hq.nodup
  · simp
  · intro h
    simp [List.head?_eq_none_iff.mp h]
  · simp only [if_true, line]
    intro k c' hc' hi hk
    have hne : n ≠ k := by
      rintro rfl
      exact hk (by simp)
    obtain ⟨hr, j, hj⟩ := hq.coming k c' hc' hi hk
    exact ⟨List.mem_append_left _ hr, j, (List.getElem?_set_ne hne).trans hj⟩
  · simp only [if_true]
    intro k hk
    have hk' := List.mem_of_mem_tail hk
    obtain ⟨hr, c', m', hc', ht⟩ := hq.waits k hk'
    refine ⟨not_ready hr ?_, c', m', hc', (List.getElem?_set_ne (ne_of_mem (.inr hk'))).trans ht⟩
    have hd := (List.nodup_append.mp (List.nodup_append.mp hd).2.1).2.1
    cases hlw : (s.locks i).waiting with
    | nil => simp
    | cons w ws =>
      rw [hlw] at hk hd
      have := (List.nodup_cons.mp hd).1
      simp only [List.head?_cons, Option.toList_some, List.mem_singleton]
      rintro rfl
      exact this hk
  · intro k hk
    rcases List.mem_append.mp hk with hk | hk
    · refine not_ready (hq.ended k hk) fun hw => ?_
      exact (List.nodup_append.mp hd).2.2 k hk k (by simp [head_mem hw]) rfl
    · rw [List.mem_singleton.mp hk]
      exact not_ready hn fun hw => ne_of_mem (.inr (head_mem hw)) rfl
  · show _ = (departures (work i (trail state.2))).map _
    rw [hs, List.map_append, List.map_append, ← hq.results]
    refine congrArg₂ _ (List.map_congr_left fun k hk => ?_) ?_
    · rw [List.getElem?_set_ne (ne_of_mem (.inl hk))]
    · simp [hc, hl]
  · cases hlw : (s.locks i).waiting with
    | nil => exact .idle hw
    | cons w ws =>
      obtain ⟨hr, c', m', hc', ht⟩ := hq.waits w (by simp [hlw])
      refine .entering (by simp) hc' ((List.getElem?_set_ne ?_).trans ht) hw
      exact ne_of_mem (.inr (by simp [hlw]))

/-- A turn of the call that has got through leaves the lane in order, and the other lanes alone. -/
theorem Queue.advance {n : Nat} {c : Call} {q : Process (Book μ) (Except CallFault Bool)}
    {ds ds' : List (Deed (Handler μ))} {r : Except CallFault Bool}
    (hq : Queue most calls i s tasks past (some n)) (hn : n ∉ s.ready) (hl : n < tasks.length)
    (hc : calls[n]? = some c) (hr : s.state.1.registry = reg) (hs : Settled reg c q ds' r)
    (hp : (c.flow (serveAll host m (named calls past)).2).play host [] = (ds ++ ds', r))
    (hw : Worked calls i host m past ((c, .admitted) :: ds.map fun d => (c, .did d)) ds s.state) :
    Lane most calls i reg host m (q.turn n s).1 (tasks.set n (q.turn n s).2) ∧
      Beside calls i s tasks (q.turn n s).1 (tasks.set n (q.turn n s).2) := by
  obtain ⟨c', hc', hi⟩ := hq.mine n (by simp)
  obtain rfl : c = c' := Option.some.inj (hc.symm.trans hc')
  rcases hs.turn n s hr with ⟨ds₁, ds₂, q', state, rfl, hset, hnotes, ht⟩ | ⟨state, hnotes, ht⟩
  · -- the call pauses, and goes to the back of the queue
    rw [ht]
    have hn' : n ∉ ({ s with state } : Shared (Book μ)).ready := hn
    have hb : Beside calls i _ tasks _ (tasks.set n (.running q')) :=
      (Beside.enqueue hc hi hn').trans (.set hc hi (.running q'))
    refine ⟨⟨past, some n, hq.congr ?_ ?_ rfl ?_ ?_, ?_⟩, (Beside.notes hnotes hi).trans hb⟩
    · show arrivals i (trail state.2) = _
      rw [hnotes.lines, arrivals_append, arrivals_did, List.append_nil]
    · show departures (work i (trail state.2)) = _
      rw [hnotes.lines, work_append, departures_append, ← hi, work_did, departures_did,
        List.append_nil]
    · intro k c' _ _ hk
      have hk : k ≠ n := fun e => hk (congrArg some e.symm)
      simp [Shared.enqueue, hk]
    · intro k c' _ _ hk
      exact List.getElem?_set_ne fun e => hk (congrArg some e)
    · exact .inside (by simp [Shared.enqueue]) hc (List.getElem?_set_self hl) hset
        (by rw [hp, List.append_assoc]) (hw.go hnotes hi)
  · -- the call leaves, and the lock passes to the first that waits
    rw [ht]
    have ha : arrivals i (trail (Book.noted state c (.left r)).2) =
        arrivals i (trail s.state.2) := by
      rw [trail_noted, hnotes.lines, arrivals_append, arrivals_append, arrivals_did]
      simp [arrivals, arrival?]
    have hs : departures (work i (trail (Book.noted state c (.left r)).2)) =
        departures (work i (trail s.state.2)) ++ [(c, r)] := by
      rw [trail_noted, hnotes.lines, work_append, work_append, departures_append,
        departures_append, ← hi, work_did, departures_did]
      simp [work, isWork, departures, departure?]
    have hw' := (hw.go hnotes hi).leave hc hi hp
    rw [hi]
    refine ⟨hq.leave hn hl hc ha hs hw', ?_⟩
    refine (Beside.notes hnotes hi).trans ((Beside.line (.left r) hi).trans ?_)
    refine (Beside.release fun w hw => ?_).trans (.set hc hi _)
    exact ⟨(hq.waits w hw).1, hq.mine w (by simp [hw])⟩

end

end Workflow
