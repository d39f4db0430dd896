import Workflow.Proofs.Engine.Lane

/-!
# The turn of a call

A call that has its turn pauses before it comes, comes to its machine, gets through, or goes on
inside. Whatever it does, the lane of its machine stays in order, and the lanes of the other
machines stay as they are.

Results:
* `Queue.enter`: a call that holds the lock finds what the calls before it have left.
* `Queue.arrive`: a call that comes gets through at once or stands behind the others.
* `Lane.turn`: a turn of any call keeps the lane of its machine in order.
-/
namespace Workflow

variable {μ : Type} [Recorder μ] {most : Nat} {calls : List Call} {host : Host (Handler μ)}
  {reg : Registry (Handler μ)}

section

variable {i : Nat} {m : Machine} {s s' : Shared (Book μ)} {tasks tasks' : Tasks μ}
  {past rest : List Nat} {holder? holder'? : Option Nat} {n : Nat} {c : Call}

/-! ## The turn of a call -/

/-- A call that holds the lock gets through and goes on. -/
theorem Queue.enter (m' : Machine) (hp : host.Plays reg)
    (hq : Queue most calls i s tasks past (some n)) (hn : n ∉ s.ready) (hl : n < tasks.length)
    (hc : calls[n]? = some c) (hr : s.state.1.registry = reg)
    (hw : Worked calls i host m past [] [] s.state) :
    Lane most calls i reg host m ((Engine.enter c m' (c.body most)).turn n s).1
        (tasks.set n ((Engine.enter c m' (c.body most)).turn n s).2) ∧
      Beside calls i s tasks ((Engine.enter c m' (c.body most)).turn n s).1
        (tasks.set n ((Engine.enter c m' (c.body most)).turn n s).2) := by
  obtain ⟨c', hc', hi⟩ := hq.mine n (by simp)
  obtain rfl : c = c' := Option.some.inj (hc.symm.trans hc')
  have hwork : work i (trail (Book.noted s.state c .admitted).2) =
      work i (trail s.state.2) ++ [(c, .admitted)] := by
    rw [trail_noted, work_append]
    simp [work, isWork, hi]
  have hq' : Queue most calls i { s with state := Book.noted s.state c .admitted } tasks past
      (some n) := by
    refine hq.congr (arrivals_noted ..) ?_ rfl (fun _ _ _ _ _ => .rfl) fun _ _ _ _ _ => rfl
    rw [hwork, departures_append]
    simp [departures, departure?]
  have hw' : Worked calls i host m past
      ((c, .admitted) :: ([] : List (Deed (Handler μ))).map fun d => (c, .did d)) []
      (Book.noted s.state c .admitted) := by
    refine ⟨?_, hw.machine⟩
    rw [hwork, hw.lines, List.append_nil]
    rfl
  -- the call finds the machine that has served the calls before it
  have hm : s.state.1.machines[c.machine]?.getD m' = (serveAll host m (named calls past)).2 := by
    rw [hi, hw.machine]
    rfl
  have hs := settled_body hp most c (s.state.1.machines[c.machine]?.getD m')
  rw [hm] at hs
  have ha := hq'.advance hn hl hc hr hs rfl hw'
  rw [← hm] at ha
  exact ⟨ha.1, (Beside.line .admitted hi).trans ha.2⟩

section

variable {m' : Machine} (body : Machine → Process (Book μ) (Except CallFault Bool))
  (hm : s.state.1.machines[c.machine]? = some m') (hs : m'.sends = .queue)

include hm

omit [Recorder μ] in
/-- A call that comes to a machine that is free gets through at once. -/
theorem turn_watchLock_free (hl : (s.locks c.machine).held = false) :
    (Engine.watchLock c body).turn n s = (Engine.enter c m' body).turn n
      (({ s with state := Book.noted s.state c .arrived } : Shared (Book μ)).hold c.machine) := by
  simp only [Engine.watchLock, Process.turn, hm, hl, if_true]

include hs

omit [Recorder μ] in
/-- A call that comes to a machine that is not free waits. -/
theorem turn_watchLock_held (hl : (s.locks c.machine).held = true) :
    (Engine.watchLock c body).turn n s =
      (({ s with state := Book.noted s.state c .arrived } : Shared (Book μ)).await c.machine n,
        .running (Engine.enter c m' body)) := by
  simp [Engine.watchLock, Process.turn, hm, hs, hl]

end

/-- A call that comes stands behind the others. -/
theorem Queue.come (hq : Queue most calls i s tasks past holder?) (hc : calls[n]? = some c)
    (hi : c.machine = i) (hn : n ∉ past ++ (holder?.toList ++ (s.locks i).waiting))
    (hl : holder'?.toList ++ (s'.locks i).waiting = holder?.toList ++ (s.locks i).waiting ++ [n])
    (hh : holder'?.isSome) (hh' : (s'.locks i).held = true)
    (ha : trail s'.state.2 = trail s.state.2 ++ [(c, .arrived)])
    (hr : ∀ k, k ≠ n → (k ∈ s'.ready ↔ k ∈ s.ready)) (ht : ∀ k, k ≠ n → tasks'[k]? = tasks[k]?)
    (hw : ∀ k ∈ (s'.locks i).waiting, k ∈ (s.locks i).waiting ∨
      k = n ∧ n ∉ s'.ready ∧ ∃ m', tasks'[n]? = some (.running (Engine.enter c m' (c.body most)))) :
    Queue most calls i s' tasks' past holder'? := by
  have line : past ++ (holder'?.toList ++ (s'.locks i).waiting) =
      (past ++ (holder?.toList ++ (s.locks i).waiting)) ++ [n] := by
    rw [hl, ← List.append_assoc]
  have ne_of_mem {k : Nat} (hk : k ∈ past ++ (holder?.toList ++ (s.locks i).waiting)) : k ≠ n := by
    rintro rfl
    exact hn hk
  constructor
  · rw [line, ha, arrivals_append, hq.arrived]
    simp [named, arrivals, arrival?, hc, hi]
  · rw [line]
    intro k hk
    rcases List.mem_append.mp hk with hk | hk
    · exact hq.mine k hk
    · rw [List.mem_singleton.mp hk]
      exact ⟨c, hc, hi⟩
  · rw [line, List.nodup_append]
    exact ⟨hq.nodup, by simp, fun k hk j hj => by
      rw [List.mem_singleton.mp hj]
      exact ne_of_mem hk⟩
  · rw [hh, hh']
  · intro h
    rw [h] at hh
    cases hh
  · rw [line]
    intro k c' hc' hi' hk
    have hk' : k ∉ past ++ (holder?.toList ++ (s.locks i).waiting) ∧ k ≠ n := by
      simpa only [List.mem_append, List.mem_singleton, not_or] using hk
    obtain ⟨hkr, j, hj⟩ := hq.coming k c' hc' hi' hk'.1
    exact ⟨(hr k hk'.2).mpr hkr, j, (ht k hk'.2).trans hj⟩
  · intro k hk
    rcases hw k hk with hk | ⟨rfl, hkr, m', hm'⟩
    · obtain ⟨hkr, c', m', hc', hm'⟩ := hq.waits k hk
      have hne : k ≠ n := ne_of_mem (by simp [hk])
      exact ⟨fun h => hkr ((hr k hne).mp h), c', m', hc', (ht k hne).trans hm'⟩
    · exact ⟨hkr, c, m', hc, hm'⟩
  · intro k hk h
    exact hq.ended k hk ((hr k (ne_of_mem (by simp [hk]))).mp h)
  · have hd : departures (work i (trail s'.state.2)) = departures (work i (trail s.state.2)) := by
      rw [ha, work_append, departures_append]
      simp [work, isWork, departures]
    rw [hd, ← hq.results]
    refine List.map_congr_left fun k hk => ?_
    rw [ht k (ne_of_mem (by simp [hk]))]

/-- A call that pauses before it comes goes to the back of the queue. -/
theorem Queue.delay {k : Nat} (hq : Queue most calls i s tasks past holder?)
    (hn : n ∉ past ++ (holder?.toList ++ (s.locks i).waiting)) (hl : n < tasks.length)
    (hc : calls[n]? = some c) (hr : s.ready = n :: rest) :
    Queue most calls i ({ s with ready := rest }.enqueue n)
      (tasks.set n (.running (.pauses k (Engine.watchLock c (c.body most))))) past holder? := by
  have ready (j : Nat) : j ∈ rest ++ [n] ↔ j ∈ s.ready := by
    simp [hr, or_comm]
  have ne_of_mem {j : Nat} (hj : j ∈ past ++ (holder?.toList ++ (s.locks i).waiting)) : n ≠ j := by
    rintro rfl
    exact hn hj
  refine ⟨hq.arrived, hq.mine, hq.nodup, hq.held, hq.free, fun j c' hc' hi hj => ?_,
    fun j hj => ?_, fun j hj h => hq.ended j hj ((ready j).mp h), ?_⟩
  · obtain ⟨hjr, l, ht⟩ := hq.coming j c' hc' hi hj
    refine ⟨(ready j).mpr hjr, ?_⟩
    by_cases hjn : n = j
    · subst hjn
      obtain rfl : c = c' := Option.some.inj (hc.symm.trans hc')
      exact ⟨k, List.getElem?_set_self hl⟩
    · exact ⟨l, (List.getElem?_set_ne hjn).trans ht⟩
  · obtain ⟨hjr, c', m', hc', ht⟩ := hq.waits j hj
    have hne : n ≠ j := ne_of_mem (by
      have : j ∈ (s.locks i).waiting := hj
      simp [this])
    exact ⟨fun h => hjr ((ready j).mp h), c', m', hc', (List.getElem?_set_ne hne).trans ht⟩
  · show _ = (departures (work i (trail s.state.2))).map _
    rw [← hq.results]
    refine List.map_congr_left fun j hj => ?_
    rw [List.getElem?_set_ne (ne_of_mem (by simp [hj]))]

omit [Recorder μ] in
/-- A call on the machine has its turn. -/
theorem Beside.dequeue (hc : calls[n]? = some c) (hi : c.machine = i) (hr : s.ready = n :: rest) :
    Beside calls i s tasks { s with ready := rest } tasks where
  registry := rfl
  machines _ _ := rfl
  lines := ⟨[], (List.append_nil _).symm, List.forall_mem_nil _⟩
  locks _ _ := rfl
  ready k c' hc' hi' := by
    have hk := Beside.ne_of_machine hc hc' hi hi'
    simp [hr, hk]
  tasks _ _ _ _ := rfl
  nodup hd := by
    rw [hr] at hd
    exact (List.nodup_cons.mp hd).2
  known k hk := .inl (by rw [hr]; exact List.mem_cons_of_mem _ hk)

/-- A machine keeps its name and its policies. -/
theorem Standing.sends (h : Standing most calls i reg host m s tasks past holder?) :
    ∃ m', s.state.1.machines[i]? = some m' ∧ m'.sends = m.sends := by
  have worked {more : List (Call × Mark μ)} {ds : List (Deed (Handler μ))}
      (h : Worked calls i host m past more ds s.state) :
      ∃ m', s.state.1.machines[i]? = some m' ∧ m'.sends = m.sends :=
    ⟨_, h.machine, by rw [affect_sends, serveAll_sends]⟩
  cases h with
  | idle hw => exact worked hw
  | entering _ _ _ hw => exact worked hw
  | inside _ _ _ _ _ hw => exact worked hw

/-- The first turn of a call that has not come yet. -/
theorem Queue.arrive (hp : host.Plays reg) (hs : m.sends = .queue)
    (hq : Queue most calls i s tasks past holder?)
    (hst : Standing most calls i reg host m s tasks past holder?)
    (hn : n ∉ past ++ (holder?.toList ++ (s.locks i).waiting)) (hl : n < tasks.length)
    (hc : calls[n]? = some c) (hi : c.machine = i) (hr : s.ready = n :: rest) (hd : n ∉ rest)
    (hreg : s.state.1.registry = reg) {q : Process (Book μ) (Except CallFault Bool)}
    (he : q = Engine.watchLock c (c.body most)) :
    Lane most calls i reg host m (q.turn n { s with ready := rest }).1
        (tasks.set n (q.turn n { s with ready := rest }).2) ∧
      Beside calls i s tasks (q.turn n { s with ready := rest }).1
        (tasks.set n (q.turn n { s with ready := rest }).2) := by
  obtain ⟨m', hm, hm'⟩ := hst.sends
  have ready (k : Nat) (hk : k ≠ n) : k ∈ rest ↔ k ∈ s.ready := by simp [hr, hk]
  have hwork : work i (trail (Book.noted s.state c .arrived).2) = work i (trail s.state.2) := by
    rw [trail_noted, work_append]
    simp [work, isWork]
  have hb : Beside calls i s tasks _ tasks :=
    (Beside.dequeue hc hi hr).trans (.line .arrived hi)
  subst hi
  have hheld := hq.held
  cases holder? with
  | none =>
    -- nobody holds the lock: the call gets through at once
    have hw := hq.free rfl
    rw [he, turn_watchLock_free (s := { s with ready := rest }) _ hm hheld]
    have hq' : Queue most calls c.machine
        (({ s with ready := rest, state := Book.noted s.state c .arrived } : Shared (Book μ)).hold
          c.machine) tasks past (some n) := by
      refine hq.come hc rfl hn ?_ rfl ?_ (trail_noted ..) ready (fun _ _ => rfl) ?_
      · simp [Shared.hold, Shared.setLock, hw]
      · simp [Shared.hold, Shared.setLock]
      · simp [Shared.hold, Shared.setLock, hw]
    cases hst with
    | idle hst =>
      have hst' : Worked calls c.machine host m past [] [] (Book.noted s.state c .arrived) :=
        ⟨hwork.trans hst.lines, hst.machine⟩
      have h := hq'.enter m' hp hd hl hc hreg hst'
      exact ⟨h.1, hb.trans ((Beside.lock _).trans h.2)⟩
  | some h =>
    -- another call holds the lock: the call waits behind the others
    rw [he, turn_watchLock_held (s := { s with ready := rest }) _ hm (hm'.trans hs) hheld]
    have hne : h ≠ n := by
      rintro rfl
      exact hn (by simp)
    refine ⟨⟨past, some h, ?_, ?_⟩, hb.trans ((Beside.lock _).trans (.set hc rfl _))⟩
    · refine hq.come hc rfl hn ?_ rfl ?_ (trail_noted ..) ready
        (fun k hk => List.getElem?_set_ne hk.symm) fun k hk => ?_
      · simp [Shared.await, Shared.setLock]
      · simpa [Shared.await, Shared.setLock] using hheld
      · simp only [Shared.await, Shared.setLock, if_true, List.mem_append,
          List.mem_singleton] at hk
        refine hk.imp_right fun hk => ⟨hk, hd, m', List.getElem?_set_self hl⟩
    · refine hst.congr hwork rfl fun k hk => ?_
      obtain rfl := Option.some.inj hk
      exact ⟨(ready h hne).mpr, List.getElem?_set_ne hne.symm⟩

/-- A turn of a call on a machine leaves its lane in order, and the other lanes alone. -/
theorem Lane.turn (hp : host.Plays reg) (hs : m.sends = .queue)
    (h : Lane most calls i reg host m s tasks) (hl : n < tasks.length) (hc : calls[n]? = some c)
    (hi : c.machine = i) (hr : s.ready = n :: rest) (hd : n ∉ rest)
    (hreg : s.state.1.registry = reg) :
    ∃ q, tasks[n]? = some (.running q) ∧
      Lane most calls i reg host m (q.turn n { s with ready := rest }).1
        (tasks.set n (q.turn n { s with ready := rest }).2) ∧
      Beside calls i s tasks (q.turn n { s with ready := rest }).1
        (tasks.set n (q.turn n { s with ready := rest }).2) := by
  obtain ⟨past, holder?, hq, hst⟩ := h
  have hready : n ∈ s.ready := by simp [hr]
  have hb : Beside calls i s tasks { s with ready := rest } tasks := .dequeue hc hi hr
  by_cases hn : n ∈ past ++ (holder?.toList ++ (s.locks i).waiting)
  · rcases List.mem_append.mp hn with hn | hn
    · exact absurd hready (hq.ended n hn)
    · rcases List.mem_append.mp hn with hn | hn
      · -- it is the turn of the call that has got through
        obtain rfl : holder? = some n := by simpa using hn
        have hq' : Queue most calls i { s with ready := rest } tasks past (some n) := by
          refine hq.congr rfl rfl rfl (fun k c' _ _ hk => ?_) fun _ _ _ _ _ => rfl
          have hk : k ≠ n := fun e => hk (congrArg some e.symm)
          simp [hr, hk]
        cases hst with
        | @entering _ c' m' _ hc' ht hw =>
          obtain rfl : c = c' := Option.some.inj (hc.symm.trans hc')
          have he := hq'.enter m' hp hd hl hc hreg hw
          exact ⟨_, ht, he.1, hb.trans he.2⟩
        | @inside _ c' q ds ds' r _ hc' ht hset hplay hw =>
          obtain rfl : c = c' := Option.some.inj (hc.symm.trans hc')
          have he := hq'.advance hd hl hc hreg hset hplay hw
          exact ⟨_, ht, he.1, hb.trans he.2⟩
      · exact absurd hready (hq.waits n hn).1
  · obtain ⟨-, k, ht⟩ := hq.coming n c hc hi hn
    cases k with
    | zero =>
      exact ⟨_, ht, hq.arrive hp hs hst hn hl hc hi hr hd hreg rfl⟩
    | succ k =>
      refine ⟨_, ht, ⟨past, holder?, hq.delay hn hl hc hr, ?_⟩,
        hb.trans ((Beside.enqueue hc hi hd).trans (.set hc hi _))⟩
      refine hst.congr rfl rfl fun j hj => ?_
      obtain rfl : holder? = some j := hj
      have hne : n ≠ j := by
        rintro rfl
        exact hn (by simp)
      refine ⟨fun hj => ?_, List.getElem?_set_ne hne⟩
      have hj : j ∈ rest := by simpa [hr, hne.symm] using hj
      exact List.mem_append_left _ hj

end

end Workflow
