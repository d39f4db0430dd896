import Workflow.Proofs.Call.Deed

/-!
# Runs beside a host

A host settles what is found and what is answered, so that it settles the whole run of a flow:
`host.Agrees past ds` says that each look-up among `ds` found what the host finds, and that each
handler came to what the host answers. Only one run of a flow agrees with a host, the one that the
host plays.

Results:
* `play_agrees`, `play_eq_of_runs`: the run that agrees with a host is the run that it plays.
* `Agrees.append`, `Runs.agrees_append`: agreeing with a host is a matter of each part.
* `Agrees.after`: a host whose answers do not depend on the past agrees behind any past.
-/
namespace Workflow

variable {η α : Type}

namespace Host

/-- What is done behind a past agrees with a host: each category is looked up in the host, and each
handler is answered by it. -/
inductive Agrees (host : Host η) : List (Deed η) → List (Deed η) → Prop where
  | nil (past : List (Deed η)) : Agrees host past []
  | logged {past ds : List (Deed η)} (entry : Log.Entry)
    (h : Agrees host (past ++ [.logged entry]) ds) : Agrees host past (.logged entry :: ds)
  | reported {past ds : List (Deed η)} (r : Report)
    (h : Agrees host (past ++ [.reported r]) ds) : Agrees host past (.reported r :: ds)
  | published {past ds : List (Deed η)} (live : Live)
    (h : Agrees host (past ++ [.published live]) ds) : Agrees host past (.published live :: ds)
  | announced {past ds : List (Deed η)} (h : Agrees host (past ++ [.announced]) ds) :
    Agrees host past (.announced :: ds)
  | looked {past ds : List (Deed η)} {category : String} {found : Option η}
    (hf : found = host.find past category)
    (h : Agrees host (past ++ [.looked category found]) ds) :
    Agrees host past (.looked category found :: ds)
  | called {past ds : List (Deed η)} {handler : η} {params : Fields Value} {context : Context}
    {o : Outcome} (ho : o = host.answer past handler params context)
    (h : Agrees host (past ++ [.called handler params context, .answered o]) ds) :
    Agrees host past (.called handler params context :: .answered o :: ds)

/-- A host that finds and answers alike, whatever was done before. -/
structure Steady (host : Host η) : Prop where
  find : ∀ past past', host.find past = host.find past'
  answer : ∀ past past', host.answer past = host.answer past'

namespace Agrees

variable {host : Host η} {past ds ds' : List (Deed η)}

theorem append (h : host.Agrees past ds) (h' : host.Agrees (past ++ ds) ds') :
    host.Agrees past (ds ++ ds') := by
  induction h with
  | nil past => simpa using h'
  | logged entry _ ih => exact .logged entry (ih (by simpa using h'))
  | reported r _ ih => exact .reported r (ih (by simpa using h'))
  | published live _ ih => exact .published live (ih (by simpa using h'))
  | announced _ ih => exact .announced (ih (by simpa using h'))
  | looked hf _ ih => exact .looked hf (ih (by simpa using h'))
  | called ho _ ih => exact .called ho (ih (by simpa using h'))

/-- What agrees with a host does so up to any report. -/
theorem upTo {r : Report} (h : host.Agrees past (ds ++ .reported r :: ds')) :
    host.Agrees past (ds ++ [.reported r]) := by
  generalize he : ds ++ .reported r :: ds' = all at h
  induction h generalizing ds with
  | nil past => simp at he
  | logged entry _ ih =>
    rcases List.append_eq_cons_iff.mp he with ⟨rfl, hd⟩ | ⟨ds₁, rfl, hd⟩
    · cases hd
    · exact .logged entry (ih hd.symm)
  | reported r' _ ih =>
    rcases List.append_eq_cons_iff.mp he with ⟨rfl, hd⟩ | ⟨ds₁, rfl, hd⟩
    · cases hd
      exact .reported r (.nil _)
    · exact .reported r' (ih hd.symm)
  | published live _ ih =>
    rcases List.append_eq_cons_iff.mp he with ⟨rfl, hd⟩ | ⟨ds₁, rfl, hd⟩
    · cases hd
    · exact .published live (ih hd.symm)
  | announced _ ih =>
    rcases List.append_eq_cons_iff.mp he with ⟨rfl, hd⟩ | ⟨ds₁, rfl, hd⟩
    · cases hd
    · exact .announced (ih hd.symm)
  | looked hf _ ih =>
    rcases List.append_eq_cons_iff.mp he with ⟨rfl, hd⟩ | ⟨ds₁, rfl, hd⟩
    · cases hd
    · exact .looked hf (ih hd.symm)
  | called ho _ ih =>
    rcases List.append_eq_cons_iff.mp he with ⟨rfl, hd⟩ | ⟨ds₁, rfl, hd⟩
    · cases hd
    · -- a report does not stand between a call and its answer
      rcases List.append_eq_cons_iff.mp hd.symm with ⟨rfl, ha⟩ | ⟨ds₂, rfl, ha⟩
      · cases ha
      · exact .called ho (ih ha.symm)

/-- Where the past does not matter, any past will do. -/
theorem after (hs : host.Steady) (h : host.Agrees past ds) (past' : List (Deed η)) :
    host.Agrees past' ds := by
  induction h generalizing past' with
  | nil past => exact .nil past'
  | logged entry _ ih => exact .logged entry (ih _)
  | reported r _ ih => exact .reported r (ih _)
  | published live _ ih => exact .published live (ih _)
  | announced _ ih => exact .announced (ih _)
  | looked hf _ ih => exact .looked (hf.trans (congrFun (hs.find _ _) _)) (ih _)
  | called ho _ ih =>
    refine .called (ho.trans ?_) (ih _)
    rw [hs.answer _ past']

end Agrees
end Host

namespace Flow

variable {host : Host η} {past ds ds' : List (Deed η)} {x : Flow η α} {a : α}

theorem play_agrees (host : Host η) (x : Flow η α) (past : List (Deed η)) :
    host.Agrees past (x.play host past).1 := by
  induction x generalizing past with
  | done a => exact .nil past
  | log e next ih => exact .logged e (ih _)
  | report r next ih => exact .reported r (ih _)
  | publish live next ih => exact .published live (ih _)
  | announce next ih => exact .announced (ih _)
  | resolve category next ih => exact .looked rfl (ih _ _)
  | invoke handler params context next ih => exact .called rfl (ih _ _)

/-- A run that agrees with a host is the one that the host plays. -/
theorem play_eq_of_runs (h : x.Runs ds a) (hh : host.Agrees past ds) :
    x.play host past = (ds, a) := by
  induction h generalizing past with
  | done a => rfl
  | log _ ih => cases hh with | logged _ hh => simp [play, ih hh]
  | report _ ih => cases hh with | reported _ hh => simp [play, ih hh]
  | publish _ ih => cases hh with | published _ hh => simp [play, ih hh]
  | announce _ ih => cases hh with | announced hh => simp [play, ih hh]
  | resolve found _ ih =>
    cases hh with
    | looked hf hh =>
      subst hf
      simp [play, ih hh]
  | invoke o _ ih =>
    cases hh with
    | called ho hh =>
      subst ho
      simp [play, ih hh]

/-- What is done behind a whole run agrees with the host by itself. -/
theorem Runs.agrees_append (h : x.Runs ds a) (hh : host.Agrees past (ds ++ ds')) :
    host.Agrees past ds ∧ host.Agrees (past ++ ds) ds' := by
  induction h generalizing past with
  | done a => exact ⟨.nil past, by simpa using hh⟩
  | log _ ih =>
    cases hh with
    | logged _ hh => simpa using (ih hh).imp_left (.logged _)
  | report _ ih =>
    cases hh with
    | reported _ hh => simpa using (ih hh).imp_left (.reported _)
  | publish _ ih =>
    cases hh with
    | published _ hh => simpa using (ih hh).imp_left (.published _)
  | announce _ ih =>
    cases hh with
    | announced hh => simpa using (ih hh).imp_left .announced
  | resolve found _ ih =>
    cases hh with
    | looked hf hh => simpa using (ih hh).imp_left (.looked hf)
  | invoke o _ ih =>
    cases hh with
    | called ho hh => simpa using (ih hh).imp_left (.called ho)

end Flow
end Workflow
