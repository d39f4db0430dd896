import Mathlib.Data.List.TakeWhile
import Workflow.CommandLine.Invocation
import Workflow.Proofs.Call.KeepsDistinct
import Workflow.Proofs.Value.Distinct

/-!
# Words that ask for a run

A switch and its value are spelled in one word, with an equals sign between them, or in two words,
of which the second does not start with a dash. In whichever order and spelling the switches of a
run stand, they are read as what they say.

Results:
* `Spells.takings`: what is taken from a spelling.
* `Asks.readRun`: what is read behind the command.
* `ofWords_asks`: what is read of the whole command line.
* `ofWords_distinct`: a context and events that were read have distinct names.
-/
namespace Workflow.CommandLine

open Text

/-- A value of a switch as it may be spelled. -/
inductive Spells (name text : String) : List String → Prop where
  | joined : Spells name text [name ++ "=" ++ text]
  | apart (h : text.toList.head? ≠ some '-') : Spells name text [name, text]

/-- Words behind the command, and what is read of them on top of what was read before. -/
inductive Asks : RunWords → List String → RunWords → Prop where
  | done (r : RunWords) : Asks r [] r
  | workflow {r r' : RunWords} {text : String} {ws rest : List String}
    (h : Spells "--workflow" text ws) (more : Asks { r with workflow := some text } rest r') :
    Asks r (ws ++ rest) r'
  | context {r r' : RunWords} {text : String} {fields : Context} {ws rest : List String}
    (h : Spells "--context" text ws) (hf : readContext text = .ok fields)
    (more : Asks { r with context := some fields } rest r') : Asks r (ws ++ rest) r'
  | event {r r' : RunWords} {text : String} {e : Event} {ws rest : List String}
    (h : Spells "--event" text ws) (he : readEvent text = .ok e)
    (more : Asks { r with events := r.events ++ [e] } rest r') : Asks r (ws ++ rest) r'

/-- Words in front of the command: the path of the document, if it is given. -/
inductive Heads : Option String → List String → Prop where
  | none : Heads none []
  | path {path : String} {ws : List String} (h : Spells "--logic" path ws) : Heads (some path) ws

/-! ## Names with a value -/

/-- A grammar knows a switch that takes a value by a name of its own, which has no equals sign. -/
structure Knows (g : Grammar) (s : Switch) (name : String) : Prop where
  named : g.named? name.toList = some (s, name)
  dashed : ∃ c cs, name.toList = '-' :: c :: cs
  separate : name ≠ "--"
  plain : '=' ∉ name.toList
  names : ∀ e ∈ g.names, '=' ∉ e.2.toList
  takesValue : s.takesValue = true

theorem splitValue_of_not_mem {cs : List Char} (h : '=' ∉ cs) : splitValue cs = (cs, none) := by
  have hd : cs.dropWhile (· ≠ '=') = [] := List.dropWhile_eq_nil_iff.mpr fun c hc =>
    decide_eq_true fun e => h (e ▸ hc)
  unfold splitValue
  rw [hd]

theorem splitValue_append {cs : List Char} (h : '=' ∉ cs) (text : String) :
    splitValue (cs ++ '=' :: text.toList) = (cs, some text) := by
  have hp : ∀ c ∈ cs, decide (c ≠ '=') = true := by
    simpa using fun c hc (e : c = '=') => h (e ▸ hc)
  unfold splitValue
  rw [List.dropWhile_append_of_pos hp, List.takeWhile_append_of_pos hp]
  simp

variable {g : Grammar} {s : Switch} {name text : String} {ws : List String}

theorem toList_joined (name text : String) :
    (name ++ "=" ++ text).toList = name.toList ++ '=' :: text.toList := by
  simp only [String.toList_append, List.append_assoc]
  rfl

/-- A word with an equals sign is no full name, if no name has one. -/
theorem named?_joined (h : ∀ e ∈ g.names, '=' ∉ e.2.toList) (cs ds : List Char) :
    g.named? (cs ++ '=' :: ds) = none := by
  refine List.find?_eq_none.mpr fun e he heq => h e he ?_
  rw [beq_iff_eq.mp heq]
  simp

theorem Knows.item (h : Knows g s name) : g.item name = .ok (.switch s none) := by
  obtain ⟨c, cs, hn⟩ := h.dashed
  have hnamed := h.named
  unfold Grammar.item
  rw [hn] at hnamed ⊢
  simp only [hnamed]

theorem Knows.item_joined (h : Knows g s name) (text : String) :
    g.item (name ++ "=" ++ text) = .ok (.switch s (some text)) := by
  have hnone := named?_joined h.names name.toList text.toList
  have hsplit := splitValue_append h.plain text
  have hnamed := h.named
  obtain ⟨c, cs, hn⟩ := h.dashed
  unfold Grammar.item
  rw [toList_joined]
  rw [hn] at hnone hsplit hnamed ⊢
  simp only [List.cons_append] at hnone hsplit ⊢
  simp only [hnone, hsplit, hnamed]

theorem joined_ne (name text : String) : name ++ "=" ++ text ≠ "--" := by
  intro h
  have hm : '=' ∈ (name ++ "=" ++ text).toList := by simp
  rw [h] at hm
  exact absurd hm (by decide)

theorem items_cons {g : Grammar} {w : String} {i : Item} {words : List String}
    {is : List (String × Item)} (hw : w ≠ "--") (hi : g.item w = .ok i)
    (his : g.items words = .ok is) : g.items (w :: words) = .ok ((w, i) :: is) := by
  simp only [Grammar.items, hw, if_false, hi, his]

theorem ne_separator_of_head {w : String} (h : w.toList.head? ≠ some '-') : w ≠ "--" := by
  rintro rfl
  exact h rfl

/-- A spelling is taken as the switch with its value. -/
theorem Spells.takings (h : Spells name text ws) (hk : Knows g s name) {rest : List String}
    {is : List (String × Item)} (his : g.items rest = .ok is) :
    ∃ more, g.items (ws ++ rest) = .ok more ∧
      CommandLine.takings g more = .value s text :: CommandLine.takings g is := by
  obtain ⟨names, takesValue⟩ := s
  obtain rfl : takesValue = true := hk.takesValue
  cases h with
  | joined =>
    refine ⟨_, items_cons (joined_ne name text) (hk.item_joined text) his, ?_⟩
    simp [CommandLine.takings, ownTakings]
  | apart ht =>
    refine ⟨_, items_cons hk.separate hk.item
      (items_cons (ne_separator_of_head ht) (item_plain g ht) his), ?_⟩
    simp [CommandLine.takings]

/-! ## The words of a run -/

theorem knows_workflow : Knows runGrammar workflowSwitch "--workflow" :=
  ⟨by decide, ⟨_, _, rfl⟩, by decide, by decide, by decide, rfl⟩

theorem knows_context : Knows runGrammar contextSwitch "--context" :=
  ⟨by decide, ⟨_, _, rfl⟩, by decide, by decide, by decide, rfl⟩

theorem knows_event : Knows runGrammar eventSwitch "--event" :=
  ⟨by decide, ⟨_, _, rfl⟩, by decide, by decide, by decide, rfl⟩

theorem knows_path : Knows mainGrammar pathSwitch "--logic" :=
  ⟨by decide, ⟨_, _, rfl⟩, by decide, by decide, by decide, rfl⟩

theorem take_context (r : RunWords) {fields : Context} (h : readContext text = .ok fields) :
    r.take contextSwitch text = .ok { r with context := some fields } := by
  unfold RunWords.take
  rw [h, if_neg (by decide), if_pos rfl]
  rfl

theorem take_event (r : RunWords) {e : Event} (h : readEvent text = .ok e) :
    r.take eventSwitch text = .ok { r with events := r.events ++ [e] } := by
  unfold RunWords.take
  rw [h, if_neg (by decide), if_neg (by decide)]
  rfl

/-- What words behind the command ask for is read of them. -/
theorem Asks.readRun {r r' : RunWords} {words : List String} (h : Asks r words r') :
    readRun r (runGrammar.takings words) = .ok r' := by
  have read : ∃ is, runGrammar.items words = .ok is ∧
      CommandLine.readRun r (CommandLine.takings runGrammar is) = .ok r' := by
    induction h with
    | done r => exact ⟨[], rfl, rfl⟩
    | workflow h _ ih =>
      obtain ⟨is, his, hr⟩ := ih
      obtain ⟨more, hmore, ht⟩ := h.takings knows_workflow his
      exact ⟨more, hmore, by rw [ht]; exact hr⟩
    | context h hf _ ih =>
      obtain ⟨is, his, hr⟩ := ih
      obtain ⟨more, hmore, ht⟩ := h.takings knows_context his
      exact ⟨more, hmore, by rw [ht, CommandLine.readRun, take_context _ hf]; exact hr⟩
    | event h he _ ih =>
      obtain ⟨is, his, hr⟩ := ih
      obtain ⟨more, hmore, ht⟩ := h.takings knows_event his
      exact ⟨more, hmore, by rw [ht, CommandLine.readRun, take_event _ he]; exact hr⟩
  obtain ⟨is, his, hr⟩ := read
  unfold Grammar.takings
  rw [his]
  exact hr

/-! ## The words of a command line -/

/-- A grammar does not know a long name, nor any name that starts with it. -/
structure Unknown (g : Grammar) (name : String) : Prop where
  dashed : ∃ cs, name.toList = '-' :: '-' :: cs
  separate : name ≠ "--"
  plain : '=' ∉ name.toList
  names : ∀ e ∈ g.names, '=' ∉ e.2.toList ∧ name.toList.isPrefixOf e.2.toList = false

variable {r r' : RunWords} {front args : List String} {path? : Option String}

theorem Unknown.named? (h : Unknown g name) : g.named? name.toList = none :=
  List.find?_eq_none.mpr fun e he heq => by
    have hp := (h.names e he).2
    rw [beq_iff_eq.mp heq, List.isPrefixOf_iff_prefix.mpr (List.prefix_refl _)] at hp
    cases hp

theorem Unknown.dashed_ok (h : Unknown g name) {cs : List Char} {value : Option String}
    (hs : splitValue cs = (name.toList, value)) (hd : ∃ ds, cs = '-' :: '-' :: ds) :
    ∃ i, g.dashed cs = .ok i := by
  have hnone : g.names.filter (fun e => name.toList.isPrefixOf e.2.toList) = [] :=
    List.filter_eq_nil_iff.mpr fun e he => by simp [(h.names e he).2]
  obtain ⟨ds, rfl⟩ := hd
  have hstart : g.starting ('-' :: '-' :: ds) = [] := by
    simp only [Grammar.starting, hs, hnone, List.map_nil]
  unfold Grammar.dashed
  rw [hstart]
  dsimp only
  split
  · exact ⟨_, rfl⟩
  · exact ⟨_, rfl⟩

theorem Unknown.item (h : Unknown g name) : ∃ i, g.item name = .ok i := by
  obtain ⟨cs, hn⟩ := h.dashed
  have hnamed := h.named?
  have hsplit := splitValue_of_not_mem h.plain
  obtain ⟨i, hi⟩ := h.dashed_ok hsplit ⟨cs, hn⟩
  refine ⟨i, ?_⟩
  unfold Grammar.item
  rw [hn] at hnamed hsplit hi ⊢
  simp only [hnamed, hsplit, hi]

theorem Unknown.item_joined (h : Unknown g name) (text : String) :
    ∃ i, g.item (name ++ "=" ++ text) = .ok i := by
  have hnone := named?_joined (fun e he => (h.names e he).1) name.toList text.toList
  have hsplit := splitValue_append h.plain text
  have hnamed := h.named?
  obtain ⟨cs, hn⟩ := h.dashed
  obtain ⟨i, hi⟩ := h.dashed_ok hsplit ⟨cs ++ '=' :: text.toList, by rw [hn]; rfl⟩
  refine ⟨i, ?_⟩
  unfold Grammar.item
  rw [toList_joined]
  rw [hn] at hnone hsplit hnamed hi ⊢
  simp only [List.cons_append] at hnone hsplit hi ⊢
  simp only [hnone, hsplit, hnamed, hi]

/-- A word that is no separator and no fault. -/
def Harmless (g : Grammar) (w : String) : Prop := w ≠ "--" ∧ ∃ i, g.item w = .ok i

theorem Spells.harmless (h : Spells name text ws) (hs : Unknown g name) :
    ∀ w ∈ ws, Harmless g w := by
  cases h with
  | joined =>
    intro w hw
    rw [List.mem_singleton.mp hw]
    exact ⟨joined_ne name text, hs.item_joined text⟩
  | apart ht =>
    intro w hw
    obtain rfl | hw := List.mem_cons.mp hw
    · exact ⟨hs.separate, hs.item⟩
    · rw [List.mem_singleton.mp hw]
      exact ⟨ne_separator_of_head ht, _, item_plain g ht⟩

theorem unknown_workflow : Unknown mainGrammar "--workflow" :=
  ⟨⟨_, rfl⟩, by decide, by decide, by decide⟩

theorem unknown_context : Unknown mainGrammar "--context" :=
  ⟨⟨_, rfl⟩, by decide, by decide, by decide⟩

theorem unknown_event : Unknown mainGrammar "--event" :=
  ⟨⟨_, rfl⟩, by decide, by decide, by decide⟩

theorem Asks.harmless (h : Asks r args r') : ∀ w ∈ args, Harmless mainGrammar w := by
  induction h with
  | done r => simp
  | workflow h _ ih => exact List.forall_mem_append.mpr ⟨h.harmless unknown_workflow, ih⟩
  | context h _ _ ih => exact List.forall_mem_append.mpr ⟨h.harmless unknown_context, ih⟩
  | event h _ _ ih => exact List.forall_mem_append.mpr ⟨h.harmless unknown_event, ih⟩

theorem items_of_harmless {words : List String} (h : ∀ w ∈ words, Harmless g w) :
    ∃ is, g.items words = .ok is ∧ is.map Prod.fst = words := by
  induction words with
  | nil => exact ⟨[], rfl, rfl⟩
  | cons w words ih =>
    obtain ⟨⟨hw, i, hi⟩, hrest⟩ := List.forall_mem_cons.mp h
    obtain ⟨is, his, hmap⟩ := ih hrest
    exact ⟨_, items_cons hw hi his, by rw [List.map_cons, hmap]⟩

theorem Asks.extras (h : Asks r args r') : r'.extras = r.extras := by
  induction h with
  | done r => rfl
  | workflow _ _ ih => exact ih
  | context _ _ _ ih => exact ih
  | event _ _ _ ih => exact ih

theorem Heads.read (h : Heads path? front) {words : List String} {is : List (String × Item)}
    (his : mainGrammar.items words = .ok is) :
    readMain {} (mainGrammar.takings (front ++ words)) =
      readMain { path := path? } (CommandLine.takings mainGrammar is) := by
  unfold Grammar.takings
  cases h with
  | none => rw [List.nil_append, his]
  | path h =>
    obtain ⟨more, hmore, ht⟩ := h.takings knows_path his
    rw [hmore]
    simp only [ht]
    rfl

/-- A command line in any spelling is read as what it asks for. -/
theorem ofWords_asks (hh : Heads path? front) (ha : Asks {} args r) {workflow : String}
    (hw : r.workflow = some workflow) :
    Invocation.ofWords (front ++ "run" :: args) =
      .ok { path := path?, command := .run workflow r.context r.events } := by
  obtain ⟨is, his, hmap⟩ := items_of_harmless ha.harmless
  have hitems : mainGrammar.items ("run" :: args) = .ok (("run", .word "run") :: is) :=
    items_cons (by decide) (item_plain _ (by decide)) his
  unfold Invocation.ofWords
  rw [hh.read hitems, takings_command _ (by decide), hmap]
  simp only [readMain, readCommand, ha.readRun, hw, MainWords.finish, ha.extras, List.append_nil]

/-! ## Distinct names -/

theorem readContext_distinct {fields : Context} (h : readContext text = .ok fields) :
    (Value.obj fields).Distinct := by
  unfold readContext at h
  split at h
  · cases h
  · rename_i hr
    cases h
    exact Json.distinct_of_read hr
  · cases h

theorem readEvent_distinct {e : Event} (h : readEvent text = .ok e) : e.Distinct := by
  unfold readEvent at h
  dsimp only at h
  split at h
  · cases h
  split at h
  · rw [← Except.ok.inj h]
    exact fun _ hp => by cases hp
  · obtain ⟨payload, hr, rfl⟩ := except_map_ok_iff.mp h
    intro p hp
    cases hp
    exact readContext_distinct hr

/-- The values of a run have distinct names. -/
structure RunWords.Distinct (r : RunWords) : Prop where
  context : ∀ fields, r.context = some fields → (Value.obj fields).Distinct
  events : ∀ e ∈ r.events, e.Distinct

def Command.Distinct : Command → Prop
  | .run _ context events =>
    (∀ fields, context = some fields → (Value.obj fields).Distinct) ∧ ∀ e ∈ events, e.Distinct
  | _ => True

theorem RunWords.Distinct.take (h : r.Distinct) (ht : r.take s text = .ok r') : r'.Distinct := by
  unfold RunWords.take at ht
  dsimp only at ht
  split at ht
  · cases ht
    exact ⟨h.context, h.events⟩
  split at ht
  · obtain ⟨fields, hr, rfl⟩ := except_map_ok_iff.mp ht
    have hd := readContext_distinct (except_mapError_ok_iff.mp hr)
    exact ⟨fun _ he => Option.some.inj he ▸ hd, h.events⟩
  · obtain ⟨e, hr, rfl⟩ := except_map_ok_iff.mp ht
    have hd := readEvent_distinct (except_mapError_ok_iff.mp hr)
    exact ⟨h.context, List.forall_mem_append.mpr ⟨h.events, List.forall_mem_singleton.mpr hd⟩⟩

theorem RunWords.Distinct.read {ts : List Taking} (h : r.Distinct)
    (hr : CommandLine.readRun r ts = .ok r') : r'.Distinct := by
  fun_induction CommandLine.readRun r ts with
  | case1 r =>
    cases hr
    exact h
  | case2 r s text rest r₁ ht ih => exact ih (h.take ht) hr
  | case3 => cases hr
  | case4 r word rest ih => exact ih ⟨h.context, h.events⟩ hr
  | case5 => cases hr
  | case6 => cases hr
  | case7 r words rest ih => exact ih h hr

theorem readCommand_distinct {words extras : List String} {command : Command}
    (h : readCommand words = .ok (command, extras)) : command.Distinct := by
  unfold readCommand at h
  split at h
  · obtain ⟨_, -, he⟩ := except_map_ok_iff.mp h
    cases he
    trivial
  · obtain ⟨_, -, he⟩ := except_map_ok_iff.mp h
    cases he
    trivial
  · split at h
    · cases h
    rename_i hr
    split at h
    · cases h
      have hd : RunWords.Distinct {} := ⟨(fun _ h => by cases h), (fun _ h => by cases h)⟩
      exact ⟨(hd.read hr).context, (hd.read hr).events⟩
    · cases h
  · cases h
  · cases h

theorem readMain_distinct {m : MainWords} {ts : List Taking} {i : Invocation}
    (h : readMain m ts = .ok i) : i.command.Distinct := by
  fun_induction readMain m ts with
  | case1 => cases h
  | case2 => cases h
  | case3 m words rest command extras hc =>
    unfold MainWords.finish at h
    split at h
    · cases h
      exact readCommand_distinct hc
    · cases h
  | case4 m _ text rest ih => exact ih h
  | case5 m word rest ih => exact ih h
  | case6 => cases h
  | case7 => cases h

/-- A context and events that were read from words have distinct names. -/
theorem ofWords_distinct {words : List String} {i : Invocation}
    (h : Invocation.ofWords words = .ok i) : i.command.Distinct :=
  readMain_distinct h

end Workflow.CommandLine
