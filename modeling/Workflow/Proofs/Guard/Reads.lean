import Workflow.Machine
import Workflow.Proofs.Context.Merge
import Workflow.Proofs.Guard.Evaluation
import Workflow.Proofs.Guard.Parsing
import Workflow.Proofs.Guard.Sizes

/-!
# What a guard reads

A guard reads a context at the paths that are written in it, and nowhere else. A path starts at a
name of the context, and what it leads to depends on the value under that name alone. There is one
exception: where the context has no name of sizes, that name stands for the number of all its names.
So guards none of whose paths starts there have the same answer, or fail for the same reason, in any
two contexts with the same values under the names at which their paths start. Whatever else changes
in the context of a machine, it takes the same transition.

Results:
* `Derivation.paths_tree`: the paths of an expression are those among its tokens, in their order.
* `eval_congr`: an expression reads a context at its paths only.
* `lookup_of_root`: a path reads a context at its first name only.
* `reads_roots`: what contexts must agree in for the answer of a guard, and for the choice of a
  transition.
-/
namespace Workflow.Guard

open Text

/-! ## Paths that are written -/

/-- The path that a token is. -/
def Token.path? : Token → Option (List String)
  | .path names => some names
  | _ => none

@[simp] theorem Token.path?_op (o : Op) : (Token.op o).path? = none := rfl

theorem paths_joined {join : List Expr → Expr} (hj : ∀ es, (join es).paths = Expr.allPaths es)
    (first : Expr) (more : List Expr) :
    (joined join first more).paths = first.paths ++ Expr.allPaths more := by
  cases more with
  | nil => simp [joined, Expr.allPaths]
  | cons e es => simp [joined, hj, Expr.allPaths]

mutual

/-- The paths of the tree are those among the tokens, in their order. -/
theorem Derivation.paths_tree {s : Symbol} :
    ∀ d : Derivation s, d.tree.paths = d.tokens.filterMap Token.path?
  | .disjunction first more => by
    rw [Derivation.tree, paths_joined fun _ => rfl, first.paths_tree, more.paths_trees,
      Derivation.tokens, List.filterMap_append]
  | .conjunction first more => by
    rw [Derivation.tree, paths_joined fun _ => rfl, first.paths_tree, more.paths_trees,
      Derivation.tokens, List.filterMap_append]
  | .notWord d => by
    simpa [Derivation.tree, Derivation.tokens, Expr.paths, List.filterMap_cons] using d.paths_tree
  | .comparison d => d.paths_tree
  | .single d => d.paths_tree
  | .compared l o c _ r => by
    simp [Derivation.tree, Derivation.tokens, Expr.paths, List.filterMap_cons, l.paths_tree,
      r.paths_tree]
  | .bang d => by
    simpa [Derivation.tree, Derivation.tokens, Expr.paths, List.filterMap_cons] using d.paths_tree
  | .minus d => by
    simpa [Derivation.tree, Derivation.tokens, Expr.paths, List.filterMap_cons] using d.paths_tree
  | .primary d => d.paths_tree
  | .literal _ => rfl
  | .path _ => rfl
  | .bracketed d => by
    simpa [Derivation.tree, Derivation.tokens, List.filterMap_cons] using d.paths_tree

theorem Joined.paths_trees {s : Symbol} :
    ∀ m : Joined s, Expr.allPaths m.trees = m.tokens.filterMap Token.path?
  | .nil => rfl
  | .cons o _ next more => by
    simp [Joined.trees, Joined.tokens, Expr.allPaths, List.filterMap_cons, next.paths_tree,
      more.paths_trees]

end

/-- A path of a guard has a first name. -/
theorem ne_nil_of_mem_paths {s : String} {e : Expr} (h : read s = .ok e) {names : List String}
    (hn : names ∈ e.paths) : names ≠ [] := by
  obtain ⟨ts, ht, d, hd, -, rfl⟩ := read_eq_ok_iff.mp h
  rw [d.paths_tree, hd, List.mem_filterMap] at hn
  obtain ⟨t, htm, hpath⟩ := hn
  obtain ⟨⟨token, pos⟩, hl, rfl⟩ := List.mem_map.mp htm
  cases token <;> cases hpath
  obtain ⟨before, c, rest, k, -, -, -, hw⟩ := scan_path ht hl
  rw [(pathToken_eq_path hw).1, Path.segments]
  simp

/-! ## Values -/

variable {context context' : Context}

/-- Contexts in which the paths of an expression lead to the same give it the same value, or the
same fault. -/
theorem eval_congr {e : Expr}
    (h : ∀ names ∈ e.paths, lookup (.obj context') names = lookup (.obj context) names) :
    eval context' e = eval context e := by
  have hc : evaluation context' e = evaluation context e :=
    evaluation_congr e fun names hm => h names (mem_paths_of_leaf e hm)
  rw [← evaluation_outcome, hc, evaluation_outcome]

/-- What a path leads to depends on what stands under its first name. The name of sizes may also
stand for the number of all names. -/
theorem lookup_of_root {root : String} (names : List String)
    (h : Fields.get? context' root = Fields.get? context root)
    (hs : root = sizeName → size? (.obj context') = size? (.obj context)) :
    lookup (.obj context') (root :: names) = lookup (.obj context) (root :: names) := by
  have hb : below? (.obj context') root = below? (.obj context) root := by
    cases hg : Fields.get? context root with
    | some w => simp only [below?, h, hg]
    | none =>
      by_cases hr : root = sizeName
      · subst hr
        have hlen : context'.length = context.length := by
          simpa [size?, Fields.has_eq_isSome, h, hg] using hs rfl
        simp only [below?, h, hg, hlen]
      · simp only [below?, h, hg, hr, if_false]
  simp only [lookup, hb]

/-! ## Guards -/

/-- The names of a context at which the paths of an expression start. -/
def Expr.roots (e : Expr) : List String := e.paths.filterMap List.head?

/-- The names of a context at which the paths of a guard start; none if it cannot be read. -/
def roots : Option String → List String
  | none => []
  | some s =>
    match read (trim s) with
    | .ok e => e.roots
    | .error _ => []

theorem roots_of_read {s : String} {e : Expr} (h : read (trim s) = .ok e) :
    roots (some s) = e.roots := by
  simp only [roots, h]

/-- Two contexts agree in some names: under each of them both have the same value, or neither has
one. -/
def Agree (names : List String) (context context' : Context) : Prop :=
  ∀ name ∈ names, Fields.get? context name = Fields.get? context' name

theorem check_of_agree {guard? : Option String} (h : Agree (roots guard?) context context')
    (hs : sizeName ∈ roots guard? → size? (.obj context') = size? (.obj context)) :
    check guard? context' = check guard? context := by
  cases guard? with
  | none => rfl
  | some s =>
    simp only [check, checkText]
    split
    · rfl
    · cases hr : read (trim s) with
      | error f => rfl
      | ok e =>
        have he : eval context' e = eval context e := by
          refine eval_congr fun names hn => ?_
          obtain ⟨root, names, rfl⟩ := List.exists_cons_of_ne_nil (ne_nil_of_mem_paths hr hn)
          have hroot : root ∈ roots (some s) := by
            rw [roots_of_read hr]
            exact List.mem_filterMap.mpr ⟨_, hn, rfl⟩
          exact lookup_of_root names (h root hroot).symm fun he => hs (he ▸ hroot)
        simp only [he]

/-- Updates under other names leave the contexts in agreement. -/
theorem agree_merge {names : List String} {updates : Fields Value}
    (h : ∀ name ∈ names, updates.has name = false) :
    Agree names context (Fields.merge context updates) := by
  intro name hn
  have hu : ∀ u ∈ [updates], u.has name = false := by simpa using h name hn
  exact (Fields.get?_foldl_merge_of_none hu).symm

end Workflow.Guard

namespace Workflow

open Guard (Agree roots sizeName size? check check_of_agree agree_merge)

/-! ## Machines -/

/-- Transitions for an event are chosen alike on contexts that agree in what their guards read. -/
theorem select_of_agree {context context' : Context} {event : String} {ts : List Transition}
    (h : ∀ t ∈ ts, t.event = event →
      sizeName ∉ roots t.guard ∧ Agree (roots t.guard) context context') :
    select context' event ts = select context event ts := by
  induction ts with
  | nil => rfl
  | cons t ts ih =>
    obtain ⟨ht, hts⟩ := List.forall_mem_cons.mp h
    unfold select
    split
    · rename_i hw
      obtain ⟨hl, ha⟩ := ht hw
      rw [check_of_agree ha fun hr => absurd hr hl, ih hts]
    · exact ih hts

namespace Machine

variable {η : Type}

/-- The machine with updates merged into its context. -/
def updated (m : Machine) (updates : Context) : Machine :=
  { m with live := { m.live with context := Fields.merge m.live.context updates } }

/-- What a machine does about an event once a transition is chosen, or none. -/
def proceed (m : Machine) (e : Event) :
    Except Decimal.TooLong (Option Transition) → Flow η (Except CallFault Bool)
  | .error t => .done (.error (.guardNumeral t))
  | .ok none => .report (.noTransition e.type m.live.state) (.done (.ok false))
  | .ok (some t) => m.take { m.live with started := true } e t

theorem send_eq_proceed {m : Machine} {state : State}
    (h : m.chart.states.get? m.live.state = some state) (e : Event) :
    (m.send e : Flow η _) = .publish { m.live with started := true }
      (.reports ((select m.live.context e.type state.transitions).failures.map .guardFailed)
        (m.proceed e (select m.live.context e.type state.transitions).chosen)) := by
  simp only [send, h]
  rcases (select m.live.context e.type state.transitions).chosen with x | (_ | t) <;> rfl

end Machine

/-- **A guard reads the names that it names.** On contexts that agree in the names at which the
paths of a guard start, and none starts at the name of sizes, the guard has the same answer or fails
for the same reason. Paths may start there as well if the contexts have the same size. So the same
transition is chosen where this holds for the guards of all transitions for the event: a machine
whose context is updated under other names reports the same failures, and goes on with the same
transition. -/
theorem reads_roots (context context' : Context) :
    (∀ guard?, sizeName ∉ roots guard? → Agree (roots guard?) context context' →
      check guard? context' = check guard? context) ∧
    (∀ guard?, Agree (roots guard?) context context' →
      size? (.obj context') = size? (.obj context) → check guard? context' = check guard? context) ∧
    (∀ event ts, (∀ t ∈ ts, t.event = event →
        sizeName ∉ roots t.guard ∧ Agree (roots t.guard) context context') →
      select context' event ts = select context event ts) ∧
    ∀ (η : Type) (m : Machine) (e : Event) (updates : Context) (state : State),
      m.chart.states.get? m.live.state = some state →
      (∀ t ∈ state.transitions, t.event = e.type →
        sizeName ∉ roots t.guard ∧ ∀ name ∈ roots t.guard, updates.has name = false) →
      ∃ s : Selection, s = select m.live.context e.type state.transitions ∧
        (m.send e : Flow η _) = .publish { m.live with started := true }
          (.reports (s.failures.map .guardFailed) (m.proceed e s.chosen)) ∧
        ((m.updated updates).send e : Flow η _) =
          .publish { (m.updated updates).live with started := true }
            (.reports (s.failures.map .guardFailed) ((m.updated updates).proceed e s.chosen)) := by
  refine ⟨fun guard? hl h => check_of_agree h fun hr => absurd hr hl,
    fun guard? h hs => check_of_agree h fun _ => hs, fun event ts => select_of_agree, ?_⟩
  intro η m e updates state hstate hu
  refine ⟨_, rfl, Machine.send_eq_proceed hstate e, ?_⟩
  have hsel : select (Fields.merge m.live.context updates) e.type state.transitions =
      select m.live.context e.type state.transitions :=
    select_of_agree fun t ht hw => ⟨(hu t ht hw).1, agree_merge (hu t ht hw).2⟩
  rw [← hsel]
  exact Machine.send_eq_proceed (m := m.updated updates) hstate e

theorem roots_cart : roots (some "cart.items.0 == 'tea' && !flag") = ["cart", "flag"] := by cbv

/-- A guard on a cart and a flag, on contexts that differ in the user, in a note and in order. -/
theorem reads_roots_cart :
    let context : Context := [("user", .str "Ada"), ("cart", .obj [("items", .list [.str "tea"])])]
    let context' : Context := [("cart", .obj [("items", .list [.str "tea"])]), ("note", .int 7)]
    sizeName ∉ roots (some "cart.items.0 == 'tea' && !flag") ∧
      Agree (roots (some "cart.items.0 == 'tea' && !flag")) context context' ∧
      check (some "cart.items.0 == 'tea' && !flag") context' =
        check (some "cart.items.0 == 'tea' && !flag") context := by
  intro context context'
  have hl : sizeName ∉ roots (some "cart.items.0 == 'tea' && !flag") := by
    rw [roots_cart]
    decide
  have ha : Agree (roots (some "cart.items.0 == 'tea' && !flag")) context context' := by
    rw [roots_cart]
    intro name hn
    rcases List.mem_pair.mp hn with rfl | rfl <;> rfl
  exact ⟨hl, ha, (reads_roots context context').1 _ hl ha⟩

/-- The name of sizes stands for the number of all names. -/
example : Guard.eval [] (.path [sizeName]) = .ok (.int 0) ∧
    Guard.eval [("flag", .null)] (.path [sizeName]) = .ok (.int 1) := ⟨rfl, rfl⟩

end Workflow
