import Mathlib
import Workflow.Guard.Check
import Workflow.Proofs.Guard.Grammar

/-!
# The parser of guards reads the grammar

`Takes p ts e rest` says that a parser takes a phrase from the front of `ts`, with the tree `e`, and
leaves `rest`. One lemma for each parser says what it takes in terms of the parsers that it calls.

`Reads p s n` ties a parser to a symbol of the grammar: it takes exactly the phrases of the symbol
that nest less than `n` levels deep and stop where they end. The parsers for one more level are
those of the level below with a bracket or a negation in front, so `reads_inner` is an induction on
the levels.

Results:
* `reads_disjunction`: the parser of whole guards reads disjunctions.
* `parse_eq_ok_iff`, `read_eq_ok_iff`: what the parser takes and gives.
* `read_derivation`: a guard is read exactly if its tokens have a derivation that nests at most
  sixty-four levels deep, and the expression is the tree of that derivation, the only one there is.
-/
namespace Workflow.Guard

/-- A parser takes a phrase with the tree `e` from the front of `ts`, and leaves `rest`. -/
def Takes (p : Parser) (ts : List Located) (e : Expr) (rest : List Located) : Prop :=
  ∃ h, p ts = .ok (e, ⟨rest, h⟩)

/-- The further operands of a chain are taken from the front of `ts`. -/
def TakesMore (joins : Op → Bool) (p : Parser) (ts : List Located) (es : List Expr)
    (rest : List Located) : Prop := ∃ h, tail joins p ts = .ok (es, ⟨rest, h⟩)

variable {p : Parser} {s : Symbol} {n stop : Nat} {i : Inner} {joins : Op → Bool}
  {ts rest : List Located} {e : Expr} {es : List Expr}

/-! ## What each parser takes -/

theorem takes_of_eq {r : Expr × Rest ts} (h : p ts = .ok r) : Takes p ts r.1 r.2.1 := ⟨r.2.2, h⟩

theorem not_takes_of_error {f : ParseFault} (h : p ts = .error f) : ¬ Takes p ts e rest := by
  rintro ⟨_, h'⟩; rw [h] at h'; cases h'

theorem takesMore_nil (h : ∀ o us, rest.map (·.token) = .op o :: us → joins o = false) :
    TakesMore joins p rest [] rest := by
  refine ⟨Nat.le_refl _, ?_⟩
  rw [tail.eq_def]
  split
  · rename_i o pos us
    rw [if_neg (by simp [h o _ rfl])]
  · rfl

theorem takesMore_cons {o : Op} {pos : Nat} {us rest1 : List Located} (ho : joins o = true)
    (h1 : Takes p us e rest1) (h2 : TakesMore joins p rest1 es rest) :
    TakesMore joins p (⟨.op o, pos⟩ :: us) (e :: es) rest := by
  obtain ⟨l1, e1⟩ := h1
  obtain ⟨l2, e2⟩ := h2
  refine ⟨by rw [List.length_cons]; omega, ?_⟩
  rw [tail.eq_def]
  simp [ho, e1, e2, Except.map]

theorem takesMore_cases (h : TakesMore joins p ts es rest) : (es = [] ∧ ts = rest) ∨
    ∃ o pos us e rest1 es', ts = ⟨.op o, pos⟩ :: us ∧ joins o = true ∧ Takes p us e rest1 ∧
      TakesMore joins p rest1 es' rest ∧ es = e :: es' := by
  obtain ⟨hl, h⟩ := h
  rw [tail.eq_def] at h
  split at h
  · rename_i o pos us
    split at h
    · rename_i ho
      split at h
      · cases h
      · rename_i e rest1 hlt he
        cases ht : tail joins p rest1 with
        | error f => simp [ht, Except.map] at h
        | ok r =>
          simp only [ht, Except.map, Except.ok.injEq, Prod.mk.injEq, Subtype.mk.injEq] at h
          obtain ⟨rfl, rfl⟩ := h
          exact .inr ⟨o, pos, us, e, rest1, r.1, rfl, ho, ⟨hlt, he⟩, ⟨r.2.2, ht⟩, rfl⟩
    · cases h
      exact .inl ⟨rfl, rfl⟩
  · cases h
    exact .inl ⟨rfl, rfl⟩

theorem takes_chain_iff {join : List Expr → Expr} : Takes (chain joins join p) ts e rest ↔
    ∃ e1 rest1 es, Takes p ts e1 rest1 ∧ TakesMore joins p rest1 es rest ∧
      e = joined join e1 es := by
  constructor
  · rintro ⟨hl, h⟩
    unfold chain at h
    split at h
    · cases h
    · rename_i e1 rest1 hlt he
      cases ht : tail joins p rest1 with
      | error f => simp [ht, Except.map] at h
      | ok r =>
        simp only [ht, Except.map, Except.ok.injEq, Prod.mk.injEq, Subtype.mk.injEq] at h
        obtain ⟨rfl, rfl⟩ := h
        exact ⟨e1, rest1, r.1, ⟨hlt, he⟩, ⟨r.2.2, ht⟩, rfl⟩
  · rintro ⟨e1, rest1, es, ⟨l1, h1⟩, ⟨l2, h2⟩, rfl⟩
    refine ⟨by omega, ?_⟩
    unfold chain
    simp [h1, h2, Except.map, joined]

theorem under_eq_ok_iff {wrap : Expr → Expr} {t : Located} {us : List Located}
    {h : rest.length < (t :: us).length} :
    under wrap p t us = .ok (e, ⟨rest, h⟩) ↔ ∃ e1, Takes p us e1 rest ∧ e = wrap e1 := by
  unfold under
  cases hp : p us with
  | error f => simp [Except.map, not_takes_of_error hp]
  | ok r =>
    simp only [Except.map, Except.ok.injEq, Prod.mk.injEq, Subtype.mk.injEq]
    constructor
    · rintro ⟨rfl, rfl⟩; exact ⟨r.1, takes_of_eq hp, rfl⟩
    · rintro ⟨e1, ⟨_, h1⟩, rfl⟩
      rw [hp] at h1; cases h1
      exact ⟨rfl, rfl⟩

theorem bracketed_eq_ok_iff {t : Located} {us : List Located}
    {h : rest.length < (t :: us).length} :
    bracketed stop p t us = .ok (e, ⟨rest, h⟩) ↔
      ∃ pos, Takes p us e (⟨.op .closing, pos⟩ :: rest) := by
  unfold bracketed
  constructor
  · intro h
    split at h
    · cases h
    · rename_i e1 rest1 hl hp
      split at h
      · cases h
        exact ⟨_, _, hp⟩
      · cases h
  · rintro ⟨pos, hl, hp⟩
    simp [hp]

theorem takes_primary_iff : Takes (primary stop i) ts e rest ↔
    (∃ v pos, ts = ⟨.literal v, pos⟩ :: rest ∧ e = .literal v) ∨
    (∃ names pos, ts = ⟨.path names, pos⟩ :: rest ∧ e = .path names) ∨
    ∃ pos pos' us, ts = ⟨.op .opening, pos⟩ :: us ∧
      Takes i.disjunction us e (⟨.op .closing, pos'⟩ :: rest) := by
  constructor
  · rintro ⟨hl, h⟩
    unfold primary at h
    split at h
    · cases h
    · cases h; exact .inl ⟨_, _, rfl, rfl⟩
    · cases h; exact .inr (.inl ⟨_, _, rfl, rfl⟩)
    · obtain ⟨pos', h'⟩ := bracketed_eq_ok_iff.mp h
      exact .inr (.inr ⟨_, pos', _, rfl, h'⟩)
    · cases h
  · rintro (⟨v, pos, rfl, rfl⟩ | ⟨names, pos, rfl, rfl⟩ | ⟨pos, pos', us, rfl, h⟩)
    · exact ⟨by simp, rfl⟩
    · exact ⟨by simp, rfl⟩
    · have hl := h.1
      exact ⟨by simp only [List.length_cons] at hl ⊢; omega, bracketed_eq_ok_iff.mpr ⟨pos', h⟩⟩

theorem takes_unary_iff : Takes (unary stop i) ts e rest ↔
    (∃ pos us e1, ts = ⟨.op .bang, pos⟩ :: us ∧ Takes i.unary us e1 rest ∧ e = .not e1) ∨
    (∃ pos us e1, ts = ⟨.op .minus, pos⟩ :: us ∧ Takes i.unary us e1 rest ∧ e = .negate e1) ∨
    Takes (primary stop i) ts e rest := by
  constructor
  · rintro ⟨hl, h⟩
    unfold unary at h
    split at h
    · obtain ⟨e1, h1, rfl⟩ := under_eq_ok_iff.mp h
      exact .inl ⟨_, _, e1, rfl, h1, rfl⟩
    · obtain ⟨e1, h1, rfl⟩ := under_eq_ok_iff.mp h
      exact .inr (.inl ⟨_, _, e1, rfl, h1, rfl⟩)
    · exact .inr (.inr ⟨hl, h⟩)
  · rintro (⟨pos, us, e1, rfl, h, rfl⟩ | ⟨pos, us, e1, rfl, h, rfl⟩ | h)
    · have hl := h.1
      exact ⟨by rw [List.length_cons]; omega, under_eq_ok_iff.mpr ⟨e1, h, rfl⟩⟩
    · have hl := h.1
      exact ⟨by rw [List.length_cons]; omega, under_eq_ok_iff.mpr ⟨e1, h, rfl⟩⟩
    · obtain ⟨hl, h⟩ := h
      refine ⟨hl, ?_⟩
      unfold unary
      split
      · cases h
      · cases h
      · exact h

theorem leadingComparison?_eq_some {c : Comparison} (h : leadingComparison? ts = some c) :
    ∃ o pos us, ts = ⟨.op o, pos⟩ :: us ∧ comparison? o = some c := by
  unfold leadingComparison? at h
  split at h
  · exact ⟨_, _, _, rfl, h⟩
  · cases h

theorem takes_rightSide_iff : Takes (rightSide stop i) ts e rest ↔
    Takes (unary stop i) ts e rest ∧ leadingComparison? rest = none := by
  constructor
  · rintro ⟨hl, h⟩
    unfold rightSide at h
    split at h
    · cases h
    · rename_i r rest1 hlt hu
      split at h
      · cases h
      · rename_i hn
        cases h
        exact ⟨⟨hlt, hu⟩, by simpa using hn⟩
  · rintro ⟨⟨hl, h⟩, hn⟩
    refine ⟨hl, ?_⟩
    unfold rightSide
    simp [h, hn]

theorem takes_comparison_iff : Takes (comparison stop i) ts e rest ↔
    leadingComparison? rest = none ∧ (Takes (unary stop i) ts e rest ∨
      ∃ l o pos c us r, Takes (unary stop i) ts l (⟨.op o, pos⟩ :: us) ∧ comparison? o = some c ∧
        Takes (unary stop i) us r rest ∧ e = .compare c l r) := by
  constructor
  · rintro ⟨hl, h⟩
    unfold comparison at h
    split at h
    · cases h
    · rename_i l rest1 hlt hu
      split at h
      · rename_i t us c hl1 hc
        obtain ⟨o, pos, us', e', ho⟩ := leadingComparison?_eq_some hc
        cases e'
        cases hr : rightSide stop i us with
        | error f => simp [hr, Except.map] at h
        | ok r =>
          simp only [hr, Except.map, Except.ok.injEq, Prod.mk.injEq, Subtype.mk.injEq] at h
          obtain ⟨rfl, rfl⟩ := h
          obtain ⟨h1, h2⟩ := takes_rightSide_iff.mp (takes_of_eq hr)
          exact ⟨h2, .inr ⟨l, o, pos, c, us, r.1, ⟨hl1, hu⟩, ho, h1, rfl⟩⟩
      · rename_i hno
        cases h
        refine ⟨?_, .inl (takes_of_eq hu)⟩
        cases hc : leadingComparison? rest with
        | none => rfl
        | some c =>
          obtain ⟨o, pos, us, rfl, -⟩ := leadingComparison?_eq_some hc
          exact (hno _ us c hl rfl hc HEq.rfl).elim
  · rintro ⟨hn, ⟨hl, h⟩ | ⟨l, o, pos, c, us, r, ⟨hl, h⟩, ho, hr, rfl⟩⟩
    · refine ⟨hl, ?_⟩
      unfold comparison
      simp only [h]
      split
      · rename_i hc
        rw [hn] at hc; cases hc
      · rfl
    · obtain ⟨hl2, h2⟩ := takes_rightSide_iff.mpr ⟨hr, hn⟩
      rw [List.length_cons] at hl
      refine ⟨by omega, ?_⟩
      unfold comparison
      simp [h, leadingComparison?, ho, h2, Except.map]

theorem takes_negation_iff : Takes (negation stop i) ts e rest ↔
    (∃ pos us e1, ts = ⟨.op .notWord, pos⟩ :: us ∧ Takes i.negation us e1 rest ∧ e = .not e1) ∨
    Takes (comparison stop i) ts e rest := by
  constructor
  · rintro ⟨hl, h⟩
    unfold negation at h
    split at h
    · obtain ⟨e1, h1, rfl⟩ := under_eq_ok_iff.mp h
      exact .inl ⟨_, _, e1, rfl, h1, rfl⟩
    · exact .inr ⟨hl, h⟩
  · rintro (⟨pos, us, e1, rfl, h, rfl⟩ | h)
    · have hl := h.1
      exact ⟨by rw [List.length_cons]; omega, under_eq_ok_iff.mpr ⟨e1, h, rfl⟩⟩
    · obtain ⟨hl, h⟩ := h
      refine ⟨hl, ?_⟩
      unfold negation
      split
      · cases h
      · exact h

/-! ## Parsers and symbols -/

/-- A parser reads the phrases of a symbol that nest less than `n` levels deep. -/
structure Reads (p : Parser) (s : Symbol) (n : Nat) : Prop where
  sound : ∀ {ts e rest}, Takes p ts e rest → ∃ (d : Derivation s) (us : List Located),
    ts = us ++ rest ∧ us.map (·.token) = d.tokens ∧ d.tree = e ∧ d.nesting < n
  complete : ∀ (d : Derivation s) (rest : List Located) {us : List Located},
    us.map (·.token) = d.tokens → s.Stops (rest.map (·.token)) → d.nesting < n →
    Takes p (us ++ rest) d.tree rest

theorem map_token_eq_cons {us : List Located} {t : Token} {ks : List Token}
    (h : us.map (·.token) = t :: ks) : ∃ pos vs, us = ⟨t, pos⟩ :: vs ∧ vs.map (·.token) = ks := by
  obtain ⟨u, vs, rfl, rfl, rfl⟩ := List.map_eq_cons_iff.mp h
  exact ⟨u.pos, vs, rfl, rfl⟩

theorem leadingComparison?_of_stops
    (h : ∀ o us, rest.map (·.token) = .op o :: us → (comparison? o).isSome = false) :
    leadingComparison? rest = none := by
  cases hc : leadingComparison? rest with
  | none => rfl
  | some c =>
    obtain ⟨o, pos, us, rfl, ho⟩ := leadingComparison?_eq_some hc
    have := h o _ rfl
    rw [ho] at this; cases this

theorem takesMore_sound (hp : Reads p s (n + 1)) (ts : List Located) : ∀ es,
    TakesMore s.joins p ts es rest → ∃ (m : Joined s) (us : List Located),
      ts = us ++ rest ∧ us.map (·.token) = m.tokens ∧ m.trees = es ∧ m.nesting < n + 1 := by
  induction hl : ts.length using Nat.strongRecOn generalizing ts with
  | ind l ih =>
    intro es h
    rcases takesMore_cases h with ⟨rfl, rfl⟩ | ⟨o, pos, us, e, rest1, es', rfl, ho, h1, h2, rfl⟩
    · exact ⟨.nil, [], rfl, rfl, rfl, Nat.succ_pos n⟩
    · have hlt := h1.1
      rw [List.length_cons] at hl
      obtain ⟨m, ws, rfl, hm, rfl, hmn⟩ := ih rest1.length (by omega) rest1 rfl es' h2
      obtain ⟨d, vs, rfl, hd, rfl, hdn⟩ := hp.sound h1
      refine ⟨.cons o ho d m, ⟨.op o, pos⟩ :: (vs ++ ws), by simp, ?_, rfl, ?_⟩
      · simp [Joined.tokens, hd, hm]
      · simp only [Joined.nesting]; omega

theorem takesMore_complete (hp : Reads p s (n + 1)) : ∀ (m : Joined s) {us rest : List Located},
    us.map (·.token) = m.tokens → s.Ends (rest.map (·.token)) → m.nesting < n + 1 →
      TakesMore s.joins p (us ++ rest) m.trees rest
  | .nil, us, rest, hu, hr, _ => by
    obtain rfl := List.map_eq_nil_iff.mp hu
    exact takesMore_nil hr.2
  | .cons o ho next more, us, rest, hu, hr, hn => by
    obtain ⟨pos, vs, rfl, hv⟩ := map_token_eq_cons hu
    obtain ⟨v1, v2, rfl, h1, h2⟩ := List.map_eq_append_iff.mp hv
    simp only [Joined.nesting] at hn
    have hs : s.Stops ((v2 ++ rest).map (·.token)) := by
      rw [List.map_append, h2]
      exact more.stops hr
    have t1 := hp.complete next (v2 ++ rest) h1 hs (by omega)
    have t2 := takesMore_complete hp more h2 hr (by omega)
    rw [← List.append_assoc] at t1
    exact takesMore_cons ho t1 t2

theorem reads_primary (h : Reads i.disjunction .disjunction n) :
    Reads (primary stop i) .primary (n + 1) where
  sound ht := by
    rcases takes_primary_iff.mp ht with ⟨v, pos, rfl, rfl⟩ | ⟨names, pos, rfl, rfl⟩ |
      ⟨pos, pos', us, rfl, h1⟩
    · exact ⟨.literal v, [⟨.literal v, pos⟩], rfl, rfl, rfl, Nat.succ_pos n⟩
    · exact ⟨.path names, [⟨.path names, pos⟩], rfl, rfl, rfl, Nat.succ_pos n⟩
    · obtain ⟨d, vs, rfl, hd, rfl, hn⟩ := h.sound h1
      refine ⟨.bracketed d, ⟨.op .opening, pos⟩ :: (vs ++ [⟨.op .closing, pos'⟩]), by simp, ?_, rfl,
        ?_⟩
      · simp [Derivation.tokens, hd]
      · simp only [Derivation.nesting]; omega
  complete d rest us hu hr hn := by
    cases d with
    | literal v =>
      obtain ⟨pos, vs, rfl, hv⟩ := map_token_eq_cons hu
      obtain rfl := List.map_eq_nil_iff.mp hv
      exact takes_primary_iff.mpr (.inl ⟨v, pos, rfl, rfl⟩)
    | path names =>
      obtain ⟨pos, vs, rfl, hv⟩ := map_token_eq_cons hu
      obtain rfl := List.map_eq_nil_iff.mp hv
      exact takes_primary_iff.mpr (.inr (.inl ⟨names, pos, rfl, rfl⟩))
    | bracketed d =>
      obtain ⟨pos, vs, rfl, hv⟩ := map_token_eq_cons hu
      obtain ⟨v1, v2, rfl, h1, h2⟩ := List.map_eq_append_iff.mp hv
      obtain ⟨pos', v3, rfl, h3⟩ := map_token_eq_cons h2
      obtain rfl := List.map_eq_nil_iff.mp h3
      simp only [Derivation.nesting] at hn
      refine takes_primary_iff.mpr (.inr (.inr ⟨pos, pos', _, rfl, ?_⟩))
      have := h.complete d (⟨.op .closing, pos'⟩ :: rest) h1 (stops_closing _) (by omega)
      simpa [Derivation.tree] using this

theorem reads_unary (h : Reads i.unary .unary n) (hp : Reads (primary stop i) .primary (n + 1)) :
    Reads (unary stop i) .unary (n + 1) where
  sound ht := by
    rcases takes_unary_iff.mp ht with ⟨pos, us, e1, rfl, h1, rfl⟩ | ⟨pos, us, e1, rfl, h1, rfl⟩ | h1
    · obtain ⟨d, vs, rfl, hd, rfl, hn⟩ := h.sound h1
      refine ⟨.bang d, ⟨.op .bang, pos⟩ :: vs, rfl, by simp [Derivation.tokens, hd], rfl, ?_⟩
      simp only [Derivation.nesting]; omega
    · obtain ⟨d, vs, rfl, hd, rfl, hn⟩ := h.sound h1
      refine ⟨.minus d, ⟨.op .minus, pos⟩ :: vs, rfl, by simp [Derivation.tokens, hd], rfl, ?_⟩
      simp only [Derivation.nesting]; omega
    · obtain ⟨d, vs, rfl, hd, rfl, hn⟩ := hp.sound h1
      exact ⟨.primary d, vs, rfl, hd, rfl, hn⟩
  complete d rest us hu hr hn := by
    cases d with
    | bang d =>
      obtain ⟨pos, vs, rfl, hv⟩ := map_token_eq_cons hu
      simp only [Derivation.nesting] at hn
      exact takes_unary_iff.mpr
        (.inl ⟨pos, _, d.tree, rfl, h.complete d rest hv (stops_unary _) (by omega), rfl⟩)
    | minus d =>
      obtain ⟨pos, vs, rfl, hv⟩ := map_token_eq_cons hu
      simp only [Derivation.nesting] at hn
      exact takes_unary_iff.mpr
        (.inr (.inl ⟨pos, _, d.tree, rfl, h.complete d rest hv (stops_unary _) (by omega), rfl⟩))
    | primary d => exact takes_unary_iff.mpr (.inr (.inr (hp.complete d rest hu hr hn)))

theorem reads_comparison (hu : Reads (unary stop i) .unary (n + 1)) :
    Reads (comparison stop i) .comparison (n + 1) where
  sound ht := by
    obtain ⟨-, h1 | ⟨l, o, pos, c, us, r, h1, ho, h2, rfl⟩⟩ := takes_comparison_iff.mp ht
    · obtain ⟨d, vs, rfl, hd, rfl, hn⟩ := hu.sound h1
      exact ⟨.single d, vs, rfl, hd, rfl, hn⟩
    · obtain ⟨d1, v1, rfl, hd1, rfl, hn1⟩ := hu.sound h1
      obtain ⟨d2, v2, rfl, hd2, rfl, hn2⟩ := hu.sound h2
      refine ⟨.compared d1 o c ho d2, v1 ++ ⟨.op o, pos⟩ :: v2, by simp, ?_, rfl, ?_⟩
      · simp [Derivation.tokens, hd1, hd2]
      · simp only [Derivation.nesting]; omega
  complete d rest us he hr hn := by
    have hlead := leadingComparison?_of_stops hr
    cases d with
    | single d =>
      exact takes_comparison_iff.mpr ⟨hlead, .inl (hu.complete d rest he (stops_unary _) hn)⟩
    | compared l o c hc r =>
      obtain ⟨v1, v2, rfl, h1, h2⟩ := List.map_eq_append_iff.mp he
      obtain ⟨pos, v3, rfl, h3⟩ := map_token_eq_cons h2
      simp only [Derivation.nesting] at hn
      have t1 := hu.complete l (⟨.op o, pos⟩ :: (v3 ++ rest)) h1 (stops_unary _) (by omega)
      have t2 := hu.complete r rest h3 (stops_unary _) (by omega)
      refine takes_comparison_iff.mpr
        ⟨hlead, .inr ⟨l.tree, o, pos, c, v3 ++ rest, r.tree, ?_, hc, t2, rfl⟩⟩
      simpa using t1

theorem reads_negation (h : Reads i.negation .negation n)
    (hc : Reads (comparison stop i) .comparison (n + 1)) :
    Reads (negation stop i) .negation (n + 1) where
  sound ht := by
    rcases takes_negation_iff.mp ht with ⟨pos, us, e1, rfl, h1, rfl⟩ | h1
    · obtain ⟨d, vs, rfl, hd, rfl, hn⟩ := h.sound h1
      refine ⟨.notWord d, ⟨.op .notWord, pos⟩ :: vs, rfl, by simp [Derivation.tokens, hd], rfl, ?_⟩
      simp only [Derivation.nesting]; omega
    · obtain ⟨d, vs, rfl, hd, rfl, hn⟩ := hc.sound h1
      exact ⟨.comparison d, vs, rfl, hd, rfl, hn⟩
  complete d rest us hu hr hn := by
    cases d with
    | notWord d =>
      obtain ⟨pos, vs, rfl, hv⟩ := map_token_eq_cons hu
      simp only [Derivation.nesting] at hn
      exact takes_negation_iff.mpr
        (.inl ⟨pos, _, d.tree, rfl, h.complete d rest hv hr (by omega), rfl⟩)
    | comparison d => exact takes_negation_iff.mpr (.inr (hc.complete d rest hu hr hn))

/-- A chain of phrases of `s` is a phrase of `s'`, whose derivations `mk` makes. -/
theorem reads_chain {s' : Symbol} {join : List Expr → Expr}
    (mk : Derivation s → Joined s → Derivation s')
    (cover : ∀ d : Derivation s', ∃ first more, d = mk first more)
    (tokens : ∀ first more, (mk first more).tokens = first.tokens ++ more.tokens)
    (tree : ∀ first more, (mk first more).tree = joined join first.tree more.trees)
    (nesting : ∀ first more, (mk first more).nesting = max first.nesting more.nesting)
    (ends : ∀ ks, s'.Stops ks → s.Ends ks) (h : Reads p s (n + 1)) :
    Reads (chain s.joins join p) s' (n + 1) where
  sound ht := by
    obtain ⟨e1, rest1, es, h1, h2, rfl⟩ := takes_chain_iff.mp ht
    obtain ⟨m, v2, rfl, hm, rfl, hmn⟩ := takesMore_sound h rest1 es h2
    obtain ⟨d, v1, rfl, hd, rfl, hdn⟩ := h.sound h1
    refine ⟨mk d m, v1 ++ v2, by simp, by simp [tokens, hd, hm], tree d m, ?_⟩
    rw [nesting]; omega
  complete d rest us hu hr hn := by
    obtain ⟨first, more, rfl⟩ := cover d
    rw [tokens] at hu
    rw [nesting] at hn
    obtain ⟨v1, v2, rfl, h1, h2⟩ := List.map_eq_append_iff.mp hu
    have he := ends _ hr
    have hs : s.Stops ((v2 ++ rest).map (·.token)) := by
      rw [List.map_append, h2]
      exact more.stops he
    have t1 := h.complete first (v2 ++ rest) h1 hs (by omega)
    have t2 := takesMore_complete h more h2 he (by omega)
    rw [← List.append_assoc] at t1
    exact takes_chain_iff.mpr ⟨first.tree, v2 ++ rest, more.trees, t1, t2, tree first more⟩

theorem reads_conjunction (h : Reads (negation stop i) .negation (n + 1)) :
    Reads (conjunction stop i) .conjunction (n + 1) :=
  reads_chain .conjunction (fun d => by cases d with | conjunction f m => exact ⟨f, m, rfl⟩)
    (fun _ _ => rfl) (fun _ _ => rfl) (fun _ _ => rfl) (fun _ => ends_of_stops_conjunction) h

theorem reads_disjunction (h : Reads (conjunction stop i) .conjunction (n + 1)) :
    Reads (disjunction stop i) .disjunction (n + 1) :=
  reads_chain .disjunction (fun d => by cases d with | disjunction f m => exact ⟨f, m, rfl⟩)
    (fun _ _ => rfl) (fun _ _ => rfl) (fun _ _ => rfl) (fun _ => ends_of_stops_disjunction) h

/-! ## Levels -/

structure Inner.ReadsAll (i : Inner) (n : Nat) : Prop where
  disjunction : Reads i.disjunction .disjunction n
  negation : Reads i.negation .negation n
  unary : Reads i.unary .unary n

theorem reads_nothing (s : Symbol) : Reads (fun _ => .error .tooDeep) s 0 where
  sound ht := (not_takes_of_error rfl ht).elim
  complete _ _ _ _ _ hn := absurd hn (Nat.not_lt_zero _)

theorem reads_level (stop : Nat) (h : i.ReadsAll n) :
    Reads (unary stop i) .unary (n + 1) ∧ Reads (negation stop i) .negation (n + 1) ∧
      Reads (disjunction stop i) .disjunction (n + 1) := by
  have hu : Reads (unary stop i) .unary (n + 1) := reads_unary h.unary (reads_primary h.disjunction)
  have hn : Reads (negation stop i) .negation (n + 1) := reads_negation h.negation
    (reads_comparison hu)
  exact ⟨hu, hn, reads_disjunction (reads_conjunction hn)⟩

theorem reads_inner (stop : Nat) : ∀ n, (inner stop n).ReadsAll n
  | 0 => ⟨reads_nothing _, reads_nothing _, reads_nothing _⟩
  | n + 1 => by
    obtain ⟨hu, hn, hd⟩ := reads_level stop (reads_inner stop n)
    exact ⟨hd, hn, hu⟩

/-! ## Whole guards -/

theorem parse_eq_ok_iff (ts : Tokens) (e : Expr) : parse ts = .ok e ↔
    ∃ d : Derivation .disjunction, d.tokens = ts.items.map (·.token) ∧ d.nesting ≤ nestingLimit ∧
      d.tree = e := by
  have hr := (reads_level ts.stop (reads_inner ts.stop nestingLimit)).2.2
  have hw : parse ts = .ok e ↔
      Takes (disjunction ts.stop (inner ts.stop nestingLimit)) ts.items e [] := by
    unfold parse Takes
    constructor
    · intro h
      split at h
      · cases h
      · rename_i hl hp
        cases h
        exact ⟨hl, hp⟩
      · cases h
    · rintro ⟨hl, h⟩
      simp [h]
  rw [hw]
  constructor
  · intro h
    obtain ⟨d, us, hu, hd, he, hn⟩ := hr.sound h
    rw [List.append_nil] at hu
    exact ⟨d, by rw [hu, hd], by omega, he⟩
  · rintro ⟨d, hd, hn, rfl⟩
    have := hr.complete d [] hd.symm (stops_nil _) (by omega)
    rwa [List.append_nil] at this

theorem read_of_tokens {text : String} {ts : Tokens} (h : tokens text = .ok ts) :
    read text = (parse ts).mapError fun f => .failure ⟨text, .parse f⟩ := by
  unfold read
  rw [h]

/-- A guard that is read has tokens with a derivation that respects the limit, and is its tree. -/
theorem read_eq_ok_iff {s : String} {e : Expr} : read s = .ok e ↔
    ∃ ts, tokens s = .ok ts ∧ ∃ d : Derivation .disjunction, d.tokens = ts.items.map (·.token) ∧
      d.nesting ≤ nestingLimit ∧ d.tree = e := by
  cases ht : tokens s with
  | error f => cases f <;> simp [read, ht]
  | ok ts =>
    simp only [Except.ok.injEq, exists_eq_left']
    rw [read_of_tokens ht, ← parse_eq_ok_iff]
    cases parse ts <;> simp [Except.mapError]

/-- **The parser and the grammar.** A guard whose tokens are `ts` is read exactly if the tokens have
a derivation none of whose parts lies inside more than sixty-four brackets and negations. There is
at most one derivation, and the expression is its tree. Every other guard is refused with a parse
fault. A chain is taken whatever the number of its operands, if each of them alone respects the
limit. -/
theorem read_derivation (text : String) (ts : Tokens) (h : tokens text = .ok ts) :
    (∀ e, read text = .ok e ↔ ∃ d : Derivation .disjunction,
      d.tokens = ts.items.map (·.token) ∧ (∀ l ∈ d.levels, l ≤ 64) ∧ d.tree = e) ∧
    (∀ d d' : Derivation .disjunction, d.tokens = ts.items.map (·.token) →
      d'.tokens = ts.items.map (·.token) → d = d') ∧
    ((¬∃ d : Derivation .disjunction, d.tokens = ts.items.map (·.token) ∧ ∀ l ∈ d.levels, l ≤ 64) →
      ∃ f, read text = .error (.failure ⟨text, .parse f⟩)) ∧
    ∀ (first : Derivation .conjunction) (more : Joined .conjunction),
      (Derivation.disjunction first more).tokens = ts.items.map (·.token) →
      (∀ d ∈ first :: more.phrases, ∀ l ∈ d.levels, l ≤ 64) →
      read text = .ok (joined .any first.tree (more.phrases.map Derivation.tree)) := by
  have hr (e : Expr) : read text = .ok e ↔ ∃ d : Derivation .disjunction,
      d.tokens = ts.items.map (·.token) ∧ (∀ l ∈ d.levels, l ≤ 64) ∧ d.tree = e := by
    simp only [← Derivation.nesting_le_iff]
    rw [read_of_tokens h, ← show nestingLimit = 64 from rfl, ← parse_eq_ok_iff]
    cases parse ts <;> simp [Except.mapError]
  refine ⟨hr, fun d d' hd hd' => ?_, fun hno => ?_, fun first more hd hl => ?_⟩
  · have he : d.tokens ++ [] = d'.tokens ++ [] := by rw [hd, hd']
    exact (d.unique d' he (stops_nil _) (stops_nil _)).1
  · cases hp : parse ts with
    | error f => exact ⟨f, by rw [read_of_tokens h, hp]; rfl⟩
    | ok e =>
      obtain ⟨d, hd, hn, -⟩ := (parse_eq_ok_iff ts e).mp hp
      exact (hno ⟨d, hd, (d.nesting_le_iff _).mp hn⟩).elim
  · refine (hr _).mpr ⟨_, hd, fun l hm => ?_, ?_⟩
    · rw [Derivation.levels, more.levels_eq_flatMap, List.mem_append, List.mem_flatMap] at hm
      rcases hm with hm | ⟨d, hd, hm⟩
      · exact hl first List.mem_cons_self l hm
      · exact hl d (List.mem_cons_of_mem _ hd) l hm
    · rw [Derivation.tree, more.trees_eq_map]

/-- The derivation of `!(a or -b) and c`. -/
def Derivation.mixed : Derivation .disjunction :=
  .disjunction (.conjunction
    (.comparison (.single (.bang (.primary (.bracketed
      (.disjunction (.conjunction (.comparison (.single (.primary (.path ["a"])))) .nil)
        (.cons .orWord rfl (.conjunction
          (.comparison (.single (.minus (.primary (.path ["b"]))))) .nil) .nil)))))))
    (.cons .andWord rfl (.comparison (.single (.primary (.path ["c"])))) .nil)) .nil

theorem read_mixed : ∃ ts, tokens "!(a or -b) and c" = .ok ts ∧
    read "!(a or -b) and c" =
      .ok (.all [.not (.any [.path ["a"], .negate (.path ["b"])]), .path ["c"]]) := by
  have h : tokens "!(a or -b) and c" = .ok ⟨[⟨.op .bang, 0⟩, ⟨.op .opening, 1⟩, ⟨.path ["a"], 2⟩,
      ⟨.op .orWord, 4⟩, ⟨.op .minus, 7⟩, ⟨.path ["b"], 8⟩, ⟨.op .closing, 9⟩, ⟨.op .andWord, 11⟩,
      ⟨.path ["c"], 15⟩], 16⟩ := by cbv
  exact ⟨_, h, ((read_derivation _ _ h).1 _).mpr ⟨Derivation.mixed, rfl, by decide, rfl⟩⟩

end Workflow.Guard
