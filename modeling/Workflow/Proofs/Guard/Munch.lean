import Mathlib
import Workflow.Guard.Check
import Workflow.Proofs.Guard.Lexeme

/-!
# Cutting a guard into lexemes

A guard is cut from its front, and every time the longest lexeme is taken. The cut stops at the end,
or at the first place where no lexeme begins; nothing is left out, and nothing is taken twice. Since
a lexeme ends in front of a blank anyway, lexemes may be written down again with any blanks between
them.

Results:
* `exists_munch`: every text can be cut, down to its end or to a place where no lexeme begins.
* `Munch.isPrefix`: there is one such cut.
* `scan_munch`: what the scanner makes of a cut.
* `exists_munch_of_spaced`: lexemes with blanks between them are cut into these lexemes.
* `exists_tokens`: any tokens that lexemes stand for are the tokens of a text.
* `tokens_partition`: the tokens of a guard are those of its cut.
-/
namespace Workflow.Guard

open Text Decimal

/-- A lexeme with its class. -/
@[ext]
structure Part where
  cls : Class
  text : List Char

/-- The text that parts make up. -/
def written (parts : List Part) : List Char := parts.flatMap Part.text

/-- No lexeme stands in front of the text. -/
def Stuck (cs : List Char) : Prop := ∀ cls l, Lexeme cls l → ¬ l <+: cs

/-- The parts in front of the rest of a text, each of them the longest lexeme at its place. -/
inductive Munch : List Part → List Char → Prop where
  | done (rest : List Char) : Munch [] rest
  | next {part : Part} {parts : List Part} {rest : List Char}
    (h : Longest part.cls part.text (written parts ++ rest)) (hm : Munch parts rest) :
    Munch (part :: parts) rest

/-- The number of the part can be converted: if it is a whole number it has few enough digits. -/
def Part.Short (part : Part) : Prop := part.cls = .number false → part.text.length ≤ digitLimit

/-- All numbers that the cut of a text comes to can be converted. -/
def Convertible (cs : List Char) : Prop :=
  ∀ parts rest, written parts ++ rest = cs → Munch parts rest → ∀ part ∈ parts, part.Short

/-- The tokens of parts that are laid end to end from an offset; blanks have none. -/
inductive Laid : Nat → List Part → List Located → Prop where
  | nil (pos : Nat) : Laid pos [] []
  | blank {pos : Nat} {part : Part} {parts : List Part} {items : List Located}
    (hb : part.cls = .blank) (h : Laid (pos + part.text.length) parts items) :
    Laid pos (part :: parts) items
  | token {pos : Nat} {part : Part} {parts : List Part} {items : List Located} {t : Token}
    (ht : token? part.cls part.text = .ok (some t))
    (h : Laid (pos + part.text.length) parts items) :
    Laid pos (part :: parts) (⟨t, pos⟩ :: items)

/-- How cutting a text can end if all its numbers can be converted. -/
inductive Cutting (cs : List Char) : Except TokenFault Tokens → Prop where
  /-- The cut comes to a character at which no lexeme begins. -/
  | stray {parts : List Part} {c : Char} {rest : List Char} (hcs : written parts ++ c :: rest = cs)
    (hm : Munch parts (c :: rest)) (hs : Stuck (c :: rest)) :
    Cutting cs (.error (.unexpected c (written parts).length))
  /-- The cut comes to the end; the tokens stand where their lexemes do, one behind the other. -/
  | whole {parts : List Part} {items : List Located} (hcs : written parts = cs)
    (hm : Munch parts []) (hl : Laid 0 parts items)
    (hpos : (items.map (·.pos) ++ [cs.length]).Pairwise (· < ·)) :
    Cutting cs (.ok ⟨items, cs.length⟩)

variable {part : Part} {parts parts' : List Part} {cs rest rest' : List Char} {pos : Nat}
  {items items' : List Located}

@[simp] theorem written_cons (part : Part) (parts : List Part) :
    written (part :: parts) = part.text ++ written parts := rfl

theorem stuck_nil : Stuck [] := by
  intro cls l h hl
  obtain ⟨c, cs, rfl⟩ := h.exists_cons
  exact absurd hl.length_le (by simp)

/-- Every text can be cut, down to its end or to a place where no lexeme begins. -/
theorem exists_munch (cs : List Char) :
    ∃ parts rest, written parts ++ rest = cs ∧ Munch parts rest ∧ Stuck rest := by
  induction hn : cs.length using Nat.strongRecOn generalizing cs with
  | ind n ih =>
    cases cs with
    | nil => exact ⟨[], [], rfl, .done [], stuck_nil⟩
    | cons c cs =>
      cases hl : lexeme? c cs with
      | none => exact ⟨[], c :: cs, rfl, .done _, lexeme?_eq_none_iff.mp hl⟩
      | some r =>
        obtain ⟨l, rest, rfl, -, hlong⟩ := lexeme?_eq_some_iff.mp hl
        obtain ⟨parts, rest', rfl, hm, hs⟩ := ih rest.length (by simp [← hn]) rest rfl
        exact ⟨⟨r.1, c :: l⟩ :: parts, rest', by simp, .next hlong hm, hs⟩

/-- A cut that stops at a place where no lexeme begins goes on from every other cut. -/
theorem Munch.isPrefix (hm : Munch parts rest) (hs : Stuck rest) (hm' : Munch parts' rest')
    (heq : written parts ++ rest = written parts' ++ rest') : parts' <+: parts := by
  induction hm' generalizing parts with
  | done => exact List.nil_prefix
  | @next part' parts' rest' h' _ ih =>
    rw [written_cons, List.append_assoc] at heq
    cases hm with
    | done => exact absurd ⟨_, heq.symm⟩ (hs _ _ h'.lexeme)
    | @next part parts _ h hm =>
      rw [written_cons, List.append_assoc] at heq
      obtain ⟨hcls, htext, hrest⟩ := h.unique h' heq
      obtain rfl : part = part' := Part.ext hcls htext
      exact (List.prefix_cons_inj part).mpr (ih hm hrest)

/-! ## Tokens -/

theorem Lexeme.token?_ok {cls : Class} {l : List Char} (h : Lexeme cls l)
    (hs : cls = .number false → l.length ≤ digitLimit) : ∃ t, token? cls l = .ok t := by
  cases h with
  | whole h =>
    have hlen : (digitValues l).length = l.length := digitValues_length h.2
    refine ⟨some (.literal (.int (ofDigits (digitValues l)))), ?_⟩
    rw [token?, numberValue, if_neg (by decide), wholeOf, hlen, if_neg (by have := hs rfl; omega)]
    rfl
  | blank | fraction | text | op | path => exact ⟨_, rfl⟩

theorem token?_none {cls : Class} {l : List Char} (h : token? cls l = .ok none) :
    cls = .blank := by
  cases cls with
  | blank => rfl
  | number point =>
    cases hv : numberValue point l <;> simp [token?, hv, Except.map] at h
  | text | op | path => cases h

/-- Tokens that stand in front of others. -/
def Tokens.after (items : List Located) (ts : Tokens) : Tokens :=
  { ts with items := items ++ ts.items }

/-- What the scanner makes of the longest lexeme in front. -/
theorem scan_part {token : Option Token} (h : Longest part.cls part.text rest)
    (ht : token? part.cls part.text = .ok token) (pos : Nat) :
    scan pos (part.text ++ rest) = (scan (pos + part.text.length) rest).map
      (Tokens.after (token.map fun t => Located.mk t pos).toList) := by
  obtain ⟨cls, text⟩ := part
  obtain ⟨c, l, rfl⟩ := h.lexeme.exists_cons
  have hl : lexeme? c (l ++ rest) = some (cls, l.length) :=
    lexeme?_eq_some_iff.mpr ⟨l, rest, rfl, rfl, h⟩
  have hpos : pos + 1 + l.length = pos + (c :: l).length := by
    rw [List.length_cons]
    omega
  rw [List.cons_append, scan]
  simp only [hl, List.take_left, List.drop_left, hpos, ht]
  rfl

/-- What the scanner makes of the cut of a text. -/
theorem scan_munch (hm : Munch parts rest) (hs : ∀ part ∈ parts, part.Short) (pos : Nat) :
    ∃ items, Laid pos parts items ∧ scan pos (written parts ++ rest) =
      (scan (pos + (written parts).length) rest).map (Tokens.after items) := by
  induction hm generalizing pos with
  | done rest =>
    refine ⟨[], .nil pos, ?_⟩
    change scan pos rest = (scan pos rest).map _
    cases scan pos rest <;> rfl
  | @next part parts rest h hm ih =>
    obtain ⟨hp, hs⟩ := List.forall_mem_cons.mp hs
    obtain ⟨token, ht⟩ := h.lexeme.token?_ok hp
    obtain ⟨items, hl, hscan⟩ := ih hs (pos + part.text.length)
    refine ⟨(token.map fun t => Located.mk t pos).toList ++ items, ?_, ?_⟩
    · cases token with
      | none => exact .blank (token?_none ht) hl
      | some t => exact .token ht hl
    · rw [written_cons, List.append_assoc, scan_part h ht, hscan, List.length_append, Nat.add_assoc]
      cases scan (pos + (part.text.length + (written parts).length)) rest with
      | error f => rfl
      | ok ts => simp [Except.map, Tokens.after]

/-- The tokens of laid out parts are those of the parts, blanks left out. -/
theorem Laid.tokens (h : Laid pos parts items) :
    List.Forall₂ (fun part t => token? part.cls part.text = .ok (some t))
      (parts.filter fun part => part.cls ≠ .blank) (items.map (·.token)) := by
  induction h with
  | nil => exact .nil
  | blank hb _ ih => rwa [List.filter_cons_of_neg (by simp [hb])]
  | @token pos part parts items t ht _ ih =>
    have hb : part.cls ≠ .blank := by
      intro hb
      rw [hb] at ht
      cases ht
    rw [List.filter_cons_of_pos (by simp [hb])]
    exact .cons ht ih

/-- Tokens stand at growing offsets, and the end behind them all. -/
theorem Laid.pos_lt (h : Laid pos parts items) (hl : ∀ part ∈ parts, part.text ≠ []) :
    (items.map (·.pos) ++ [pos + (written parts).length]).Pairwise (· < ·) ∧
      ∀ p ∈ items.map (·.pos) ++ [pos + (written parts).length], pos ≤ p := by
  induction h with
  | nil => simp
  | @blank pos part parts items _ _ ih =>
    obtain ⟨hpair, hle⟩ := ih (List.forall_mem_cons.mp hl).2
    rw [written_cons, List.length_append, ← Nat.add_assoc]
    exact ⟨hpair, fun p hp => Nat.le_of_add_right_le (hle p hp)⟩
  | @token pos part parts items t _ _ ih =>
    obtain ⟨hne, hl⟩ := List.forall_mem_cons.mp hl
    obtain ⟨hpair, hle⟩ := ih hl
    have hlen := List.length_pos_of_ne_nil hne
    rw [written_cons, List.length_append, ← Nat.add_assoc]
    refine ⟨List.pairwise_cons.mpr ⟨fun p hp => ?_, hpair⟩,
      List.forall_mem_cons.mpr ⟨le_rfl, fun p hp => Nat.le_of_add_right_le (hle p hp)⟩⟩
    have : pos + part.text.length ≤ p := hle p hp
    change pos < p
    omega

theorem Munch.lexeme (h : Munch parts rest) : ∀ part ∈ parts, Lexeme part.cls part.text := by
  induction h with
  | done => simp
  | next h _ ih => exact List.forall_mem_cons.mpr ⟨h.lexeme, ih⟩

theorem Munch.text_ne_nil (h : Munch parts rest) : ∀ part ∈ parts, part.text ≠ [] := by
  intro part hp
  obtain ⟨c, cs, hcs⟩ := (h.lexeme part hp).exists_cons
  simp [hcs]

/-- A text that is cut to its end has the tokens of its parts. -/
theorem tokens_munch {s : String} (hs : written parts = s.toList) (hm : Munch parts [])
    (hn : ∀ part ∈ parts, part.Short) :
    ∃ items, Laid 0 parts items ∧ tokens s = .ok ⟨items, s.toList.length⟩ := by
  obtain ⟨items, hl, hscan⟩ := scan_munch hm hn 0
  rw [List.append_nil, hs, Nat.zero_add, scan] at hscan
  refine ⟨items, hl, ?_⟩
  rw [tokens, hscan]
  simp [Except.map, Tokens.after]

/-- A text whose numbers can be converted is cut to its end, or to a stray character. -/
theorem cutting_tokens {s : String} (h : Convertible s.toList) : Cutting s.toList (tokens s) := by
  obtain ⟨parts, rest, hcs, hm, hstuck⟩ := exists_munch s.toList
  have hn := h parts rest hcs hm
  cases rest with
  | nil =>
    rw [List.append_nil] at hcs
    obtain ⟨items, hl, ht⟩ := tokens_munch hcs hm hn
    have hpos := (hl.pos_lt hm.text_ne_nil).1
    rw [hcs, Nat.zero_add] at hpos
    rw [ht]
    exact .whole hcs hm hl hpos
  | cons c rest =>
    obtain ⟨items, -, hscan⟩ := scan_munch hm hn 0
    have hend : scan (0 + (written parts).length) (c :: rest) =
        .error (.unexpected c (written parts).length) := by
      rw [scan, lexeme?_eq_none_iff.mpr hstuck, Nat.zero_add]
    rw [hcs, hend] at hscan
    rw [tokens, hscan]
    exact .stray hcs hm hstuck

/-! ## Writing lexemes down again -/

/-- Parts written down one behind the other, with blanks between them, and maybe at the end. -/
inductive Spaced : List Part → List Char → Prop where
  | nil : Spaced [] []
  | last (part : Part) : Spaced [part] part.text
  | next {part : Part} {parts : List Part} {blanks cs : List Char} (hb : Run isBlank blanks)
    (h : Spaced parts cs) : Spaced (part :: parts) (part.text ++ (blanks ++ cs))

theorem Lexeme.isBlank_head {cls : Class} {l : List Char} (h : Lexeme cls l) (hb : cls ≠ .blank)
    (rest : List Char) : ∀ c ∈ (l ++ rest).head?, isBlank c = false := by
  obtain ⟨c, cs, rfl⟩ := h.exists_cons
  rintro d ⟨⟩
  exact Bool.eq_false_iff.mpr fun hc => hb (h.eq_blank hc)

theorem Spaced.isBlank_head (h : Spaced parts cs)
    (hl : ∀ part ∈ parts, part.cls ≠ .blank ∧ Lexeme part.cls part.text) :
    ∀ c ∈ cs.head?, isBlank c = false := by
  cases h with
  | nil => simp
  | last part =>
    obtain ⟨hb, hp⟩ := hl part (List.mem_singleton_self part)
    simpa using hp.isBlank_head hb []
  | next =>
    obtain ⟨hb, hp⟩ := hl _ (List.mem_cons_self ..)
    exact hp.isBlank_head hb _

/-- Lexemes with blanks between them are cut into these lexemes. -/
theorem exists_munch_of_spaced (h : Spaced parts cs)
    (hl : ∀ part ∈ parts, part.cls ≠ .blank ∧ Lexeme part.cls part.text) :
    ∃ parts', written parts' = cs ∧ Munch parts' [] ∧
      parts'.filter (fun part => part.cls ≠ .blank) = parts := by
  induction h with
  | nil => exact ⟨[], rfl, .done [], rfl⟩
  | last part =>
    obtain ⟨hb, hp⟩ := hl part (List.mem_singleton_self part)
    exact ⟨[part], List.append_nil _, .next hp.longest_nil (.done []), by simp [hb]⟩
  | @next part parts blanks cs hb hs ih =>
    obtain ⟨⟨hpb, hp⟩, hl⟩ := List.forall_mem_cons.mp hl
    obtain ⟨parts', rfl, hm, hf⟩ := ih hl
    have hhead := hs.isBlank_head hl
    refine ⟨part :: ⟨.blank, blanks⟩ :: parts', by simp, .next ?_ (.next ?_ hm), ?_⟩
    · obtain ⟨c, cs, rfl, hc, -⟩ := hb.exists_cons
      refine hp.longest_of_blank hpb ?_
      rintro d ⟨⟩
      exact hc
    · rw [List.append_nil]
      exact hb.longest hhead
    · simpa [hpb] using hf

theorem token?_rightUnique : Relator.RightUnique fun (part : Part) t =>
    token? part.cls part.text = .ok (some t) := by
  intro part t t' h h'
  cases h.symm.trans h'
  rfl

/-- Lexemes with blanks between them give their tokens. -/
theorem tokens_of_spaced {t : String} {ks : List Token} (h : Spaced parts t.toList)
    (hl : ∀ part ∈ parts, part.cls ≠ .blank ∧ Lexeme part.cls part.text)
    (hn : ∀ part ∈ parts, part.Short)
    (hk : List.Forall₂ (fun part k => token? part.cls part.text = .ok (some k)) parts ks) :
    ∃ ts, tokens t = .ok ts ∧ ts.items.map (·.token) = ks := by
  obtain ⟨parts', hs, hm, hf⟩ := exists_munch_of_spaced h hl
  have hn' : ∀ part ∈ parts', part.Short := by
    intro part hp hcls
    have hp' : part ∈ parts'.filter fun part => part.cls ≠ .blank :=
      List.mem_filter.mpr ⟨hp, by simp [hcls]⟩
    rw [hf] at hp'
    exact hn part hp' hcls
  obtain ⟨items, hlaid, hts⟩ := tokens_munch hs hm hn'
  exact ⟨_, hts, List.right_unique_forall₂' token?_rightUnique (hf ▸ hlaid.tokens) hk⟩

/-- Written down again with blanks between them, the lexemes of a text give the same tokens. -/
theorem tokens_spaced {s t : String} (hs : written parts = s.toList) (hm : Munch parts [])
    (hn : ∀ part ∈ parts, part.Short)
    (ht : Spaced (parts.filter fun part => part.cls ≠ .blank) t.toList) :
    ∃ ts ts', tokens s = .ok ts ∧ tokens t = .ok ts' ∧
      ts'.items.map (·.token) = ts.items.map (·.token) := by
  obtain ⟨items, hl, hts⟩ := tokens_munch hs hm hn
  have hlex : ∀ part ∈ parts.filter (fun part => part.cls ≠ .blank),
      part.cls ≠ .blank ∧ Lexeme part.cls part.text := by
    intro part hp
    obtain ⟨hp, hb⟩ := List.mem_filter.mp hp
    exact ⟨of_decide_eq_true hb, hm.lexeme part hp⟩
  obtain ⟨ts', hts', hk⟩ := tokens_of_spaced ht hlex
    (fun part hp => hn part (List.mem_filter.mp hp).1) hl.tokens
  exact ⟨_, ts', hts, hts', hk⟩

/-! ## Texts of tokens -/

/-- A lexeme stands for the token. -/
def Token.Written (t : Token) : Prop := ∃ part : Part, (part.cls ≠ .blank ∧
  Lexeme part.cls part.text) ∧ part.Short ∧ token? part.cls part.text = .ok (some t)

/-- Only whole numbers can have too many digits. -/
theorem short_of_ne (h : part.cls ≠ .number false) : part.Short := fun he => absurd he h

theorem written_name {c : Char} {cs : List Char} {t : Token} (hc : startsName c = true)
    (hcs : cs.all continuesName = true) (ht : pathToken (c :: cs) = t) : t.Written := by
  have hl := Lexeme.path hc (List.all_eq_true.mp hcs) (List.forall_mem_nil (Run continuesName))
  rw [dotted, List.flatMap_nil, List.append_nil] at hl
  exact ⟨⟨.path, c :: cs⟩, ⟨by simp, hl⟩, short_of_ne (by simp), by rw [token?, ht]⟩

theorem written_op (o : Op) : (Token.op o).Written := by
  by_cases h : o.isWord = false
  · exact ⟨⟨.op o, o.spelling.toList⟩, ⟨by simp, .op h⟩, short_of_ne (by simp), rfl⟩
  · -- a word is a lexeme of paths
    have hand : pathToken ['a', 'n', 'd'] = .op .andWord := by cbv
    have hor : pathToken ['o', 'r'] = .op .orWord := by cbv
    have hnot : pathToken ['n', 'o', 't'] = .op .notWord := by cbv
    cases o with
    | andWord => exact written_name (by decide) rfl hand
    | orWord => exact written_name (by decide) rfl hor
    | notWord => exact written_name (by decide) rfl hnot
    | _ => exact absurd rfl h

theorem exists_spaced : ∀ parts : List Part, ∃ cs, Spaced parts cs
  | [] => ⟨[], .nil⟩
  | [part] => ⟨part.text, .last part⟩
  | part :: next :: parts => by
    obtain ⟨cs, h⟩ := exists_spaced (next :: parts)
    have hb : Run isBlank [' '] := run_cons_iff.mpr ⟨by decide, by simp⟩
    exact ⟨_, .next hb h⟩

theorem exists_parts {ks : List Token} (h : ∀ k ∈ ks, k.Written) : ∃ parts : List Part,
    (∀ part ∈ parts, (part.cls ≠ .blank ∧ Lexeme part.cls part.text) ∧ part.Short) ∧
      List.Forall₂ (fun part k => token? part.cls part.text = .ok (some k)) parts ks := by
  induction ks with
  | nil => exact ⟨[], by simp, .nil⟩
  | cons k ks ih =>
    obtain ⟨⟨part, hl, hn, hk⟩, hks⟩ := List.forall_mem_cons.mp h
    obtain ⟨parts, hparts, hall⟩ := ih hks
    exact ⟨part :: parts, List.forall_mem_cons.mpr ⟨⟨hl, hn⟩, hparts⟩, .cons hk hall⟩

/-- Any tokens that lexemes stand for are the tokens of a text. -/
theorem exists_tokens {ks : List Token} (h : ∀ k ∈ ks, k.Written) :
    ∃ s ts, tokens s = .ok ts ∧ ts.items.map (·.token) = ks := by
  obtain ⟨parts, hparts, hk⟩ := exists_parts h
  obtain ⟨cs, hcs⟩ := exists_spaced parts
  have ht : Spaced parts (String.ofList cs).toList := by rwa [String.toList_ofList]
  exact ⟨_, tokens_of_spaced ht (fun part hp => (hparts part hp).1)
    (fun part hp => (hparts part hp).2) hk⟩

/-- Texts without so many characters have no numbers of so many digits. -/
theorem convertible_of_length (h : cs.length ≤ digitLimit) : Convertible cs := by
  rintro parts rest rfl - part hp -
  have hsub : part.text.Sublist (parts.map Part.text).flatten :=
    List.sublist_flatten_of_mem (List.mem_map_of_mem hp)
  have hle : part.text.length ≤ (written parts).length := by
    rw [written, List.flatMap_def]
    exact hsub.length_le
  rw [List.length_append] at h
  omega

/-- **The tokens of a guard partition it.** If the numbers that the cut of a text comes to can be
converted, the text is cut into longest lexemes, blanks included, that make it up without a gap:
down to its end, with the tokens of the lexemes at their growing offsets and the end behind them, or
to the first character at which no lexeme begins, and reading fails with that character and its
offset. There is one such cut. Written down again with any blanks between them, the lexemes give the
same tokens. -/
theorem tokens_partition (s : String) (h : Convertible s.toList) :
    Cutting s.toList (tokens s) ∧
    (∀ c pos, tokens s = .error (.unexpected c pos) →
      read s = .error (.failure ⟨s, .character c pos⟩)) ∧
    (∀ parts rest parts' rest', written parts ++ rest = s.toList → Munch parts rest →
      Stuck rest → written parts' ++ rest' = s.toList → Munch parts' rest' → parts' <+: parts) ∧
    ∀ parts, written parts = s.toList → Munch parts [] → ∀ t : String,
      Spaced (parts.filter fun part => part.cls ≠ .blank) t.toList →
      ∃ ts ts', tokens s = .ok ts ∧ tokens t = .ok ts' ∧
        ts'.items.map (·.token) = ts.items.map (·.token) := by
  refine ⟨cutting_tokens h, fun c pos ht => ?_, ?_, fun parts hs hm t ht => ?_⟩
  · rw [read, ht]
  · intro parts rest parts' rest' hs hm hstuck hs' hm'
    exact hm.isPrefix hstuck hm' (hs.trans hs'.symm)
  · exact tokens_spaced hs hm (h parts [] (by rw [List.append_nil, hs]) hm) ht

/-- One equals sign begins no lexeme. Two of them are one, and blanks beside it change nothing. -/
theorem tokens_partition_equals :
    (Convertible "n=1".toList ∧ Cutting "n=1".toList (.error (.unexpected '=' 1)) ∧
      read "n=1" = .error (.failure ⟨"n=1", .character '=' 1⟩)) ∧
    Convertible "n==m".toList ∧ ∃ ts ts', tokens "n==m" = .ok ts ∧ tokens "n == m" = .ok ts' ∧
      ts'.items.map (·.token) = ts.items.map (·.token) := by
  have h : Convertible "n=1".toList := convertible_of_length (by decide)
  have h' : Convertible "n==m".toList := convertible_of_length (by decide)
  have ht : tokens "n=1" = .error (.unexpected '=' 1) := by cbv
  obtain ⟨hc, hr, -, -⟩ := tokens_partition "n=1" h
  refine ⟨⟨h, ht ▸ hc, hr _ _ ht⟩, h', ?_⟩
  obtain ⟨-, -, -, hs⟩ := tokens_partition "n==m" h'
  have hm : Munch [⟨.path, ['n']⟩, ⟨.op .equal, ['=', '=']⟩, ⟨.path, ['m']⟩] [] :=
    .next (longest_of_lexeme? (by cbv)) <| .next (longest_of_lexeme? (by cbv)) <|
      .next (longest_of_lexeme? (by cbv)) (.done [])
  refine hs _ (by cbv) hm "n == m" ?_
  have hb : Run isBlank [' '] := run_cons_iff.mpr ⟨by decide, by simp⟩
  exact .next hb (.next hb (.last _))

end Workflow.Guard
