import Workflow.Proofs.Guard.Munch
import Workflow.Proofs.Guard.Parsing

/-!
# Quoted texts

A quoted text is made of pieces: characters as they stand, and characters behind a backslash. It is
read twice, once for the quote that closes it, and once for the characters that its escapes stand
for. Both readings go from piece to piece, so they agree on what an escape is, however many
backslashes stand in a row.

Results:
* `lexeme?_quote_iff`: a quoted text ends at the first quote between two pieces.
* `pieces_unique`: there is one way to take a quoted text to pieces.
* `unescape_flatten`: escapes are resolved piece by piece.
* `quoted_exact`: a quoted text is one token, with the value that its pieces spell; and every text
  is the value of one.
-/
namespace Workflow.Guard

variable {q c : Char} {cs rest rest' : List Char} {pieces pieces' : List (List Char)}

/-! ## Pieces -/

/-- What a piece of a quoted text stands for: behind a backslash a letter may stand for a control
character, any other character stands for itself. -/
def decoded : List Char → List Char
  | [_, c] => [escaped c]
  | p => p

/-- What pieces stand for, one after the other. -/
def meaning (pieces : List (List Char)) : String := String.ofList (pieces.flatMap decoded)

/-- Pieces between two quotes. -/
def enclosed (q : Char) (pieces : List (List Char)) : List Char := q :: (pieces.flatten ++ [q])

/-- The piece that spells a character. -/
def spelled (q c : Char) : List Char := if c = q ∨ c = '\\' then ['\\', c] else [c]

/-- The quoted text that spells a text. -/
def literal (q : Char) (s : String) : String :=
  String.ofList (enclosed q (s.toList.map (spelled q)))

theorem IsQuote.ne_backslash (h : IsQuote q) : q ≠ '\\' := by
  rcases h with rfl | rfl <;> decide

theorem IsQuote.escaped_self (h : IsQuote q) : escaped q = q := by
  rcases h with rfl | rfl <;> decide

/-- A quoted text starts behind its quote and ends at the first quote between two pieces. -/
theorem lexeme?_quote_iff (hq : IsQuote q) {cls : Class} {n : Nat} :
    lexeme? q cs = some (cls, n) ↔ cls = .text ∧ ∃ (pieces : List (List Char)) (rest : List Char),
      cs = pieces.flatten ++ q :: rest ∧ n = pieces.flatten.length + 1 ∧
        ∀ p ∈ pieces, Piece q p := by
  rw [lexeme?_quote hq]
  constructor
  · intro h
    obtain ⟨m, hm, he⟩ := Option.map_eq_some_iff.mp h
    cases he
    obtain ⟨pieces, rest, hcs, hlen, hp⟩ := textLength?_sound hm
    exact ⟨rfl, pieces, rest, hcs, hlen.symm, hp⟩
  · rintro ⟨rfl, pieces, rest, rfl, rfl, hp⟩
    rw [textLength?_flatten hq.ne_backslash hp rest]
    rfl

/-- What stands in front of a closing quote falls into pieces in one way. -/
theorem pieces_unique (hq : IsQuote q) (h : ∀ p ∈ pieces, Piece q p)
    (h' : ∀ p ∈ pieces', Piece q p)
    (heq : pieces.flatten ++ q :: rest = pieces'.flatten ++ q :: rest') :
    pieces = pieces' ∧ rest = rest' := by
  induction pieces generalizing pieces' with
  | nil =>
    cases pieces' with
    | nil => simpa using heq
    | cons p' pieces' =>
      obtain ⟨hp', -⟩ := List.forall_mem_cons.mp h'
      cases hp' with
      | raw hcq => exact absurd (List.cons.inj heq).1.symm hcq
      | escape => exact absurd (List.cons.inj heq).1 hq.ne_backslash
  | cons p pieces ih =>
    obtain ⟨hp, hps⟩ := List.forall_mem_cons.mp h
    cases pieces' with
    | nil =>
      cases hp with
      | raw hcq => exact absurd (List.cons.inj heq).1 hcq
      | escape => exact absurd (List.cons.inj heq).1.symm hq.ne_backslash
    | cons p' pieces' =>
      obtain ⟨hp', hps'⟩ := List.forall_mem_cons.mp h'
      -- the first character tells whether the piece is an escape
      cases hp with
      | raw _ hb =>
        cases hp' with
        | raw =>
          obtain ⟨rfl, htail⟩ := List.cons.inj heq
          obtain ⟨rfl, hr⟩ := ih hps hps' htail
          exact ⟨rfl, hr⟩
        | escape => exact absurd (List.cons.inj heq).1 hb
      | escape =>
        cases hp' with
        | raw _ hb => exact absurd (List.cons.inj heq).1.symm hb
        | escape =>
          obtain ⟨rfl, htail⟩ := List.cons.inj (List.cons.inj heq).2
          obtain ⟨rfl, hr⟩ := ih hps hps' htail
          exact ⟨rfl, hr⟩

/-- Escapes are resolved piece by piece. -/
theorem unescape_flatten (h : ∀ p ∈ pieces, Piece q p) :
    unescape pieces.flatten = pieces.flatMap decoded := by
  induction pieces with
  | nil => rfl
  | cons p pieces ih =>
    obtain ⟨hp, hps⟩ := List.forall_mem_cons.mp h
    rw [List.flatten_cons, List.flatMap_cons, ← ih hps]
    cases hp with
    | @raw c _ hb =>
      change unescape (c :: pieces.flatten) = c :: unescape pieces.flatten
      cases pieces.flatten with
      | nil => rfl
      | cons d cs => rw [unescape, if_neg fun h => hb h.1]
    | @escape c hn =>
      change unescape ('\\' :: c :: pieces.flatten) = escaped c :: unescape pieces.flatten
      rw [unescape, if_pos ⟨rfl, hn⟩]

/-! ## Spelling -/

theorem piece_spelled (hq : IsQuote q) (c : Char) : Piece q (spelled q c) := by
  unfold spelled
  split
  · rename_i h
    refine .escape ?_
    rintro rfl
    rcases hq with rfl | rfl <;> exact absurd h (by decide)
  · rename_i h
    exact .raw (fun e => h (.inl e)) fun e => h (.inr e)

theorem decoded_spelled (hq : IsQuote q) (c : Char) : decoded (spelled q c) = [c] := by
  unfold spelled
  split
  · rename_i h
    change [escaped c] = [c]
    rcases h with rfl | rfl
    · rw [hq.escaped_self]
    · rfl
  · rfl

theorem meaning_spelled (hq : IsQuote q) (s : String) :
    meaning (s.toList.map (spelled q)) = s := by
  have h : (s.toList.map (spelled q)).flatMap decoded = s.toList := by
    rw [List.flatMap_map, List.flatMap_congr fun c _ => decoded_spelled hq c,
      List.flatMap_singleton']
  rw [meaning, h, String.ofList_toList]

/-! ## Tokens -/

/-- The value of a quoted text is what its pieces stand for. -/
theorem textValue_enclosed (h : ∀ p ∈ pieces, Piece q p) :
    textValue (enclosed q pieces) = .str (meaning pieces) := by
  rw [textValue, enclosed, List.drop_one, List.tail_cons, List.dropLast_concat,
    unescape_flatten h, meaning]

/-- A quoted text is one token, and the rest is cut behind its closing quote. -/
theorem scan_enclosed (hq : IsQuote q) (h : ∀ p ∈ pieces, Piece q p) (pos : Nat)
    (rest : List Char) : scan pos (enclosed q pieces ++ rest) =
      (scan (pos + (enclosed q pieces).length) rest).map
        (Tokens.after [⟨.literal (.str (meaning pieces)), pos⟩]) := by
  let part : Part := ⟨.text, enclosed q pieces⟩
  have hl : Longest part.cls part.text rest := (Lexeme.text hq h).longest_text rest
  have ht : token? part.cls part.text = .ok (some (.literal (.str (meaning pieces)))) := by
    rw [token?, textValue_enclosed h]
  exact scan_part hl ht pos

/-- A quoted text on its own. -/
theorem tokens_enclosed (hq : IsQuote q) (h : ∀ p ∈ pieces, Piece q p) :
    tokens (String.ofList (enclosed q pieces)) =
      .ok ⟨[⟨.literal (.str (meaning pieces)), 0⟩], (enclosed q pieces).length⟩ := by
  have hs := scan_enclosed hq h 0 []
  rw [List.append_nil, scan, Nat.zero_add] at hs
  rw [tokens, String.toList_ofList, hs]
  rfl

/-- A guard that is a literal is read as its value. -/
theorem read_of_literal {s : String} {v : Value} {p n : Nat}
    (h : tokens s = .ok ⟨[⟨.literal v, p⟩], n⟩) : read s = .ok (.literal v) :=
  read_eq_ok_iff.mpr ⟨_, h, .disjunction (.conjunction (.comparison (.single
    (.primary (.literal v)))) .nil) .nil, rfl, Nat.zero_le _, rfl⟩

theorem tokens_literal (hq : IsQuote q) (s : String) :
    tokens (literal q s) = .ok ⟨[⟨.literal (.str s), 0⟩], (literal q s).toList.length⟩ := by
  have h : ∀ p ∈ s.toList.map (spelled q), Piece q p := by
    intro p hp
    obtain ⟨c, -, rfl⟩ := List.mem_map.mp hp
    exact piece_spelled hq c
  rw [literal, tokens_enclosed hq h, meaning_spelled hq, String.toList_ofList]

/-- **Quoted texts are read exactly.** Behind a quote the scanner finds a quoted text exactly if
pieces follow up to such a quote again, and there the quoted text ends; the pieces are settled by
the text. Whatever stands around it, it is one token, whose value is what its pieces stand for, one
after the other; on its own it is the only token. And every text is the value of a quoted text: of
the one that spells it, with a backslash in front of each backslash and of each such quote. -/
theorem quoted_exact (hq : IsQuote q) :
    (∀ cs cls n, lexeme? q cs = some (cls, n) ↔
      cls = .text ∧ ∃ (pieces : List (List Char)) (rest : List Char),
        cs = pieces.flatten ++ q :: rest ∧ n = pieces.flatten.length + 1 ∧
          ∀ p ∈ pieces, Piece q p) ∧
    (∀ (pieces pieces' : List (List Char)) (rest rest' : List Char),
      (∀ p ∈ pieces, Piece q p) → (∀ p ∈ pieces', Piece q p) →
      pieces.flatten ++ q :: rest = pieces'.flatten ++ q :: rest' →
      pieces = pieces' ∧ rest = rest') ∧
    (∀ pieces, (∀ p ∈ pieces, Piece q p) →
      (∀ pos rest, scan pos (enclosed q pieces ++ rest) =
        (scan (pos + (enclosed q pieces).length) rest).map
          (Tokens.after [⟨.literal (.str (meaning pieces)), pos⟩])) ∧
      tokens (String.ofList (enclosed q pieces)) =
        .ok ⟨[⟨.literal (.str (meaning pieces)), 0⟩], (enclosed q pieces).length⟩) ∧
    ∀ s, tokens (literal q s) = .ok ⟨[⟨.literal (.str s), 0⟩], (literal q s).toList.length⟩ ∧
      read (literal q s) = .ok (.literal (.str s)) := by
  refine ⟨fun _ _ _ => lexeme?_quote_iff hq, fun _ _ _ _ h h' heq => pieces_unique hq h h' heq,
    fun pieces h => ⟨scan_enclosed hq h, tokens_enclosed hq h⟩, fun s => ⟨tokens_literal hq s, ?_⟩⟩
  exact read_of_literal (tokens_literal hq s)

/-- Behind two backslashes a quote closes the text, behind three it belongs to it. -/
theorem quoted_exact_backslashes :
    IsQuote '\'' ∧ tokens "'\\\\'" = .ok ⟨[⟨.literal (.str "\\"), 0⟩], 4⟩ ∧
      tokens "'\\\\\\'n\\n'" = .ok ⟨[⟨.literal (.str "\\'n\n"), 0⟩], 9⟩ := by
  have hq : IsQuote '\'' := .inl rfl
  have hb : Piece '\'' ['\\', '\\'] := .escape (by decide)
  have he : Piece '\'' ['\\', '\''] := .escape (by decide)
  have hr : Piece '\'' ['n'] := .raw (by decide) (by decide)
  have hn : Piece '\'' ['\\', 'n'] := .escape (by decide)
  obtain ⟨-, -, h, -⟩ := quoted_exact hq
  exact ⟨hq, (h [['\\', '\\']] (by simpa using hb)).2,
    (h [['\\', '\\'], ['\\', '\''], ['n'], ['\\', 'n']] (by simpa using ⟨hb, he, hr, hn⟩)).2⟩

end Workflow.Guard
