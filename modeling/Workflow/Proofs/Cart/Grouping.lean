import Workflow.Proofs.Cart.Entries
import Workflow.Proofs.Value.Comparison

/-!
# Carts group what is added

Additions of products with identities are grouped: each identity that was added since the cart was
last emptied has one line, in the order of first addition. The line keeps the product and the price
of the first addition, and counts the quantities of all additions with the identity.

Results:
* `Addition.firsts_pairwise`, `Addition.exists_first`: the first additions stand for all.
* `Addition.puts_grouped`: adding a product to a grouped cart gives the grouped cart.
* `Addition.quantityAt_grouped`: what a grouped cart says of an identity.
* `grouped_by_product`: the cart after any sequence of additions and clears.
-/
namespace Workflow.Cart

/-- A product that is added, with an identity, a whole price and a whole quantity. -/
structure Addition where
  product : Fields Value
  id : Datum
  price : Int
  quantity : Int
  hasId : product.get? "id" = some id.value
  hasPrice : priceOf product = .int price

/-- The number that a quantity counts: one if there is none, or if it is zero. -/
inductive Counts : Value → Int → Prop where
  | none : Counts .null 1
  | zero : Counts (.int 0) 1
  | given {n : Int} (h : n ≠ 0) : Counts (.int n) n

/-- Parameters that ask for the cart to be emptied, or for a product to be added. -/
inductive Asks : Fields Value → Option Addition → Prop where
  | clear {params : Fields Value} (h : params.getD "dataAction" = .str "clearCart") :
    Asks params none
  | add {params : Fields Value} {a : Addition} (ha : params.getD "dataAction" = .str "addToCart")
    (hp : params.getD "product" = .obj a.product)
    (hq : Counts (params.getD "quantity") a.quantity) : Asks params (some a)

/-- The additions since the cart was last emptied. -/
def sinceClear (asks : List (Option Addition)) : List Addition :=
  (asks.rtakeWhile Option.isSome).reduceOption

/-- The quantity that entries list for an identity. -/
def quantityAt (es : List Entry) (id : Datum) : Option Int :=
  (es.find? fun e => e.identity.same id.value).map Entry.quantity

namespace Addition

/-- Is the identity that of the addition? -/
def has (a : Addition) (id : Datum) : Bool := a.id.value.same id.value

/-- The quantity that additions come to for an identity. -/
def quantityOf (as : List Addition) (id : Datum) : Int :=
  ((as.filter (·.has id)).map quantity).sum

/-- The first additions of their identities, in order. -/
def firsts : List Addition → List Addition
  | [] => []
  | a :: as => a :: (firsts as).filter fun b => !a.has b.id

/-- The entry for the first addition of an identity. -/
def entry (as : List Addition) (a : Addition) : Entry :=
  ⟨a.product, quantityOf as a.id, .int a.price, .int (a.price * quantityOf as a.id)⟩

/-- Additions grouped by identity. -/
def grouped (as : List Addition) : List Entry := (firsts as).map (entry as)

/-- What additions cost in all, each at the price of the first addition of its identity. -/
def cost (as : List Addition) : Int :=
  ((firsts as).map fun a => a.price * quantityOf as a.id).sum

variable {as bs : List Addition} {a b : Addition} {i j id : Datum} {params : Fields Value}

/-! ## Identities -/

theorem has_iff : a.has id = true ↔ Guard.Holds .equal a.id id := by
  rw [has, Guard.Holds, Guard.compared, Except.ok.injEq]

theorem has_self (a : Addition) : a.has a.id = true :=
  has_iff.mpr (Guard.equivalence_equal.refl a.id)

theorem has_symm (h : a.has b.id = true) : b.has a.id = true :=
  has_iff.mpr (Guard.equivalence_equal.symm (has_iff.mp h))

theorem has_comm (a b : Addition) : a.has b.id = b.has a.id :=
  Bool.eq_iff_iff.mpr ⟨has_symm, has_symm⟩

theorem has_congr (h : a.has id = true) (b : Addition) : b.has a.id = b.has id := by
  have h := has_iff.mp h
  rw [Bool.eq_iff_iff, has_iff, has_iff]
  exact ⟨fun hb => Guard.equivalence_equal.trans hb h,
    fun hb => Guard.equivalence_equal.trans hb (Guard.equivalence_equal.symm h)⟩

theorem getD_id (a : Addition) : a.product.getD "id" = a.id.value := by
  rw [Fields.getD, a.hasId]
  rfl

@[simp] theorem identity_entry (as : List Addition) (a : Addition) :
    (a.entry as).identity = a.id.value := a.getD_id

/-! ## Quantities -/

theorem quantityOf_congr (h : a.has id = true) : quantityOf as a.id = quantityOf as id := by
  have hf : (fun b : Addition => b.has a.id) = (fun b => b.has id) := funext (has_congr h)
  rw [quantityOf, hf]
  rfl

theorem quantityOf_concat (as : List Addition) (a : Addition) (id : Datum) :
    quantityOf (as ++ [a]) id = quantityOf as id + if a.has id then a.quantity else 0 := by
  rw [quantityOf, List.filter_append, List.map_append, List.sum_append]
  by_cases h : a.has id <;> simp [quantityOf, h]

theorem quantityOf_eq_zero (h : ∀ b ∈ as, b.has id = false) : quantityOf as id = 0 := by
  rw [quantityOf, List.filter_eq_nil_iff.mpr fun b hb => by simp [h b hb]]
  rfl

theorem quantityOf_perm (h : as.Perm bs) (id : Datum) : quantityOf as id = quantityOf bs id :=
  ((h.filter _).map _).sum_eq

/-! ## First additions -/

theorem firsts_concat (as : List Addition) (a : Addition) :
    firsts (as ++ [a]) = if as.any (·.has a.id) then firsts as else firsts as ++ [a] := by
  induction as with
  | nil => rfl
  | cons b as ih =>
    rw [List.cons_append, firsts, ih, List.any_cons, firsts]
    cases hb : b.has a.id <;> cases as.any (·.has a.id) <;> simp [hb]

theorem mem_of_mem_firsts (h : a ∈ firsts as) : a ∈ as := by
  induction as with
  | nil => exact h
  | cons b as ih =>
    rcases List.mem_cons.mp h with rfl | h
    · exact List.mem_cons_self ..
    · exact List.mem_cons_of_mem _ (ih (List.mem_of_mem_filter h))

/-- Every identity that was added has a first addition. -/
theorem exists_first (h : a ∈ as) (ha : a.has id = true) : ∃ b ∈ firsts as, b.has id = true := by
  induction as with
  | nil => cases h
  | cons c as ih =>
    by_cases hc : c.has id = true
    · exact ⟨c, List.mem_cons_self .., hc⟩
    rcases List.mem_cons.mp h with rfl | h
    · exact absurd ha hc
    obtain ⟨b, hb, hid⟩ := ih h
    refine ⟨b, List.mem_cons_of_mem _ (List.mem_filter.mpr ⟨hb, ?_⟩), hid⟩
    rw [has_congr hid]
    simpa using hc

theorem firsts_pairwise (as : List Addition) :
    (firsts as).Pairwise fun a b => a.has b.id = false := by
  induction as with
  | nil => exact .nil
  | cons a as ih =>
    refine List.pairwise_cons.mpr ⟨fun b hb => ?_, ih.filter _⟩
    simpa using (List.mem_filter.mp hb).2

/-- The first addition of an identity is the only one among the first additions. -/
theorem exists_split (h : as.any (·.has a.id) = true) : ∃ before b after,
    firsts as = before ++ b :: after ∧ b.has a.id = true ∧
      (∀ c ∈ before, c.has a.id = false) ∧ ∀ c ∈ after, c.has a.id = false := by
  rcases none_or_first (·.has a.id) (firsts as) with hne | ⟨before, b, after, hsplit, hbefore, hb⟩
  · obtain ⟨c, hc, hid⟩ := List.any_eq_true.mp h
    obtain ⟨b, hb, hb'⟩ := exists_first hc hid
    simp [hne b hb] at hb'
  refine ⟨before, b, after, hsplit, hb, hbefore, fun c hc => ?_⟩
  -- a later one with the identity would have that of the first, and be no first addition
  have hp := firsts_pairwise as
  rw [hsplit, List.pairwise_append, List.pairwise_cons] at hp
  by_contra hne
  have hbc := has_congr (Bool.not_eq_false _ ▸ hne) b
  rw [hp.2.1.1 c hc, hb] at hbc
  cases hbc

/-! ## Groups -/

theorem entry_concat (h : b.has a.id = false) : b.entry (as ++ [a]) = b.entry as := by
  rw [entry, quantityOf_concat, has_comm, h]
  simp [entry]

theorem map_entry_concat (h : ∀ b ∈ bs, b.has a.id = false) :
    bs.map (entry (as ++ [a])) = bs.map (entry as) :=
  List.map_congr_left fun b hb => entry_concat (h b hb)

theorem entry_concat_self (h : ∀ b ∈ as, b.has a.id = false) : a.entry (as ++ [a]) =
    ⟨a.product, a.quantity, priceOf a.product, .int (a.price * a.quantity)⟩ := by
  rw [entry, quantityOf_concat, quantityOf_eq_zero h, has_self, a.hasPrice]
  simp

theorem entry_concat_known (h : b.has a.id = true) : b.entry (as ++ [a]) =
    (b.entry as).raised a.quantity (.int (b.price * (quantityOf as b.id + a.quantity))) := by
  rw [entry, quantityOf_concat, has_symm h]
  rfl

/-- Adding a product to a grouped cart gives the grouped cart. -/
theorem puts_grouped (as : List Addition) (a : Addition) :
    Puts a.product a.quantity (grouped as) (grouped (as ++ [a])) := by
  cases hany : as.any (·.has a.id) with
  | false =>
    have hno : ∀ b ∈ as, b.has a.id = false := by simpa using hany
    have hfirsts : ∀ b ∈ firsts as, b.has a.id = false := fun b hb => hno b (mem_of_mem_firsts hb)
    rw [grouped, grouped, firsts_concat, hany, if_neg (by decide), List.map_append,
      map_entry_concat hfirsts, List.map_singleton, entry_concat_self hno]
    refine .append (List.forall_mem_map.mpr fun b hb => ?_) ?_
    · rw [identity_entry, getD_id]
      exact hfirsts b hb
    · rw [a.hasPrice]
      rfl
  | true =>
    obtain ⟨before, b, after, hsplit, hb, hbefore, hafter⟩ := exists_split hany
    rw [grouped, grouped, firsts_concat, hany, if_pos rfl, hsplit, List.map_append, List.map_cons,
      List.map_append, List.map_cons, map_entry_concat hbefore, map_entry_concat hafter,
      entry_concat_known hb]
    refine .raise (List.forall_mem_map.mpr fun c hc => ?_) ?_ rfl
    · rw [identity_entry, getD_id]
      exact hbefore c hc
    · rw [identity_entry, getD_id]
      exact hb

/-- What a grouped cart says of an identity. -/
theorem quantityAt_grouped (as : List Addition) (id : Datum) : quantityAt (grouped as) id =
    if as.any (·.has id) then some (quantityOf as id) else none := by
  rw [quantityAt, grouped, List.find?_map]
  cases hf : (firsts as).find? ((fun e : Entry => e.identity.same id.value) ∘ entry as) with
  | none =>
    have hne : ∀ b ∈ firsts as, b.has id = false := by
      simpa [has] using List.find?_eq_none.mp hf
    rw [if_neg]
    · rfl
    intro hany
    obtain ⟨b, hb, hid⟩ := List.any_eq_true.mp hany
    obtain ⟨c, hc, hcid⟩ := exists_first hb hid
    simp [hne c hc] at hcid
  | some b =>
    have hb : b.has id = true := by simpa [has] using List.find?_some hf
    rw [if_pos (List.any_eq_true.mpr ⟨b, mem_of_mem_firsts (List.mem_of_find?_eq_some hf), hb⟩)]
    exact congrArg some (quantityOf_congr hb)

theorem quantityAt_perm (h : as.Perm bs) (id : Datum) :
    quantityAt (grouped as) id = quantityAt (grouped bs) id := by
  rw [quantityAt_grouped, quantityAt_grouped, quantityOf_perm h, h.any_eq]

theorem itemCount_grouped (as : List Addition) :
    ((grouped as).map Entry.quantity).sum = (as.map quantity).sum := by
  induction as using List.reverseRecOn with
  | nil => rfl
  | append_singleton as a ih => rw [(puts_grouped as a).quantities, ih]; simp

theorem grouped_pairwise (as : List Addition) :
    (grouped as).Pairwise fun d e => d.identity.same e.identity = false := by
  refine List.pairwise_map.mpr ((firsts_pairwise as).imp fun h => ?_)
  rw [identity_entry, identity_entry]
  exact h

theorem sum_grouped (as : List Addition) :
    Value.sum ((grouped as).map Entry.total) = .ok (.int (cost as)) := by
  rw [grouped, List.map_map, cost, ← Value.sum_int, List.map_map]
  rfl

end Addition

open Addition

/-! ## Runs -/

theorem Counts.whole {v : Value} {n : Int} (h : Counts v n) :
    (v.orElse (.int 1)).whole = .ok n := by
  cases h with
  | none => rfl
  | zero => rfl
  | given h => simp [Value.orElse, Value.truthy, Value.whole, h]

theorem Asks.asksFor {params : Fields Value} {a : Addition} (h : Asks params (some a)) :
    AsksFor params a.product a.quantity := by
  cases h with
  | add ha hp hq => exact ⟨ha, hp, hq.whole⟩

@[simp] theorem sinceClear_clear (asks : List (Option Addition)) :
    sinceClear (asks ++ [none]) = [] := by
  rw [sinceClear, List.rtakeWhile_concat]
  rfl

@[simp] theorem sinceClear_add (asks : List (Option Addition)) (a : Addition) :
    sinceClear (asks ++ [some a]) = sinceClear asks ++ [a] := by
  rw [sinceClear, List.rtakeWhile_concat]
  simp [sinceClear, List.reduceOption_append]

/-- The context after actions that ask for additions and clears: without any it is as it was, and
else its cart lists what was added since the last clear. -/
def shown (context : Context) (asks : List (Option Addition)) : Context :=
  if asks = [] then context
  else Fields.set context "cart"
    (listing (grouped (sinceClear asks)) (.int (cost (sinceClear asks))))

section

variable {context : Context} {params : Fields Value} {pss : List (Fields Value)}
  {asks asks' : List (Option Addition)} {ask : Option Addition}

theorem set_shown (context : Context) (asks : List (Option Addition)) (v : Value) :
    Fields.set (shown context asks) "cart" v = Fields.set context "cart" v := by
  unfold shown
  split
  · rfl
  · exact Fields.set_set ..

theorem shown_concat (context : Context) (asks : List (Option Addition)) (ask : Option Addition) :
    shown context (asks ++ [ask]) = Fields.set context "cart"
      (listing (grouped (sinceClear (asks ++ [ask]))) (.int (cost (sinceClear (asks ++ [ask]))))) :=
  if_neg (by simp)

theorem carries_shown (hc : ∀ cart, context.getD "cart" ≠ .obj cart)
    (asks : List (Option Addition)) : Carries (shown context asks) (grouped (sinceClear asks))
      (.int (cost (sinceClear asks))) := by
  unfold shown
  split
  · subst asks
    exact .none hc
  · exact carries_set (sum_grouped _)

/-- One more action groups one more addition, or none. -/
theorem after_shown (hc : ∀ cart, context.getD "cart" ≠ .obj cart) (h : Asks params ask) :
    Data.after (shown context asks) params = .ok (shown context (asks ++ [ask])) := by
  rw [shown_concat]
  cases ask with
  | none =>
    cases h with
    | clear h =>
      rw [Data.after_clear h, set_shown, sinceClear_clear]
      rfl
  | some a =>
    refine (Data.after_add_iff (carries_shown hc asks) h.asksFor).mpr
      ⟨grouped (sinceClear asks ++ [a]), .int (cost (sinceClear asks ++ [a])), ?_, ?_, ?_⟩
    · exact puts_grouped _ a
    · exact sum_grouped _
    · rw [set_shown, sinceClear_add]

theorem afterAll_shown (hc : ∀ cart, context.getD "cart" ≠ .obj cart)
    (h : List.Forall₂ Asks pss asks') (asks : List (Option Addition)) :
    Data.afterAll (shown context asks) pss = .ok (shown context (asks ++ asks')) := by
  induction h generalizing asks with
  | nil => rw [List.append_nil]; rfl
  | @cons _ ask _ _ h _ ih =>
    have hrest := ih (asks ++ [ask])
    rw [List.append_assoc] at hrest
    rw [Data.afterAll, List.foldlM_cons, after_shown hc h]
    exact hrest

/-- **The cart groups what is added.** After any sequence of additions and clears on a context
without a cart, the cart lists the additions since the last clear, grouped by identity. No two lines
have one identity, one more addition leaves the lines of other identities as they are, and neither
the number of items nor the quantity of an identity depends on the order of the additions. -/
theorem grouped_by_product (hc : ∀ cart, context.getD "cart" ≠ .obj cart)
    (h : List.Forall₂ Asks pss asks) :
    Data.afterAll context pss = .ok (shown context asks) ∧
    (grouped (sinceClear asks)).Pairwise (fun d e => d.identity.same e.identity = false) ∧
    (∀ (a : Addition) (i : Nat) (e : Entry), (grouped (sinceClear asks))[i]? = some e →
      e.identity.same a.id.value = false →
      (grouped (sinceClear (asks ++ [some a])))[i]? = some e) ∧
    ∀ asks', (sinceClear asks).Perm (sinceClear asks') →
      ((grouped (sinceClear asks)).map Entry.quantity).sum =
        ((grouped (sinceClear asks')).map Entry.quantity).sum ∧
      ∀ id, quantityAt (grouped (sinceClear asks)) id =
        quantityAt (grouped (sinceClear asks')) id := by
  refine ⟨afterAll_shown hc h [], grouped_pairwise _, fun a i e he hne => ?_,
    fun asks' hp => ⟨?_, ?_⟩⟩
  · rw [sinceClear_add]
    exact (puts_grouped _ a).keeps he (a.getD_id ▸ hne)
  · rw [itemCount_grouped, itemCount_grouped, (hp.map quantity).sum_eq]
  · exact quantityAt_perm hp

/-! ## A basket -/

/-- An addition of a product with a whole identity. -/
def fruit (id price quantity : Int) : Addition where
  product := [("id", .int id), ("price", .int price)]
  id := ⟨.int id, .int id, .int id⟩
  price := price
  quantity := quantity
  hasId := rfl
  hasPrice := rfl

/-- A product whose identity is true, and which costs nothing. -/
def token (quantity : Int) : Addition where
  product := [("id", .bool true)]
  id := ⟨.bool true, .bool true, .bool true⟩
  price := 0
  quantity := quantity
  hasId := rfl
  hasPrice := rfl

def adds (a : Addition) (quantity : Value) : Fields Value :=
  [("dataAction", .str "addToCart"), ("product", .obj a.product), ("quantity", quantity)]

def clears : Fields Value := [("dataAction", .str "clearCart")]

/-- What is asked for in turn. -/
def basket : List (Fields Value) :=
  [adds (fruit 3 2 1) .null, clears, adds (fruit 2 7 1) (.int 0), adds (fruit 1 5 2) (.int 2),
    adds (token 4) (.int 4), adds (fruit 2 9 3) (.int 3)]

def bought : List (Option Addition) :=
  [some (fruit 3 2 1), none, some (fruit 2 7 1), some (fruit 1 5 2), some (token 4),
    some (fruit 2 9 3)]

/-- What is in the cart before it is emptied does not count, and true is the identity one. -/
theorem grouped_by_product_basket : (∀ cart, Fields.getD ([] : Context) "cart" ≠ .obj cart) ∧
    List.Forall₂ Asks basket bought ∧
    Data.afterAll [] basket = .ok [("cart", listing
      [⟨(fruit 2 7 1).product, 4, .int 7, .int 28⟩, ⟨(fruit 1 5 2).product, 6, .int 5, .int 30⟩]
      (.int 58))] := by
  have hnone : ∀ cart, Fields.getD ([] : Context) "cart" ≠ .obj cart := fun _ h => nomatch h
  have hasks : List.Forall₂ Asks basket bought :=
    .cons (.add rfl rfl .none) <| .cons (.clear rfl) <| .cons (.add rfl rfl .zero) <|
      .cons (.add rfl rfl (.given (by decide))) <| .cons (.add rfl rfl (.given (by decide))) <|
      .cons (.add rfl rfl (.given (by decide))) .nil
  exact ⟨hnone, hasks, (grouped_by_product hnone hasks).1⟩

end

end Workflow.Cart
