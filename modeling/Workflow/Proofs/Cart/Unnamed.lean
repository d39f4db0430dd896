import Workflow.Proofs.Cart.Entries
import Workflow.Value.Order

/-!
# Products without an identity

A product without an identity counts as one whose identity is null. It therefore gets a line of its
own only if no product of the cart lacks an identity; else it raises the first line without one, at
the price of that line.

Results:
* `Built.exists_carries`: every cart that actions build lists entries.
* `after_appended_iff`, `after_raised_iff`: when it gets a line of its own, and when it does not.
* `unnamed_added`: what becomes of a product without an identity.
* `unnamed_merged`: two different products without an identity come to one line.
-/
namespace Workflow.Cart

/-- A context whose cart, if there is one, was built by emptying it and by adding products. -/
inductive Built : Context → Prop where
  | start {context : Context} (h : ∀ cart, context.getD "cart" ≠ .obj cart) : Built context
  | step {context context' : Context} {params : Fields Value} (h : Built context)
    (ha : params.getD "dataAction" = .str "clearCart" ∨
      params.getD "dataAction" = .str "addToCart")
    (hr : Data.after context params = .ok context') : Built context'

variable {context context' params product : Fields Value} {quantity price : Int}
  {es es' before after : List Entry} {e : Entry} {total total' : Value}

/-! ## Built carts -/

theorem Carries.congr (h : Carries context es total)
    (hc : context'.getD "cart" = context.getD "cart") : Carries context' es total := by
  cases h with
  | none h => exact .none (hc ▸ h)
  | cart h ht => exact .cart (hc.trans h) ht

/-- Adding what is no product leaves the cart as it is. -/
theorem Carries.after_no_product (h : Carries context es total)
    (ha : params.getD "dataAction" = .str "addToCart")
    (hp : ∀ product, params.getD "product" ≠ .obj product)
    (hr : Data.after context params = .ok context') : Carries context' es total := by
  have hrun : Data.after context params = .ok (Fields.set context "error"
      (.obj [("message", .str "Product is required")])) := by
    rw [Data.after, Data.run, ha]
    simp only [Data.addToCart]
    rfl
  rw [hrun, Except.ok.injEq] at hr
  refine h.congr ?_
  rw [← hr, Fields.getD, Fields.get?_set_of_ne _ _ (by decide)]
  rfl

/-- A product that was added had a quantity. -/
theorem exists_asksFor (ha : params.getD "dataAction" = .str "addToCart")
    (hp : params.getD "product" = .obj product) (hr : Data.after context params = .ok context') :
    ∃ quantity, AsksFor params product quantity := by
  rw [Data.after, Data.run, ha] at hr
  simp only [Data.addToCart, hp] at hr
  cases hq : ((params.getD "quantity").orElse (.int 1)).whole with
  | error f => simp [hq, Except.map] at hr
  | ok quantity => exact ⟨quantity, ha, hp, hq⟩

/-- Every cart that actions build lists entries and sums them up. -/
theorem Built.exists_carries (h : Built context) : ∃ es total, Carries context es total := by
  induction h with
  | start h => exact ⟨[], .int 0, .none h⟩
  | @step context context' params _ ha hr ih =>
    obtain ⟨es, total, hes⟩ := ih
    rcases ha with ha | ha
    · rw [Data.after_clear ha, Except.ok.injEq] at hr
      exact ⟨[], .int 0, hr ▸ carries_set rfl⟩
    · by_cases hp : ∃ product, params.getD "product" = .obj product
      · obtain ⟨product, hp⟩ := hp
        obtain ⟨quantity, hask⟩ := exists_asksFor ha hp hr
        obtain ⟨es', total', -, ht, rfl⟩ := (Data.after_add_iff hes hask).mp hr
        exact ⟨es', total', carries_set ht⟩
      · exact ⟨es, total, hes.after_no_product ha (not_exists.mp hp) hr⟩

/-! ## Where a product goes -/

theorem split_unique {α : Type} {p : α → Bool} {xs xs' ys ys' : List α} {x x' : α}
    (h : ∀ y ∈ xs, p y = false) (hx : p x = true) (h' : ∀ y ∈ xs', p y = false) (hx' : p x' = true)
    (he : xs ++ x :: ys = xs' ++ x' :: ys') : xs = xs' ∧ x = x' ∧ ys = ys' := by
  induction xs generalizing xs' with
  | nil =>
    cases xs' with
    | nil => simpa using he
    | cons y xs' =>
      obtain ⟨rfl, -⟩ := List.cons.inj he
      simp [hx] at h'
  | cons y xs ih =>
    cases xs' with
    | nil =>
      obtain ⟨rfl, -⟩ := List.cons.inj he
      simp [hx'] at h
    | cons y' xs' =>
      obtain ⟨rfl, htail⟩ := List.cons.inj he
      have hxs := (List.forall_mem_cons.mp h).2
      obtain ⟨rfl, hxx, hys⟩ := ih hxs (List.forall_mem_cons.mp h').2 htail
      exact ⟨rfl, hxx, hys⟩

theorem puts_fresh_iff (h : ∀ e ∈ es, e.identity.same (product.getD "id") = false) :
    Puts product quantity es es' ↔ ∃ total, amount (priceOf product) (.int quantity) = .ok total ∧
      es' = es ++ [⟨product, quantity, priceOf product, total⟩] := by
  constructor
  · intro hp
    cases hp with
    | append _ ht => exact ⟨_, ht, rfl⟩
    | raise _ he _ => simp [h _ (List.mem_append_right _ (List.mem_cons_self ..))] at he
  · rintro ⟨total, ht, rfl⟩
    exact .append h ht

theorem puts_found_iff (h : ∀ d ∈ before, d.identity.same (product.getD "id") = false)
    (he : e.identity.same (product.getD "id") = true) :
    Puts product quantity (before ++ e :: after) es' ↔
      ∃ total, amount e.price (.int (e.quantity + quantity)) = .ok total ∧
        es' = before ++ e.raised quantity total :: after := by
  constructor
  · intro hp
    generalize hes : before ++ e :: after = es at hp
    cases hp with
    | append hne _ =>
      simp [hne e (hes ▸ List.mem_append_right _ (List.mem_cons_self ..))] at he
    | raise h' he' ht =>
      obtain ⟨rfl, rfl, rfl⟩ := split_unique h he h' he' hes
      exact ⟨_, ht, rfl⟩
  · rintro ⟨total, ht, rfl⟩
    exact .raise h he ht

theorem listing_inj {v w : Value} (h : listing es v = listing es' w) :
    es.length = es'.length ∧ v = w := by
  simp only [listing, Value.obj.injEq, List.cons.injEq, Prod.mk.injEq, true_and, and_true,
    Value.list.injEq] at h
  exact ⟨by simpa using congrArg List.length h.1, h.2.2⟩

theorem set_inj {v w : Value} (h : Fields.set context "cart" v = Fields.set context "cart" w) :
    v = w := by
  have hg := congrArg (fun fs : Fields Value => fs.get? "cart") h
  simpa using hg

theorem same_absent (hid : product.get? "id" = none) (v : Value) :
    v.same (product.getD "id") = true ↔ v = .null := by
  rw [Fields.getD, hid]
  cases v <;> simp [Value.same, Value.isNull, Value.sameNumber, Value.number?]

theorem not_same_absent (hid : product.get? "id" = none) (v : Value) :
    v.same (product.getD "id") = false ↔ v ≠ .null := by
  rw [← Bool.not_eq_true, same_absent hid]

/-! ## Products without an identity -/

/-- If every product of a cart has an identity, one without is appended. -/
theorem after_appended_iff (hes : Carries context es total) (hp : AsksFor params product quantity)
    (hid : product.get? "id" = none) (hprice : priceOf product = .int price)
    (hnull : ∀ e ∈ es, e.identity ≠ .null) : Data.after context params = .ok context' ↔
      ∃ total', total.plus .fresh (.int (price * quantity)) = .ok total' ∧
        context' = Fields.set context "cart"
          (listing (es ++ [⟨product, quantity, .int price, .int (price * quantity)⟩]) total') := by
  have hputs (es') : Puts product quantity es es' ↔
      es' = es ++ [⟨product, quantity, .int price, .int (price * quantity)⟩] := by
    rw [puts_fresh_iff fun e he => (not_same_absent hid _).mpr (hnull e he), hprice]
    simp [amount, Value.times_int, Except.mapError]
  have hsum (x : Entry) : Value.sum ((es ++ [x]).map Entry.total) = total.plus .fresh x.total := by
    rw [List.map_append, List.map_singleton, Value.sum_concat, hes.sum]
    rfl
  rw [Data.after_add_iff hes hp]
  constructor
  · rintro ⟨es', total', h, ht, rfl⟩
    obtain rfl := (hputs es').mp h
    exact ⟨total', (hsum _).symm.trans ht, rfl⟩
  · rintro ⟨total', ht, rfl⟩
    exact ⟨_, total', (hputs _).mpr rfl, (hsum _).trans ht, rfl⟩

/-- A product without an identity raises the first entry without one. -/
theorem after_raised_iff (hes : Carries context (before ++ e :: after) total)
    (hp : AsksFor params product quantity) (hid : product.get? "id" = none)
    (hbefore : ∀ d ∈ before, d.identity ≠ .null) (he : e.identity = .null) :
    Data.after context params = .ok context' ↔
      ∃ t total', amount e.price (.int (e.quantity + quantity)) = .ok t ∧
        Value.sum ((before ++ e.raised quantity t :: after).map Entry.total) = .ok total' ∧
        context' = Fields.set context "cart"
          (listing (before ++ e.raised quantity t :: after) total') := by
  have hputs (es') : Puts product quantity (before ++ e :: after) es' ↔ _ :=
    puts_found_iff (fun d hd => (not_same_absent hid _).mpr (hbefore d hd))
      ((same_absent hid _).mpr he)
  rw [Data.after_add_iff hes hp]
  constructor
  · rintro ⟨es', total', h, ht, rfl⟩
    obtain ⟨t, hamount, rfl⟩ := (hputs es').mp h
    exact ⟨t, total', hamount, ht, rfl⟩
  · rintro ⟨t, total', hamount, ht, rfl⟩
    exact ⟨_, total', (hputs _).mpr ⟨t, hamount, rfl⟩, ht, rfl⟩

/-- **A product without an identity** is appended, with its own price and the given quantity,
exactly if no product of the cart lacks an identity, and then its amount is added to the total of
the cart. Otherwise the first entry without an identity is raised at its own price, and nothing is
appended. -/
theorem unnamed_added (hb : Built context) (hp : AsksFor params product quantity)
    (hid : product.get? "id" = none) (hprice : priceOf product = .int price) :
    (∃ es total, Carries context es total) ∧ ∀ es total, Carries context es total →
      (∀ total', Data.after context params = .ok (Fields.set context "cart"
          (listing (es ++ [⟨product, quantity, .int price, .int (price * quantity)⟩]) total')) ↔
        (∀ e ∈ es, e.identity ≠ .null) ∧
          total.plus .fresh (.int (price * quantity)) = .ok total') ∧
      ∀ before e after, es = before ++ e :: after → (∀ d ∈ before, d.identity ≠ .null) →
        e.identity = .null → ∀ context', Data.after context params = .ok context' ↔
          ∃ t total', amount e.price (.int (e.quantity + quantity)) = .ok t ∧
            Value.sum ((before ++ e.raised quantity t :: after).map Entry.total) = .ok total' ∧
            context' = Fields.set context "cart"
              (listing (before ++ e.raised quantity t :: after) total') := by
  refine ⟨hb.exists_carries, fun es total hes => ⟨fun total' => ?_, ?_⟩⟩
  · rcases none_or_first (fun e : Entry => e.identity.same (product.getD "id")) es with
      hne | ⟨before, e, after, rfl, hbefore, he⟩
    · have hnull : ∀ e ∈ es, e.identity ≠ .null := fun e he => (not_same_absent hid _).mp (hne e he)
      rw [after_appended_iff hes hp hid hprice hnull, and_iff_right hnull]
      constructor
      · rintro ⟨sum, hsum, heq⟩
        obtain ⟨-, rfl⟩ := listing_inj (set_inj heq)
        exact hsum
      · exact fun hsum => ⟨total', hsum, rfl⟩
    · have hnull : e.identity = .null := (same_absent hid _).mp he
      have hother : ∀ d ∈ before, d.identity ≠ .null :=
        fun d hd => (not_same_absent hid _).mp (hbefore d hd)
      rw [after_raised_iff hes hp hid hother hnull]
      constructor
      · rintro ⟨t, sum, -, -, heq⟩
        -- raising an entry leaves as many as there were
        have hlen := (listing_inj (set_inj heq)).1
        simp at hlen
      · exact fun h => absurd hnull (h.1 e (by simp))
  · rintro before e after rfl hbefore he context'
    exact after_raised_iff hes hp hid hbefore he

/-! ## Fruit -/

def apple : Fields Value := [("name", .str "apple"), ("price", .int 5)]

def pear : Fields Value := [("name", .str "pear"), ("price", .int 7)]

/-- An apple with an identity. -/
def namedApple : Fields Value := [("id", .int 1), ("price", .int 5)]

def adding (product : Fields Value) : Fields Value :=
  [("dataAction", .str "addToCart"), ("product", .obj product)]

/-- A context with one apple in its cart. -/
def oneApple (product : Fields Value) : Context :=
  [("cart", listing [⟨product, 1, .int 5, .int 5⟩] (.int 5))]

theorem asksFor_adding (product : Fields Value) : AsksFor (adding product) product 1 :=
  ⟨rfl, rfl, rfl⟩

theorem built_oneApple {product : Fields Value} (h : priceOf product = .int 5) :
    Built (oneApple product) := by
  have hput : Puts product 1 [] [⟨product, 1, .int 5, .int 5⟩] :=
    (puts_fresh_iff (by simp)).mpr ⟨.int 5, by rw [h]; rfl, by rw [h]; rfl⟩
  have hnone : ∀ cart, Fields.getD ([] : Context) "cart" ≠ .obj cart := fun _ h => nomatch h
  have hafter : Data.after [] (adding product) = .ok (oneApple product) :=
    (Data.after_add_iff (.none hnone) (asksFor_adding product)).mpr ⟨_, .int 5, hput, rfl, rfl⟩
  exact .step (.start hnone) (.inr rfl) hafter

/-- A pear without an identity goes beside an apple that has one. -/
theorem unnamed_added_pear : Built (oneApple namedApple) ∧ AsksFor (adding pear) pear 1 ∧
    pear.get? "id" = none ∧ priceOf pear = .int 7 ∧
    Data.after (oneApple namedApple) (adding pear) = .ok [("cart", listing
      [⟨namedApple, 1, .int 5, .int 5⟩, ⟨pear, 1, .int 7, .int 7⟩] (.int 12))] := by
  have hb : Built (oneApple namedApple) := built_oneApple rfl
  refine ⟨hb, asksFor_adding pear, rfl, rfl, ?_⟩
  have hes : Carries (oneApple namedApple) [⟨namedApple, 1, .int 5, .int 5⟩] (.int 5) :=
    .cart rfl rfl
  refine (((unnamed_added hb (asksFor_adding pear) rfl rfl).2 _ _ hes).1 (.int 12)).mpr ⟨?_, rfl⟩
  simp [Entry.identity, namedApple, Fields.getD, Fields.get?]

/-- A pear without an identity makes two of an apple without one, at the price of the apple. -/
theorem unnamed_merged : Built (oneApple apple) ∧ AsksFor (adding pear) pear 1 ∧
    pear.get? "id" = none ∧ priceOf pear = .int 7 ∧
    Carries (oneApple apple) [⟨apple, 1, .int 5, .int 5⟩] (.int 5) ∧
    Data.after (oneApple apple) (adding pear) =
      .ok [("cart", listing [⟨apple, 2, .int 5, .int 10⟩] (.int 10))] ∧
    ∀ total, Data.after (oneApple apple) (adding pear) ≠ .ok [("cart", listing
      [⟨apple, 1, .int 5, .int 5⟩, ⟨pear, 1, .int 7, .int 7⟩] total)] := by
  have hafter : Data.after (oneApple apple) (adding pear) =
      .ok [("cart", listing [⟨apple, 2, .int 5, .int 10⟩] (.int 10))] := rfl
  refine ⟨built_oneApple rfl, asksFor_adding pear, rfl, rfl, .cart rfl rfl, hafter, ?_⟩
  intro total h
  rw [hafter, Except.ok.injEq] at h
  have hlen := (listing_inj (@set_inj [] _ _ h)).1
  simp at hlen

end Workflow.Cart
