import Mathlib
import Workflow.Handler.Data
import Workflow.Proofs.Value.Distinct

/-!
# Carts that actions build

A cart that actions have built lists entries: a product with its quantity, the price that it had
when it was first added, and their total. Adding a product raises the first entry with the same
product identity, or appends one, and leaves all others as they are.

Results:
* `add_lines_iff`: what adding a product does to the entries.
* `sum_totals`, `sum_quantities`: what the entries sum up to.
* `Data.after_add_iff`: what adding a product does to the cart of a context.
-/
namespace Workflow

/-! ## Sums -/

namespace Value

theorem foldlM_plus_int (ns : List Int) (m : Int) :
    (ns.map Value.int).foldlM (plus .fresh) (.int m) = .ok (.int (m + ns.sum)) := by
  induction ns generalizing m with
  | nil => simp [pure, Except.pure]
  | cons n ns ih =>
    rw [List.map_cons, List.foldlM_cons, plus_int, List.sum_cons, ← Int.add_assoc]
    exact ih (m + n)

/-- Whole numbers are summed up exactly. -/
theorem sum_int (ns : List Int) : sum (ns.map Value.int) = .ok (.int ns.sum) := by
  rw [sum, foldlM_plus_int, Int.zero_add]

theorem sum_concat (vs : List Value) (v : Value) :
    sum (vs ++ [v]) = sum vs >>= (plus .fresh · v) := by
  rw [sum, sum, List.foldlM_append]
  refine bind_congr fun w => ?_
  rw [List.foldlM_cons]
  exact bind_pure (plus .fresh w v)

end Value

/-- Nothing in a list passes a test, or there is a first that does. -/
theorem none_or_first {α : Type} (p : α → Bool) (xs : List α) : (∀ x ∈ xs, p x = false) ∨
    ∃ before x after, xs = before ++ x :: after ∧ (∀ y ∈ before, p y = false) ∧ p x = true := by
  cases hf : xs.find? p with
  | none => exact .inl (by simpa using List.find?_eq_none.mp hf)
  | some x =>
    obtain ⟨hx, before, after, rfl, hb⟩ := List.find?_eq_some_iff_append.mp hf
    exact .inr ⟨before, x, after, rfl, by simpa using hb, hx⟩

namespace Cart

/-- A line of a cart as adding products makes it. -/
structure Entry where
  product : Fields Value
  quantity : Int
  price : Value
  total : Value

/-- The price of a product; without one it costs nothing. -/
def priceOf (product : Fields Value) : Value := (product.get? "price").getD (.int 0)

namespace Entry

/-- The identity of the entry's product, null if it has none. -/
def identity (e : Entry) : Value := e.product.getD "id"

/-- The entry as a line. -/
def line (e : Entry) : Line :=
  [("product", .obj e.product), ("quantity", .int e.quantity), ("price", e.price),
    ("total", e.total)]

/-- The entry with its quantity raised, and the total that this comes to. -/
def raised (e : Entry) (quantity : Int) (total : Value) : Entry :=
  { e with quantity := e.quantity + quantity, total }

end Entry

/-- What adding a product can do to entries. -/
inductive Puts (product : Fields Value) (quantity : Int) : List Entry → List Entry → Prop where
  /-- No entry has the identity of the product, and it is appended. -/
  | append {es : List Entry} {total : Value}
    (h : ∀ e ∈ es, e.identity.same (product.getD "id") = false)
    (ht : amount (priceOf product) (.int quantity) = .ok total) :
    Puts product quantity es (es ++ [⟨product, quantity, priceOf product, total⟩])
  /-- The first entry with the identity of the product is raised, at its own price. -/
  | raise {before after : List Entry} {e : Entry} {total : Value}
    (h : ∀ d ∈ before, d.identity.same (product.getD "id") = false)
    (he : e.identity.same (product.getD "id") = true)
    (ht : amount e.price (.int (e.quantity + quantity)) = .ok total) :
    Puts product quantity (before ++ e :: after) (before ++ e.raised quantity total :: after)

/-- The cart that lists entries and sums them up. -/
def listing (es : List Entry) (total : Value) : Value :=
  .obj [("items", .list ((es.map Entry.line).map .obj)),
    ("itemCount", .int (es.map Entry.quantity).sum), ("total", total)]

variable {product : Fields Value} {quantity : Int} {es es' before after : List Entry} {e : Entry}
  {ls : List Line} {total v : Value}

/-! ## Lines -/

theorem newLine_eq (product : Fields Value) (quantity : Int) : newLine product quantity =
    (amount (priceOf product) (.int quantity)).map fun total =>
      (⟨product, quantity, priceOf product, total⟩ : Entry).line := rfl

theorem raise_line (e : Entry) (quantity : Int) : raise e.line quantity =
    (amount e.price (.int (e.quantity + quantity))).map fun total =>
      (e.raised quantity total).line := by
  cases ha : amount e.price (.int (e.quantity + quantity)) with
  | error f =>
    simp [raise, field, Value.field, Entry.line, Fields.get?, Fields.set, Fields.has,
      List.lookup_cons, Value.plus_int, Except.mapError, bind, Except.bind, ha, Except.map]
  | ok total =>
    simp [raise, field, Value.field, Entry.line, Entry.raised, Fields.get?, Fields.set, Fields.has,
      List.lookup_cons, Value.plus_int, Except.mapError, bind, Except.bind, ha, Except.map, pure,
      Except.pure]

theorem add_cons_line (e : Entry) (ls : List Line) : add product quantity (e.line :: ls) =
    if e.identity.same (product.getD "id") then (raise e.line quantity).map (· :: ls)
    else (add product quantity ls).map (e.line :: ·) := rfl

/-- Entries with other identities are passed over. -/
theorem add_behind (h : ∀ e ∈ before, e.identity.same (product.getD "id") = false)
    (ls : List Line) : add product quantity (before.map Entry.line ++ ls) =
      (add product quantity ls).map (before.map Entry.line ++ ·) := by
  induction before with
  | nil => cases hl : add product quantity ls <;> simp [hl, Except.map]
  | cons e before ih =>
    obtain ⟨he, hes⟩ := List.forall_mem_cons.mp h
    rw [List.map_cons, List.cons_append, add_cons_line, he, if_neg (by decide), ih hes]
    cases add product quantity ls <;> rfl

theorem add_fresh (h : ∀ e ∈ es, e.identity.same (product.getD "id") = false) :
    add product quantity (es.map Entry.line) =
      (amount (priceOf product) (.int quantity)).map fun total =>
        (es ++ [(⟨product, quantity, priceOf product, total⟩ : Entry)]).map Entry.line := by
  rw [← List.append_nil (es.map Entry.line), add_behind h, add_nil, newLine_eq]
  cases amount (priceOf product) (.int quantity) <;> simp [Except.map]

theorem add_found (h : ∀ d ∈ before, d.identity.same (product.getD "id") = false)
    (he : e.identity.same (product.getD "id") = true) :
    add product quantity ((before ++ e :: after).map Entry.line) =
      (amount e.price (.int (e.quantity + quantity))).map fun total =>
        (before ++ e.raised quantity total :: after).map Entry.line := by
  rw [List.map_append, List.map_cons, add_behind h, add_cons_line, if_pos he, raise_line]
  cases amount e.price (.int (e.quantity + quantity)) <;> simp [Except.map]

/-- **Adding a product** raises the first entry with the identity of the product, or appends one. -/
theorem add_lines_iff : add product quantity (es.map Entry.line) = .ok ls ↔
    ∃ es', Puts product quantity es es' ∧ es'.map Entry.line = ls := by
  constructor
  · intro h
    rcases none_or_first (fun e : Entry => e.identity.same (product.getD "id")) es with
      hne | ⟨before, e, after, rfl, hne, he⟩
    · rw [add_fresh hne] at h
      obtain ⟨total, ht, hls⟩ := except_map_ok_iff.mp h
      exact ⟨_, .append hne ht, hls⟩
    · rw [add_found hne he] at h
      obtain ⟨total, ht, hls⟩ := except_map_ok_iff.mp h
      exact ⟨_, .raise hne he ht, hls⟩
  · rintro ⟨es', h, rfl⟩
    cases h with
    | append hne ht =>
      rw [add_fresh hne, ht]
      rfl
    | raise hne he ht =>
      rw [add_found hne he, ht]
      rfl

theorem Puts.quantities (h : Puts product quantity es es') :
    (es'.map Entry.quantity).sum = (es.map Entry.quantity).sum + quantity := by
  cases h with
  | append => simp
  | raise => simp [Entry.raised]; omega

/-- Entries of other identities stay as they are, and where they are. -/
theorem Puts.keeps (h : Puts product quantity es es') {i : Nat} (he : es[i]? = some e)
    (hne : e.identity.same (product.getD "id") = false) : es'[i]? = some e := by
  cases h with
  | append => rw [List.getElem?_append_left (List.getElem?_eq_some_iff.mp he).1, he]
  | @raise before after d total _ hd _ =>
    rw [List.getElem?_append] at he ⊢
    split at he
    · rw [if_pos ‹_›, he]
    · rw [if_neg ‹_›]
      cases hi : i - before.length with
      | zero =>
        rw [hi] at he
        simp only [List.getElem?_cons_zero, Option.some.injEq] at he
        simp [he, hne] at hd
      | succ j => rwa [hi] at he

/-! ## Sums over lines -/

theorem sumFrom_lines {name : String} {f : Entry → Value}
    (hf : ∀ e : Entry, field e.line name = .ok (f e)) (v : Value) :
    sumFrom name v (es.map Entry.line) =
      ((es.map f).foldlM (Value.plus .fresh) v).mapError .arithmetic := by
  induction es generalizing v with
  | nil => rfl
  | cons e es ih =>
    rw [List.map_cons, List.map_cons, sumFrom, hf e, List.foldlM_cons]
    cases hs : v.plus .fresh (f e) with
    | error f => simp [hs, bind, Except.bind, Except.mapError]
    | ok w => simpa [hs, bind, Except.bind] using ih w

theorem sum_quantities (es : List Entry) :
    sum "quantity" (es.map Entry.line) = .ok (.int (es.map Entry.quantity).sum) := by
  have hs := Value.sum_int (es.map Entry.quantity)
  rw [Value.sum, List.map_map] at hs
  rw [sum, sumFrom_lines (f := fun e => .int e.quantity) fun _ => rfl]
  exact congrArg (Except.mapError Fault.arithmetic) hs

theorem sum_totals (es : List Entry) : sum "total" (es.map Entry.line) =
    (Value.sum (es.map Entry.total)).mapError .arithmetic :=
  sumFrom_lines (f := Entry.total) (fun _ => rfl) _

theorem ofLines_lines_iff : ofLines (es.map Entry.line) = .ok v ↔
    ∃ total, Value.sum (es.map Entry.total) = .ok total ∧ v = listing es total := by
  have hcount := sum_quantities es
  unfold ofLines
  rw [hcount, sum_totals]
  cases Value.sum (es.map Entry.total) with
  | error f => simp [bind, Except.bind, Except.mapError]
  | ok total => simp [bind, Except.bind, Except.mapError, pure, Except.pure, listing, eq_comm]

theorem linesOf_objects (ls : List Line) : linesOf (ls.map .obj) = .ok ls := by
  induction ls with
  | nil => rfl
  | cons l ls ih => rw [List.map_cons, linesOf, Value.asFields_obj, ih]; rfl

/-! ## Carts in contexts -/

/-- The context has a cart with some entries and their total; what is no object is an empty cart. -/
inductive Carries (context : Context) : List Entry → Value → Prop where
  | none (h : ∀ cart, context.getD "cart" ≠ .obj cart) : Carries context [] (.int 0)
  | cart {es : List Entry} {total : Value} (h : context.getD "cart" = listing es total)
    (ht : Value.sum (es.map Entry.total) = .ok total) : Carries context es total

/-- Parameters that ask for a product to be added. -/
structure AsksFor (params product : Fields Value) (quantity : Int) : Prop where
  action : params.getD "dataAction" = .str "addToCart"
  product : params.getD "product" = .obj product
  quantity : ((params.getD "quantity").orElse (.int 1)).whole = .ok quantity

variable {context context' params : Fields Value}

theorem Carries.sum (h : Carries context es total) :
    Value.sum (es.map Entry.total) = .ok total := by
  cases h with
  | none => rfl
  | cart _ ht => exact ht

theorem Carries.lines (h : Carries context es total) :
    lines context = .ok (es.map Entry.line) := by
  cases h with
  | none h =>
    unfold Cart.lines
    split
    · rename_i cart hc
      exact absurd hc (h cart)
    · rfl
  | cart h =>
    rw [Cart.lines, h]
    exact linesOf_objects _

theorem carries_set (ht : Value.sum (es.map Entry.total) = .ok total) :
    Carries (Fields.set context "cart" (listing es total)) es total := by
  refine .cart ?_ ht
  rw [Fields.getD, Fields.get?_set_self]
  rfl

theorem addTo_iff (h : Carries context es total) : addTo context product quantity = .ok v ↔
    ∃ es' total', Puts product quantity es es' ∧
      Value.sum (es'.map Entry.total) = .ok total' ∧ v = listing es' total' := by
  unfold addTo
  simp only [except_bind_ok_iff, h.lines, Except.ok.injEq]
  constructor
  · rintro ⟨_, rfl, ls, hadd, hof⟩
    obtain ⟨es', hp, rfl⟩ := add_lines_iff.mp hadd
    obtain ⟨total', ht, rfl⟩ := ofLines_lines_iff.mp hof
    exact ⟨es', total', hp, ht, rfl⟩
  · rintro ⟨es', total', hp, ht, rfl⟩
    exact ⟨_, rfl, _, add_lines_iff.mpr ⟨es', hp, rfl⟩, ofLines_lines_iff.mpr ⟨total', ht, rfl⟩⟩

end Cart

/-! ## Actions -/

namespace Data

open Cart

variable {context context' params product : Fields Value} {quantity : Int} {es : List Entry}
  {total : Value}

/-- The context after an action: the result of the action is merged into it. -/
def after (context : Context) (params : Fields Value) : Except Fault Context :=
  (run params context).map fun v => Context.update context v.obj?

/-- The context after one action after another. -/
def afterAll (context : Context) (pss : List (Fields Value)) : Except Fault Context :=
  pss.foldlM after context

theorem after_clear (h : params.getD "dataAction" = .str "clearCart") :
    after context params = .ok (Fields.set context "cart" (listing [] (.int 0))) := by
  rw [after, run_clear params context h]
  rfl

/-- What adding a product does to the cart of a context. -/
theorem after_add_iff (h : Carries context es total) (hp : AsksFor params product quantity) :
    after context params = .ok context' ↔ ∃ es' total', Puts product quantity es es' ∧
      Value.sum (es'.map Entry.total) = .ok total' ∧
      context' = Fields.set context "cart" (listing es' total') := by
  have hrun : after context params = ((addTo context product quantity).map fun cart =>
      Fields.set context "cart" cart).mapError .cart := by
    rw [after, run, hp.action]
    simp only [addToCart, hp.product, hp.quantity]
    cases addTo context product quantity <;> rfl
  rw [hrun, except_mapError_ok_iff, except_map_ok_iff]
  constructor
  · rintro ⟨cart, hadd, rfl⟩
    obtain ⟨es', total', hputs, ht, rfl⟩ := (addTo_iff h).mp hadd
    exact ⟨es', total', hputs, ht, rfl⟩
  · rintro ⟨es', total', hputs, ht, rfl⟩
    exact ⟨_, (addTo_iff h).mpr ⟨es', total', hputs, ht, rfl⟩, rfl⟩

end Data
end Workflow
