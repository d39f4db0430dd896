import Workflow.Value.Access
import Workflow.Value.Fault

/-!
# Carts

A cart lists its lines, each a product with a quantity, a price and their product. Adding a product
raises the quantity of the first line with the same product identity, or appends a line. The cart
sums up the quantities and the products.
-/
namespace Workflow.Cart

inductive Fault where
  | access (f : AccessFault)
  | numeral (f : NumeralFault)
  | arithmetic (f : ArithmeticFault)
  deriving DecidableEq, Repr

def Fault.raised : Fault → Raised
  | .access f => f.raised
  | .numeral f => f.raised
  | .arithmetic f => f.raised

/-- A line of a cart. -/
abbrev Line := Fields Value

/-- A cart without lines; mirrors `_empty_cart`. -/
def empty : Value := .obj [("items", .list []), ("itemCount", .int 0), ("total", .int 0)]

/-- A field that a line must have. -/
def field (l : Line) (name : String) : Except Fault Value :=
  (Value.field l name).mapError .access

/-- The identity of a line's product. -/
def productId (l : Line) : Except Fault Value :=
  match l.get? "product" with
  | none => .ok .null
  | some (.obj product) => .ok (Fields.getD product "id")
  | some v => .error (.access (.noMember v.kind "get"))

def amount (price quantity : Value) : Except Fault Value :=
  (price.times quantity).mapError .arithmetic

/-- A line for a product. -/
def newLine (product : Fields Value) (quantity : Int) : Except Fault Line :=
  let price := (product.get? "price").getD (.int 0)
  (amount price (.int quantity)).map fun total =>
    [("product", .obj product), ("quantity", .int quantity), ("price", price), ("total", total)]

/-- A line with its quantity raised. -/
def raise (l : Line) (quantity : Int) : Except Fault Line := do
  let before ← field l "quantity"
  let after ← (before.plus .inPlace (.int quantity)).mapError .arithmetic
  let l := Fields.set l "quantity" after
  let price ← field l "price"
  let total ← amount price after
  return Fields.set l "total" total

/-- Adds a product to lines. -/
def add (product : Fields Value) (quantity : Int) : List Line → Except Fault (List Line)
  | [] => (newLine product quantity).map ([·])
  | l :: ls =>
    match productId l with
    | .error f => .error f
    | .ok id =>
      if id.same (product.getD "id") then (raise l quantity).map (· :: ls)
      else (add product quantity ls).map (l :: ·)

/-- The sum of a field over lines, on top of a value. -/
def sumFrom (name : String) (v : Value) : List Line → Except Fault Value
  | [] => .ok v
  | l :: ls =>
    match field l name with
    | .error f => .error f
    | .ok w =>
      match v.plus .fresh w with
      | .error f => .error (.arithmetic f)
      | .ok sum => sumFrom name sum ls

def sum (name : String) (ls : List Line) : Except Fault Value := sumFrom name (.int 0) ls

/-- Lines from the items of a cart. -/
def linesOf : List Value → Except Fault (List Line)
  | [] => .ok []
  | v :: vs =>
    match v.asFields with
    | .error f => .error (.access f)
    | .ok l => (linesOf vs).map (l :: ·)

/-- The lines of the cart in a context. What is no object is no cart. -/
def lines (context : Context) : Except Fault (List Line) :=
  match context.getD "cart" with
  | .obj cart =>
    match ((Fields.get? cart "items").getD (.list [])).items with
    | .error f => .error (.access f)
    | .ok vs => linesOf vs
  | _ => .ok []

def ofLines (ls : List Line) : Except Fault Value := do
  let count ← sum "quantity" ls
  let total ← sum "total" ls
  return .obj [("items", .list (ls.map .obj)), ("itemCount", count), ("total", total)]

/-- The cart in a context with a product added; mirrors `DataHandler._add_to_cart`. -/
def addTo (context : Context) (product : Fields Value) (quantity : Int) : Except Fault Value := do
  let before ← lines context
  let after ← add product quantity before
  ofLines after

theorem add_nil (product : Fields Value) (quantity : Int) :
    add product quantity [] = (newLine product quantity).map ([·]) := rfl

end Workflow.Cart
