import Workflow.Handler.Cart

/-!
# Data actions

Changes to the context that parameters describe: emptying the cart, adding a product to it, and
setting a name to a value. An action that is not known does nothing and says that it is done.
-/
namespace Workflow.Data

inductive Fault where
  | cart (f : Cart.Fault)
  | noKey
  deriving DecidableEq, Repr

def Fault.raised : Fault → Raised
  | .cart f => f.raised
  | .noKey => ⟨"ValueError", "'set' requires a string 'key'"⟩

/-- The result of adding a product to the cart. -/
def addToCart (params : Fields Value) (context : Context) : Except Fault Value :=
  match params.getD "product" with
  | .obj product =>
    match ((params.getD "quantity").orElse (.int 1)).whole with
    | .error f => .error (.cart (.numeral f))
    | .ok quantity =>
      ((Cart.addTo context product quantity).map fun cart => .obj [("cart", cart)]).mapError .cart
  | _ => .ok (.obj [("error", .obj [("message", .str "Product is required")])])

/-- The result of setting a name. -/
def set (params : Fields Value) : Except Fault Value :=
  match params.getD "key" with
  | .str key => if key = "" then .error .noKey else .ok (.obj [(key, params.getD "value")])
  | _ => .error .noKey

/-- The result of an action that is not known. -/
def done : Value :=
  .obj [("data", .obj [("success", .bool true),
    ("message", .str "Data action completed successfully")])]

/-- Carries out the action that parameters describe; mirrors `DataHandler.execute`. -/
def run (params : Fields Value) (context : Context) : Except Fault Value :=
  match params.getD "dataAction" with
  | .str "clearCart" => .ok (.obj [("cart", Cart.empty)])
  | .str "addToCart" => addToCart params context
  | .str "set" => set params
  | _ => .ok done

theorem run_clear (params : Fields Value) (context : Context)
    (h : params.getD "dataAction" = .str "clearCart") :
    run params context = .ok (.obj [("cart", Cart.empty)]) := by
  simp [run, h]

end Workflow.Data
