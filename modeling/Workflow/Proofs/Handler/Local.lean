import Workflow.Handler.Default
import Workflow.Proofs.Call.KeepsDistinct

/-!
# Local handlers

A handler is local if it sends nothing, and if what it comes to has distinct names as long as its
parameters and its context have. The default handlers are local, whatever their requests come to.

Results:
* `Cart.distinct_addTo`: a cart with a product added.
* `Handler.local_validation`, `Handler.local_data`, `Handler.local_ui`, `Handler.local_api`: the
  default handlers.
* `Registry.local_registerDefaults`: a registry that has no others.
-/
namespace Workflow

variable {μ α β : Type}

/-- Work that sends nothing and comes to something good. -/
inductive Work.Gives (good : α → Prop) : Work μ α → Prop where
  | finish {a : α} (h : good a) : Gives good (.finish a)
  | log {entry : Log.Entry} {next : Work μ α} (h : Gives good next) : Gives good (.log entry next)
  | touch {change : μ → μ} {next : μ → Work μ α} (h : ∀ m, Gives good (next m)) :
    Gives good (.touch change next)
  | pause {next : Work μ α} (h : Gives good next) : Gives good (.pause next)

theorem Work.Gives.map {good : α → Prop} {better : β → Prop} {w : Work μ α} (h : w.Gives good)
    {f : α → β} (hf : ∀ a, good a → better (f a)) : (w.map f).Gives better := by
  induction h with
  | finish h => exact .finish (hf _ h)
  | log _ ih => exact .log ih
  | touch _ ih => exact .touch ih
  | pause _ ih => exact .pause ih

/-- A handler that sends nothing and brings in no name twice. -/
def Handler.Local (h : Handler μ) : Prop :=
  ∀ params context, (Value.obj params).Distinct → (Value.obj context).Distinct →
    (h.run params context).Gives Outcome.Distinct

def Registry.Local (r : Registry (Handler μ)) : Prop :=
  ∀ category h, r.resolve category = some h → h.Local

/-- Requests are carried out without sending anything, and a status has distinct names. -/
def Api.Local (transport : Api.Transport μ) : Prop :=
  ∀ request, (transport request).Gives fun r =>
    ∀ response, r = .ok response → response.status.Distinct

/-! ## Validation -/

namespace Validation

variable {params : Fields Value} {context : Context} {errors : List Value} {v : Value}

theorem distinct_checkItems (hp : (Value.obj params).Distinct)
    (h : checkItems params context = .ok errors) : ∀ e ∈ errors, e.Distinct := by
  unfold checkItems at h
  dsimp only at h
  split at h
  · cases h
    exact List.forall_mem_nil _
  · split at h
    · cases h
    · split at h
      · cases h
      · cases h
        split
        · simpa [tooFew] using (hp.getD "message").orElse (.str _)
        · exact List.forall_mem_nil _
    · cases h
      exact List.forall_mem_nil _

theorem distinct_checkPaths {paths : List Value} (h : checkPaths context paths = .ok errors) :
    ∀ e ∈ errors, e.Distinct := by
  induction paths generalizing errors with
  | nil =>
    cases h
    exact List.forall_mem_nil _
  | cons path paths ih =>
    unfold checkPaths at h
    split at h
    · cases h
    · rename_i es hes
      obtain ⟨rest, hr, rfl⟩ := except_map_ok_iff.mp h
      refine List.forall_mem_append.mpr ⟨?_, ih hr⟩
      unfold checkPath at hes
      split at hes
      · split at hes
        · cases hes
        · cases hes
          split
          · simpa using Value.Distinct.str _
          · exact List.forall_mem_nil _
      · cases hes

theorem distinct_run (hp : (Value.obj params).Distinct) (h : run params context = .ok v) :
    v.Distinct := by
  unfold run at h
  split at h
  · cases h
  · rename_i few hf
    split at h
    · cases h
    · obtain ⟨missing, hm, rfl⟩ := except_map_ok_iff.mp h
      have he : (Value.list (few ++ missing)).Distinct := .list
        (List.forall_mem_append.mpr ⟨distinct_checkItems hp hf, distinct_checkPaths hm⟩)
      refine .obj (by simp [Fields.keys])
        (List.forall_mem_singleton.mpr (.obj (by simp [Fields.keys]) ?_))
      exact List.forall_mem_cons.mpr ⟨.bool _, List.forall_mem_singleton.mpr he⟩

end Validation

/-! ## Data -/

namespace Cart

variable {l l' : Line} {ls ls' : List Line} {product context : Fields Value} {quantity : Int}
  {v w : Value}

/-- A line with distinct names. -/
def Line.Distinct (l : Line) : Prop := (Value.obj l).Distinct

theorem distinct_field (hl : Line.Distinct l) {name : String} (h : field l name = .ok v) :
    v.Distinct := by
  have h := except_mapError_ok_iff.mp h
  exact Value.Distinct.get? hl ((Value.field_ok_iff _ _ _).mp h)

theorem distinct_amount (hv : v.Distinct) {total : Value} (hw : w.Distinct)
    (h : amount v w = .ok total) : total.Distinct :=
  hv.times hw (except_mapError_ok_iff.mp h)

theorem distinct_newLine (hp : (Value.obj product).Distinct)
    (h : newLine product quantity = .ok l) : Line.Distinct l := by
  have hprice : ((product.get? "price").getD (.int 0)).Distinct :=
    Value.distinct_getD (fun _ hg => hp.get? hg) (.int 0)
  obtain ⟨total, ht, rfl⟩ := except_map_ok_iff.mp h
  have htotal := distinct_amount hprice (.int quantity) ht
  refine .obj (by simp [Fields.keys]) ?_
  simp only [List.forall_mem_cons]
  exact ⟨hp, .int _, hprice, htotal, List.forall_mem_nil _⟩

theorem distinct_raise (hl : Line.Distinct l) (h : raise l quantity = .ok l') :
    Line.Distinct l' := by
  unfold raise at h
  obtain ⟨before, hb, h⟩ := except_bind_ok_iff.mp h
  obtain ⟨after, ha, h⟩ := except_bind_ok_iff.mp h
  obtain ⟨price, hp, h⟩ := except_bind_ok_iff.mp h
  obtain ⟨total, ht, h⟩ := except_bind_ok_iff.mp h
  cases h
  have hafter := (distinct_field hl hb).plus (.int quantity) (except_mapError_ok_iff.mp ha)
  have hset : Line.Distinct (Fields.set l "quantity" after) := Value.Distinct.set hl hafter _
  exact Value.Distinct.set hset (distinct_amount (distinct_field hset hp) hafter ht) _

theorem distinct_add (hp : (Value.obj product).Distinct) (hl : ∀ l ∈ ls, Line.Distinct l)
    (h : add product quantity ls = .ok ls') : ∀ l ∈ ls', Line.Distinct l := by
  induction ls generalizing ls' with
  | nil =>
    obtain ⟨l, hn, rfl⟩ := except_map_ok_iff.mp h
    exact List.forall_mem_singleton.mpr (distinct_newLine hp hn)
  | cons l ls ih =>
    obtain ⟨hd, hls⟩ := List.forall_mem_cons.mp hl
    unfold add at h
    split at h
    · cases h
    · split at h
      · obtain ⟨l', hr, rfl⟩ := except_map_ok_iff.mp h
        exact List.forall_mem_cons.mpr ⟨distinct_raise hd hr, hls⟩
      · obtain ⟨rest, hr, rfl⟩ := except_map_ok_iff.mp h
        exact List.forall_mem_cons.mpr ⟨hd, ih hls hr⟩

theorem distinct_sumFrom (hl : ∀ l ∈ ls, Line.Distinct l) (hv : v.Distinct) {name : String}
    (h : sumFrom name v ls = .ok w) : w.Distinct := by
  induction ls generalizing v with
  | nil =>
    cases h
    exact hv
  | cons l ls ih =>
    obtain ⟨hd, hls⟩ := List.forall_mem_cons.mp hl
    unfold sumFrom at h
    split at h
    · cases h
    · rename_i x hx
      split at h
      · cases h
      · rename_i sum hs
        exact ih hls (hv.plus (distinct_field hd hx) hs) h

theorem distinct_linesOf {vs : List Value} (hv : ∀ v ∈ vs, v.Distinct)
    (h : linesOf vs = .ok ls) : ∀ l ∈ ls, Line.Distinct l := by
  induction vs generalizing ls with
  | nil =>
    cases h
    exact List.forall_mem_nil _
  | cons v vs ih =>
    obtain ⟨hd, hvs⟩ := List.forall_mem_cons.mp hv
    unfold linesOf at h
    split at h
    · cases h
    · rename_i l hf
      obtain ⟨rest, hr, rfl⟩ := except_map_ok_iff.mp h
      exact List.forall_mem_cons.mpr ⟨hd.asFields hf, ih hvs hr⟩

theorem distinct_lines (hc : (Value.obj context).Distinct) (h : lines context = .ok ls) :
    ∀ l ∈ ls, Line.Distinct l := by
  have hcart := hc.getD "cart"
  unfold lines at h
  split at h
  · rename_i cart he
    rw [he] at hcart
    split at h
    · cases h
    · rename_i vs hi
      have hitems : ((Fields.get? cart "items").getD (.list [])).Distinct :=
        Value.distinct_getD (fun _ hg => hcart.get? hg) (.list (List.forall_mem_nil _))
      exact distinct_linesOf (hitems.of_items hi) h
  · cases h
    exact List.forall_mem_nil _

/-- A cart with a product added. -/
theorem distinct_addTo (hc : (Value.obj context).Distinct) (hp : (Value.obj product).Distinct)
    (h : addTo context product quantity = .ok v) : v.Distinct := by
  unfold addTo at h
  obtain ⟨before, hb, h⟩ := except_bind_ok_iff.mp h
  obtain ⟨after, ha, h⟩ := except_bind_ok_iff.mp h
  have hl := distinct_add hp (distinct_lines hc hb) ha
  unfold ofLines at h
  obtain ⟨count, hn, h⟩ := except_bind_ok_iff.mp h
  obtain ⟨total, ht, h⟩ := except_bind_ok_iff.mp h
  cases h
  refine .obj (by simp [Fields.keys]) ?_
  simp only [List.forall_mem_cons]
  exact ⟨.list (List.forall_mem_map.mpr hl), distinct_sumFrom hl (.int 0) hn,
    distinct_sumFrom hl (.int 0) ht, List.forall_mem_nil _⟩

end Cart

theorem Data.distinct_run {params : Fields Value} {context : Context} {v : Value}
    (hp : (Value.obj params).Distinct) (hc : (Value.obj context).Distinct)
    (h : Data.run params context = .ok v) : v.Distinct := by
  unfold Data.run at h
  split at h
  · cases h
    refine .obj (by simp [Fields.keys]) (List.forall_mem_singleton.mpr
      (.obj (by simp [Fields.keys]) ?_))
    simp only [List.forall_mem_cons]
    exact ⟨.list (List.forall_mem_nil _), .int 0, .int 0, List.forall_mem_nil _⟩
  · unfold addToCart at h
    split at h
    · rename_i product hproduct
      have hpr := hp.getD "product"
      rw [hproduct] at hpr
      split at h
      · cases h
      · obtain ⟨cart, hcart, rfl⟩ := except_map_ok_iff.mp (except_mapError_ok_iff.mp h)
        exact .obj (by simp [Fields.keys])
          (List.forall_mem_singleton.mpr (Cart.distinct_addTo hc hpr hcart))
    · cases h
      exact .obj (by simp [Fields.keys]) (List.forall_mem_singleton.mpr
        (.obj (by simp [Fields.keys]) (List.forall_mem_singleton.mpr (.str _))))
  · unfold Data.set at h
    split at h
    · split at h
      · cases h
      · cases h
        exact .obj (by simp [Fields.keys]) (List.forall_mem_singleton.mpr (hp.getD "value"))
    · cases h
  · cases h
    refine .obj (by simp [Fields.keys]) (List.forall_mem_singleton.mpr
      (.obj (by simp [Fields.keys]) ?_))
    simp only [List.forall_mem_cons]
    exact ⟨.bool _, .str _, List.forall_mem_nil _⟩

/-! ## The default handlers -/

namespace Handler

theorem local_validation : (validation : Handler μ).Local := fun _ _ hp _ =>
  .finish fun _ h => Validation.distinct_run hp (except_mapError_ok_iff.mp h)

theorem local_data : (data : Handler μ).Local := fun _ _ hp hc =>
  .finish fun _ h => Data.distinct_run hp hc (except_mapError_ok_iff.mp h)

theorem local_ui : (ui none : Handler μ).Local := by
  intro params context hp hc
  show (Ui.run none params).Gives Outcome.Distinct
  unfold Ui.run
  dsimp only
  split
  · refine .log (.finish fun v h => ?_)
    cases h
    refine .obj (by simp [Fields.keys]) (List.forall_mem_singleton.mpr
      (.obj (by simp [Fields.keys]) ?_))
    simp only [List.forall_mem_cons]
    exact ⟨.bool _, hp.getD _, (hp.getD _).orElse (.str _), List.forall_mem_nil _⟩
  · refine .finish fun v h => ?_
    cases h
    exact .obj (by simp [Fields.keys]) (List.forall_mem_singleton.mpr
      (.obj (by simp [Fields.keys]) (List.forall_mem_singleton.mpr (.bool _))))

theorem distinct_data (text : String) : (Api.data text).Distinct := by
  unfold Api.data
  split
  · exact .null
  · split
    · rename_i v h
      exact Json.distinct_of_read h
    · exact .str _

theorem local_api (settings : Api.Settings) {transport : Api.Transport μ}
    (ht : Api.Local transport) :
    (api settings transport).Local := by
  intro params context hp hc
  show (Api.run settings transport params).Gives Outcome.Distinct
  unfold Api.run
  split
  · split
    · exact .finish fun v h => by cases h
    · refine .log ((ht _).map fun r hr v h => ?_)
      obtain _ | response := r
      · cases h
      · replace h : Api.result params response = .ok v := h
        unfold Api.result at h
        split at h
        · cases h
        · cases h
          refine .obj (by simp [Fields.keys]) (List.forall_mem_singleton.mpr
            (.obj (by simp [Fields.keys]) ?_))
          simp only [List.forall_mem_cons]
          exact ⟨.bool _, hr _ rfl, distinct_data _, List.forall_mem_nil _⟩
  · exact .finish fun v h => by cases h

end Handler

namespace Registry

variable {r : Registry (Handler μ)}

theorem local_insert (hr : r.Local) (category : String) (identity : Nat) {h : Handler μ}
    (hh : h.Local) : (r.insert category identity h).Local := by
  intro other g hg
  by_cases he : other = category
  · rw [he, resolve_register_self] at hg
    cases hg
    exact hh
  · rw [resolve_register_of_ne _ _ _ he] at hg
    exact hr other g hg

theorem local_insertAll (hr : r.Local) {hs : List (String × Nat × Handler μ)}
    (hh : ∀ e ∈ hs, e.2.2.Local) : (r.insertAll hs).1.Local := by
  induction hs generalizing r with
  | nil => exact hr
  | cons e hs ih =>
    obtain ⟨hd, hhs⟩ := List.forall_mem_cons.mp hh
    exact ih (local_insert hr e.1 e.2.1 hd) hhs

/-- A registry with the default handlers alone is local. -/
theorem local_registerDefaults (identity : Nat) (settings : Api.Settings)
    {transport : Api.Transport μ} (ht : Api.Local transport) :
    (registerDefaults {} identity none settings transport).1.Local := by
  have hempty : ({} : Registry (Handler μ)).Local := fun _ _ h => by cases h
  show (({} : Registry (Handler μ)).insertAll (defaults identity none settings transport)).1.Local
  refine local_insertAll hempty ?_
  simp only [defaults, List.forall_mem_cons]
  exact ⟨Handler.local_validation, Handler.local_ui, Handler.local_data,
    Handler.local_api settings ht, List.forall_mem_nil _⟩

end Registry

end Workflow
