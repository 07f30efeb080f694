import Spmd.Proofs.Optimization.Typing
import Spmd.Proofs.Retyping.Building

/-!
# Checking the nodes of a tree again

Not only a checked tree as a whole is fixed, each of its nodes is, apart from names and lists: a name of functions has its
function already, and a list that was filled waits for a type again when it is checked alone (`Check.check_rooted`).
-/

namespace Spmd

namespace Check

open Spmd.Expr

variable {T : Target}

/-! ## Conversions -/

/-- A name whose function is known, or a node that lasts unless it is a list. -/
structure Recurs (T : Target) (e : Expr) : Prop where
  known : ∀ f, e = .function f → Known f
  lasts : e.awaitsTarget = false → Lasts T e

theorem recurs_name {f : FunctionName} (h : Known f) : Everywhere (Recurs T) (.function f) :=
  .leaf ⟨fun _ hf => (by cases hf; exact h), fun hn => (by cases hn)⟩ rfl

/-- A node that waits for no type. -/
theorem Lasts.recurs {e : Expr} (h : Lasts T e) (hn : e.awaitsTarget = false) : Recurs T e :=
  ⟨fun _ he => (by subst he; cases hn), fun _ => h⟩

theorem recurs_over {e c : Expr} (h : Lasts T e) (hn : e.awaitsTarget = false) (hc : e.children = [c])
    (hbelow : Everywhere (Recurs T) c) : Everywhere (Recurs T) e := .one (h.recurs hn) hc hbelow

section
variable {e : Expr} {source target : Ty} (he : Checked T e) (hs : e.type? = some source) (hlast : Lasts T e)
  (hn : e.isFunctionName = false) (h : Everywhere (Recurs T) e) (context : String)
include hs hlast hn h

theorem ReadAs.recurs {c : Expr} (hc : ReadAs e source target c) : Everywhere (Recurs T) c := by
  cases hc with
  | kept => exact h
  | cast ho => exact recurs_over (cast_lasts hs hlast e.node hn (.inr (Ty.obstacle_explicit _ _ ho))) rfl rfl h

include he

theorem convertValue_recurs : Yields T (convertValue e target context) (Everywhere (Recurs T)) := by
  refine Yields.mono (convertValue_yields hs) fun c hc => ?_
  cases hc with
  | same => exact h
  | null => exact .leaf ((null_lasts _).recurs rfl) rfl
  | binds _ bound =>
    cases bound with
    | kept => exact h
    | bound hsource hass => exact recurs_over (reference_lasts he hs hlast e.place hsource hass) rfl rfl h
  | dereferences source_eq => exact recurs_over (dereference_lasts he hs hlast source_eq e.place) rfl rfl h
  | readsThrough source_eq _ read =>
    have hread := dereference_lasts he hs hlast source_eq e.place
    exact read.recurs rfl hread rfl (recurs_over hread rfl rfl h)
  | reads _ _ _ read => exact read.recurs hs hlast hn h

end

theorem pickOverload_known {f : FunctionName} (h : Known f) (target : Ty) : Yields T (pickOverload f target) Known := by
  unfold pickOverload
  split
  · exact Yields.some h
  · refine Gives.bind (resolve_known h _) fun r hr => ?_
    obtain ⟨found, f'⟩ := r
    cases found with
    | none => exact Yields.none
    | some s => exact Yields.some (hr rfl)

theorem convertFunction_recurs {f : FunctionName} (hf : Fresh f) (target : Ty) (context : String) :
    Yields T (convertFunction f target context) (Everywhere (Recurs T)) := by
  have hpick : Yields T (pickOverload f target) fun f' => Picked f target f' ∧ Known f' :=
    Yields.and (pickOverload_picks hf) (pickOverload_known hf.toKnown target)
  refine Yields.mono (convertFunction_yields hpick) fun c hc => ?_
  cases hc with
  | kept picked => exact recurs_name picked.2
  | @cast f' _ picked _ htype ho hdiffers =>
    have hlasts := function_cast_lasts (T := T) (picked.2.checked htype) htype picked.1.answered ho hdiffers f'.node.place
    exact recurs_over hlasts rfl rfl (recurs_name picked.2)

/-- A conversion writes lasting nodes around an operand that has them. -/
theorem convert_recurs {e : Expr} (h : Grown T (Recurs T) e) (target : Ty) (context : String) :
    Yields T (convert e target context) (Everywhere (Recurs T)) :=
  convert_grows (fun hd ht hn h _ => convertValue_recurs (hd.operand.toChecked ht) ht (hd.lasts ht) hn h context)
    (fun hf target => convertFunction_recurs hf target context)
    (fun _ _ => ⟨fun _ hf => (by cases hf), fun hn => (by cases hn)⟩) h.1 h.2 target

/-! ## Trees -/

theorem Durable.recurs {e : Expr} (h : Durable T e) : Recurs T e := by
  cases h with
  | name fresh => exact (recurs_name fresh.toKnown).here
  | list => exact ⟨fun _ hf => (by cases hf), fun hn => (by cases hn)⟩
  | closed _ closed lasts => exact lasts.recurs closed

/-- Whatever a step gives is durable, so that the node that it builds recurs. -/
theorem recurs_conserved : Conserved T (Recurs T) where
  convert h target context := convert_recurs h target context
  name hf := (recurs_name hf).here
  plain h _ := h.recurs
  unary node op h := Yields.mono (durable_steps.unary node op (needed_durable h)) fun _ h => h.recurs
  binary node op hl hr := Yields.mono (durable_steps.binary node op (needed_durable hl) (needed_durable hr)) fun _ h => h.recurs
  cast node target ht h := Yields.mono (durable_steps.cast node target ht h.1) fun _ h => h.recurs

/-- Each node of what checking a tree gives lasts, apart from names and lists. -/
theorem check_rooted {e : Expr} (h : Everywhere (Loaded T) e) : Yields T (check e) (Grown T (Recurs T)) :=
  recurs_conserved.steps.check h

end Check

end Spmd
