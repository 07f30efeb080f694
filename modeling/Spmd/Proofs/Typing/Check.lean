import Spmd.Proofs.Typing.Access
import Spmd.Proofs.Typing.Assignment
import Spmd.Proofs.Typing.Prepared
import Spmd.Proofs.Typing.Value
import Spmd.Proofs.Typing.Visiting

/-!
# The contract of checking

Checking a tree gives an operand, or reports an error (`Check.check_delivers`). Where the type of the expression is needed,
it gives a checked tree (`Check.typecheck_delivers`). The tree was loaded, and may have been checked before.
-/

namespace Spmd

namespace Check

open Spmd.Expr

variable {T : Target} {e : Expr} {o : Role × Expr}

/-! ## Operands -/

theorem needed_delivers {m : Check (Option Expr)} (h : Delivers T m (Operand T)) :
    Delivers T (needed m) fun e => Operand T e ∧ ∃ t, e.type? = some t :=
  Delivers.bind h (fun _ he => Delivers.mono (resolved_delivers he) fun _ h => h.1 ▸ ⟨he, h.2⟩) rfl

/-- What is known of a checked operand, also that it has a type where that is needed, and that the function of a callee takes
the arguments. -/
def Delivered (T : Target) : Role → Expr → Prop
  | .typed, c => Operand T c ∧ ∃ t, c.type? = some t
  | .plain, c => Operand T c
  | .callee n, c => Operand T c ∧ ∀ f, c = .function f → f.Takes n

theorem Delivered.operand : ∀ {r : Role} {c : Expr}, Delivered T r c → Operand T c
  | .typed, _, h | .callee _, _, h => h.1
  | .plain, _, h => h

theorem visit_delivers_of_check (h : Everywhere (Prepared T) e) (ho : o ∈ operands e) (hc : Delivers T (check o.2) (Operand T)) :
    Delivers T (o.1.visit o.2) (Delivered T o.1) := by
  obtain ⟨r, c⟩ := o
  cases r with
  | typed => exact needed_delivers hc
  | plain => exact hc
  | callee n =>
    obtain ⟨node, args, launch, count, signature, rfl, rfl⟩ := callee_mem ho
    exact Delivers.secluded hc rfl (callee_takes h)

/-! ## Expressions -/

theorem check_delivers (h : Everywhere (Prepared T) e) : Delivers T (check e) (Operand T) := by
  induction e using Expr.induct with
  | h e ih =>
  refine (Delivers.law T).check (P := Delivered T) (fun o ho => ?_) fun m hm => ?_
  · exact visit_delivers_of_check h ho (ih o.2 (mem_children ho) (h.child (mem_children ho)))
  · cases hm with
    | unary hc =>
      obtain ⟨hc, t, ht⟩ := hc
      exact checkUnary_delivers hc ht _ _
    | step hc =>
      obtain ⟨hc, t, ht⟩ := hc
      exact checkStep_delivers hc ht _ _
    | binary hl hr =>
      obtain ⟨hl, t, ht⟩ := hl
      obtain ⟨hr, u, hu⟩ := hr
      exact checkBinary_delivers hl hr _ _ ht hu
    | set ht hv =>
      obtain ⟨ht, u, hu⟩ := ht
      exact checkAssign_delivers _ (ht.toChecked hu) hu hv _ fun hn => absurd rfl hn
    | update hop ht hv =>
      obtain ⟨ht, u, hu⟩ := ht
      exact checkAssign_delivers _ (ht.toChecked hu) hu hv.1 _ fun _ => hv.2
    | select ht ha hb =>
      obtain ⟨ht, w, hw⟩ := ht
      obtain ⟨ha, u, hu⟩ := ha
      obtain ⟨hb, v, hv⟩ := hb
      exact checkSelect_delivers _ ht hw ha hu hb hv
    | list hes => exact checkList_delivers _ hes
    | call hc hlength hargs hcount => exact checkCall_delivers hargs _ hc.1 (hlength.symm ▸ hc.2) _ hcount
    | index hb hi =>
      obtain ⟨hb, t, ht⟩ := hb
      obtain ⟨hi, u, hu⟩ := hi
      exact checkIndex_delivers hb ht _ hi hu
    | member hb =>
      obtain ⟨hb, t, ht⟩ := hb
      exact checkMember_delivers hb ht _ _ _
    | cast hc => exact checkCast_delivers _ hc h.here
    | reference hc =>
      obtain ⟨hc, t, ht⟩ := hc
      exact checkReference_delivers hc ht _
    | dereference hc =>
      obtain ⟨hc, t, ht⟩ := hc
      exact checkDereference_delivers hc ht _
    | addressOf hc => exact checkAddressOf_delivers hc _
    | sizeOf hc =>
      obtain ⟨hc, t, ht⟩ := hc
      exact checkSizeOf_delivers _ hc ht
    | new _ hcount hinit => exact checkNew_delivers _ h.here _ hcount hinit
    | void => exact Delivers.reject _ _
    | const =>
      obtain ⟨s, hs, hc⟩ := h.here
      exact Delivers.some (.checked (Checked.leaf ⟨⟨_, hs, trivial⟩, trivial, s, hs, hc⟩ rfl) rfl)
    | sizeOfType => exact checkSizeOfType_delivers _ _
    | symbol =>
      obtain ⟨hs, hsound⟩ := h.here
      exact Delivers.some (.checked (Checked.leaf ⟨⟨_, hs, hsound.legal⟩, trivial, hs, hsound⟩ rfl) rfl)
    | function =>
      rw [check]
      refine Delivers.after (Q := fun _ => True) ?_ fun _ _ => Delivers.some (.name h.here)
      exact Meets.mono (note_meets _) fun _ new hn => ⟨by rw [hn]; rfl, trivial⟩
    | @sync node =>
      have hs : node.type = some .void := h.here
      exact Delivers.some (.checked (Checked.leaf ⟨⟨_, hs, trivial⟩, trivial, trivial⟩ rfl) rfl)
    | null =>
      obtain ⟨t, ht, -, hl⟩ := h.here
      exact Delivers.some (.checked (Checked.leaf ⟨⟨t, ht, hl⟩, trivial, trivial⟩ rfl) rfl)

theorem visit_delivers (h : Everywhere (Prepared T) e) (ho : o ∈ operands e) :
    Delivers T (o.1.visit o.2) (Delivered T o.1) :=
  visit_delivers_of_check h ho (check_delivers (h.child (mem_children ho)))

/-- What checks give has a property that the step left of each expression keeps. -/
theorem check_keeps {K P : Expr → Prop} (hK : ∀ {e}, Everywhere K e → Everywhere (Prepared T) e) (h : Everywhere K e)
    (hstep : ∀ {e m}, K e → Joined (fun r c => P c ∧ Delivered T r c) e m → Yields T m P) : Yields T (check e) P := by
  induction e using Expr.induct with
  | h e ih =>
  refine (Yields.law T).check (fun o ho => ?_) fun m hm => hstep h.here hm
  exact Yields.and (o.1.visit_yields (ih o.2 (mem_children ho) (h.child (mem_children ho)))) (visit_delivers (hK h) ho).yields

/-- Checking an expression whose value is used gives a checked tree, or reports an error. -/
theorem typecheck_delivers {e : Expr} (h : Everywhere (Prepared T) e) : Delivers T (typecheck e) (Checked T) :=
  Delivers.mono (needed_delivers (check_delivers h)) fun _ ⟨he, _, ht⟩ => he.toChecked ht

end Check

end Spmd
