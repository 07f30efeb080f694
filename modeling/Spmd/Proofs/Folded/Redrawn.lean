import Spmd.Proofs.Retyping.Nodes
import Spmd.Proofs.Ty.Filling
import Spmd.Proofs.Typing.Resolution

/-!
# What another check makes of a node

Another check of a node of a checked tree gives a node of the same outline, or, where a list was filled, a list that waits
for a type again (`Check.check_redrawn`). `Expr.Tolerant` says of a node that its check does not come out otherwise when
folding changes what is below it.
-/

namespace Spmd

namespace Expr

/-! ## Nodes that tolerate folding -/

/-- A list that fills nothing, or the value of one. -/
def isOpen (e : Expr) : Bool := e.type?.any Ty.isList

/-- Whether a form leaves lists open that it has as children. -/
def takesOpen : Expr → Bool
  | .binary _ .comma .. => true
  | .list node _ => node.type.any Ty.isList
  | .cast _ target .. => target.valued
  | .sizeOf .. => true
  | _ => false

/-- Folding brings back what selections, commas and casts change: a `const` at the top of a type, the members of a struct
that another struct of its name was taken for, and a varying address. References are bound by these. -/
def TolerantNode : Expr → Prop
  | .select node _ a b =>
    ∀ t u, node.type = some t → (a.type? = some u ∨ b.type? = some u) → u.asNonConst.outline = t.asNonConst.outline
  | .cast _ target e _ =>
    (target.isReference = true → e.denotesStorage = true ∨ target.isConst = true) ∧
      ∀ t, e.type? = some t → t.core = target.core → t.asNonConst.outline = target.asNonConst.outline ∧
        (t.isReference = true → ∀ a, e.addressType = .ok (some a) → a.isVarying = false)
  | .index node base _ | .member node base .. =>
    node.type.any Ty.isReference = true → base.denotesStorage = true ∨ base.isPointer = true
  | .function f => ∀ t, f.node.type = some t → t.isFunction = true
  | _ => True

/-- Another check of the node goes the same way when what is below it is folded. -/
structure Tolerant (e : Expr) : Prop where
  lists : e.takesOpen = false → ∀ c ∈ e.children, c.isOpen = false
  node : e.TolerantNode

theorem not_list_of_closed {e : Expr} {t : Ty} (h : e.isOpen = false) (ht : e.type? = some t) : t.isList = false := by
  rwa [isOpen, ht, Option.any_some] at h

/-! ## Redrawn nodes -/

mutual
/-- What another check gives of a node. -/
def Redrawn : Expr → Expr → Prop
  | .list _ items, e' => ∃ n' items' ts, e' = .list n' items' ∧ n'.type = some (.list ts) ∧ items'.map type? = ts.map some ∧
      AllRedrawn items items'
  | e, e' => e'.outline = e.outline
def AllRedrawn : List Expr → List Expr → Prop
  | [], [] => True
  | e :: es, e' :: es' => Redrawn e e' ∧ AllRedrawn es es'
  | _, _ => False
end

section
variable {e e' : Expr}

theorem redrawn_iff (h : e.isList = false) : e.Redrawn e' ↔ e'.outline = e.outline := by
  cases e with
  | list => cases h
  | _ => rfl

theorem allRedrawn_of_forall {es es' : List Expr} (h : List.Forall₂ Redrawn es es') : AllRedrawn es es' := by
  induction h with
  | nil => trivial
  | cons first _ ih => exact ⟨first, ih⟩

theorem Redrawn.typed {t : Ty} (h : e.Redrawn e') (ht : e.type? = some t) : ∃ t', e'.type? = some t' := by
  cases e with
  | list =>
    obtain ⟨n', items', ts, rfl, hn, -⟩ := h
    exact ⟨_, hn⟩
  | _ => exact (type_of_outline h ht).imp fun _ => And.left

theorem Redrawn.outline_eq {t : Ty} (h : e.Redrawn e') (ht : e'.type? = some t) (hl : t.isList = false) :
    e'.outline = e.outline := by
  cases e with
  | list n items =>
    obtain ⟨n', items', ts, rfl, hn, -⟩ := h
    obtain rfl : t = .list ts := Option.some.inj (ht.symm.trans hn)
    cases hl
  | _ => exact h

theorem outline_ne_child {c : Expr} (h : c.outline ∈ e.outline.children) : e.outline ≠ c.outline := fun heq =>
  Nat.lt_irrefl _ (heq ▸ sizeOf_child h)

end

end Expr

namespace Check

open Spmd.Expr

variable {T : Target} {e : Expr}

/-- Another check redraws each node of a checked tree. -/
theorem check_redrawn (h : Everywhere (Recurs T) e) (hr : Everywhere Repeats e) : Yields T (check e) e.Redrawn := by
  induction e using Expr.induct with
  | h e ih =>
  by_cases hwaits : e.awaitsTarget = true
  · cases e with
    | function f =>
      have hsettled : f.settleType = f := (h.here.known f rfl).settleType_eq
      rw [check, hsettled]
      exact Gives.bind (Meets.gives (note_meets f)) fun _ _ => Yields.some rfl
    | list n items =>
      rw [check]
      have heach := (Yields.law T).checkEach true fun c hc => resolved_needed (ih c hc (h.child hc) (hr.child hc))
      refine Yields.bind heach (fun es hes => ?_) Yields.none
      unfold checkList
      exact Gives.lift fun ts hts => Yields.some ⟨_, es, ts, rfl, rfl, types_of_typesOf hts, allRedrawn_of_forall hes⟩
    | _ => cases hwaits
  · rw [Bool.not_eq_true] at hwaits
    refine Gives.mono (Meets.gives (h.here.lasts hwaits hr)) fun o ho => ?_
    obtain ⟨-, -, e', rfl, hout⟩ := ho
    refine fun a ha => (redrawn_iff ?_).mpr ?_
    · cases e with
      | list => cases hwaits
      | _ => rfl
    · cases ha
      exact hout

end Check

end Spmd
