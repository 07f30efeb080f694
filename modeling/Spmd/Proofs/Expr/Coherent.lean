import Mathlib.Data.List.Forall2
import Spmd.Proofs.Expr.Everywhere
import Spmd.Proofs.Ty.Equality
import Spmd.Target

/-!
# Coherent nodes

A checked node is coherent when its children have the types that its form asks for. All types count up to their
top-level `const`, and a list that fills an array without a size gives the array its own length.
-/

namespace Spmd

namespace Expr

/-- The expression has a type, up to top-level `const`. -/
def HasType (e : Expr) (t : Ty) : Prop := ∃ u, e.type? = some u ∧ u.sameIgnoringConst t = true

/-- The type an expression is to have where a type is wanted. -/
def filling : Expr → Ty → Ty
  | list _ items, .array e none o => .array e (some items.length) o
  | _, t => t

/-- The expression has the type that is wanted of it. -/
def Fits (e : Expr) (t : Ty) : Prop := e.HasType (e.filling t)

end Expr

/-- How the operands of an arithmetic operator and its result are typed. An integer beside a pointer has the type of
sizes, and so has the difference of two pointers. -/
def Ty.Arithmetic (T : Target) (op : ArithOp) (result : Ty) : Ty → Ty → Prop
  | .pointer p q _, .pointer p' q' _ =>
    op = .sub ∧ p.sameIgnoringConst p' ∧ q'.variability = q.variability ∧
      result.sameIgnoringConst (T.sizeType.withVariability q.variability)
  | .pointer p q o, b =>
    (op = .add ∨ op = .sub) ∧ (Ty.pointer p q o).sameIgnoringConst result ∧
      b.sameIgnoringConst (T.sizeType.withVariability b.variability)
  | a, .pointer p q o =>
    op = .add ∧ (Ty.pointer p q o).sameIgnoringConst result ∧
      a.sameIgnoringConst (T.sizeType.withVariability a.variability)
  | a, b => a.sameIgnoringConst result ∧ b.sameIgnoringConst result

/-- What is called through a value: functions are called themselves, and through pointers to them. -/
def Ty.called : Ty → Ty
  | .pointer p _ _ => p
  | t => t

/-- Whether the children of a checked node have the types that its form asks for. -/
def Expr.Coherent (T : Target) : Expr → Prop
  | .binary node (.arith op) l r _ =>
    ∃ t a b, node.type = some t ∧ l.type? = some a ∧ r.type? = some b ∧ t.Arithmetic T op a b
  | .binary node (.compare _) l r _ => ∃ t, node.type = some t.boolLike ∧ l.HasType t ∧ r.HasType t
  | .select node test a b =>
    ∃ t v, node.type = some t ∧ test.HasType (.basic .bool v) ∧ a.HasType t ∧ b.HasType t
  | .assign _ .plain target value _ => ∃ t, target.type? = some t ∧ value.HasType t.stored
  | .assign _ (.compound _) target value operandType =>
    ∃ t o, target.type? = some t ∧ operandType = some o ∧
      value.HasType (if t.stored.isPointer then T.sizeType.withVariability t.stored.variability else o)
  | .call _ callee args _ count signature =>
    ∃ s t, signature = some s ∧ callee.type? = some t ∧ t.stored.called.sameIgnoringConst s.type ∧
      List.Forall₂ Fits args s.parameters ∧ ∀ n, count = some n → n.HasType .int32
  | .index _ _ position => ∃ v, position.HasType (.basic .int32 v)
  | _ => True

/-! ## Types of expressions -/

theorem Node.checked_ok {n : Node} {t : Ty} (h : n.type = some t) : n.checked = .ok t := by
  unfold checked
  rw [h]

namespace Expr

variable {e : Expr} {t u : Ty}

theorem hasType_iff : e.HasType t ↔ ∃ u, e.type? = some u ∧ u.core = t.core := by
  simp only [HasType, Ty.sameIgnoringConst_iff]

theorem hasType_of_type (h : e.type? = some t) : e.HasType t :=
  hasType_iff.mpr ⟨t, h, rfl⟩

theorem HasType.core_eq (h : e.HasType t) (hu : e.type? = some u) : u.core = t.core := by
  obtain ⟨w, hw, hc⟩ := hasType_iff.mp h
  rw [hu] at hw
  cases hw
  exact hc

theorem HasType.congr (h : e.HasType t) (ht : t.core = u.core) : e.HasType u := by
  obtain ⟨w, hw, hc⟩ := hasType_iff.mp h
  exact hasType_iff.mpr ⟨w, hw, hc.trans ht⟩

theorem HasType.typed (h : e.HasType t) : ∃ u, e.type? = some u := by
  obtain ⟨u, hu, -⟩ := h
  exact ⟨u, hu⟩

theorem type_ok (h : e.type? = some t) : e.type = .ok t := Node.checked_ok h

theorem type?_of_ok (h : e.type = .ok t) : e.type? = some t := by
  unfold type Node.checked at h
  unfold type?
  split at h <;> cases h
  assumption

/-! ## Filling arrays -/

theorem filling_eq (h : t.isArray = false) : e.filling t = t := by
  unfold filling
  split
  · cases h
  · rfl

theorem filling_not_list (h : ∀ n items, e ≠ .list n items) : e.filling t = t := by
  unfold filling
  split
  · exact absurd rfl (h _ _)
  · rfl

theorem Fits.hasType (h : e.Fits t) (ht : t.isArray = false) : e.HasType t := by
  rwa [Fits, filling_eq ht] at h

end Expr

/-! ## Operands of arithmetic and calls -/

namespace Ty

variable {T : Target} {op : ArithOp} {result a b a' b' : Ty}

theorem arithmetic_values (ha : a.isPointer = false) (hb : b.isPointer = false) :
    result.Arithmetic T op a b ↔ a.core = result.core ∧ b.core = result.core := by
  rw [← sameIgnoringConst_iff, ← sameIgnoringConst_iff]
  cases a with
  | pointer => cases ha
  | _ =>
    cases b with
    | pointer => cases hb
    | _ => rfl

theorem arithmetic_left (ha : a.isPointer = true) (hb : b.isPointer = false) :
    result.Arithmetic T op a b ↔ (op = .add ∨ op = .sub) ∧ a.core = result.core ∧
      b.core = (T.sizeType.withVariability b.variability).core := by
  rw [← sameIgnoringConst_iff, ← sameIgnoringConst_iff]
  cases a with
  | pointer =>
    cases b with
    | pointer => cases hb
    | _ => rfl
  | _ => cases ha

theorem arithmetic_right (ha : a.isPointer = false) (hb : b.isPointer = true) :
    result.Arithmetic T op a b ↔ op = .add ∧ b.core = result.core ∧
      a.core = (T.sizeType.withVariability a.variability).core := by
  rw [← sameIgnoringConst_iff, ← sameIgnoringConst_iff]
  cases b with
  | pointer =>
    cases a with
    | pointer => cases ha
    | _ => rfl
  | _ => cases hb

theorem arithmetic_pointers {p p' : Ty} {q q' : Qualifiers} {o o' : Origin} :
    result.Arithmetic T op (.pointer p q o) (.pointer p' q' o') ↔
      op = .sub ∧ p.core = p'.core ∧ q'.variability = q.variability ∧
        result.core = (T.sizeType.withVariability q.variability).core := by
  rw [← sameIgnoringConst_iff, ← sameIgnoringConst_iff]
  rfl

theorem pointer_of_core {t : Ty} {p : Ty} {q : Qualifiers} {o : Origin} (h : t.core = (Ty.pointer p q o).core) :
    ∃ p' q' o', t = .pointer p' q' o' ∧ p'.core = p.core ∧ q'.variability = q.variability := by
  cases t with
  | pointer p' q' o' =>
    simp only [core_pointer, pointer.injEq, Qualifiers.mk.injEq] at h
    exact ⟨p', q', o', rfl, core_eq_of_same ((same_iff _ _).mpr h.1), h.2.1.1⟩
  | _ => cases h

theorem called_core_eq {t u : Ty} (h : t.core = u.core) : t.called.core = u.called.core := by
  cases u with
  | pointer p q o =>
    obtain ⟨p', _, _, rfl, hp, -⟩ := pointer_of_core h
    exact hp
  | _ =>
    cases t with
    | pointer => cases h
    | _ => exact h

theorem Arithmetic.congr (h : result.Arithmetic T op a b) (ha : a'.core = a.core) (hb : b'.core = b.core) :
    result.Arithmetic T op a' b' := by
  have hpa := isPointer_eq ha
  have hpb := isPointer_eq hb
  by_cases pa : a.isPointer = true
  · by_cases pb : b.isPointer = true
    · cases a with
      | pointer p q o =>
        cases b with
        | pointer p' q' o' =>
          obtain ⟨_, _, _, rfl, hp, hq⟩ := pointer_of_core ha
          obtain ⟨_, _, _, rfl, hp', hq'⟩ := pointer_of_core hb
          rw [arithmetic_pointers] at h ⊢
          rw [hp, hp', hq, hq']
          exact h
        | _ => cases pb
      | _ => cases pa
    · rw [Bool.not_eq_true] at pb
      rw [arithmetic_left pa pb] at h
      rw [arithmetic_left (hpa.trans pa) (hpb.trans pb), ha, hb, variability_eq hb]
      exact h
  · rw [Bool.not_eq_true] at pa
    by_cases pb : b.isPointer = true
    · rw [arithmetic_right pa pb] at h
      rw [arithmetic_right (hpa.trans pa) (hpb.trans pb), ha, hb, variability_eq ha]
      exact h
    · rw [Bool.not_eq_true] at pb
      rw [arithmetic_values pa pb] at h
      rw [arithmetic_values (hpa.trans pa) (hpb.trans pb), ha, hb]
      exact h

end Ty

end Spmd
