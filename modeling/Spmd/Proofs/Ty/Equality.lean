import Spmd.Ty.Basic

/-!
# Equality of types

`Ty.same` compares types without looking at where they were defined, at enumerators, or at the members of
structs. `Ty.bare` takes these away, so that `same` is equality of bare types (`same_iff`), and `Ty.core` also takes
away the top-level `const` (`sameIgnoringConst_iff`).
-/

namespace Spmd

/-! ## Bare types -/

def Element.bare : Element → Element
  | .basic k => .basic k
  | .enumeration name _ => .enumeration name []

def ScalarTy.bare (s : ScalarTy) : ScalarTy := ⟨s.element.bare, s.qualifiers, none⟩

namespace Ty

mutual
/-- A type without what equality does not look at. -/
def bare : Ty → Ty
  | .void _ => .void
  | .scalar s => .scalar s.bare
  | .pointer p q _ => .pointer p.bare q
  | .array e n _ => .array e.bare n
  | .vector s n _ => .vector s.bare n
  | .struct s _ q _ => .struct s [] q
  | .reference t _ => .reference t.bare
  | .function r ps task _ => .function r.bare (allBare ps) task
  | .list es => .list (allBare es)
def allBare : List Ty → List Ty
  | [] => []
  | t :: ts => t.bare :: allBare ts
end

/-- A bare type without its top-level `const`. -/
def core (t : Ty) : Ty := t.asNonConst.bare

end Ty

/-! ## Equality as equality of bare types -/

@[simp] theorem Element.bare_kind (e : Element) : e.bare.kind = e.kind := by
  cases e <;> rfl

theorem Element.same_iff (a b : Element) : a.same b = true ↔ a.bare = b.bare := by
  cases a <;> cases b <;> simp [Element.same, Element.bare]

@[simp] theorem ScalarTy.bare_kind (s : ScalarTy) : s.bare.element.kind = s.element.kind :=
  Element.bare_kind _

@[simp] theorem ScalarTy.bare_qualifiers (s : ScalarTy) : s.bare.qualifiers = s.qualifiers := rfl

theorem ScalarTy.same_iff (a b : ScalarTy) : a.same b = true ↔ a.bare = b.bare := by
  simp [ScalarTy.same, ScalarTy.bare, Element.same_iff]

namespace Ty

mutual
theorem same_iff : ∀ a b : Ty, a.same b = true ↔ a.bare = b.bare
  | .void _, b => by cases b <;> simp [same, bare]
  | .scalar s, b => by cases b <;> simp [same, bare, ScalarTy.same_iff]
  | .pointer p q _, b => by
    cases b <;> simp only [same, bare, Bool.and_eq_true, beq_iff_eq, pointer.injEq, reduceCtorEq,
      Bool.false_eq_true, and_true]
    rw [same_iff p, and_comm]
  | .array e n _, b => by
    cases b <;> simp only [same, bare, Bool.and_eq_true, beq_iff_eq, array.injEq, reduceCtorEq,
      Bool.false_eq_true, and_true]
    rw [same_iff e, and_comm]
  | .vector s n _, b => by
    cases b <;> simp [same, bare, ScalarTy.same_iff, and_comm]
  | .struct s ms q _, b => by cases b <;> simp [same, bare]
  | .reference t _, b => by
    cases b <;> simp only [same, bare, reference.injEq, reduceCtorEq, Bool.false_eq_true, and_true]
    exact same_iff t _
  | .function r ps task _, b => by
    cases b <;> simp only [same, bare, Bool.and_eq_true, beq_iff_eq, function.injEq, reduceCtorEq,
      Bool.false_eq_true, and_true]
    rw [same_iff r, allSame_iff ps]
    exact ⟨fun ⟨⟨h, i⟩, j⟩ => ⟨i, j, h⟩, fun ⟨i, j, h⟩ => ⟨⟨h, i⟩, j⟩⟩
  | .list es, b => by
    cases b <;> simp only [same, bare, list.injEq, reduceCtorEq, Bool.false_eq_true]
    exact allSame_iff es _
theorem allSame_iff : ∀ as bs : List Ty, allSame as bs = true ↔ allBare as = allBare bs
  | [], [] => by simp [allSame, allBare]
  | [], _ :: _ => by simp [allSame, allBare]
  | _ :: _, [] => by simp [allSame, allBare]
  | a :: as, b :: bs => by
    simp only [allSame, allBare, Bool.and_eq_true, List.cons.injEq]
    rw [same_iff a, allSame_iff as]
end

theorem sameIgnoringConst_iff (a b : Ty) : a.sameIgnoringConst b = true ↔ a.core = b.core :=
  same_iff _ _

end Ty

/-! ## Qualifiers and bare types -/

@[simp] theorem ScalarTy.bare_qualify (s : ScalarTy) (q : Qualifiers) :
    (s.qualify q).bare = s.bare.qualify q := by
  simp [ScalarTy.qualify, ScalarTy.bare]

namespace Ty

theorem bare_withConst (c : Bool) : ∀ t : Ty, (t.withConst c).bare = t.bare.withConst c
  | .void _ => by simp [bare, withConst]
  | .scalar s => by simp [bare, withConst, ScalarTy.withConst]
  | .pointer .. => rfl
  | .array e n _ => by simp only [bare, withConst]; rw [bare_withConst c e]
  | .vector s n _ => by simp [bare, withConst, ScalarTy.withConst]
  | .struct .. => rfl
  | .reference t _ => by simp only [bare, withConst]; rw [bare_withConst c t]
  | .function .. => rfl
  | .list _ => rfl

theorem withConst_withConst_bare (c d : Bool) :
    ∀ t : Ty, ((t.withConst c).withConst d).bare = (t.withConst d).bare
  | .void _ => by simp [bare, withConst]
  | .scalar s => rfl
  | .pointer .. => rfl
  | .array e n _ => by simp only [bare, withConst]; rw [withConst_withConst_bare c d e]
  | .vector s n _ => rfl
  | .struct .. => rfl
  | .reference t _ => by simp only [bare, withConst]; rw [withConst_withConst_bare c d t]
  | .function .. => rfl
  | .list _ => rfl

/-! ## The core of a type -/

@[simp] theorem core_withConst (c : Bool) (t : Ty) : (t.withConst c).core = t.core :=
  withConst_withConst_bare c false t

@[simp] theorem core_asConst (t : Ty) : t.asConst.core = t.core := core_withConst true t

@[simp] theorem core_asNonConst (t : Ty) : t.asNonConst.core = t.core := core_withConst false t

theorem core_eq_of_same {a b : Ty} (h : a.same b = true) : a.core = b.core := by
  rw [same_iff] at h
  simp only [core, asNonConst, bare_withConst, h]

@[simp] theorem core_array (e : Ty) (n : Option Nat) (o : Origin) :
    (Ty.array e n o).core = .array e.core n := rfl

theorem core_pointer (p : Ty) (q : Qualifiers) (o : Origin) :
    (Ty.pointer p q o).core = .pointer p.bare ⟨q.variability, false⟩ := rfl

theorem core_scalar (s : ScalarTy) :
    (Ty.scalar s).core = .scalar ⟨s.element.bare, ⟨s.qualifiers.variability, false⟩, none⟩ := rfl

/-! ## What the core keeps -/

theorem variability_withConst (c : Bool) : ∀ t : Ty, (t.withConst c).variability = t.variability
  | .void _ | .scalar _ | .pointer .. | .vector .. | .struct .. | .function .. | .list _ => rfl
  | .array e _ _ => variability_withConst c e
  | .reference t _ => variability_withConst c t

mutual
theorem variability_bare : ∀ t : Ty, t.bare.variability = t.variability
  | .void _ | .scalar _ | .pointer .. | .vector .. | .struct .. | .function .. => rfl
  | .array e _ _ => variability_bare e
  | .reference t _ => variability_bare t
  | .list es => joinVariability_allBare es
theorem joinVariability_allBare : ∀ ts : List Ty, joinVariability (allBare ts) = joinVariability ts
  | [] => rfl
  | t :: ts => by
    simp only [allBare, joinVariability]
    rw [variability_bare t, joinVariability_allBare ts]
end

@[simp] theorem core_variability (t : Ty) : t.core.variability = t.variability := by
  rw [core, variability_bare, asNonConst, variability_withConst]

@[simp] theorem core_isPointer (t : Ty) : t.core.isPointer = t.isPointer := by cases t <;> rfl

@[simp] theorem core_isArray (t : Ty) : t.core.isArray = t.isArray := by cases t <;> rfl

@[simp] theorem core_isVector (t : Ty) : t.core.isVector = t.isVector := by cases t <;> rfl

@[simp] theorem core_isReference (t : Ty) : t.core.isReference = t.isReference := by cases t <;> rfl

@[simp] theorem core_isVoid (t : Ty) : t.core.isVoid = t.isVoid := by cases t <;> rfl

theorem core_stored (t : Ty) : t.core.stored = t.stored.core := by cases t <;> rfl

@[simp] theorem core_rvalue (t : Ty) : t.rvalue.core = t.stored.core := by
  cases t <;> exact core_asNonConst _

theorem boolLike_core (t : Ty) : t.core.boolLike = t.boolLike := by
  have hv : t.core.stored.variability = t.stored.variability := by rw [core_stored, core_variability]
  cases t with
  | vector => rfl
  | _ => exact congrArg (basic .bool ·) hv

section
variable {a b : Ty} (h : a.core = b.core)
include h

theorem variability_eq : a.variability = b.variability := by
  rw [← core_variability a, h, core_variability]

theorem isVarying_eq : a.isVarying = b.isVarying := by
  simp only [isVarying, variability_eq h]

theorem isPointer_eq : a.isPointer = b.isPointer := by
  rw [← core_isPointer a, h, core_isPointer]

theorem isArray_eq : a.isArray = b.isArray := by
  rw [← core_isArray a, h, core_isArray]

theorem isVector_eq : a.isVector = b.isVector := by
  rw [← core_isVector a, h, core_isVector]

theorem isReference_eq : a.isReference = b.isReference := by
  rw [← core_isReference a, h, core_isReference]

theorem isVoid_eq : a.isVoid = b.isVoid := by
  rw [← core_isVoid a, h, core_isVoid]

theorem stored_core_eq : a.stored.core = b.stored.core := by
  rw [← core_stored, h, core_stored]

end

theorem isVarying_stored (t : Ty) : t.stored.isVarying = t.isVarying := by
  cases t <;> rfl

theorem isReference_of_pointer {t : Ty} (h : t.isPointer = true) : t.isReference = false := by
  cases t with
  | reference => cases h
  | _ => rfl

theorem stored_of_not_reference {t : Ty} (h : t.isReference = false) : t.stored = t := by
  cases t with
  | reference => cases h
  | _ => rfl

/-- A type with the core of a scalar type is a scalar type of the same kind and variability. -/
theorem scalar_of_core {t : Ty} {s : ScalarTy} (h : t.core = (Ty.scalar s).core) :
    ∃ u : ScalarTy, t = .scalar u ∧ u.element.bare = s.element.bare ∧
      u.qualifiers.variability = s.qualifiers.variability := by
  cases t with
  | scalar u =>
    simp only [core_scalar, scalar.injEq, ScalarTy.mk.injEq, Qualifiers.mk.injEq] at h
    exact ⟨u, rfl, h.1, h.2.1.1⟩
  | _ => cases h

end Ty

end Spmd
