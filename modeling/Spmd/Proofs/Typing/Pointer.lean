import Spmd.Proofs.Typing.Indirection

/-!
# Reading through a pointer

What a pointer points to is read with its own type, but varying where the pointer is varying (`Ty.through`).
-/

namespace Spmd

namespace Ty

/-- The type of what is read through a pointer with some qualifiers. -/
def through (t : Ty) (q : Qualifiers) : Ty := if q.variability = .varying then t.asVarying else t

variable {t u : Ty} {q : Qualifiers}

theorem through_cases (t : Ty) (q : Qualifiers) : t.through q = t ∨ t.through q = t.asVarying := by
  unfold through
  split
  · exact .inr rfl
  · exact .inl rfl

theorem isReference_through (t : Ty) (q : Qualifiers) : (t.through q).isReference = t.isReference := by
  rcases through_cases t q with h | h <;> rw [h]
  exact isReference_withVariability .varying t

theorem bare_through (t : Ty) (q : Qualifiers) : (t.through q).bare = t.bare.through q := by
  unfold through
  split
  · exact bare_withVariability .varying t
  · rfl

end Ty

namespace Check

open Spmd.Expr

variable {c : Expr} {p : Ty} {q : Qualifiers} {o : Origin} {m : Node}

theorem checkDereference_pointer (hc : c.type? = some (.pointer p q o)) (hvoid : p.isVoid = false) :
    checkDereference m c = pure (some (.dereference (.typed m.place (p.through q)) c)) := by
  unfold checkDereference
  simp only [type_ok hc, lift_ok, pure_bind, hvoid, Bool.false_eq_true, if_false]
  rfl

end Check

end Spmd
