import Spmd.Proofs.Ty.UpperBound

/-!
# Equality of types is lawful

Equality of types is an equivalence that survives qualifying, and so is equality that ignores `const`. Qualifying by variability
and qualifying by `const` can be swapped, and the last of several settings is the one that counts (`Ty.equality_lawful`).
-/

namespace Spmd.Ty

/-- An equivalence of types that still holds when both are qualified alike. -/
structure Congruence (r : Ty → Ty → Bool) : Prop where
  equivalence : Equivalence fun t u => r t u = true
  withVariability : ∀ v t u, r t u = true → r (t.withVariability v) (u.withVariability v) = true
  withConst : ∀ c t u, r t u = true → r (t.withConst c) (u.withConst c) = true

/-- To compare types by what a function leaves of them is an equivalence. -/
theorem Congruence.of_view {r : Ty → Ty → Bool} {view : Ty → Ty} (hr : ∀ t u, r t u = true ↔ view t = view u)
    (hv : ∀ v t u, view t = view u → view (t.withVariability v) = view (u.withVariability v))
    (hc : ∀ c t u, view t = view u → view (t.withConst c) = view (u.withConst c)) : Congruence r where
  equivalence :=
    { refl := fun t => (hr t t).mpr rfl
      symm := fun {t u} h => (hr u t).mpr ((hr t u).mp h).symm
      trans := fun {t u w} h h' => (hr t w).mpr (((hr t u).mp h).trans ((hr u w).mp h')) }
  withVariability v t u h := (hr _ _).mpr (hv v t u ((hr t u).mp h))
  withConst c t u h := (hr _ _).mpr (hc c t u ((hr t u).mp h))

theorem same_congruence : Congruence same := by
  refine .of_view same_iff (fun v t u h => ?_) fun c t u h => ?_
  · rw [bare_withVariability, bare_withVariability, h]
  · rw [bare_withConst, bare_withConst, h]

theorem sameIgnoringConst_congruence : Congruence sameIgnoringConst := by
  refine .of_view sameIgnoringConst_iff (fun v t u h => core_withVariability_of_core v h) fun c t u h => ?_
  rw [core_withConst, core_withConst, h]

theorem same_eq (t u : Ty) : t.same u = (t.sameIgnoringConst u && t.isConst == u.isConst) := by
  rw [Bool.eq_iff_iff, Bool.and_eq_true, sameIgnoringConst_iff, beq_iff_eq]
  constructor
  · intro h
    exact ⟨core_eq_of_same h, eq_of_bare isConst_bare ((same_iff t u).mp h)⟩
  · rintro ⟨hcore, hconst⟩
    exact (same_iff t u).mpr (bare_of_core hcore hconst)

/-- A type takes on `const` and lets go of it, or is not `const` whatever it is given. -/
theorem withConst_cases (c : Bool) : ∀ t : Ty,
    (t.withConst c).isConst = c ∨ t.isConst = false ∧ ∀ d, (t.withConst d).bare = t.bare
  | .void _ | .function .. | .list _ => .inr ⟨rfl, fun _ => rfl⟩
  | .scalar _ | .pointer .. | .vector .. | .struct .. => .inl rfl
  | .array e n _ => (withConst_cases c e).imp_right fun ⟨hf, h⟩ => ⟨hf, fun d => congrArg (array · n) (h d)⟩
  | .reference t _ => (withConst_cases c t).imp_right fun ⟨hf, h⟩ => ⟨hf, fun d => congrArg reference (h d)⟩

/-- Equality and equality up to `const` are equivalences that qualifying keeps, and they differ in `const` alone. A qualifier that
is set is there, unless the type has no place for it and stays the same; the order of the two qualifiers does not matter, and
setting one again forgets what it was set to before. -/
theorem equality_lawful :
    Congruence same ∧ Congruence sameIgnoringConst ∧
      (∀ t u : Ty, t.same u = (t.sameIgnoringConst u && t.isConst == u.isConst)) ∧
      (∀ (t : Ty) v, (t.withVariability v).variability = v ∨ (t.withVariability v).same t = true) ∧
      (∀ (t : Ty) c, (t.withConst c).isConst = c ∨ (t.withConst c).same t = true) ∧
      (∀ (t : Ty) v c, ((t.withVariability v).withConst c).same ((t.withConst c).withVariability v) = true) ∧
      (∀ (t : Ty) v w, ((t.withVariability v).withVariability w).same (t.withVariability w) = true) ∧
      ∀ (t : Ty) c d, ((t.withConst c).withConst d).same (t.withConst d) = true := by
  refine ⟨same_congruence, sameIgnoringConst_congruence, same_eq, fun t v => ?_, fun t c => ?_, fun t v c => ?_,
    fun t v w => ?_, fun t c d => ?_⟩
  · exact (withVariability_cases v t).imp_right fun h => (same_iff _ _).mpr (h.2 v)
  · exact (withConst_cases c t).imp_right fun h => (same_iff _ _).mpr (h.2 c)
  · exact (same_iff _ _).mpr (withVariability_withConst v c t)
  · exact (same_iff _ _).mpr (bare_of_outline (withVariability_withVariability v w t))
  · exact (same_iff _ _).mpr (withConst_withConst_bare c d t)

end Spmd.Ty
