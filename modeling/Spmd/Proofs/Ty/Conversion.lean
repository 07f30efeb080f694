import Spmd.Proofs.Ty.Legal

/-!
# What a conversion without obstacle says

A value that converts to a reference is bound to storage of the referent's own type, and a varying scalar never
becomes a uniform one. The common type of two operands is a pointer exactly when one of them is.
-/

namespace Spmd.Ty

/-! ## Obstacles -/

theorem bindingObstacle_eq_none {source target : Ty} (h : bindingObstacle source target = none) :
    target.stored.core = source.stored.core := by
  unfold bindingObstacle at h
  dsimp only at h
  split at h
  · rename_i hb
    exact (sameIgnoringConst_iff _ _).mp (Bool.and_eq_true_iff.mp hb).1
  · cases h

theorem obstacle_to_reference {explicit : Bool} {source target : Ty} (ht : target.isReference = true)
    (h : obstacle explicit source target = none) : source.stored.core = target.stored.core := by
  cases target with
  | reference t o =>
    unfold obstacle at h
    by_cases hs : source.same (.reference t o) = true
    · exact stored_core_eq (core_eq_of_same hs)
    · rw [if_neg hs] at h
      by_cases hv : source.isVoid = true
      · rw [if_pos hv] at h; cases h
      · rw [if_neg hv, if_neg (by simp [isVoid])] at h
        cases source with
        | function => cases h
        | _ => exact (bindingObstacle_eq_none h).symm
  | _ => cases ht

theorem obstacle_to_void {explicit : Bool} {source target : Ty} (ht : target.isVoid = true)
    (h : obstacle explicit source target = none) : source.isVoid = true := by
  unfold obstacle at h
  by_cases hs : source.same target = true
  · rw [isVoid_eq (core_eq_of_same hs)]; exact ht
  · rw [if_neg hs] at h
    by_cases hv : source.isVoid = true
    · exact hv
    · rw [if_neg hv, if_pos ht] at h; cases h

theorem isVarying_of_not_uniform {t : Ty} (h : t.isUniform = false) : t.isVarying = true := by
  unfold isUniform at h
  unfold isVarying
  cases hv : t.variability with
  | uniform => rw [hv] at h; cases h
  | varying => rfl

/-- Nothing varying becomes uniform, but an array of varying elements may become a uniform pointer to them. -/
theorem obstacle_value_varying {explicit : Bool} {source target : Ty} (hr : source.isReference = false)
    (h : obstacle explicit source target = none) (hv : source.isVarying = true) :
    target.isVarying = true ∨ source.isArray = true ∧ target.isPointer = true := by
  have bound : ∀ {r : Ty} {o : Origin}, bindingObstacle source (.reference r o) = none → (Ty.reference r o).isVarying = true := by
    intro r o hb
    have hcore := bindingObstacle_eq_none hb
    rw [stored_of_not_reference hr] at hcore
    exact (isVarying_eq hcore).trans hv
  have kept : ∀ {x : Option Obstacle}, (if source.isVarying && target.isUniform then
      some (Obstacle.lostVariability source target) else x) = none → target.isVarying = true := by
    intro x hx
    rw [hv, Bool.true_and] at hx
    split at hx
    · cases hx
    · rename_i hu
      exact isVarying_of_not_uniform (by simpa using hu)
  by_cases hs : source.same target = true
  · exact .inl ((isVarying_eq (core_eq_of_same hs)).symm.trans hv)
  · unfold obstacle at h
    rw [if_neg hs] at h
    split at h
    · cases h
    · split at h
      · cases h
      · cases source with
        | reference => cases hr
        | function => cases hv
        | array =>
          cases target with
          | function => cases h
          | reference => exact .inl (bound h)
          | pointer => exact .inr ⟨rfl, rfl⟩
          | _ => exact .inl (kept h)
        | _ =>
          cases target with
          | function => cases h
          | reference => exact .inl (bound h)
          | _ => exact .inl (kept h)

theorem obstacle_varying {explicit : Bool} {source target : Ty} (hl : source.Legal)
    (h : obstacle explicit source target = none) (hv : source.isVarying = true) :
    target.isVarying = true ∨ source.stored.isArray = true ∧ target.isPointer = true := by
  cases source with
  | reference r o =>
    by_cases ht : target.isReference = true
    · have hcore := obstacle_to_reference ht h
      cases target with
      | reference t o' => exact .inl ((isVarying_eq (a := t) hcore.symm).trans hv)
      | _ => cases ht
    · unfold obstacle at h
      by_cases hs : (Ty.reference r o).same target = true
      · exact .inl ((isVarying_eq (core_eq_of_same hs)).symm.trans hv)
      · rw [if_neg hs] at h
        split at h
        · cases h
        · split at h
          · cases h
          · cases target with
            | reference => exact absurd rfl ht
            | function => cases h
            | _ => exact obstacle_value_varying hl.1 h hv
  | _ => exact obstacle_value_varying rfl h hv

/-- A list that fills an array, a vector or a struct has an element for each of its positions. -/
theorem obstacle_from_list {explicit : Bool} {elements : List Ty} {target : Ty}
    (ht : target.isReference = false) (h : obstacle explicit (.list elements) target = none)
    (hs : (Ty.list elements).same target = false) :
    ∃ targets, listTargets elements.length target = .ok targets ∧ firstObstacle explicit elements targets = none := by
  unfold obstacle at h
  rw [if_neg (by simp [hs]), if_neg (by simp [isVoid])] at h
  by_cases hv : target.isVoid = true
  · rw [if_pos hv] at h; cases h
  · rw [if_neg hv] at h
    cases hl : listTargets elements.length target with
    | ok targets =>
      refine ⟨targets, rfl, ?_⟩
      cases target with
      | function => cases hl
      | reference => cases ht
      | _ =>
        simp only [hl] at h
        split at h
        · cases h
        · exact h
    | error o =>
      cases target with
      | function => cases h
      | reference => cases ht
      | _ => simp only [hl] at h; split at h <;> cases h

/-- A list with varying items fills varying aggregates only. -/
theorem obstacle_from_list_varying {explicit : Bool} {es ts : List Ty} {t : Ty} (ho : obstacle explicit (.list es) t = none)
    (hs : (list es).same t = false) (hl : listTargets es.length t = .ok ts) (hv : (list es).isVarying = true) :
    t.isVarying = true := by
  unfold obstacle at ho
  rw [if_neg (by simp [hs]), if_neg (by simp [isVoid])] at ho
  cases t with
  | array | vector | struct =>
    rw [if_neg (by exact Bool.false_ne_true)] at ho
    dsimp only at ho
    split at ho
    · cases ho
    · rename_i hlost
      rw [hv, Bool.true_and] at hlost
      exact isVarying_of_not_uniform (by simpa using hlost)
  | _ => cases hl

/-- A list fills what the types of its items fill. -/
theorem obstacle_filling {explicit : Bool} {ss ts : List Ty} {t : Ty} (hl : listTargets ss.length t = .ok ts)
    (hv : (list ss).isVarying = true → t.isVarying = true) (ho : firstObstacle explicit ss ts = none) :
    obstacle explicit (.list ss) t = none := by
  have hlost : ((list ss).isVarying && t.isUniform) = false := by
    cases hs : (list ss).isVarying with
    | false => rfl
    | true =>
      have ht := hv hs
      rw [isUniform, eq_of_beq ht]
      rfl
  unfold obstacle
  cases t with
  | array | vector | struct =>
    rw [if_neg (by exact Bool.false_ne_true), if_neg (by exact Bool.false_ne_true), if_neg (by exact Bool.false_ne_true)]
    simp only [hlost, Bool.false_eq_true, if_false, hl, ho]
  | _ => cases hl

/-! ## Common types -/

theorem commonPointer_isPointer {a b t : Ty} {v : Variability} (h : commonPointer a b v = some t) :
    t.isPointer = true := by
  unfold commonPointer at h
  split at h
  · split at h
    · cases h; rfl
    · split at h
      · cases h; rfl
      · split at h
        · cases h; rfl
        · cases h
  · split at h
    · cases h; rfl
    · cases h
  · split at h
    · cases h; rfl
    · cases h
  · cases h

theorem commonVector_isVector {a b t : Ty} {v : Variability} (h : commonVector a b v = .ok t) :
    t.isVector = true := by
  unfold commonVector at h
  split at h
  · split at h
    · cases h; rfl
    · cases h
  all_goals cases h
  all_goals rfl

theorem isPointer_withVariability (v : Variability) (t : Ty) :
    (t.withVariability v).isPointer = t.isPointer := by cases t <;> rfl

theorem isArray_withVariability (v : Variability) (t : Ty) :
    (t.withVariability v).isArray = t.isArray := by cases t <;> rfl

theorem common_isPointer {a b t : Ty} (h : common a b = .ok t) :
    t.isPointer = (a.rvalue.isPointer || b.rvalue.isPointer) := by
  unfold common at h
  dsimp only at h
  by_cases hs : a.rvalue.same b.rvalue = true
  · rw [if_pos hs] at h
    cases h
    rw [← isPointer_eq (core_eq_of_same hs), Bool.or_self]
  · rw [if_neg hs] at h
    by_cases hp : (a.rvalue.isPointer || b.rvalue.isPointer) = true
    · rw [if_pos hp] at h
      rw [hp]
      split at h
      · rename_i hc; cases h; exact commonPointer_isPointer hc
      · cases h
    · rw [if_neg hp] at h
      rw [Bool.not_eq_true] at hp
      rw [hp]
      split at h
      · have hv := commonVector_isVector h
        cases t with
        | vector => rfl
        | _ => cases hv
      · split at h
        · cases h; rfl
        · cases h
        · cases h
        · split at h
          · cases h
            rw [isPointer_withVariability]
            exact (Bool.or_eq_false_iff.mp hp).1
          · cases h

theorem isArray_spread (b : Bool) (t : Ty) : (if b = true then t.asVarying else t).isArray = t.isArray := by
  cases b with
  | true => exact isArray_withVariability .varying t
  | false => rfl

theorem common_isArray {a b t : Ty} (h : common a b = .ok t) (ht : t.isArray = true) :
    a.rvalue.isArray = true ∧ b.rvalue.isArray = true := by
  unfold common at h
  dsimp only at h
  split at h
  · rename_i hs
    cases h
    exact ⟨ht, isArray_eq (core_eq_of_same hs) ▸ ht⟩
  · split at h
    · split at h
      · rename_i hc
        cases h
        have hp := commonPointer_isPointer hc
        cases t with
        | array => cases hp
        | _ => cases ht
      · cases h
    · split at h
      · have hv := commonVector_isVector h
        cases t with
        | array => cases hv
        | _ => cases ht
      · split at h
        · cases h; cases ht
        · cases h
        · cases h
        · split at h
          · rename_i hs
            cases h
            have hb := isArray_eq (core_eq_of_same hs)
            rw [isArray_withVariability, isArray_withVariability] at hb
            rw [isArray_withVariability] at ht
            exact ⟨ht, hb ▸ ht⟩
          · cases h

end Spmd.Ty
