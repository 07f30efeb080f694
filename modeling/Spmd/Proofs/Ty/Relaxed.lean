import Spmd.Proofs.Ty.Obstacle

/-!
# Types up to top-level `const`

`Ty.relaxed` is what stays of the outline of a type when values lose and get `const`: in a list each item does, and a
reference keeps the `const` of what it refers to. Two types of one relaxed type are read alike, and an explicit cast takes
both or neither, unless it has to bind a reference.
-/

namespace Spmd.Ty

mutual
/-- The outline of a type without the `const` that reading a value drops. -/
def relaxed : Ty → Ty
  | .list es => .list (relaxedAll es)
  | .reference t _ => .reference t.outline
  | t => t.asNonConst.outline
def relaxedAll : List Ty → List Ty
  | [] => []
  | t :: ts => t.relaxed :: relaxedAll ts
end

theorem relaxedAll_eq (ts : List Ty) : relaxedAll ts = ts.map relaxed := by
  induction ts with
  | nil => rfl
  | cons t ts ih => rw [relaxedAll, ih, List.map_cons]

section
variable {s t u : Ty}

theorem relaxed_of_value (hl : t.isList = false) (hr : t.isReference = false) : t.relaxed = t.asNonConst.outline := by
  cases t with
  | list => cases hl
  | reference => cases hr
  | _ => rfl

theorem isList_relaxed (t : Ty) : t.relaxed.isList = t.isList := by cases t <;> rfl

theorem isReference_relaxed (t : Ty) : t.relaxed.isReference = t.isReference := by cases t <;> rfl

theorem isPointer_relaxed (t : Ty) : t.relaxed.isPointer = t.isPointer := by cases t <;> rfl

theorem isArray_relaxed (t : Ty) : t.relaxed.isArray = t.isArray := by cases t <;> rfl

mutual
theorem variability_relaxed : ∀ t : Ty, t.relaxed.variability = t.variability
  | .list es => joinVariability_relaxedAll es
  | .reference t _ => variability_outline t
  | .void _ | .scalar _ | .pointer .. | .vector .. | .struct .. | .function .. => rfl
  | .array e n _ => by
    rw [relaxed_of_value rfl rfl, variability_outline, asNonConst, variability_withConst]
theorem joinVariability_relaxedAll : ∀ ts : List Ty, joinVariability (relaxedAll ts) = joinVariability ts
  | [] => rfl
  | t :: ts => by rw [relaxedAll, joinVariability, joinVariability, variability_relaxed t, joinVariability_relaxedAll ts]
end

mutual
theorem relaxed_of_outline : ∀ {t u : Ty}, u.outline = t.outline → u.relaxed = t.relaxed
  | .list es, u, h => by
    cases u with
    | list es' => exact congrArg list (relaxedAll_of_outline (list.inj h))
    | _ => cases h
  | .reference t _, u, h => by
    cases u with
    | reference => exact h
    | _ => cases h
  | .void _, u, h | .scalar _, u, h | .pointer .., u, h | .array .., u, h | .vector .., u, h | .struct .., u, h
  | .function .., u, h => by
    have hconst := outline_eq outline_asNonConst h
    cases u with
    | list => cases h
    | reference => cases h
    | _ => exact hconst
theorem relaxedAll_of_outline : ∀ {ts us : List Ty}, outlineAll us = outlineAll ts → relaxedAll us = relaxedAll ts
  | [], us, h => by
    cases us with
    | nil => rfl
    | cons => cases h
  | t :: ts, us, h => by
    cases us with
    | nil => cases h
    | cons u us =>
      obtain ⟨ht, hts⟩ := List.cons.inj h
      rw [relaxedAll, relaxedAll, relaxed_of_outline ht, relaxedAll_of_outline hts]
end

theorem relaxed_of_shape (hr : t.isReference = false) (h : u.asNonConst.outline = t.asNonConst.outline) :
    u.relaxed = t.relaxed := by
  have hcore : u.core = t.core := bare_of_outline h
  cases t with
  | list =>
    cases u with
    | list => exact relaxed_of_outline h
    | _ => cases hcore
  | reference => cases hr
  | _ =>
    cases u with
    | list => cases hcore
    | reference => cases hcore
    | _ => exact h

/-! ## Types that are read alike -/

section
variable (h : u.relaxed = s.relaxed)
include h

theorem isList_of_relaxed : u.isList = s.isList := by rw [← isList_relaxed, h, isList_relaxed]

theorem isReference_of_relaxed : u.isReference = s.isReference := by rw [← isReference_relaxed, h, isReference_relaxed]

theorem isPointer_of_relaxed : u.isPointer = s.isPointer := by rw [← isPointer_relaxed, h, isPointer_relaxed]

theorem isArray_of_relaxed : u.isArray = s.isArray := by rw [← isArray_relaxed, h, isArray_relaxed]

theorem variability_of_relaxed : u.variability = s.variability := by rw [← variability_relaxed, h, variability_relaxed]

theorem isVarying_of_relaxed : u.isVarying = s.isVarying := congrArg (· == Variability.varying) (variability_of_relaxed h)

theorem stored_variability_of_relaxed : u.stored.variability = s.stored.variability := by
  have hstored : ∀ t : Ty, t.stored.variability = t.variability := fun t => by cases t <;> rfl
  rw [hstored, hstored, variability_of_relaxed h]

theorem outline_of_reference (hr : s.isReference = true) : u.outline = s.outline := by
  cases s with
  | reference =>
    cases u with
    | reference => exact h
    | _ => cases (isReference_of_relaxed h : false = true)
  | _ => cases hr

theorem outline_of_function (hf : s.isFunction = true) : u.outline = s.outline := by
  cases s with
  | function =>
    cases u with
    | function => exact h
    | _ => cases h
  | _ => cases hf

section
variable (hl : s.isList = false)
include hl

/-- What a reading drops is dropped from all but lists. -/
theorem shape_of_relaxed : u.asNonConst.outline = s.asNonConst.outline := by
  have hlu := (isList_of_relaxed h).trans hl
  by_cases hr : s.isReference = true
  · exact outline_eq outline_asNonConst (outline_of_reference h hr)
  · rw [Bool.not_eq_true] at hr
    rw [← relaxed_of_value hl hr, ← relaxed_of_value hlu ((isReference_of_relaxed h).trans hr), h]

theorem core_of_relaxed : u.core = s.core := bare_of_outline (shape_of_relaxed h hl)

theorem rvalue_of_relaxed : u.rvalue.outline = s.rvalue.outline := by
  by_cases hr : s.isReference = true
  · exact outline_eq outline_rvalue (outline_of_reference h hr)
  · rw [Bool.not_eq_true] at hr
    have hru := (isReference_of_relaxed h).trans hr
    have hshape := shape_of_relaxed h hl
    cases u with
    | reference => cases hru
    | _ =>
      cases s with
      | reference => cases hr
      | _ => exact hshape

/-- The stored type keeps its `const`, which may differ. -/
theorem stored_of_relaxed : u.stored.asNonConst.outline = s.stored.asNonConst.outline := by
  by_cases hr : s.isReference = true
  · exact outline_eq outline_asNonConst (outline_eq outline_stored (outline_of_reference h hr))
  · rw [Bool.not_eq_true] at hr
    rw [stored_of_not_reference hr, stored_of_not_reference ((isReference_of_relaxed h).trans hr)]
    exact shape_of_relaxed h hl

end

theorem rvalue_relaxed : u.rvalue.relaxed = s.rvalue.relaxed := by
  by_cases hl : s.isList = true
  · cases s with
    | list =>
      cases u with
      | list => exact h
      | _ => cases (isList_of_relaxed h : false = true)
    | _ => cases hl
  · exact relaxed_of_outline (rvalue_of_relaxed h (by simpa using hl))

end

/-! ## Qualifiers -/

theorem outline_withConst_withConst (c d : Bool) : ∀ t : Ty, ((t.withConst d).withConst c).outline = (t.withConst c).outline
  | .void _ | .pointer .. | .struct .. | .function .. | .list _ => rfl
  | .scalar ⟨.basic _, _, _⟩ | .scalar ⟨.enumeration .., _, _⟩ => rfl
  | .array e n _ => congrArg (array · n) (outline_withConst_withConst c d e)
  | .vector ⟨.basic _, _, _⟩ _ _ | .vector ⟨.enumeration .., _, _⟩ _ _ => rfl
  | .reference t _ => congrArg reference (outline_withConst_withConst c d t)

theorem outline_withVariability_withConst (v : Variability) (c : Bool) :
    ∀ t : Ty, ((t.withVariability v).withConst c).outline = ((t.withConst c).withVariability v).outline
  | .void _ | .scalar _ | .pointer .. | .vector .. | .struct .. | .function .. | .list _ => rfl
  | .array e n _ => congrArg (array · n) (outline_withVariability_withConst v c e)
  | .reference t _ => congrArg reference (outline_withVariability_withConst v c t)

theorem shape_withConst (c : Bool) (t : Ty) : (t.withConst c).asNonConst.outline = t.asNonConst.outline :=
  outline_withConst_withConst false c t

theorem shape_withVariability (v : Variability) (h : u.asNonConst.outline = t.asNonConst.outline) :
    (u.withVariability v).asNonConst.outline = (t.withVariability v).asNonConst.outline := by
  rw [asNonConst, asNonConst, outline_withVariability_withConst, outline_withVariability_withConst]
  exact outline_eq (outline_withVariability v) h

theorem core_of_shape (h : u.asNonConst.outline = t.asNonConst.outline) : u.core = t.core := bare_of_outline h

theorem relaxed_asConst (hr : t.isReference = false) : t.asConst.relaxed = t.relaxed := relaxed_of_shape hr (shape_withConst true t)

mutual
theorem relaxed_withVariability (v : Variability) : ∀ {t u : Ty}, u.relaxed = t.relaxed →
    (u.withVariability v).relaxed = (t.withVariability v).relaxed
  | .list es, u, h => by
    cases u with
    | list es' => exact congrArg list (relaxedAll_withVariability v (list.inj h))
    | _ => cases h
  | .reference t _, u, h => relaxed_of_outline (outline_eq (outline_withVariability v) (outline_of_reference h rfl))
  | .void _, _, h | .scalar _, _, h | .pointer .., _, h | .array .., _, h | .vector .., _, h | .struct .., _, h
  | .function .., _, h => relaxed_of_shape rfl (shape_withVariability v (shape_of_relaxed h rfl))
theorem relaxedAll_withVariability (v : Variability) : ∀ {ts us : List Ty}, relaxedAll us = relaxedAll ts →
    relaxedAll (allWithVariability v us) = relaxedAll (allWithVariability v ts)
  | [], us, h => by
    cases us with
    | nil => rfl
    | cons => cases h
  | t :: ts, us, h => by
    cases us with
    | nil => cases h
    | cons u us =>
      obtain ⟨ht, hts⟩ := List.cons.inj h
      rw [allWithVariability, allWithVariability, relaxedAll, relaxedAll, relaxed_withVariability v ht,
        relaxedAll_withVariability v hts]
end

/-- The `const` that a shape leaves out is there in a bare type. -/
theorem outline_of_shape : ∀ {t u : Ty}, u.bare = t.bare → u.asNonConst.outline = t.asNonConst.outline → u.outline = t.outline
  | .array e n _, u, hb, h => by
    cases u with
    | array e' n' _ =>
      obtain ⟨he, rfl, -⟩ := array.inj hb
      exact congrArg (array · n') (outline_of_shape he (array.inj h).1)
    | _ => cases hb
  | .reference t _, u, hb, h => by
    cases u with
    | reference t' _ => exact congrArg reference (outline_of_shape (reference.inj hb).1 (reference.inj h).1)
    | _ => cases hb
  | .pointer p q _, u, hb, h => by
    cases u with
    | pointer p' q' _ =>
      obtain ⟨-, rfl, -⟩ := pointer.inj hb
      exact congrArg (pointer · q') (pointer.inj h).1
    | _ => cases hb
  | .struct s ms q _, u, hb, h => by
    cases u with
    | struct s' ms' q' _ =>
      obtain ⟨rfl, -, rfl, -⟩ := struct.inj hb
      exact congrArg (struct s' · q') (struct.inj h).2.1
    | _ => cases hb
  | .void _, u, hb, h | .scalar _, u, hb, h | .vector .., u, hb, h => by
    cases u with
    | void | scalar | vector => exact hb
    | _ => cases hb
  | .function .., u, hb, h => by
    cases u with
    | function => exact h
    | _ => cases hb
  | .list _, u, hb, h => by
    cases u with
    | list => exact h
    | _ => cases hb

/-! ## Parts of types -/

mutual
/-- Whether all that a list can fill in a type are values, no references and no lists. -/
def valued : Ty → Bool
  | .array e _ _ => e.valued
  | .struct _ ms _ _ => membersValued ms
  | .reference .. | .list _ => false
  | _ => true
def membersValued : List (String × Ty) → Bool
  | [] => true
  | m :: ms => m.2.valued && membersValued ms
end

theorem membersValued_iff (ms : List (String × Ty)) : membersValued ms = true ↔ ∀ m ∈ ms, m.2.valued = true := by
  induction ms with
  | nil => simp [membersValued]
  | cons m ms ih => simp [membersValued, ih]

theorem not_reference_of_valued (h : t.valued = true) : t.isReference = false := by
  cases t with
  | reference => cases h
  | _ => rfl

theorem valued_withVariability (v : Variability) : ∀ t : Ty, (t.withVariability v).valued = t.valued
  | .void _ | .scalar _ | .pointer .. | .vector .. | .struct .. | .reference .. | .function .. | .list _ => rfl
  | .array e _ _ => valued_withVariability v e

theorem valued_withConst (c : Bool) : ∀ t : Ty, (t.withConst c).valued = t.valued
  | .void _ | .scalar _ | .pointer .. | .vector .. | .struct .. | .reference .. | .function .. | .list _ => rfl
  | .array e _ _ => valued_withConst c e

theorem valued_memberType (q : Qualifiers) (t : Ty) : (memberType q t).valued = t.valued := by
  unfold memberType
  dsimp only
  split <;> split <;> simp only [asConst, asVarying, valued_withConst, valued_withVariability]

theorem listTargets_valued {n : Nat} {ts : List Ty} (h : listTargets n t = .ok ts) (ht : t.valued = true) :
    ∀ u ∈ ts, u.valued = true := by
  intro u hu
  unfold listTargets at h
  split at h
  · split at h
    · cases h
      rw [List.eq_of_mem_replicate hu]
      exact ht
    · cases h
  · split at h
    · cases h
      rw [List.eq_of_mem_replicate hu]
      rfl
    · cases h
  · split at h
    · cases h
      obtain ⟨m, hm, rfl⟩ := List.mem_map.mp hu
      rw [valued_memberType]
      exact (membersValued_iff _).mp ht m hm
    · cases h
  · cases h

/-! ## Obstacles -/

theorem elementObstacle_of_explicit (a b : ScalarTy) : elementObstacle true a b = none := by
  unfold elementObstacle
  split
  · rfl
  · split
    · exact if_pos (Or.inr rfl)
    · rfl

/-! ## Explicit casts -/

theorem pointerObstacle_of_bare {explicit : Bool} {p p' : Ty} (hp : p'.bare = p.bare)
    (h : pointerObstacle explicit s p t = none) : pointerObstacle explicit u p' t = none := by
  unfold pointerObstacle at h ⊢
  split at h
  · split at h
    · rw [if_pos ‹_›]
    · cases h
  · rename_i p'' q o
    have hsame : p'.sameIgnoringConst p'' = p.sameIgnoringConst p'' := by
      rw [Bool.eq_iff_iff, sameIgnoringConst_iff, sameIgnoringConst_iff, core_of_bare hp]
    rw [hsame, eq_of_bare isConst_bare hp, eq_of_bare isVoid_bare hp]
    split
    · rfl
    · rw [if_neg ‹_›] at h
      split
      · rw [if_pos ‹_›] at h
        split
        · rw [if_pos ‹_›] at h
          cases h
        · rfl
      · rw [if_neg ‹_›] at h
        split
        · rfl
        · rw [if_neg ‹_›] at h
          split at h <;> cases h
  · cases h

/-- An explicit cast of a value does not ask whether the value is `const`. -/
theorem valueObstacle_of_source (hsu : u.core = s.core) (h : valueObstacle true s t = none) : valueObstacle true u t = none := by
  -- of the source only kinds, elements and names are asked for, in which types of one core agree
  cases s with
  | pointer p q o =>
    cases u with
    | pointer p' q' o' =>
      simp only [core_pointer, pointer.injEq, and_true] at hsu
      exact pointerObstacle_of_bare hsu.1 h
    | _ => cases hsu
  | scalar a =>
    obtain ⟨a', rfl, ha, -⟩ := scalar_of_core hsu
    have hkind : a'.element.kind = a.element.kind := by rw [← Element.bare_kind, ha, Element.bare_kind]
    cases t with
    | pointer =>
      unfold valueObstacle at h ⊢
      dsimp only at h ⊢
      rw [hkind]
      split at h
      · rw [if_pos ‹_›]
      · cases h
    | vector => exact elementObstacle_of_explicit _ _
    | scalar => exact elementObstacle_of_explicit _ _
    | _ => cases h
  | array a m o =>
    cases u with
    | array a' m' o' =>
      obtain ⟨ha, rfl, -⟩ := array.inj hsu
      cases t with
      | array b n o'' =>
        have hsame : (a'.withVariability b.variability).sameIgnoringConst b =
            (a.withVariability b.variability).sameIgnoringConst b := by
          rw [Bool.eq_iff_iff, sameIgnoringConst_iff, sameIgnoringConst_iff, core_withVariability_of_core _ ha]
        unfold valueObstacle at h ⊢
        dsimp only at h ⊢
        rw [hsame]
        split at h
        · rw [if_pos ‹_›]
        · cases h
      | _ => cases h
    | _ => cases hsu
  | vector a m o =>
    cases u with
    | vector a' m' o' =>
      obtain ⟨-, rfl, -⟩ := vector.inj hsu
      cases t with
      | vector b n o'' =>
        unfold valueObstacle at h ⊢
        dsimp only at h ⊢
        split at h
        · rw [if_pos ‹_›]
          exact elementObstacle_of_explicit _ _
        · cases h
      | _ => cases h
    | _ => cases hsu
  | struct a ms q o =>
    cases u with
    | struct a' ms' q' o' =>
      obtain rfl : a' = a := (struct.inj hsu).1
      cases t with
      | struct =>
        unfold valueObstacle at h ⊢
        dsimp only at h ⊢
        split at h
        · rw [if_pos ‹_›]
        · cases h
      | _ => cases h
    | _ => cases hsu
  | _ => cases h

/-- Of what an explicit cast looks at, only the binding of a reference asks whether the source is `const`. -/
theorem obstacle_of_source (htr : t.isReference = false) (hl : s.isList = false)
    (hr : s.isReference = false) (hsu : u.core = s.core) (h : obstacle true s t = none) : obstacle true u t = none := by
  by_cases hsame : s.same t = true
  · exact obstacle_of_core htr (hsu.trans (core_eq_of_same hsame))
  by_cases hsame' : u.same t = true
  · exact obstacle_of_same hsame'
  have hlate : lateObstacle true s t = none → lateObstacle true u t = none := by
    unfold lateObstacle
    rw [isVarying_eq hsu]
    split
    · intro h
      cases h
    · exact valueObstacle_of_source hsu
  have hvoid := isVoid_eq hsu
  unfold obstacle at h ⊢
  rw [if_neg hsame] at h
  rw [if_neg hsame', hvoid]
  -- both conversions take the same steps, as these look at nothing but the core of the source
  split at h
  · cases h
  · rw [if_neg ‹_›]
    split at h
    · cases h
    · rw [if_neg ‹_›]
      cases s with
      | list => cases hl
      | reference => cases hr
      | function =>
        cases u with
        | function =>
          cases t with
          | pointer p q o =>
            dsimp only at h ⊢
            split at h
            · rename_i hp
              rw [Bool.and_eq_true, same_iff] at hp
              exact if_pos (Bool.and_eq_true_iff.mpr ⟨hp.1, (same_iff p _).mpr (hp.2.trans hsu.symm)⟩)
            · cases h
          | _ => cases h
        | _ => cases hsu
      | array =>
        cases u with
        | array =>
          cases t with
          | function => cases h
          | reference => cases htr
          | pointer => exact decayObstacle_explicit _ _ _ _
          | _ => exact hlate h
        | _ => cases hsu
      | _ =>
        cases u with
        | list => cases hsu
        | reference => cases hsu
        | function => cases hsu
        | array => cases hsu
        | _ =>
          cases t with
          | function => cases h
          | reference => cases htr
          | _ => exact hlate h

end

theorem obstacle_of_value {s u t : Ty} (hl : s.isList = false) (hr : s.isReference = false) (h : u.relaxed = s.relaxed)
    (hb : t.isReference = true → u.outline = s.outline) (ho : obstacle true s t = none) : obstacle true u t = none := by
  by_cases htr : t.isReference = true
  · exact obstacle_of_outline (hb htr) rfl ho
  · exact obstacle_of_source (by simpa using htr) hl hr (core_of_relaxed h hl) ho

mutual
/-- An explicit cast takes all types that are read alike, unless it binds a reference. -/
theorem obstacle_of_relaxed : ∀ {s u t : Ty}, u.relaxed = s.relaxed → (s.isList = true → t.valued = true) →
    (t.isReference = true → u.outline = s.outline) → obstacle true s t = none → obstacle true u t = none
  | .list es, u, t, h, htv, _, ho => by
    cases u with
    | list es' =>
      have hall : relaxedAll es' = relaxedAll es := list.inj h
      have hlen : es'.length = es.length := by
        rw [relaxedAll_eq, relaxedAll_eq] at hall
        simpa using congrArg List.length hall
      have hvalued : t.valued = true := htv rfl
      have hne : (list es).same t = false := by
        cases t with
        | list => cases hvalued
        | _ => rfl
      obtain ⟨ts, hts, hfirst⟩ := obstacle_from_list (not_reference_of_valued hvalued) ho hne
      have htargets : listTargets es'.length t = .ok ts := by rwa [hlen]
      refine obstacle_filling htargets (fun hv => ?_) ?_
      · rw [isVarying_of_relaxed h] at hv
        exact obstacle_from_list_varying ho hne hts hv
      · exact firstObstacle_of_relaxed hall (listTargets_valued hts hvalued) hfirst
    | _ => cases h
  | .reference r o, u, t, h, _, _, ho => obstacle_of_outline (outline_of_reference h rfl) rfl ho
  | .void _, u, t, h, _, hb, ho => obstacle_of_value rfl rfl h hb ho
  | .scalar _, u, t, h, _, hb, ho => obstacle_of_value rfl rfl h hb ho
  | .pointer .., u, t, h, _, hb, ho => obstacle_of_value rfl rfl h hb ho
  | .array .., u, t, h, _, hb, ho => obstacle_of_value rfl rfl h hb ho
  | .vector .., u, t, h, _, hb, ho => obstacle_of_value rfl rfl h hb ho
  | .struct .., u, t, h, _, hb, ho => obstacle_of_value rfl rfl h hb ho
  | .function .., u, t, h, _, hb, ho => obstacle_of_value rfl rfl h hb ho
theorem firstObstacle_of_relaxed : ∀ {ss us ts : List Ty}, relaxedAll us = relaxedAll ss → (∀ t ∈ ts, t.valued = true) →
    firstObstacle true ss ts = none → firstObstacle true us ts = none
  | [], us, ts, h, _, _ => by
    cases us with
    | nil => rfl
    | cons => cases h
  | s :: ss, us, ts, h, hv, ho => by
    cases us with
    | nil => cases h
    | cons u us =>
      cases ts with
      | nil => rfl
      | cons t ts =>
        obtain ⟨hu, hus⟩ := List.cons.inj h
        have ht := hv t List.mem_cons_self
        unfold firstObstacle at ho ⊢
        split at ho
        · cases ho
        · rename_i hfirst
          have hnone := obstacle_of_relaxed hu (fun _ => ht)
            (fun hb => by rw [not_reference_of_valued ht] at hb; cases hb) hfirst
          rw [hnone]
          exact firstObstacle_of_relaxed hus (fun x hx => hv x (List.mem_cons_of_mem _ hx)) ho
end

end Spmd.Ty
