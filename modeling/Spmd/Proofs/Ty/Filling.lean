import Spmd.Proofs.Ty.Relaxed

/-!
# Types that fill

`Ty.Fills` relates the type of an expression that was brought to a type with this type: a value has it up to `const`, and
is bound if it is a reference, and the items of a list fill what the list fills. Where a type fills another, it converts to it,
and so do all types that are read like it.
-/

namespace Spmd.Ty

/-- Whether the type can be given a size: no array of `void` can. -/
def holds : Ty → Bool
  | .array e n _ => n.isSome || !e.isVoid
  | _ => true

theorem holds_bare (t : Ty) : t.bare.holds = t.holds := by
  cases t with
  | array e n o => exact congrArg (n.isSome || !·) (isVoid_bare e)
  | _ => rfl

mutual
def Fills : Ty → Ty → Prop
  | .list ss, t => t.holds = true ∧ ((list ss).isVarying = true → t.isVarying = true) ∧
      ∃ ts, listTargets ss.length t = .ok ts ∧ AllFill ss ts
  | s, t => s.core = t.core ∧ (t.isReference = true → obstacle false s t = none)
def AllFill : List Ty → List Ty → Prop
  | [], [] => True
  | s :: ss, t :: ts => s.Fills t ∧ AllFill ss ts
  | _, _ => False
end

section
variable {s t u v : Ty}

theorem fills_iff (hl : s.isList = false) : s.Fills t ↔ s.core = t.core ∧ (t.isReference = true → obstacle false s t = none) := by
  cases s with
  | list => cases hl
  | _ => rfl

theorem fills_of_core (hl : s.isList = false) (hr : t.isReference = false) (h : s.core = t.core) : s.Fills t :=
  (fills_iff hl).mpr ⟨h, fun ht => by rw [hr] at ht; cases ht⟩

/-- Only arrays, vectors and structs are filled. -/
theorem listTargets_aggregate {n : Nat} {ts : List Ty} (h : listTargets n t = .ok ts) :
    t.isReference = false ∧ t.isList = false ∧ t.isPointer = false ∧ t.isFunction = false ∧ t.isScalar = false := by
  cases t with
  | array | vector | struct => exact ⟨rfl, rfl, rfl, rfl, rfl⟩
  | _ => cases h

theorem Fills.not_list (h : s.Fills t) (ht : t.isScalar = true ∨ t.isReference = true ∨ t.isPointer = true ∨ t.isFunction = true) :
    s.isList = false := by
  cases s with
  | list ss =>
    obtain ⟨-, -, ts, hts, -⟩ := h
    obtain ⟨hr, -, hp, hf, hs⟩ := listTargets_aggregate hts
    rw [hr, hp, hf, hs] at ht
    simp at ht
  | _ => rfl

/-! ## Conversion -/

mutual
theorem Fills.obstacle : ∀ {s t : Ty}, s.Fills t → obstacle false s t = none
  | .list _, _, h => by
    obtain ⟨-, hv, ts, hts, hall⟩ := h
    exact obstacle_filling hts hv hall.obstacle
  | .void _, t, h | .scalar _, t, h | .pointer .., t, h | .array .., t, h | .vector .., t, h | .struct .., t, h
  | .reference .., t, h | .function .., t, h => by
    by_cases hr : t.isReference = true
    · exact h.2 hr
    · exact obstacle_of_core (by simpa using hr) h.1
theorem AllFill.obstacle : ∀ {ss ts : List Ty}, AllFill ss ts → firstObstacle false ss ts = none
  | [], _, _ => rfl
  | _ :: _, [], h => h.elim
  | s :: ss, t :: ts, h => by rw [firstObstacle, Fills.obstacle h.1, AllFill.obstacle h.2]
end

/-! ## Types that are read alike -/

theorem listTargets_of_outline {n : Nat} {ts : List Ty} (h : v.outline = t.outline) (hl : listTargets n t = .ok ts) :
    ∃ vs, listTargets n v = .ok vs ∧ outlineAll vs = outlineAll ts := by
  rcases listTargets_outline n t with ⟨us, hus, hout⟩ | ⟨o, o', ho, -⟩
  · rw [hl] at hus
    cases hus
    rcases listTargets_outline n v with ⟨vs, hvs, hout'⟩ | ⟨o, o', -, ho'⟩
    · rw [h, hout] at hout'
      exact ⟨vs, hvs, (Except.ok.inj hout').symm⟩
    · rw [h, hout] at ho'
      cases ho'
  · rw [hl] at ho
    cases ho

mutual
theorem Fills.congr : ∀ {s t u v : Ty}, s.Fills t → u.relaxed = s.relaxed → v.outline = t.outline → u.Fills v
  | .list ss, t, u, v, h, hu, hv => by
    cases u with
    | list us =>
      obtain ⟨hholds, hvarying, ts, hts, hall⟩ := h
      have hrelaxed : relaxedAll us = relaxedAll ss := list.inj hu
      have hlen : us.length = ss.length := by
        rw [relaxedAll_eq, relaxedAll_eq] at hrelaxed
        simpa using congrArg List.length hrelaxed
      obtain ⟨vs, hvs, hout⟩ := listTargets_of_outline hv hts
      refine ⟨?_, fun h => ?_, vs, hlen ▸ hvs, hall.congr hrelaxed hout⟩
      · rw [eq_of_bare holds_bare (bare_of_outline hv)]
        exact hholds
      · rw [eq_of_bare isVarying_bare (bare_of_outline hv)]
        exact hvarying (isVarying_of_relaxed hu ▸ h)
    | _ => cases hu
  | .void _, t, u, v, h, hu, hv | .scalar _, t, u, v, h, hu, hv | .pointer .., t, u, v, h, hu, hv
  | .array .., t, u, v, h, hu, hv | .vector .., t, u, v, h, hu, hv | .struct .., t, u, v, h, hu, hv
  | .reference .., t, u, v, h, hu, hv | .function .., t, u, v, h, hu, hv => by
    have hbare := bare_of_outline hv
    refine (fills_iff (isList_of_relaxed hu)).mpr ⟨?_, fun hr => ?_⟩
    · rw [core_of_relaxed hu rfl, h.1, core_of_bare hbare]
    · rw [eq_of_bare isReference_bare hbare] at hr
      exact obstacle_of_outline (outline_of_reference hu ((isReference_eq h.1).trans hr)) hv (h.2 hr)
theorem AllFill.congr : ∀ {ss ts us vs : List Ty}, AllFill ss ts → relaxedAll us = relaxedAll ss →
    outlineAll vs = outlineAll ts → AllFill us vs
  | [], [], us, vs, _, hu, hv => by
    cases us with
    | nil =>
      cases vs with
      | nil => trivial
      | cons => cases hv
    | cons => cases hu
  | [], _ :: _, _, _, h, _, _ => h.elim
  | _ :: _, [], _, _, h, _, _ => h.elim
  | s :: ss, t :: ts, us, vs, h, hu, hv => by
    cases us with
    | nil => cases hu
    | cons u us =>
      cases vs with
      | nil => cases hv
      | cons v vs =>
        obtain ⟨hs, hss⟩ := List.cons.inj hu
        obtain ⟨ht, hts⟩ := List.cons.inj hv
        exact ⟨Fills.congr h.1 hs ht, AllFill.congr h.2 hss hts⟩
end

end

end Spmd.Ty
