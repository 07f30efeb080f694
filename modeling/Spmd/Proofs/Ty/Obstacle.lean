import Spmd.Proofs.Ty.Conversion
import Spmd.Proofs.Ty.Outline

/-!
# Conversion and outlines

Whether a conversion has an obstacle is decided by the outlines of its types (`Ty.obstacle_outline`), by their bare types
unless a list is converted (`Ty.obstacle_bare`), and what converts without a cast converts with one.
-/

namespace Spmd.Ty

variable {explicit : Bool} {s t s' t' : Ty}

def isList : Ty → Bool
  | .list _ => true
  | _ => false

theorem isList_bare (t : Ty) : t.bare.isList = t.isList := by cases t <;> rfl

/-! ## Single conversions -/

theorem stored_bare (t : Ty) : t.bare.stored = t.stored.bare := by cases t <;> rfl

theorem elementObstacle_bare (a b : ScalarTy) :
    (elementObstacle explicit a.bare b.bare).isNone = (elementObstacle explicit a b).isNone := by
  obtain ⟨a, _, _⟩ := a
  obtain ⟨b, _, _⟩ := b
  cases a <;> cases b <;> simp only [elementObstacle, ScalarTy.bare, Element.bare] <;> split <;> rfl

theorem bindingObstacle_bare (s t : Ty) : (bindingObstacle s.bare t.bare).isNone = (bindingObstacle s t).isNone := by
  unfold bindingObstacle
  simp only [stored_bare, sameIgnoringConst_bare, isConst_bare]
  split <;> rfl

theorem decayObstacle_bare (s e t p : Ty) :
    (decayObstacle explicit s.bare e.bare t.bare p.bare).isNone = (decayObstacle explicit s e t p).isNone := by
  unfold decayObstacle
  simp only [sameIgnoringConst_bare, isConst_bare, isVoid_bare]
  split
  · rfl
  · split <;> rfl

theorem pointerObstacle_bare (s p t : Ty) :
    (pointerObstacle explicit s.bare p.bare t.bare).isNone = (pointerObstacle explicit s p t).isNone := by
  cases t with
  | scalar u =>
    obtain ⟨u, _, _⟩ := u
    cases u with
    | basic k => simp only [bare, ScalarTy.bare, Element.bare, pointerObstacle]; split <;> rfl
    | enumeration => rfl
  | pointer p' q o =>
    simp only [bare, pointerObstacle, sameIgnoringConst_bare, isConst_bare, isVoid_bare]
    repeat' (split <;> try rfl)
  | _ => rfl

theorem valueObstacle_bare (s t : Ty) :
    (valueObstacle explicit s.bare t.bare).isNone = (valueObstacle explicit s t).isNone := by
  cases s with
  | pointer p q o =>
    have hp : (pointerObstacle explicit (pointer p q o).bare p.bare t.bare).isNone =
        (pointerObstacle explicit (.pointer p q o) p t).isNone := pointerObstacle_bare _ _ _
    cases t <;> exact hp
  | scalar a =>
    cases t with
    | pointer => simp only [bare, valueObstacle, ScalarTy.bare_kind]; split <;> rfl
    | scalar b => exact elementObstacle_bare a b
    | vector b n o => exact elementObstacle_bare a b
    | _ => rfl
  | struct a ms q o =>
    cases t with
    | struct => simp only [bare, valueObstacle]; split <;> rfl
    | _ => rfl
  | array a m o =>
    cases t with
    | array b n o =>
      simp only [bare, valueObstacle, variability_bare, ← bare_withVariability, sameIgnoringConst_bare]
      split <;> rfl
    | _ => rfl
  | vector a m o =>
    cases t with
    | vector b n _ =>
      simp only [bare, valueObstacle]
      split
      · exact elementObstacle_bare a b
      · rfl
    | _ => rfl
  | _ => rfl

/-- The steps that all conversions take before they look at the source. -/
def earlyObstacle (s t : Ty) (late : Option Obstacle) : Option Obstacle :=
  if s.same t then none else if s.isVoid then some .fromVoid else if t.isVoid then some .toVoid else late

/-- A conversion of a value, which stays varying. -/
def lateObstacle (explicit : Bool) (s t : Ty) : Option Obstacle :=
  if s.isVarying && t.isUniform then some (.lostVariability s t) else valueObstacle explicit s t

theorem earlyObstacle_bare (s t : Ty) {x y : Option Obstacle} (h : x.isNone = y.isNone) :
    (earlyObstacle s.bare t.bare x).isNone = (earlyObstacle s t y).isNone := by
  unfold earlyObstacle
  rw [same_bare, isVoid_bare, isVoid_bare]
  split
  · rfl
  · split
    · rfl
    · split
      · rfl
      · exact h

theorem lateObstacle_bare (explicit : Bool) (s t : Ty) :
    (lateObstacle explicit s.bare t.bare).isNone = (lateObstacle explicit s t).isNone := by
  unfold lateObstacle
  rw [isVarying_bare, isUniform_bare]
  split
  · rfl
  · exact valueObstacle_bare s t

/-- Bare types decide whether a conversion has an obstacle, but for what a list fills. -/
theorem obstacle_bare (h : s.isList = false ∧ s.isReference = false ∨ t.isReference = true) :
    (obstacle explicit s.bare t.bare).isNone = (obstacle explicit s t).isNone := by
  have hb := earlyObstacle_bare s t (bindingObstacle_bare s t)
  have hk := earlyObstacle_bare s t (lateObstacle_bare explicit s t)
  unfold obstacle
  cases t with
  | reference u o =>
    cases s with
    | function => exact earlyObstacle_bare _ _ rfl
    | _ => exact hb
  | function => cases s <;> exact earlyObstacle_bare _ _ rfl
  | pointer p q o =>
    cases s with
    | function r ps task o' =>
      have hp : (if (p.bare.isFunction && p.bare.same (function r ps task o').bare) = true then none
          else some (Obstacle.mismatch (function r ps task o').bare (pointer p q o).bare)).isNone =
        (if (p.isFunction && p.same (function r ps task o')) = true then none
          else some (Obstacle.mismatch (function r ps task o') (pointer p q o))).isNone := by
        rw [isFunction_bare, same_bare]
        split <;> rfl
      exact earlyObstacle_bare _ _ hp
    | array e n o' => exact earlyObstacle_bare _ _ (decayObstacle_bare (.array e n o') e (.pointer p q o) p)
    | list => exact absurd h (by simp [isList, isReference])
    | reference => exact absurd h (by simp [isReference])
    | _ => exact hk
  | _ =>
    cases s with
    | list => exact absurd h (by simp [isList, isReference])
    | reference => exact absurd h (by simp [isReference])
    | function => exact earlyObstacle_bare _ _ rfl
    | _ => exact hk

/-- Bare types decide whether a conversion has an obstacle, unless what a list fills is looked at. -/
theorem obstacle_of_bare (h : s.isList = false ∧ s.isReference = false ∨ t.isReference = true) (hs : s'.bare = s.bare)
    (ht : t'.bare = t.bare) (ho : obstacle explicit s t = none) : obstacle explicit s' t' = none := by
  have h' : s'.isList = false ∧ s'.isReference = false ∨ t'.isReference = true := by
    rwa [eq_of_bare isList_bare hs, eq_of_bare isReference_bare hs, eq_of_bare isReference_bare ht]
  rw [← Option.isNone_iff_eq_none, ← obstacle_bare h', hs, ht, obstacle_bare h, ho, Option.isNone_none]

/-! ## Lists -/

theorem listTargets_outline (n : Nat) (t : Ty) :
    (∃ ts, listTargets n t = .ok ts ∧ listTargets n t.outline = .ok (outlineAll ts)) ∨
      ∃ o o', listTargets n t = .error o ∧ listTargets n t.outline = .error o' := by
  cases t with
  | array e m o =>
    simp only [outline, listTargets]
    split
    · exact .inl ⟨_, rfl, by rw [outlineAll_eq, List.map_replicate]⟩
    · exact .inr ⟨_, _, rfl, rfl⟩
  | vector e m o =>
    simp only [outline, listTargets]
    split
    · exact .inl ⟨_, rfl, by rw [outlineAll_eq, List.map_replicate]; rfl⟩
    · exact .inr ⟨_, _, rfl, rfl⟩
  | struct a ms q o =>
    simp only [outline, listTargets, outlineMembers_eq, List.length_map, List.map_map]
    split
    · refine .inl ⟨_, rfl, congrArg Except.ok ?_⟩
      rw [outlineAll_eq, List.map_map]
      exact congrArg (List.map · ms) (funext fun m => (outline_memberType q m.2).symm)
    · exact .inr ⟨_, _, rfl, rfl⟩
  | _ => exact .inr ⟨_, _, rfl, rfl⟩

theorem isVarying_outline (t : Ty) : t.outline.isVarying = t.isVarying := eq_of_bare isVarying_bare (bare_outline t)

theorem isUniform_outline (t : Ty) : t.outline.isUniform = t.isUniform := eq_of_bare isUniform_bare (bare_outline t)

theorem earlyObstacle_outline (s t : Ty) {x y : Option Obstacle} (h : x.isNone = y.isNone) :
    (earlyObstacle s.outline t.outline x).isNone = (earlyObstacle s t y).isNone := by
  have hx := earlyObstacle_bare s.outline t.outline (x := x) (y := x) rfl
  rw [← hx, bare_outline, bare_outline]
  exact earlyObstacle_bare s t h

theorem bindingObstacle_outline (s t : Ty) :
    (bindingObstacle s.outline t.outline).isNone = (bindingObstacle s t).isNone := by
  rw [← bindingObstacle_bare s.outline, bare_outline, bare_outline, bindingObstacle_bare]

theorem obstacle_outline_of_bare (hl : s.isList = false) (hr : s.isReference = false) (t : Ty) :
    (obstacle explicit s.outline t.outline).isNone = (obstacle explicit s t).isNone := by
  have h' : s.outline.isList = false ∧ s.outline.isReference = false := by
    rw [eq_of_bare isList_bare (bare_outline s), eq_of_bare isReference_bare (bare_outline s)]
    exact ⟨hl, hr⟩
  rw [← obstacle_bare (.inl h'), bare_outline, bare_outline, obstacle_bare (.inl ⟨hl, hr⟩)]

mutual
/-- Outlines decide whether a conversion has an obstacle. -/
theorem obstacle_outline (explicit : Bool) : ∀ s t : Ty,
    (obstacle explicit s.outline t.outline).isNone = (obstacle explicit s t).isNone
  | .list es, t => by
    have hk : (if (Ty.list es).outline.isVarying && t.outline.isUniform then
          some (Obstacle.lostVariability (Ty.list es).outline t.outline)
        else match listTargets (outlineAll es).length t.outline with
          | .ok targets => firstObstacle explicit (outlineAll es) targets
          | .error o => some o).isNone =
        (if (Ty.list es).isVarying && t.isUniform then some (Obstacle.lostVariability (.list es) t)
        else match listTargets es.length t with
          | .ok targets => firstObstacle explicit es targets
          | .error o => some o).isNone := by
      rw [isVarying_outline, isUniform_outline, outlineAll_eq, List.length_map, ← outlineAll_eq]
      split
      · rfl
      · rcases listTargets_outline es.length t with ⟨ts, ht, ht'⟩ | ⟨o, o', ht, ht'⟩
        · rw [ht, ht']
          exact firstObstacle_outline explicit es ts
        · rw [ht, ht']
          rfl
    unfold obstacle
    cases t with
    | function => exact earlyObstacle_outline (.list es) _ rfl
    | reference u o => exact earlyObstacle_outline (.list es) _ (bindingObstacle_outline _ _)
    | _ => exact earlyObstacle_outline (.list es) _ hk
  | .reference r o, t => by
    have ih := obstacle_outline explicit r t
    unfold obstacle
    cases t with
    | function => exact earlyObstacle_outline (.reference r o) _ rfl
    | reference u o' => exact earlyObstacle_outline (.reference r o) _ (bindingObstacle_outline _ _)
    | _ => exact earlyObstacle_outline (.reference r o) _ ih
  | .void _, t => obstacle_outline_of_bare rfl rfl t
  | .scalar _, t => obstacle_outline_of_bare rfl rfl t
  | .pointer .., t => obstacle_outline_of_bare rfl rfl t
  | .array .., t => obstacle_outline_of_bare rfl rfl t
  | .vector .., t => obstacle_outline_of_bare rfl rfl t
  | .struct .., t => obstacle_outline_of_bare rfl rfl t
  | .function .., t => obstacle_outline_of_bare rfl rfl t
theorem firstObstacle_outline (explicit : Bool) : ∀ ss ts : List Ty,
    (firstObstacle explicit (outlineAll ss) (outlineAll ts)).isNone = (firstObstacle explicit ss ts).isNone
  | [], _ => rfl
  | s :: ss, [] => rfl
  | s :: ss, t :: ts => by
    have h := obstacle_outline explicit s t
    have ih := firstObstacle_outline explicit ss ts
    simp only [outlineAll, firstObstacle]
    cases ho : obstacle explicit s t with
    | none =>
      rw [ho, Option.isNone_none, Option.isNone_iff_eq_none] at h
      rw [h]
      exact ih
    | some o =>
      rw [ho, Option.isNone_some, Option.isNone_eq_false_iff, Option.isSome_iff_exists] at h
      obtain ⟨o', ho'⟩ := h
      rw [ho']
      rfl
end

theorem obstacle_of_outline (hs : s'.outline = s.outline) (ht : t'.outline = t.outline)
    (ho : obstacle explicit s t = none) : obstacle explicit s' t' = none := by
  rw [← Option.isNone_iff_eq_none, ← obstacle_outline, hs, ht, obstacle_outline, ho, Option.isNone_none]

theorem obstacle_of_same (h : s.same t = true) : obstacle explicit s t = none := by
  unfold obstacle
  rw [if_pos h]

theorem obstacle_reference (hs : s.isReference = false) (ht : t.isReference = true) (h : obstacle explicit s t = none) :
    obstacle explicit (.reference s) t = none := by
  have hne : ¬ s.same t = true := by
    intro hsame
    rw [isReference_eq (core_eq_of_same hsame), ht] at hs
    cases hs
  cases t with
  | reference u o =>
    have hb : bindingObstacle s (.reference u o) = none := by
      unfold obstacle at h
      rw [if_neg hne] at h
      split at h
      · cases h
      · rw [if_neg (by exact Bool.false_ne_true)] at h
        cases s with
        | function => cases h
        | _ => exact h
    have hr : bindingObstacle (.reference s) (.reference u o) = none := by
      unfold bindingObstacle at hb ⊢
      rw [stored_of_not_reference hs] at hb
      dsimp only [stored] at hb ⊢
      split at hb
      · rw [if_pos ‹_›]
      · cases hb
    unfold obstacle
    simp only [isVoid, Bool.false_eq_true, if_false, hr, ite_self]
  | _ => cases ht

/-! ## Casts -/

theorem earlyObstacle_mono {x y : Option Obstacle} (hxy : x = none → y = none) (h : earlyObstacle s t x = none) :
    earlyObstacle s t y = none := by
  unfold earlyObstacle at *
  split at h
  · rw [if_pos ‹_›]
  · split at h
    · cases h
    · split at h
      · cases h
      · rw [if_neg ‹_›, if_neg ‹_›, if_neg ‹_›]
        exact hxy h

theorem elementObstacle_explicit {a b : ScalarTy} (h : elementObstacle false a b = none) :
    elementObstacle true a b = none := by
  obtain ⟨a, _, _⟩ := a
  obtain ⟨b, _, _⟩ := b
  cases a <;> cases b <;> simp_all [elementObstacle]

theorem pointerObstacle_explicit {p : Ty} (h : pointerObstacle false s p t = none) : pointerObstacle true s p t = none := by
  cases t with
  | scalar u =>
    obtain ⟨u, _, _⟩ := u
    cases u with
    | basic k =>
      simp only [pointerObstacle, Bool.false_eq_true, and_false, or_false, ite_eq_left_iff, reduceCtorEq, imp_false,
        Decidable.not_not] at h
      simp only [pointerObstacle, h, true_or, if_true]
    | enumeration => cases h
  | pointer p' q o =>
    simp only [pointerObstacle, Bool.not_true, Bool.and_false, Bool.false_eq_true, if_false, if_true, ite_self]
  | _ => cases h

theorem valueObstacle_explicit (h : valueObstacle false s t = none) : valueObstacle true s t = none := by
  cases s with
  | pointer p q o =>
    have hp := pointerObstacle_explicit (s := .pointer p q o) (p := p) (t := t)
    cases t <;> exact hp h
  | scalar a =>
    cases t with
    | pointer => cases h
    | scalar b => exact elementObstacle_explicit h
    | vector b n o => exact elementObstacle_explicit h
    | _ => cases h
  | vector a m o =>
    cases t with
    | vector b n _ =>
      simp only [valueObstacle] at *
      split at h
      · rw [if_pos ‹_›]
        exact elementObstacle_explicit h
      · cases h
    | _ => cases h
  | struct a ms q o => cases t <;> exact h
  | array a m o => cases t <;> exact h
  | _ => cases t <;> exact h

theorem lateObstacle_explicit (h : lateObstacle false s t = none) : lateObstacle true s t = none := by
  unfold lateObstacle at *
  split at h
  · cases h
  · rw [if_neg ‹_›]
    exact valueObstacle_explicit h

theorem decayObstacle_explicit (s e t p : Ty) : decayObstacle true s e t p = none := by
  unfold decayObstacle
  rw [Bool.or_true, if_pos rfl]

theorem obstacle_explicit_value (hl : s.isList = false) (hr : s.isReference = false) (t : Ty) :
    obstacle false s t = none → obstacle true s t = none := by
  have hk := earlyObstacle_mono (s := s) (t := t) (lateObstacle_explicit (s := s) (t := t))
  have hb := earlyObstacle_mono (s := s) (t := t) (x := bindingObstacle s t) id
  unfold obstacle
  cases t with
  | reference =>
    cases s with
    | function => exact earlyObstacle_mono (x := some _) id
    | _ => exact hb
  | function => cases s <;> exact earlyObstacle_mono (x := some _) id
  | pointer p q o =>
    cases s with
    | function => exact id
    | array => exact earlyObstacle_mono fun _ => decayObstacle_explicit ..
    | list => cases hl
    | reference => cases hr
    | _ => exact hk
  | _ =>
    cases s with
    | list => cases hl
    | reference => cases hr
    | function => exact id
    | _ => exact hk

mutual
theorem obstacle_explicit : ∀ s t : Ty, obstacle false s t = none → obstacle true s t = none
  | .list es, t => by
    have hk : (if (Ty.list es).isVarying && t.isUniform then some (Obstacle.lostVariability (.list es) t)
          else match listTargets es.length t with
            | .ok targets => firstObstacle false es targets
            | .error o => some o) = none →
        (if (Ty.list es).isVarying && t.isUniform then some (Obstacle.lostVariability (.list es) t)
          else match listTargets es.length t with
            | .ok targets => firstObstacle true es targets
            | .error o => some o) = none := by
      intro h
      split at h
      · cases h
      · rw [if_neg ‹_›]
        split at h
        · exact firstObstacle_explicit es _ h
        · cases h
    unfold obstacle
    cases t with
    | function => exact earlyObstacle_mono (s := .list es) id
    | reference u o => exact earlyObstacle_mono (s := .list es) (x := bindingObstacle _ _) id
    | _ => exact earlyObstacle_mono (s := .list es) hk
  | .reference r o, t => by
    have ih := obstacle_explicit r t
    unfold obstacle
    cases t with
    | function => exact earlyObstacle_mono (s := .reference r o) id
    | reference u o' => exact earlyObstacle_mono (s := .reference r o) (x := bindingObstacle _ _) id
    | _ => exact earlyObstacle_mono (s := .reference r o) ih
  | .void _, t => obstacle_explicit_value rfl rfl t
  | .scalar _, t => obstacle_explicit_value rfl rfl t
  | .pointer .., t => obstacle_explicit_value rfl rfl t
  | .array .., t => obstacle_explicit_value rfl rfl t
  | .vector .., t => obstacle_explicit_value rfl rfl t
  | .struct .., t => obstacle_explicit_value rfl rfl t
  | .function .., t => obstacle_explicit_value rfl rfl t
theorem firstObstacle_explicit : ∀ ss ts : List Ty, firstObstacle false ss ts = none → firstObstacle true ss ts = none
  | [], _ => fun _ => rfl
  | s :: ss, [] => fun _ => rfl
  | s :: ss, t :: ts => by
    have h := obstacle_explicit s t
    have ih := firstObstacle_explicit ss ts
    simp only [firstObstacle]
    cases ho : obstacle false s t with
    | none => rw [h ho]; exact ih
    | some o => exact nofun
end

/-! ## Types that differ in `const` -/

section
variable {u : Ty}

theorem core_withVariability_of_core (v : Variability) (h : u.core = t.core) :
    (u.withVariability v).core = (t.withVariability v).core := by
  rw [core, core, asNonConst, asNonConst, withVariability_withConst, withVariability_withConst, bare_withVariability,
    bare_withVariability]
  exact congrArg (withVariability v) h

theorem elementObstacle_of_bare {a b : ScalarTy} (h : a.element.bare = b.element.bare) :
    elementObstacle explicit a b = none := by
  obtain ⟨a, qa, oa⟩ := a
  obtain ⟨b, qb, ob⟩ := b
  cases b with
  | basic => rfl
  | enumeration name es =>
    cases a with
    | basic => cases h
    | enumeration name' es' =>
      obtain rfl : name' = name := (Element.enumeration.inj h).1
      exact if_pos (Or.inl rfl)

/-- A type has its own variability, unless it is made of a list, and then of nothing that has a `const`. -/
theorem bare_withVariability_self : ∀ t : Ty, (t.withVariability t.variability).bare = t.bare ∨ ∀ u : Ty, u.core = t.core → u.bare = t.bare
  | .list _ => .inr fun u hu => by
    cases u with
    | list => exact hu
    | _ => cases hu
  | .void _ | .scalar _ | .pointer .. | .vector .. | .struct .. | .function .. => .inl rfl
  | .array e n _ => by
    rcases bare_withVariability_self e with h | h
    · exact .inl (congrArg (array · n) h)
    · refine .inr fun u hu => ?_
      cases u with
      | array e' n' _ =>
        obtain ⟨he, rfl, -⟩ := array.inj hu
        exact congrArg (array · n') (h e' he)
      | _ => cases hu
  | .reference t _ => by
    rcases bare_withVariability_self t with h | h
    · exact .inl (congrArg reference h)
    · refine .inr fun u hu => ?_
      cases u with
      | reference t' _ => exact congrArg reference (h t' (reference.inj hu).1)
      | _ => cases hu

theorem valueObstacle_of_core (hsame : ¬ u.same t = true) (hf : t.isFunction = false) (hv : t.isVoid = false)
    (hr : t.isReference = false) (h : u.core = t.core) : valueObstacle explicit u t = none := by
  cases t with
  | scalar b =>
    obtain ⟨a, rfl, ha, -⟩ := scalar_of_core h
    exact elementObstacle_of_bare ha
  | pointer p q o =>
    cases u with
    | pointer p' q' o' =>
      simp only [core_pointer, pointer.injEq, and_true] at h
      unfold valueObstacle pointerObstacle
      dsimp only
      split
      · rfl
      · rw [if_pos ((sameIgnoringConst_iff _ _).mpr (core_of_bare h.1)), eq_of_bare isConst_bare h.1, if_neg (by simp)]
    | _ => cases h
  | array e n o =>
    cases u with
    | array e' n' o' =>
      obtain rfl : n' = n := (array.inj h).2.1
      -- Only `const` on the elements can differ: were they bare twins, the arrays would be the same type.
      have hself : (e'.withVariability e.variability).core = e.core := by
        rw [core_withVariability_of_core _ (array.inj h).1]
        refine core_of_bare ((bare_withVariability_self e).resolve_right fun hbare => hsame ((same_iff _ _).mpr ?_))
        exact congrArg (array · n') (hbare e' (array.inj h).1)
      unfold valueObstacle
      dsimp only
      rw [(sameIgnoringConst_iff _ _).mpr hself, beq_self_eq_true, Bool.or_true, Bool.and_self, if_pos rfl]
    | _ => cases h
  | vector b n o =>
    cases u with
    | vector a n' o' =>
      obtain ⟨ha, rfl, -⟩ := vector.inj h
      unfold valueObstacle
      dsimp only
      rw [if_pos rfl]
      exact elementObstacle_of_bare (congrArg ScalarTy.element ha)
    | _ => cases h
  | struct a ms q o =>
    cases u with
    | struct a' ms' q' o' =>
      obtain rfl : a' = a := (struct.inj h).1
      unfold valueObstacle
      dsimp only
      rw [if_pos rfl]
    | _ => cases h
  | void => cases hv
  | reference => cases hr
  | function => cases hf
  | list =>
    cases u with
    | list => exact absurd ((same_iff _ _).mpr h) hsame
    | _ => cases h

theorem lost_of_core (h : u.core = t.core) : (u.isVarying && t.isUniform) = false := by
  rw [isVarying_eq h, isVarying, isUniform]
  cases t.variability <;> rfl

theorem obstacle_of_core (hr : t.isReference = false) (h : u.core = t.core) :
    obstacle explicit u t = none := by
  by_cases hsame : u.same t = true
  · exact obstacle_of_same hsame
  have hv : t.isVoid = false := by
    refine Bool.eq_false_iff.mpr fun hv => ?_
    cases t with
    | void =>
      cases u with
      | void => exact hsame rfl
      | _ => cases h
    | _ => cases hv
  have hf : t.isFunction = false := by
    refine Bool.eq_false_iff.mpr fun hf => ?_
    cases t with
    | function =>
      cases u with
      | function => exact hsame ((same_iff _ _).mpr h)
      | _ => cases h
    | _ => cases hf
  have hlate : lateObstacle explicit u t = none := by
    rw [lateObstacle, lost_of_core h, if_neg Bool.false_ne_true]
    exact valueObstacle_of_core hsame hf hv hr h
  unfold obstacle
  rw [if_neg hsame, isVoid_eq h, hv, if_neg Bool.false_ne_true, if_neg Bool.false_ne_true]
  cases t with
  | void => cases hv
  | reference => cases hr
  | function => cases hf
  | list =>
    cases u with
    | list => exact absurd ((same_iff _ _).mpr h) hsame
    | _ => cases h
  | _ =>
    cases u with
    | scalar | pointer | vector | struct => exact hlate
    | array => first | exact hlate | cases h
    | _ => cases h

end

/-! ## References that are read -/

section
variable {p : Ty}

theorem same_of_void (ht : t.isVoid = true) (hp : p.isVoid = true) : t.same p = true := by
  cases t <;> cases ht
  cases p <;> cases hp
  rfl

theorem same_of_function (hp : p.isFunction = true) (h : obstacle false t p = none) : t.same p = true := by
  refine Decidable.byContradiction fun hs => ?_
  unfold obstacle at h
  rw [if_neg hs] at h
  cases p with
  | function =>
    split at h
    · cases h
    · split at h
      · cases h
      · cases t <;> cases h
  | _ => cases hp

/-- What a reference refers to is read for any type but `void` and functions. -/
theorem obstacle_of_referent {o : Origin} (hr : p.isReference = false) (h : obstacle false t p = none)
    (hp : t.same p = true → p.isVoid = false ∧ p.isFunction = false) : obstacle false (.reference t o) p = none := by
  have hvoid : p.isVoid = false := by
    refine Bool.eq_false_iff.mpr fun hv => ?_
    have hsame := same_of_void (obstacle_to_void hv h) hv
    rw [(hp hsame).1] at hv
    cases hv
  have hfunction : p.isFunction = false := by
    refine Bool.eq_false_iff.mpr fun hf => ?_
    rw [(hp (same_of_function hf h)).2] at hf
    cases hf
  unfold obstacle
  split
  · rfl
  · rw [if_neg (by simp [isVoid]), if_neg (by simp [hvoid])]
    cases p with
    | reference => cases hr
    | function => cases hfunction
    | _ => exact h

/-- What a reference converts to when it is read, its referent does. -/
theorem obstacle_stored (hp : p.isReference = false) (h : obstacle false t p = none) : obstacle false t.stored p = none := by
  cases t with
  | reference r o =>
    unfold obstacle at h
    split at h
    · rename_i hs
      rw [← isReference_eq (core_eq_of_same hs)] at hp
      cases hp
    · rw [if_neg (by simp [isVoid])] at h
      split at h
      · cases h
      · cases p with
        | reference => cases hp
        | function => cases h
        | _ => exact h
  | _ => exact h

end

end Spmd.Ty
