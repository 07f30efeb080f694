import Spmd.Proofs.Ty.Obstacle

/-!
# What a cast adds

A cast converts whatever converts without one, and what it converts beyond that are pointers and enumerations, also inside of
references, vectors and initializer lists (`Ty.cast_extends`).
-/

namespace Spmd

/-- The obstacles that a cast can lift: a pointer or an enumeration would be made of something else. -/
def Obstacle.isLiftable : Obstacle → Bool
  | .mismatch s t => s.isPointer && (t.isPointer || t.isIntegerScalar) || (s.isArray || s.isIntegerScalar) && t.isPointer
  | .lostConst .. | .voidPointer .. | .enumCast .. => true
  | _ => false

namespace Ty

variable {s t : Ty}

/-- What keeps a value from converting, where a cast converts it, is lifted by the cast. -/
def Lifts (plain cast : Option Obstacle) : Prop := cast = none → ∀ o, plain = some o → o.isLiftable = true

theorem Lifts.same (x : Option Obstacle) : Lifts x x := by
  rintro rfl _ h
  cases h

theorem Lifts.early {x y : Option Obstacle} (h : Lifts x y) : Lifts (earlyObstacle s t x) (earlyObstacle s t y) := by
  unfold earlyObstacle
  split
  · exact .same _
  · split
    · exact .same _
    · split
      · exact .same _
      · exact h

/-! ## Values -/

theorem elementObstacle_lifts (a b : ScalarTy) : Lifts (elementObstacle false a b) (elementObstacle true a b) := by
  intro _ o h
  unfold elementObstacle at h
  split at h
  · cases h
  · split at h
    · split at h <;> cases h
      rfl
    · cases h
      rfl

theorem pointerObstacle_lifts (p : Ty) (q : Qualifiers) (o : Origin) (t : Ty) :
    Lifts (pointerObstacle false (.pointer p q o) p t) (pointerObstacle true (.pointer p q o) p t) := by
  cases t with
  | scalar u =>
    obtain ⟨u, r, o'⟩ := u
    cases u with
    | basic k =>
      intro hcast x h
      simp only [pointerObstacle] at hcast h
      split at hcast
      · rename_i hk
        split at h
        · cases h
        · rename_i hnot
          cases h
          have hint : k.isInteger = true := (hk.resolve_left fun hb => hnot (.inl hb)).1
          simp [Obstacle.isLiftable, isPointer, isIntegerScalar, isScalar, isInteger, element?, Element.kind, hint]
      · cases hcast
    | enumeration => exact .same _
  | pointer p' r o' =>
    intro _ x h
    simp only [pointerObstacle, Bool.false_eq_true, if_false] at h
    split at h
    · cases h
    · split at h
      · split at h <;> cases h
        rfl
      · split at h <;> cases h <;> rfl
  | _ => exact .same _

theorem valueObstacle_lifts (s t : Ty) : Lifts (valueObstacle false s t) (valueObstacle true s t) := by
  cases s with
  | pointer p q o =>
    have hp := pointerObstacle_lifts p q o t
    cases t <;> exact hp
  | scalar a =>
    cases t with
    | pointer p q o =>
      intro hcast x h
      unfold valueObstacle at hcast h
      dsimp only at hcast h
      split at hcast
      · rename_i hint
        cases h
        rw [Bool.true_and] at hint
        simp [Obstacle.isLiftable, isPointer, isIntegerScalar, isScalar, isInteger, element?, hint]
      · cases hcast
    | scalar b => exact elementObstacle_lifts a b
    | vector b n o => exact elementObstacle_lifts a b
    | _ => exact .same _
  | vector a m o =>
    cases t with
    | vector b n o =>
      simp only [valueObstacle]
      split
      · exact elementObstacle_lifts a b
      · exact .same _
    | _ => exact .same _
  | _ => cases t <;> exact .same _

theorem lateObstacle_lifts (s t : Ty) : Lifts (lateObstacle false s t) (lateObstacle true s t) := by
  unfold lateObstacle
  split
  · exact .same _
  · exact valueObstacle_lifts s t

theorem decayObstacle_lifts (e : Ty) (n : Option Nat) (p : Ty) (q : Qualifiers) (o o' : Origin) :
    Lifts (decayObstacle false (.array e n o) e (.pointer p q o') p) (decayObstacle true (.array e n o) e (.pointer p q o') p) := by
  intro _ x h
  unfold decayObstacle at h
  split at h
  · cases h
  · split at h <;> cases h
    rfl

/-! ## All types -/

theorem obstacle_lifts_value (hl : s.isList = false) (hr : s.isReference = false) (t : Ty) :
    Lifts (obstacle false s t) (obstacle true s t) := by
  have hk := Lifts.early (s := s) (t := t) (lateObstacle_lifts s t)
  unfold obstacle
  cases t with
  | reference => cases s <;> exact Lifts.early (.same _)
  | function => cases s <;> exact Lifts.early (.same _)
  | pointer p q o =>
    cases s with
    | function => exact Lifts.early (.same _)
    | array e n o' => exact Lifts.early (decayObstacle_lifts e n p q o' o)
    | list => cases hl
    | reference => cases hr
    | _ => exact hk
  | _ =>
    cases s with
    | list => cases hl
    | reference => cases hr
    | function => exact Lifts.early (.same _)
    | _ => exact hk

mutual
/-- Lists are compared with what they fill, and references are followed; a cast lifts what it lifts there. -/
theorem obstacle_lifts : ∀ s t : Ty, Lifts (obstacle false s t) (obstacle true s t)
  | .list es, t => by
    have hk : Lifts (if (Ty.list es).isVarying && t.isUniform then some (Obstacle.lostVariability (.list es) t)
          else match listTargets es.length t with
            | .ok targets => firstObstacle false es targets
            | .error o => some o)
        (if (Ty.list es).isVarying && t.isUniform then some (Obstacle.lostVariability (.list es) t)
          else match listTargets es.length t with
            | .ok targets => firstObstacle true es targets
            | .error o => some o) := by
      split
      · exact .same _
      · split
        · exact firstObstacle_lifts es _
        · exact .same _
    unfold obstacle
    cases t with
    | function => exact Lifts.early (.same _)
    | reference => exact Lifts.early (.same _)
    | _ => exact Lifts.early hk
  | .reference r o, t => by
    have ih := obstacle_lifts r t
    unfold obstacle
    cases t with
    | function => exact Lifts.early (.same _)
    | reference => exact Lifts.early (.same _)
    | _ => exact Lifts.early ih
  | .void _, t => obstacle_lifts_value rfl rfl t
  | .scalar _, t => obstacle_lifts_value rfl rfl t
  | .pointer .., t => obstacle_lifts_value rfl rfl t
  | .array .., t => obstacle_lifts_value rfl rfl t
  | .vector .., t => obstacle_lifts_value rfl rfl t
  | .struct .., t => obstacle_lifts_value rfl rfl t
  | .function .., t => obstacle_lifts_value rfl rfl t
theorem firstObstacle_lifts : ∀ ss ts : List Ty, Lifts (firstObstacle false ss ts) (firstObstacle true ss ts)
  | [], _ => .same _
  | s :: ss, [] => .same _
  | s :: ss, t :: ts => by
    have h := obstacle_lifts s t
    have ih := firstObstacle_lifts ss ts
    simp only [firstObstacle]
    cases ht : obstacle true s t with
    | some => exact nofun
    | none =>
      cases hf : obstacle false s t with
      | none => exact ih
      | some o => exact fun _ x hx => h ht x (hf.trans hx)
end

/-- What converts converts as a cast. Where only the cast converts, it makes a pointer or an enumeration of something else, or
an integer of a pointer. -/
theorem cast_extends (s t : Ty) :
    (s.converts false t = true → s.converts true t = true) ∧
      ∀ o, obstacle false s t = some o → s.converts true t = true → o.isLiftable = true := by
  simp only [converts, Option.isNone_iff_eq_none]
  exact ⟨obstacle_explicit s t, fun o ho hcast => obstacle_lifts s t hcast o ho⟩

/-- A referenced vector of an enumeration and a list fill a struct, with a cast or without. The struct that wants the enumeration
itself needs the cast, and the enumeration is why. -/
theorem cast_extends_nested :
    let color : ScalarTy := ⟨.enumeration "Color" ["Red", "Green"], {}, none⟩
    let items : Ty := .list [.reference (.vector color 3), .list [.basic .int64, .scalar color]]
    let row (element : Ty) : Ty :=
      .struct "Row" [("shade", .vector ⟨.basic .double, {}, none⟩ 3), ("pair", .array element (some 2))] {}
    (items.converts false (row (.basic .int8)) = true ∧ items.converts true (row (.basic .int8)) = true) ∧
      ∃ o, obstacle false items (row (.scalar color)) = some o ∧ items.converts true (row (.scalar color)) = true ∧
        o.isLiftable = true := by
  intro color items row
  have hplain : items.converts false (row (.basic .int8)) = true := by decide
  have hcast : items.converts true (row (.scalar color)) = true := by decide
  exact ⟨⟨hplain, (cast_extends items _).1 hplain⟩, _, rfl, hcast, (cast_extends items _).2 _ rfl hcast⟩

end Ty

end Spmd
