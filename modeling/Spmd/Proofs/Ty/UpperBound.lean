import Spmd.Proofs.Ty.Common

/-!
# Common types are upper bounds

The common type of two operands is the same in either order, and where both are scalars or vectors, both pointers, both
structs or both arrays, it is varying when one of them is, and both convert to it (`Ty.common_bounds`).
-/

namespace Spmd

/-! ## Joins in either order -/

theorem Kind.join_comm (a b : Kind) : a.join b = b.join a := by
  cases a <;> cases b <;> rfl

theorem Variability.join_comm (v w : Variability) : v.join w = w.join v := by
  cases v <;> cases w <;> rfl

theorem Element.join_comm (a b : Element) : (a.join b).bare = (b.join a).bare := by
  cases a with
  | basic k =>
    cases b with
    | basic l => exact congrArg (fun k => (basic k).bare) (Kind.join_comm k l)
    | enumeration t fs => exact congrArg (fun k => (basic k).bare) (Kind.join_comm k .uint32)
  | enumeration s es =>
    cases b with
    | basic l => exact congrArg (fun k => (basic k).bare) (Kind.join_comm .uint32 l)
    | enumeration t fs =>
      by_cases h : s = t
      · simp only [join, h, if_true, bare]
      · simp only [join, h, Ne.symm h, if_false]

theorem ScalarTy.join_comm (a b : ScalarTy) (v : Variability) : (a.join b v).bare = (b.join a v).bare :=
  congrArg (fun e => (⟨e, ⟨v, false⟩, none⟩ : ScalarTy)) (Element.join_comm a.element b.element)

theorem ScalarTy.bare_of_const {s r : ScalarTy} (h : (s.withConst false).bare = (r.withConst false).bare)
    (hc : s.qualifiers.isConst = r.qualifiers.isConst) : s.bare = r.bare := by
  obtain ⟨e, ⟨v, c⟩, _⟩ := s
  obtain ⟨e', ⟨v', c'⟩, _⟩ := r
  obtain rfl : c = c' := hc
  obtain ⟨he, hq, -⟩ := ScalarTy.mk.inj h
  obtain ⟨rfl, -⟩ := Qualifiers.mk.inj hq
  exact congrArg (fun e => (⟨e, ⟨v, c⟩, none⟩ : ScalarTy)) he

namespace Ty

variable {a b t u : Ty}

/-! ## Symmetry -/

theorem bare_of_core : ∀ {t u : Ty}, t.core = u.core → t.isConst = u.isConst → t.bare = u.bare
  | .scalar s, u, h, hc => by
    cases u with
    | scalar r => exact congrArg scalar (ScalarTy.bare_of_const (scalar.inj h) hc)
    | _ => cases h
  | .pointer p ⟨v, c⟩ _, u, h, hc => by
    cases u with
    | pointer p' r _ =>
      obtain ⟨v', c'⟩ := r
      obtain rfl : c = c' := hc
      obtain ⟨hp, hq, -⟩ := pointer.inj h
      obtain ⟨rfl, -⟩ := Qualifiers.mk.inj hq
      exact congrArg (pointer · ⟨v, c⟩) hp
    | _ => cases h
  | .array e n _, u, h, hc => by
    cases u with
    | array e' n' _ =>
      obtain ⟨he, rfl, -⟩ := array.inj h
      exact congrArg (array · n) (bare_of_core he hc)
    | _ => cases h
  | .vector s n _, u, h, hc => by
    cases u with
    | vector r m _ =>
      obtain ⟨hs, rfl, -⟩ := vector.inj h
      exact congrArg (vector · n) (ScalarTy.bare_of_const hs hc)
    | _ => cases h
  | .struct s ms ⟨v, c⟩ _, u, h, hc => by
    cases u with
    | struct s' ms' r _ =>
      obtain ⟨v', c'⟩ := r
      obtain rfl : c = c' := hc
      cases h
      rfl
    | _ => cases h
  | .reference t _, u, h, hc => by
    cases u with
    | reference t' _ => exact congrArg reference (bare_of_core (reference.inj h).1 hc)
    | _ => cases h
  | .void _, u, h, _ | .function .., u, h, _ | .list _, u, h, _ => by
    cases u <;> first | exact h | cases h

theorem commonPointer_comm (a b : Ty) (v : Variability) :
    (commonPointer a b v).map bare = (commonPointer b a v).map bare := by
  cases a with
  | pointer p q o =>
    cases b with
    | pointer p' q' o' =>
      simp only [commonPointer]
      by_cases hp : p.sameIgnoringConst p' = true
      · have hcore := (sameIgnoringConst_iff p p').mp hp
        rw [if_pos hp, if_pos ((sameIgnoringConst_iff p' p).mpr hcore.symm)]
        have hbare : (if p.isConst then p else p').bare = (if p'.isConst then p' else p).bare := by
          cases hc : p.isConst <;> cases hc' : p'.isConst
          · exact (bare_of_core hcore (hc.trans hc'.symm)).symm
          · rfl
          · rfl
          · exact bare_of_core hcore (hc.trans hc'.symm)
        exact congrArg (fun p => some (pointer p ⟨v, false⟩)) hbare
      · rw [if_neg hp, if_neg fun h => hp ((sameIgnoringConst_iff p p').mpr ((sameIgnoringConst_iff p' p).mp h).symm)]
        by_cases hv : p.isVoid = true
        · by_cases hv' : p'.isVoid = true
          · exact absurd ((sameIgnoringConst_iff p p').mpr (core_eq_of_same (same_of_void hv hv'))) hp
          · rw [if_pos hv, if_neg hv', if_pos hv]
        · rw [if_neg hv]
          by_cases hv' : p'.isVoid = true
          · rw [if_pos hv', if_pos hv']
          · rw [if_neg hv', if_neg hv', if_neg hv]
    | _ => rfl
  | _ =>
    cases b with
    | pointer => rfl
    | _ => rfl

theorem commonVector_comm (a b : Ty) (v : Variability) :
    (commonVector a b v).toOption.map bare = (commonVector b a v).toOption.map bare := by
  cases a with
  | vector s m o =>
    cases b with
    | vector r n o' =>
      simp only [commonVector]
      by_cases h : m = n
      · subst h
        rw [if_pos rfl, if_pos rfl]
        exact congrArg (fun s => some (vector s m)) (ScalarTy.join_comm s r v)
      · rw [if_neg h, if_neg (Ne.symm h)]
        rfl
    | scalar r => exact congrArg (fun s => some (vector s m)) (ScalarTy.join_comm s r v)
    | _ => rfl
  | scalar s =>
    cases b with
    | vector r n o => exact congrArg (fun s => some (vector s n)) (ScalarTy.join_comm s r v)
    | _ => rfl
  | _ => cases b <;> rfl

theorem common_comm (a b : Ty) : (common a b).toOption.map bare = (common b a).toOption.map bare := by
  unfold common
  dsimp only
  generalize a.rvalue = x
  generalize b.rvalue = y
  rw [Variability.join_comm y.variability x.variability]
  generalize x.variability.join y.variability = v
  -- each question that is asked on the way has the same answer for both orders
  by_cases hs : x.same y = true
  · have hbare := (same_iff x y).mp hs
    rw [if_pos hs, if_pos ((same_iff y x).mpr hbare.symm)]
    exact congrArg some hbare
  rw [if_neg hs, if_neg fun h => hs ((same_iff x y).mpr ((same_iff y x).mp h).symm), Bool.or_comm y.isPointer,
    Bool.or_comm y.isVector]
  by_cases hp : (x.isPointer || y.isPointer) = true
  · rw [if_pos hp, if_pos hp]
    have hcomm := commonPointer_comm x y v
    cases hx : commonPointer x y v <;> cases hy : commonPointer y x v <;> rw [hx, hy] at hcomm
    · rfl
    · cases hcomm
    · cases hcomm
    · exact hcomm
  rw [if_neg hp, if_neg hp]
  by_cases hv : (x.isVector || y.isVector) = true
  · rw [if_pos hv, if_pos hv]
    exact commonVector_comm x y v
  rw [if_neg hv, if_neg hv]
  have hrest : (if (x.withVariability v).same (y.withVariability v) then Except.ok (x.withVariability v)
        else .error (Discord.incompatible x y)).toOption.map bare =
      (if (y.withVariability v).same (x.withVariability v) then Except.ok (y.withVariability v)
        else .error (Discord.incompatible y x)).toOption.map bare := by
    by_cases h : (x.withVariability v).same (y.withVariability v) = true
    · have hbare := (same_iff _ _).mp h
      rw [if_pos h, if_pos ((same_iff _ _).mpr hbare.symm)]
      exact congrArg some hbare
    · rw [if_neg h, if_neg fun h' => h ((same_iff _ _).mpr ((same_iff _ _).mp h').symm)]
      rfl
  cases x with
  | scalar s =>
    cases y with
    | scalar r => exact congrArg (fun s => some (scalar s)) (ScalarTy.join_comm s r v)
    | void => rfl
    | _ => exact hrest
  | void =>
    cases y with
    | scalar => rfl
    | _ => exact hrest
  | _ => cases y <;> exact hrest

/-! ## Variability -/

mutual
theorem withVariability_cases (v : Variability) : ∀ t : Ty,
    (t.withVariability v).variability = v ∨ t.variability = .uniform ∧ ∀ w, (t.withVariability w).bare = t.bare
  | .void _ | .function .. => .inr ⟨rfl, fun _ => rfl⟩
  | .scalar _ | .pointer .. | .vector .. | .struct .. => .inl rfl
  | .array e n _ => (withVariability_cases v e).imp_right fun ⟨hu, h⟩ => ⟨hu, fun w => congrArg (array · n) (h w)⟩
  | .reference t _ => (withVariability_cases v t).imp_right fun ⟨hu, h⟩ => ⟨hu, fun w => congrArg reference (h w)⟩
  | .list es => (allWithVariability_cases v es).imp_right fun ⟨hu, h⟩ => ⟨hu, fun w => congrArg list (h w)⟩
theorem allWithVariability_cases (v : Variability) : ∀ ts : List Ty,
    joinVariability (allWithVariability v ts) = v ∨
      joinVariability ts = .uniform ∧ ∀ w, allBare (allWithVariability w ts) = allBare ts
  | [] => .inr ⟨rfl, fun _ => rfl⟩
  | t :: ts => by
    rcases withVariability_cases v t with ht | ⟨hu, ht⟩
    · refine .inl ?_
      rcases allWithVariability_cases v ts with hts | ⟨hus, hts⟩
      · rw [allWithVariability, joinVariability, ht, hts, Variability.join_self]
      · rw [allWithVariability, joinVariability, ht, ← joinVariability_allBare, hts v, joinVariability_allBare, hus,
          Variability.join_comm]
        rfl
    · have hv : (t.withVariability v).variability = .uniform := by
        rw [← variability_bare, ht v, variability_bare, hu]
      refine (allWithVariability_cases v ts).imp (fun hts => ?_) fun ⟨hus, hts⟩ => ⟨?_, fun w => ?_⟩
      · rw [allWithVariability, joinVariability, hv, hts]
        rfl
      · rw [joinVariability, hu, hus]
        rfl
      · rw [allWithVariability, allBare, allBare, ht w, hts w]
end

/-! ## Upper bounds -/

theorem rvalue_eq (t : Ty) : t.rvalue = t.stored.asNonConst := by cases t <;> rfl

theorem variability_stored (t : Ty) : t.stored.variability = t.variability := by cases t <;> rfl

theorem variability_rvalue (t : Ty) : t.rvalue.variability = t.variability := by
  rw [rvalue_eq, asNonConst, variability_withConst, variability_stored]

/-- Two types of one sort: scalars or vectors, pointers, structs, or arrays. -/
def Akin (a b : Ty) : Prop :=
  (a.element?.isSome = true ∧ b.element?.isSome = true) ∨ (a.isPointer = true ∧ b.isPointer = true) ∨
    (a.isStruct = true ∧ b.isStruct = true) ∨ (a.isArray = true ∧ b.isArray = true)

theorem akin_rvalue : a.rvalue.Akin b.rvalue ↔ a.stored.Akin b.stored := by
  rw [rvalue_eq, rvalue_eq]
  cases a.stored <;> cases b.stored <;> exact Iff.rfl

theorem Akin.symm (h : a.Akin b) : b.Akin a :=
  h.imp And.symm (.imp And.symm (.imp And.symm And.symm))

theorem Akin.isValue (h : a.Akin b) :
    (a.isVoid = false ∧ a.isFunction = false) ∧ a.isList = false ∧ a.isReference = false := by
  cases a with
  | void | function | list | reference => simp [Akin, element?, isPointer, isStruct, isArray] at h
  | _ => exact ⟨⟨rfl, rfl⟩, rfl, rfl⟩

theorem obstacle_of_stored (hkind : a.stored.Akin b.stored) (hr : t.isReference = false)
    (ho : obstacle false a.stored t = none) : obstacle false a t = none := by
  cases a with
  | reference r o =>
    refine obstacle_of_referent hr ho fun hsame => ?_
    rw [← isVoid_eq (core_eq_of_same hsame), ← eq_of_bare isFunction_bare ((same_iff r t).mp hsame)]
    exact hkind.isValue.1
  | _ => exact ho

/-- Between types of one sort, it is their values that convert. -/
theorem obstacle_of_late {explicit : Bool} (h : a.Akin b) (hlate : lateObstacle explicit a b = none) :
    obstacle explicit a b = none := by
  unfold obstacle
  split
  · rfl
  cases a with
  | scalar | vector | pointer | struct | array =>
    cases b with
    | scalar | vector | pointer | struct | array =>
      first | exact hlate | simp [Akin, element?, isPointer, isStruct, isArray] at h
    | _ => simp [Akin, element?, isPointer, isStruct, isArray] at h
  | _ => simp [Akin, element?, isPointer, isStruct, isArray] at h

theorem lateObstacle_eq_none {explicit : Bool} (hv : a.isVarying = true → b.isVarying = true)
    (h : valueObstacle explicit a b = none) : lateObstacle explicit a b = none := by
  have hlost : (a.isVarying && b.isUniform) = false := by
    cases ha : a.isVarying with
    | false => rfl
    | true =>
      rw [isUniform, eq_of_beq (hv ha)]
      rfl
  rw [lateObstacle, hlost, if_neg Bool.false_ne_true, h]

/-- A scalar converts to what it is joined with another one to. -/
theorem elementObstacle_join {x s r : ScalarTy} (v : Variability) (hx : x.element = s.element) :
    elementObstacle false x (s.join r v) = none := by
  obtain ⟨e, _, _⟩ := x
  obtain ⟨e', _, _⟩ := s
  obtain ⟨f, _, _⟩ := r
  obtain rfl : e = e' := hx
  cases e with
  | basic k => rfl
  | enumeration name es =>
    cases f with
    | basic k => rfl
    | enumeration name' fs =>
      by_cases h : name = name'
      · simp [elementObstacle, ScalarTy.join, Element.join, h]
      · simp [elementObstacle, ScalarTy.join, Element.join, h]

theorem variability_flat (n : Option Nat) (s : ScalarTy) : (flat n s).variability = s.qualifiers.variability := by
  cases n <;> rfl

theorem obstacle_flat {m n : Option Nat} {x j : ScalarTy} (hn : m = none ∨ m = n) (he : elementObstacle false x j = none)
    (hv : x.qualifiers.variability = .varying → j.qualifiers.variability = .varying) :
    obstacle false (flat m x) (flat n j) = none := by
  have hakin : (flat m x).Akin (flat n j) := by
    cases m <;> cases n <;> exact .inl ⟨rfl, rfl⟩
  refine obstacle_of_late hakin (lateObstacle_eq_none ?_ ?_)
  · simpa only [isVarying, variability_flat, beq_iff_eq] using hv
  · cases m with
    | none => cases n <;> exact he
    | some m =>
      obtain rfl : some m = n := by simpa using hn
      simp only [flat, valueObstacle, if_true, he]

theorem asNonConst_flat (h : t.element?.isSome = true) :
    ∃ n x, t.bare = (flat n x).bare ∧ t.asNonConst = flat n (x.withConst false) := by
  cases t with
  | scalar s => exact ⟨none, s, rfl, rfl⟩
  | vector s n o => exact ⟨some n, s, rfl, rfl⟩
  | _ => cases h

theorem isList_of_flat {n : Option Nat} {s : ScalarTy} : (flat n s).isList = false ∧ (flat n s).isReference = false := by
  cases n <;> exact ⟨rfl, rfl⟩

theorem commonPointer_points {p p' : Ty} {q q' : Qualifiers} {o o' : Origin} {v : Variability}
    (h : commonPointer (.pointer p q o) (.pointer p' q' o') v = some t) :
    t.isPointer = true ∧ t.variability = v ∧ ∀ s, pointerObstacle false s p t = none := by
  unfold commonPointer at h
  dsimp only at h
  split at h
  · rename_i hsame
    have hcore := (sameIgnoringConst_iff p p').mp hsame
    obtain ⟨r, hr, hpr, hconst⟩ : ∃ r, (if p.isConst then p else p') = r ∧ p.core = r.core ∧
        (p.isConst = true → r.isConst = true) := by
      cases hc : p.isConst
      · exact ⟨p', rfl, hcore, nofun⟩
      · exact ⟨p, rfl, rfl, fun _ => hc⟩
    rw [hr] at h
    cases h
    refine ⟨rfl, rfl, fun s => ?_⟩
    unfold pointerObstacle
    dsimp only
    split
    · rfl
    · rw [if_pos ((sameIgnoringConst_iff p r).mpr hpr), if_neg]
      cases hc : p.isConst
      · exact Bool.false_ne_true
      · simp [hconst hc]
  · split at h
    · rename_i hv
      cases h
      refine ⟨rfl, rfl, fun s => ?_⟩
      exact if_pos hv
    · split at h
      · rename_i hv
        cases h
        refine ⟨rfl, rfl, fun s => ?_⟩
        exact if_pos hv
      · cases h

/-- Structs and arrays have a common type when they differ in variability only. -/
theorem common_of_aggregates (ha : a.rvalue.isStruct = true ∨ a.rvalue.isArray = true)
    (hb : b.rvalue.isStruct = true ∨ b.rvalue.isArray = true) (hne : ¬ a.rvalue.same b.rvalue = true) {v : Variability}
    (hv : v = a.rvalue.variability.join b.rvalue.variability) :
    common a b = if (a.rvalue.withVariability v).same (b.rvalue.withVariability v) then .ok (a.rvalue.withVariability v)
      else .error (.incompatible a.rvalue b.rvalue) := by
  unfold common
  dsimp only
  rw [if_neg hne, ← hv]
  generalize a.rvalue = x at ha ⊢
  generalize b.rvalue = y at hb ⊢
  cases x with
  | struct | array =>
    cases y with
    | struct | array => rfl
    | _ => rcases hb with hb | hb <;> cases hb
  | _ => rcases ha with ha | ha <;> cases ha

/-- Types that are the same once both take on their joined variability have taken it on. -/
theorem variability_joined {v : Variability} (hv : v = a.variability.join b.variability)
    (h : (a.withVariability v).same (b.withVariability v) = true) : (a.withVariability v).variability = v := by
  have hsame : (a.withVariability v).variability = (b.withVariability v).variability :=
    eq_of_bare variability_bare ((same_iff _ _).mp h)
  rcases withVariability_cases v a with ha | ⟨ha, hat⟩
  · exact ha
  · rcases withVariability_cases v b with hb | ⟨hb, -⟩
    · exact hsame.trans hb
    · rw [eq_of_bare variability_bare (hat v), hv, ha, hb]
      rfl

section
variable (h : common a b = .ok t)
include h

theorem common_scalars (ha : a.stored.element?.isSome = true) (hb : b.stored.element?.isSome = true) :
    obstacle false a.stored t = none ∧ t.variability = a.variability.join b.variability := by
  obtain ⟨m, x, hx, hm⟩ := asNonConst_flat ha
  obtain ⟨n, y, hy, hn⟩ := asNonConst_flat hb
  rcases common_flat ((rvalue_eq a).trans hm) ((rvalue_eq b).trans hn) rfl with ⟨⟨d, hd⟩, -⟩ | ⟨hmn, w, hw, hbare⟩
  · rw [h] at hd
    cases hd
  obtain rfl : t = w := by
    rw [h] at hw
    exact Except.ok.inj hw
  have hav : a.variability = x.qualifiers.variability := by
    rw [← variability_stored, ← variability_bare, hx, variability_bare, variability_flat]
  have hbv : b.variability = y.qualifiers.variability := by
    rw [← variability_stored, ← variability_bare, hy, variability_bare, variability_flat]
  refine ⟨obstacle_of_bare (.inl isList_of_flat) hx hbare ?_, ?_⟩
  · refine obstacle_flat ?_ (elementObstacle_join _ rfl) fun hv => ?_
    · rcases hmn with rfl | rfl | rfl
      · exact .inl rfl
      · exact .inr (by rw [Option.or_none])
      · exact .inr (by rw [Option.or_self])
    · exact congrArg (Variability.join · y.qualifiers.variability) hv
  · rw [← variability_bare, hbare, variability_bare, variability_flat, hav, hbv]
    rfl

theorem common_pointers (ha : a.stored.isPointer = true) (hb : b.stored.isPointer = true)
    (hne : ¬ a.rvalue.same b.rvalue = true) :
    obstacle false a.stored t = none ∧ t.variability = a.variability.join b.variability := by
  unfold common at h
  dsimp only at h
  rw [if_neg hne, variability_rvalue, variability_rvalue, rvalue_eq, rvalue_eq] at h
  rw [← variability_stored a] at h ⊢
  generalize a.stored = x at h ha ⊢
  generalize b.stored = y at h hb
  cases x with
  | pointer p q o =>
    cases y with
    | pointer p' q' o' =>
      simp only [asNonConst, withConst, isPointer, Bool.or_self, if_true] at h
      split at h
      · rename_i hp
        cases h
        obtain ⟨ht, hv, hpoints⟩ := commonPointer_points hp
        refine ⟨obstacle_of_late (.inr (.inl ⟨rfl, ht⟩)) (lateObstacle_eq_none (fun hx => ?_) (hpoints _)), hv⟩
        rw [isVarying, hv, eq_of_beq hx]
        rfl
      · cases h
    | _ => cases hb
  | _ => cases ha

theorem common_aggregates (hkind : a.stored.isStruct = true ∧ b.stored.isStruct = true ∨
    a.stored.isArray = true ∧ b.stored.isArray = true) (hne : ¬ a.rvalue.same b.rvalue = true) :
    obstacle false a.stored t = none ∧ t.variability = a.variability.join b.variability := by
  have hstruct : ∀ t : Ty, t.asNonConst.isStruct = t.isStruct := by
    intro t
    cases t <;> rfl
  have harray : ∀ t : Ty, t.asNonConst.isArray = t.isArray := by
    intro t
    cases t <;> rfl
  have ha : a.rvalue.isStruct = true ∨ a.rvalue.isArray = true := by
    rw [rvalue_eq, hstruct, harray]
    exact hkind.imp And.left And.left
  have hb : b.rvalue.isStruct = true ∨ b.rvalue.isArray = true := by
    rw [rvalue_eq, hstruct, harray]
    exact hkind.imp And.right And.right
  have hjoin : a.variability.join b.variability = a.rvalue.variability.join b.rvalue.variability := by
    rw [variability_rvalue, variability_rvalue]
  -- the common type is what both become when they take on the joined variability
  rw [common_of_aggregates ha hb hne hjoin] at h
  generalize hw : a.variability.join b.variability = v at h hjoin ⊢
  split at h
  · rename_i hsame
    cases h
    have hv := variability_joined hjoin hsame
    refine ⟨?_, hv⟩
    have hvarying : a.stored.isVarying = true → (a.rvalue.withVariability v).isVarying = true := by
      intro hx
      rw [isVarying, variability_stored] at hx
      rw [isVarying, hv, ← hw, eq_of_beq hx]
      rfl
    rw [rvalue_eq] at hv hvarying ⊢
    generalize a.stored = x at hkind hvarying hv ⊢
    cases x with
    | struct s ms q o => exact obstacle_of_late (.inr (.inr (.inl ⟨rfl, rfl⟩))) (lateObstacle_eq_none hvarying (if_pos rfl))
    | array e n o =>
      refine obstacle_of_late (.inr (.inr (.inr ⟨rfl, rfl⟩))) (lateObstacle_eq_none hvarying ?_)
      have hcore : (e.withVariability v).core = ((e.withConst false).withVariability v).core :=
        core_withVariability_of_core v (core_withConst false e).symm
      have helement : ((e.withConst false).withVariability v).variability = v := hv
      simp only [asNonConst, withConst, withVariability, valueObstacle, helement, (sameIgnoringConst_iff _ _).mpr hcore,
        beq_self_eq_true, Bool.or_true, Bool.and_self, if_true]
    | _ => rcases hkind with ⟨hx, -⟩ | ⟨hx, -⟩ <;> cases hx
  · cases h

/-- An operand converts to the common type when its value is read. -/
theorem common_upper (hkind : a.stored.Akin b.stored) :
    obstacle false a.stored t = none ∧ t.variability = a.variability.join b.variability := by
  by_cases hsame : a.rvalue.same b.rvalue = true
  · unfold common at h
    dsimp only at h
    rw [if_pos hsame] at h
    cases h
    have hvariability : a.variability = b.variability := by
      rw [← variability_rvalue a, ← variability_rvalue b]
      exact eq_of_bare variability_bare ((same_iff _ _).mp hsame)
    refine ⟨obstacle_of_core ?_ (core_rvalue a).symm, ?_⟩
    · rw [rvalue_eq]
      generalize a.stored = x at hkind ⊢
      cases x with
      | reference => simp [Akin, element?, isPointer, isStruct, isArray] at hkind
      | _ => rfl
    · rw [variability_rvalue, ← hvariability, Variability.join_self]
  · rcases hkind with ⟨ha, hb⟩ | ⟨ha, hb⟩ | hkind
    · exact common_scalars h ha hb
    · exact common_pointers h ha hb hsame
    · exact common_aggregates h hkind hsame

theorem common_upper_right (hkind : a.stored.Akin b.stored) : obstacle false b.stored t = none := by
  have hcomm := common_comm a b
  rw [h] at hcomm
  cases hba : common b a with
  | error =>
    rw [hba] at hcomm
    cases hcomm
  | ok u =>
    rw [hba] at hcomm
    exact obstacle_of_bare (.inl hkind.symm.isValue.2) rfl (Option.some.inj hcomm) (common_upper hba hkind.symm).1

end

/-- The common type is an upper bound of two types, and the same in either order: two types have it or not, whichever comes
first, and then it is varying when one of two values of one sort is, and both convert to it. -/
theorem common_bounds (a b : Ty) :
    ((∃ d, common a b = .error d) ↔ ∃ d, common b a = .error d) ∧
      ∀ t, common a b = .ok t →
        (∀ u, common b a = .ok u → t.same u = true) ∧
        (a.rvalue.Akin b.rvalue →
          t.isVarying = (a.isVarying || b.isVarying) ∧ converts false a t = true ∧ converts false b t = true) := by
  have hcomm := common_comm a b
  refine ⟨?_, fun t ht => ⟨fun u hu => ?_, fun hkind => ?_⟩⟩
  · cases hab : common a b <;> cases hba : common b a <;> rw [hab, hba] at hcomm
    · exact ⟨fun _ => ⟨_, rfl⟩, fun _ => ⟨_, rfl⟩⟩
    · cases hcomm
    · cases hcomm
    · exact ⟨nofun, nofun⟩
  · rw [ht, hu] at hcomm
    exact (same_iff t u).mpr (Option.some.inj hcomm)
  · have hr : t.isReference = false := common_isReference hkind.isValue.2.2 ht
    have hab := akin_rvalue.mp hkind
    obtain ⟨hat, hv⟩ := common_upper ht hab
    have hbt : obstacle false b.stored t = none := common_upper_right ht hab
    refine ⟨?_, Option.isNone_iff_eq_none.mpr (obstacle_of_stored hab hr hat),
      Option.isNone_iff_eq_none.mpr (obstacle_of_stored hab.symm hr hbt)⟩
    rw [isVarying, isVarying, isVarying, hv]
    cases a.variability <;> cases b.variability <;> rfl

/-- A uniform pointer to `const int32` and a varying pointer to `int32` meet at a varying pointer to `const int32`. -/
theorem common_bounds_pointers :
    let p : Ty := .pointer int32.asConst {}
    let q : Ty := .pointer int32 ⟨.varying, true⟩
    ∃ t, common p q = .ok t ∧ t.isVarying = true ∧ converts false p t = true ∧ converts false q t = true := by
  intro p q
  obtain ⟨hv, hp, hq⟩ :=
    ((common_bounds p q).2 (.pointer int32.asConst ⟨.varying, false⟩) rfl).2 (.inr (.inl ⟨rfl, rfl⟩))
  exact ⟨_, rfl, hv, hp, hq⟩

end Ty

end Spmd
