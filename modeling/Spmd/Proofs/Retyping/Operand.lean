import Spmd.Proofs.Ty.Common
import Spmd.Proofs.WellTyped.Operator

/-!
# Operands of operators

What the operators on values take is a matter of kinds, so that they take the common type of two operands that they
take (`Check.validOperand_common`). The types that pointer operators and logical operators bring their operands to are read
off brought operands again.
-/

namespace Spmd

/-! ## Truth types -/

namespace Ty

variable {t u : Ty}

theorem boolLike_boolLike (t : Ty) : t.boolLike.boolLike = t.boolLike := by cases t <;> rfl

theorem core_rvalue_of_core (h : u.core = t.core) (hr : t.isReference = false) : u.rvalue.core = t.core := by
  rw [core_rvalue, stored_of_not_reference ((isReference_eq h).trans hr), h]

theorem boolLike_of_core (h : u.core = t.boolLike.core) : u.rvalue.boolLike = t.boolLike := by
  have hr : u.isReference = false := (isReference_eq h).trans (boolLike_flat t).1
  rw [← boolLike_core, core_rvalue, stored_of_not_reference hr, h, boolLike_core, boolLike_boolLike]

end Ty

namespace Check

open Spmd.Expr

/-! ## Values -/

theorem Element.kind_join (a b : Element) : (a.join b).kind = a.kind.join b.kind := by
  cases a with
  | basic => cases b <;> rfl
  | enumeration s es =>
    cases b with
    | basic => rfl
    | enumeration t fs =>
      simp only [Element.join]
      split <;> rfl

/-- What an operator takes is a matter of kinds, and it takes the join of two kinds that it takes. -/
theorem validOperand_kinds (op : BinaryOp) : ∃ p : Kind → Bool,
    (∀ t : Ty, validOperand op t = t.element?.any fun e => p e.kind) ∧ ∀ k l : Kind, p k = true → p l = true → p (k.join l) = true := by
  have hnumeric : ∀ t : Ty, t.isNumeric = t.element?.any fun e => e.kind.isInteger || e.kind.isFloat := by
    intro t
    rw [Ty.isNumeric, Ty.isInteger, Ty.isFloat]
    cases t.element? <;> rfl
  have hbits : ∀ t : Ty, (t.isInteger || t.isBool) = t.element?.any fun e => e.kind.isInteger || e.kind == .bool := by
    intro t
    rw [Ty.isInteger, Ty.isBool]
    cases t.element? <;> rfl
  have hscalars : ∀ t : Ty, (t.isNumeric || t.isBool) =
      t.element?.any fun e => e.kind.isInteger || e.kind.isFloat || e.kind == .bool := by
    intro t
    rw [hnumeric, Ty.isBool]
    cases t.element? <;> rfl
  have integers : ∀ k l : Kind, k.isInteger = true → l.isInteger = true → (k.join l).isInteger = true := by
    intro k l
    cases k <;> cases l <;> decide
  have numbers : ∀ k l : Kind, (k.isInteger || k.isFloat) = true → (l.isInteger || l.isFloat) = true →
      ((k.join l).isInteger || (k.join l).isFloat) = true := by
    intro k l
    cases k <;> cases l <;> decide
  have wholes : ∀ k l : Kind, (k.isInteger || k == .bool) = true → (l.isInteger || l == .bool) = true →
      ((k.join l).isInteger || k.join l == .bool) = true := by
    intro k l
    cases k <;> cases l <;> decide
  have scalars : ∀ k l : Kind, (k.isInteger || k.isFloat || k == .bool) = true →
      (l.isInteger || l.isFloat || l == .bool) = true → ((k.join l).isInteger || (k.join l).isFloat || k.join l == .bool) = true := by
    intro k l
    cases k <;> cases l <;> decide
  -- one sort of kinds for each group of operators, and each sort is closed under joining
  unfold validOperand
  split
  · exact ⟨Kind.isInteger, fun _ => rfl, integers⟩
  · exact ⟨Kind.isInteger, fun _ => rfl, integers⟩
  · exact ⟨Kind.isInteger, fun _ => rfl, integers⟩
  · exact ⟨_, hnumeric, numbers⟩
  · exact ⟨_, hnumeric, numbers⟩
  · exact ⟨_, hnumeric, numbers⟩
  · exact ⟨_, hnumeric, numbers⟩
  · exact ⟨_, hbits, wholes⟩
  · exact ⟨_, hbits, wholes⟩
  · exact ⟨_, hbits, wholes⟩
  · exact ⟨_, hscalars, scalars⟩

section
variable {op : BinaryOp} {a b t : Ty}

theorem element_of_valid (h : validOperand op t = true) : t.element?.isSome = true := by
  obtain ⟨p, hp, -⟩ := validOperand_kinds op
  rw [hp] at h
  cases he : t.element? with
  | none => rw [he] at h; cases h
  | some e => rfl

theorem element_not_reference (h : validOperand op t = true) : t.isReference = false := by
  have he := element_of_valid h
  cases t with
  | reference => cases he
  | _ => rfl

theorem validOperand_core (op : BinaryOp) (t : Ty) : validOperand op t.core = validOperand op t := by
  obtain ⟨p, hp, -⟩ := validOperand_kinds op
  rw [hp, hp]
  cases t with
  | scalar s => exact congrArg p (Element.bare_kind s.element)
  | vector s n o => exact congrArg p (Element.bare_kind s.element)
  | _ => rfl

theorem validOperand_common (ha : validOperand op a = true) (hb : validOperand op b = true) (h : Ty.common a b = .ok t) :
    validOperand op t = true := by
  obtain ⟨m, s, hm, hs⟩ := Ty.rvalue_flat (element_of_valid ha)
  obtain ⟨n, r, hn, -⟩ := Ty.rvalue_flat (element_of_valid hb)
  rcases Ty.common_flat hm hn hs with ⟨⟨d, hd⟩, -⟩ | ⟨-, w, hw, hbare⟩
  · rw [hd] at h
    cases h
  rw [hw] at h
  cases h
  obtain ⟨p, hp, hjoin⟩ := validOperand_kinds op
  have hflat : ∀ (n : Option Nat) (x : ScalarTy), validOperand op (Ty.flat n x) = p x.element.kind := by
    intro n x
    rw [hp]
    cases n <;> rfl
  have hkind : ∀ {x : Ty} {k : Option Nat} {y : ScalarTy}, x.rvalue = Ty.flat k y → validOperand op x = true →
      p y.element.kind = true := by
    intro x k y hx hv
    rw [← hflat k, ← hx, ← validOperand_core, Ty.core_rvalue, Ty.stored_of_not_reference (element_not_reference hv),
      validOperand_core]
    exact hv
  rw [← validOperand_core, Ty.common_core hw, hbare, Ty.flat_bare, hflat]
  show p (Element.bare _).kind = true
  rw [Element.bare_kind]
  exact (Element.kind_join _ _).symm ▸ hjoin _ _ (hkind hm ha) (hkind hn hb)

end

theorem truthType_of_core {t u : Ty} (h : u.core = (truthType t).core) : truthType u = truthType t := by
  have hstored : u.stored.variability = u.variability := by cases u <;> rfl
  rw [truthType, hstored, Ty.variability_eq h]
  rfl

/-! ## Pointers -/

theorem decayed_of_pointer {s : Ty} (h : s.isPointer = true) : (decayed s).core = s.core := by
  cases s with
  | pointer => rfl
  | _ => cases h

theorem decayed_not_const {a p : Ty} {q : Qualifiers} {o : Origin} (h : decayed a = .pointer p q o) : q.isConst = false := by
  unfold decayed at h
  split at h
  · cases h
    rfl
  · have hcore := Ty.core_rvalue_bare a
    rw [h, Ty.core_pointer, Ty.bare, Ty.pointer.injEq] at hcore
    exact (congrArg Qualifiers.isConst hcore.2.1).symm

theorem pointer_of_core {s p : Ty} {q : Qualifiers} {o : Origin} (h : s.core = (Ty.pointer p q o).core) :
    ∃ p' r o', s = .pointer p' r o' ∧ p'.bare = p.bare ∧ r.variability = q.variability := by
  cases s with
  | pointer p' r o' =>
    simp only [Ty.core_pointer, Ty.pointer.injEq, Qualifiers.mk.injEq, and_true] at h
    exact ⟨p', r, o', rfl, h.1, h.2⟩
  | _ => cases h

/-- An operand that got the type of a shifted pointer, or had it, points to what the pointer points to. -/
theorem pointer_of_shifted {a s s' p : Ty} {q : Qualifiers} {o : Origin} {v : Variability} (hd : decayed a = .pointer p q o)
    (hs : s.core = (Ty.pointer p ⟨v, false⟩).core) (hr : s = .pointer p ⟨v, false⟩ ∨ s.rvalue = a.rvalue)
    (hout : s'.outline = s.outline) : ∃ p' r o', s' = .pointer p' r o' ∧ p'.outline = p.outline ∧ r.variability = v := by
  obtain ⟨x, r, o', rfl, -, hv⟩ := pointer_of_core hs
  have hx : x = p := by
    rcases hr with hr | hr
    · cases hr
      rfl
    · unfold decayed at hd
      rw [← hr] at hd
      cases hd
      rfl
  subst hx
  cases s' with
  | pointer p' r' o'' =>
    simp only [Ty.outline, Ty.pointer.injEq, and_true] at hout
    exact ⟨p', r', o'', rfl, hout.1, by rw [hout.2, hv]⟩
  | _ => cases hout

theorem integer_of_core {s u : Ty} (h : s.core = u.core) (hu : u.isIntegerScalar = true) :
    s.rvalue.isIntegerScalar = true ∧ s.rvalue.variability = u.variability := by
  have hr : u.isReference = false := by
    cases u with
    | reference => cases hu
    | _ => rfl
  have hbare : s.rvalue.bare = u.rvalue.bare := by
    rw [Ty.rvalue_bare ((Ty.isReference_eq h).trans hr), Ty.rvalue_bare hr, h]
  have hvariability : u.rvalue.variability = u.variability := by
    rw [← Ty.core_variability, Ty.core_rvalue_of_core rfl hr, Ty.core_variability]
  rw [Ty.eq_of_bare Ty.isIntegerScalar_bare hbare, Ty.eq_of_bare Ty.variability_bare hbare, hvariability]
  refine ⟨?_, rfl⟩
  cases u with
  | scalar => exact hu
  | _ => cases hu

theorem size_of_core {T : Target} {s : Ty} {v : Variability} (h : s.core = (T.sizeType.withVariability v).core) :
    ∃ k : ScalarTy, s = .scalar k ∧ s.rvalue.isIntegerScalar = true ∧ s.rvalue.variability = v := by
  have hsize : (T.sizeType.withVariability v).isIntegerScalar = true ∧ (T.sizeType.withVariability v).variability = v := by
    unfold Target.sizeType
    split <;> exact ⟨rfl, rfl⟩
  have hinteger := integer_of_core h hsize.1
  rw [hsize.2] at hinteger
  obtain ⟨size, hscalar⟩ := Ty.sizeType_scalar T
  rw [hscalar] at h
  obtain ⟨k, rfl, -⟩ := Ty.scalar_of_core h
  exact ⟨k, rfl, hinteger⟩

theorem fillTargets_size (T : Target) (v : Variability) (n : Nat) : fillTargets? n (T.sizeType.withVariability v) = none := by
  obtain ⟨size, hsize⟩ := Ty.sizeType_scalar T
  rw [hsize]
  rfl

theorem Variability.join_right (v w : Variability) : (v.join w).join w = v.join w := by
  cases v <;> cases w <;> rfl

end Check

end Spmd
