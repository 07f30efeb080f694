import Spmd.Proofs.Typing.Conversion
import Spmd.Typing.Operator

/-!
# The contracts of checking operators

Given operands that have types, each operator gives a checked node or reports an error.
-/

namespace Spmd

/-! ## Types of operands -/

namespace Ty

theorem sizeType_scalar (T : Target) : ∃ s, T.sizeType = .scalar s := by
  unfold Target.sizeType
  split
  · exact ⟨_, rfl⟩
  · exact ⟨_, rfl⟩

theorem sizeType_withVariability (T : Target) (v : Variability) :
    (T.sizeType.withVariability v).Legal ∧ (T.sizeType.withVariability v).isPointer = false ∧
      (T.sizeType.withVariability v).isArray = false ∧ (T.sizeType.withVariability v).variability = v := by
  obtain ⟨s, hs⟩ := sizeType_scalar T
  rw [hs]
  exact ⟨trivial, rfl, rfl, rfl⟩

theorem boolLike_flat (t : Ty) : t.boolLike.isReference = false ∧ t.boolLike.isArray = false := by
  cases t <;> exact ⟨rfl, rfl⟩

theorem boolLike_pointer {t : Ty} (h : t.isPointer = true) : t.boolLike = .basic .bool t.variability := by
  cases t with
  | pointer => rfl
  | _ => cases h

/-- A type of scalars or vectors is neither a pointer nor an array. -/
theorem flat_of_element {t : Ty} {p : Element → Bool} (h : t.element?.any p = true) :
    t.isPointer = false ∧ t.isArray = false := by
  cases t with
  | scalar => exact ⟨rfl, rfl⟩
  | vector => exact ⟨rfl, rfl⟩
  | _ => cases h

end Ty

namespace Check

open Spmd.Expr

variable {T : Target}

theorem validOperand_flat {op : BinaryOp} {t : Ty} (h : validOperand op t = true) :
    t.isPointer = false ∧ t.isArray = false := by
  have hor : ∀ {a b : Bool}, (a = true → t.isPointer = false ∧ t.isArray = false) →
      (b = true → t.isPointer = false ∧ t.isArray = false) → (a || b) = true → t.isPointer = false ∧ t.isArray = false :=
    fun ha hb hab => (Bool.or_eq_true_iff.mp hab).elim ha hb
  have hnum : t.isNumeric = true → t.isPointer = false ∧ t.isArray = false :=
    hor Ty.flat_of_element Ty.flat_of_element
  unfold validOperand at h
  split at h
  · exact Ty.flat_of_element h
  · exact Ty.flat_of_element h
  · exact Ty.flat_of_element h
  · exact hnum h
  · exact hnum h
  · exact hnum h
  · exact hnum h
  · exact hor Ty.flat_of_element Ty.flat_of_element h
  · exact hor Ty.flat_of_element Ty.flat_of_element h
  · exact hor Ty.flat_of_element Ty.flat_of_element h
  · exact hor hnum Ty.flat_of_element h

/-- The type of the operands of an operator on values: legal, and neither a pointer nor an array. -/
structure OperandType (t : Ty) : Prop where
  legal : t.Legal
  not_pointer : t.isPointer = false
  not_array : t.isArray = false

theorem checkOperands_delivers {a b : Ty} (ha : a.Legal) (hb : b.Legal) (place : Option Location) (op : BinaryOp) :
    Delivers T (checkOperands place op a b) fun o => OperandType o.operandType ∧
      o.resultType = if BinaryOp.isComparison op then o.operandType.boolLike else o.operandType := by
  unfold checkOperands
  dsimp only
  split
  · exact Delivers.reject _ _
  · rename_i hva
    split
    · exact Delivers.reject _ _
    · rename_i hvb
      rw [Bool.not_eq_true, Bool.not_eq_false'] at hva hvb
      refine Delivers.bind (commonType_delivers _ _ _ _) (fun t ht => Delivers.some ⟨⟨?_, ?_, ?_⟩, rfl⟩) rfl
      · exact Ty.legal_common ha.rvalue hb.rvalue ht
      · rw [Ty.common_isPointer ht, Ty.rvalue_isPointer, Ty.rvalue_isPointer,
          Ty.stored_of_not_reference (Ty.rvalue_isReference ha), Ty.stored_of_not_reference (Ty.rvalue_isReference hb),
          (validOperand_flat hva).1, (validOperand_flat hvb).1]
        rfl
      · by_contra hn
        rw [Bool.not_eq_false] at hn
        have harr := (Ty.common_isArray ht hn).1
        rw [Ty.rvalue_isArray, Ty.stored_of_not_reference (Ty.rvalue_isReference ha), (validOperand_flat hva).2] at harr
        cases harr

theorem resolved_delivers {e : Expr} (he : Operand T e) :
    Delivers T (resolved (some e)) fun e' => e' = e ∧ ∃ t, e.type? = some t := by
  cases he with
  | @name f known =>
    change Delivers T (if f.isResolved = true then _ else _) _
    split
    · rename_i hres
      obtain ⟨s, hs⟩ := Option.isSome_iff_exists.mp hres
      exact Delivers.some ⟨rfl, s.type, known.type_eq.trans (by rw [hs]; rfl)⟩
    · exact Delivers.reject _ _
  | list type_eq types below => exact Delivers.some ⟨rfl, _, type_eq⟩
  | checked checked closed =>
    obtain ⟨t, ht, -⟩ := checked.typed
    unfold resolved
    split
    · rename_i heq
      cases heq
      cases closed
    · exact Delivers.some ⟨rfl, t, ht⟩

/-! ## Unary operators -/

section
variable {e : Expr} (he : Operand T e) {t : Ty} (hs : e.type? = some t)
include he hs

theorem checkUnary_delivers (node : Node) (op : ValueOp) : Delivers T (checkUnary node op e) (Operand T) := by
  have hc := he.toChecked hs
  have htyped : Operand T (.unary (.typed node.place t.rvalue) op e) := by
    refine .checked (Checked.one ⟨⟨t.rvalue, rfl, (hc.legal hs).rvalue⟩, trivial, ?_⟩ rfl hc) rfl
    exact ⟨t.rvalue, t, rfl, hs, Ty.core_rvalue t⟩
  unfold checkUnary
  simp only [type_ok hs, lift_ok, pure_bind]
  cases op with
  | neg =>
    dsimp only
    split
    · exact Delivers.some htyped
    · exact Delivers.reject _ _
  | complement =>
    dsimp only
    split
    · exact Delivers.some htyped
    · exact Delivers.reject _ _
  | not =>
    have hlegal := Ty.legal_boolLike t.rvalue
    have hflat := Ty.boolLike_flat t.rvalue
    refine Delivers.bind (convert_value_delivers he _ hlegal hflat.2) (fun e' he' => ?_) rfl
    obtain ⟨u, hu, hcore⟩ := hasType_iff.mp he'.2
    have hr : u.isReference = false := (Ty.isReference_eq hcore).trans hflat.1
    simp only [type_ok hu, lift_ok, pure_bind]
    refine Delivers.some (.checked (Checked.one ⟨⟨u.asNonConst, rfl, ?_⟩, trivial, ?_⟩ rfl he'.1) rfl)
    · exact (he'.1.legal hu).withConst false
    · exact ⟨u.asNonConst, u, rfl, hu, by rw [Ty.core_asNonConst, Ty.stored_of_not_reference hr]⟩

/-! ## Steps -/

omit he hs in
theorem stepAmount_delivers (node : Node) (s : Step) (t : Ty) :
    Delivers T (stepAmount node s t) fun amount =>
      amount.type.isScalar = true ∧ (t.isPointer = false → amount.type.core = t.asUniform.core) := by
  unfold stepAmount
  refine Delivers.target ?_
  split
  · rename_i hp
    split
    · exact Delivers.reject _ _
    · obtain ⟨size, hsize⟩ := Ty.sizeType_scalar T
      obtain ⟨v, hv, -⟩ := Literal.ofScalars_ok T.width size [.int 1] (.inl rfl)
      simp only [hsize, hv, lift_ok, pure_bind]
      exact Delivers.some ⟨rfl, fun hn => by rw [hn] at hp; cases hp⟩
  · split
    · rename_i hscalar
      cases t with
      | scalar k =>
        obtain ⟨v, hv, -⟩ := Literal.ofScalars_ok T.width (k.withVariability .uniform) [.int 1] (.inl rfl)
        simp only [Ty.asUniform, Ty.withVariability, hv, lift_ok, pure_bind]
        exact Delivers.some ⟨rfl, fun _ => Ty.core_asConst _⟩
      | _ => cases hscalar
    · exact Delivers.reject _ _

theorem isStorage_ok : ∃ b, e.isStorage = .ok b := by
  have hc := he.toChecked hs
  obtain ⟨v, hv⟩ := storageVariability_ok hc.addressType_ok ⟨t, type_ok hs⟩
  exact ⟨v.isSome, by rw [isStorage, hv]; rfl⟩

theorem checkStep_delivers (node : Node) (s : Step) : Delivers T (checkStep node s e) (Operand T) := by
  have hc := he.toChecked hs
  obtain ⟨b, hb⟩ := isStorage_ok he hs
  unfold checkStep
  simp only [type_ok hs, hb, lift_ok, pure_bind]
  split
  · exact Delivers.reject _ _
  · split
    · exact Delivers.reject _ _
    · refine Delivers.bind (stepAmount_delivers node s _) (fun amount _ => Delivers.some ?_) rfl
      exact .checked (Checked.one ⟨⟨_, rfl, (hc.legal hs).rvalue⟩, trivial, trivial⟩ rfl hc) rfl

end

/-! ## Two operands -/

theorem convertBoth_delivers {l r : Expr} {a b : Ty} {context : String} {P Q : Expr → Prop}
    (hl : Delivers T (convert l a context) P) (hr : Delivers T (convert r b context) Q) :
    Delivers T (convertBoth l a r b context) fun p => P p.1 ∧ Q p.2 :=
  Delivers.both hl hr (fun _ _ hb hc => Delivers.some ⟨hb, hc⟩) (fun _ => rfl) (fun _ => rfl)

theorem binary_operand {place : Option Location} {op : BinaryOp} {l r : Expr} {t : Ty} (hl : Checked T l)
    (hr : Checked T r) (ht : t.Legal) (hc : (Expr.binary (.typed place t) op l r false).Coherent T)
    (hg : (Expr.binary (.typed place t) op l r false).Grounded T) :
    Operand T (.binary (.typed place t) op l r false) := by
  refine .checked (.node ⟨⟨t, rfl, ht⟩, hc, hg⟩ fun c h => ?_) rfl
  rcases List.mem_pair.mp h with rfl | rfl
  · exact hl
  · exact hr

theorem arith_coherent {place : Option Location} {op : ArithOp} {l r : Expr} {t a b : Ty} (hl : l.HasType a)
    (hr : r.HasType b) (h : t.Arithmetic T op a b) :
    (Expr.binary (.typed place t) (.arith op) l r false).Coherent T := by
  obtain ⟨a', ha', hac⟩ := hasType_iff.mp hl
  obtain ⟨b', hb', hbc⟩ := hasType_iff.mp hr
  exact ⟨t, a', b', rfl, ha', hb', h.congr hac hbc⟩

/-! ## Pointers -/

theorem decayed_isPointer (t : Ty) : (decayed t).isPointer = (t.rvalue.isPointer || t.rvalue.isArray) := by
  unfold decayed
  cases t.rvalue <;> rfl

theorem decayed_points {a b : Ty}
    (h : (a.rvalue.isPointer || b.rvalue.isPointer || a.rvalue.isArray || b.rvalue.isArray) = true) :
    ((decayed a).isPointer || (decayed b).isPointer) = true := by
  rw [decayed_isPointer, decayed_isPointer]
  revert h
  cases a.rvalue.isPointer <;> cases b.rvalue.isPointer <;> simp

/-- An operator on addresses that is not refused at once adds or subtracts. -/
theorem adds_or_subtracts {ar : ArithOp} (h : ¬(BinaryOp.arith ar ≠ .arith .add ∧ BinaryOp.arith ar ≠ .arith .sub)) :
    ar = .add ∨ ar = .sub := by
  by_contra hn
  rw [not_or] at hn
  exact h ⟨fun e => hn.1 (BinaryOp.arith.inj e), fun e => hn.2 (BinaryOp.arith.inj e)⟩

theorem decayed_legal {t : Ty} (h : t.Legal) : (decayed t).Legal := by
  have hr := h.rvalue
  unfold decayed
  split
  · rename_i ht
    rw [ht] at hr
    exact hr.2
  · exact hr

theorem decayed_isReference {t : Ty} (h : t.Legal) : (decayed t).isReference = false := by
  unfold decayed
  split
  · rfl
  · exact Ty.rvalue_isReference h

section
variable {l r : Expr} (hl : Operand T l) (hr : Operand T r) (node : Node) (op : BinaryOp)
include hl hr

theorem comparePointers_delivers {c : CompareOp} {a b : Ty} (ha : a.Legal) (hb : b.Legal)
    (hp : (a.rvalue.isPointer || b.rvalue.isPointer) = true) :
    Delivers T (comparePointers node (.compare c) l r a b) (Operand T) := by
  unfold comparePointers
  refine Delivers.bind (commonType_delivers _ _ _ _) (fun t ht => ?_) rfl
  have htp : t.isPointer = true := (Ty.common_isPointer ht).trans hp
  have hta : t.isArray = false := by
    cases t with
    | pointer => rfl
    | _ => cases htp
  have hlegal := Ty.legal_common ha hb ht
  refine Delivers.bind (convertBoth_delivers (convert_value_delivers hl _ hlegal hta)
    (convert_value_delivers hr _ hlegal hta)) (fun p hpq => ?_) rfl
  refine Delivers.some (binary_operand hpq.1.1 hpq.2.1 (Ty.legal_basic _ _) ?_ trivial)
  exact ⟨t, by rw [Ty.boolLike_pointer htp]; rfl, hpq.1.2, hpq.2.2⟩

theorem subtractPointers_delivers {ar : ArithOp} (hop : ar = .add ∨ ar = .sub) {p q : Ty} {qa qb : Qualifiers}
    {oa ob : Origin} (ha : p.Legal) (hb : q.Legal) :
    Delivers T (subtractPointers node (.arith ar) l r (.pointer p qa oa) (.pointer q qb ob) p q) (Operand T) := by
  unfold subtractPointers
  split
  · exact Delivers.reject _ _
  · rename_i hadd
    have hsub : ar = .sub := hop.resolve_left fun h => hadd (congrArg BinaryOp.arith h)
    subst hsub
    split
    · exact Delivers.reject _ _
    · rename_i hpq
      rw [Bool.not_eq_true, Bool.not_eq_false'] at hpq
      split
      · exact Delivers.reject _ _
      · refine Delivers.target ?_
        dsimp only
        generalize (Ty.pointer p qa oa).variability.join (Ty.pointer q qb ob).variability = v
        refine Delivers.bind (convertBoth_delivers (convert_value_delivers hl _ (.withVariability v (t := .pointer p qa oa) ha) rfl)
          (convert_value_delivers hr _ (.withVariability v (t := .pointer q qb ob) hb) rfl)) (fun lr hlr => ?_) rfl
        refine Delivers.some (binary_operand hlr.1.1 hlr.2.1 (Ty.sizeType_withVariability _ v).1 ?_ trivial)
        refine arith_coherent hlr.1.2 hlr.2.2 (Ty.arithmetic_pointers.mpr ⟨rfl, ?_, rfl, rfl⟩)
        exact (Ty.sameIgnoringConst_iff _ _).mp hpq

omit hl hr in
theorem shifted_pointer {t : Ty} (v : Variability) (ht : t.Legal) (hp : t.isPointer = true) :
    (t.withVariability v).asNonConst.Legal ∧ (t.withVariability v).asNonConst.isPointer = true ∧
      (t.withVariability v).asNonConst.isArray = false := by
  cases t with
  | pointer => exact ⟨ht, rfl, rfl⟩
  | _ => cases hp

theorem offsetLeft_delivers {ar : ArithOp} (hop : ar = .add ∨ ar = .sub) {a b : Ty} (ha : a.Legal)
    (hp : a.isPointer = true) : Delivers T (offsetPointer node (.arith ar) l r a b true) (Operand T) := by
  unfold offsetPointer
  simp only [if_true, Bool.not_true, Bool.false_eq_true, and_false, if_false]
  split
  · exact Delivers.reject _ _
  · split
    · exact Delivers.reject _ _
    · refine Delivers.target ?_
      obtain ⟨hsl, hsp, hsa, hsv⟩ := Ty.sizeType_withVariability T b.variability
      obtain ⟨hrl, hrp, hra⟩ := shifted_pointer (a.variability.join b.variability) ha hp
      refine Delivers.bind (convertBoth_delivers (convert_value_delivers hl _ hrl hra)
        (convert_value_delivers hr _ hsl hsa)) (fun lr hlr => ?_) rfl
      refine Delivers.some (binary_operand hlr.1.1 hlr.2.1 hrl ?_ trivial)
      exact arith_coherent hlr.1.2 hlr.2.2 ((Ty.arithmetic_left hrp hsp).mpr ⟨hop, rfl, by rw [hsv]⟩)

theorem offsetRight_delivers {ar : ArithOp} (hop : ar = .add ∨ ar = .sub) {a b : Ty} (hb : b.Legal)
    (hp : b.isPointer = true) : Delivers T (offsetPointer node (.arith ar) l r a b false) (Operand T) := by
  unfold offsetPointer
  simp only [Bool.false_eq_true, if_false, Bool.not_false, and_true]
  split
  · exact Delivers.reject _ _
  · rename_i hsub
    have hadd : ar = .add := hop.resolve_right fun h => hsub (congrArg BinaryOp.arith h)
    split
    · exact Delivers.reject _ _
    · split
      · exact Delivers.reject _ _
      · refine Delivers.target ?_
        obtain ⟨hsl, hsp, hsa, hsv⟩ := Ty.sizeType_withVariability T a.variability
        obtain ⟨hrl, hrp, hra⟩ := shifted_pointer (a.variability.join b.variability) hb hp
        refine Delivers.bind (convertBoth_delivers (convert_value_delivers hl _ hsl hsa)
          (convert_value_delivers hr _ hrl hra)) (fun lr hlr => ?_) rfl
        refine Delivers.some (binary_operand hlr.1.1 hlr.2.1 hrl ?_ trivial)
        exact arith_coherent hlr.1.2 hlr.2.2 ((Ty.arithmetic_right hsp hrp).mpr ⟨hadd, rfl, by rw [hsv]⟩)

theorem checkPointers_delivers {a b : Ty} (ha : l.type? = some a) (hb : r.type? = some b)
    (hp : (a.rvalue.isPointer || b.rvalue.isPointer || a.rvalue.isArray || b.rvalue.isArray) = true)
    (hop : BinaryOp.isComparison op = true ∨ ∃ ar, op = .arith ar) :
    Delivers T (checkPointers node op l r) (Operand T) := by
  have hla := hl.legal ha
  have hlb := hr.legal hb
  have hpp := decayed_points hp
  unfold checkPointers
  simp only [type_ok ha, type_ok hb, lift_ok, pure_bind]
  split
  · rename_i hcmp
    cases op with
    | compare c =>
      refine comparePointers_delivers hl hr node (decayed_legal hla) (decayed_legal hlb) ?_
      rw [Ty.rvalue_isPointer, Ty.rvalue_isPointer, Ty.stored_of_not_reference (decayed_isReference hla),
        Ty.stored_of_not_reference (decayed_isReference hlb)]
      exact hpp
    | _ => cases hcmp
  · rename_i hcmp
    obtain ⟨ar, rfl⟩ := hop.resolve_left hcmp
    split
    · exact Delivers.reject _ _
    · rename_i hn
      have har := adds_or_subtracts hn
      have hda := decayed_legal hla
      have hdb := decayed_legal hlb
      generalize decayed a = a' at *
      generalize decayed b = b' at *
      split
      · exact subtractPointers_delivers hl hr node har hda hdb
      · exact offsetLeft_delivers hl hr node har hda rfl
      · rename_i hnot _
        refine offsetRight_delivers hl hr node har hdb ?_
        cases a' with
        | pointer => exact absurd rfl (hnot _ _ _)
        | _ => exact hpp

/-! ## Values -/

theorem checkLogic_delivers {a b : Ty} (ha : l.type? = some a) (hb : r.type? = some b) (lo : LogicOp) :
    Delivers T (checkLogic node (.logic lo) l r) (Operand T) := by
  unfold checkLogic
  simp only [type_ok ha, type_ok hb, lift_ok, pure_bind]
  refine Delivers.both (convert_value_delivers hl _ (Ty.legal_basic _ _) rfl)
    (convert_value_delivers hr _ (Ty.legal_basic _ _) rfl) (fun l' r' hl' hr' => ?_) (fun _ => rfl) (fun _ => rfl)
  obtain ⟨u, hu, hcu⟩ := hasType_iff.mp hl'.2
  obtain ⟨w, hw, hcw⟩ := hasType_iff.mp hr'.2
  simp only [type_ok hu, type_ok hw, lift_ok, pure_bind, Ty.variability_eq hcu, Ty.variability_eq hcw]
  refine Delivers.some (binary_operand hl'.1 hr'.1 (Ty.legal_basic _ _) trivial ?_)
  exact ⟨_, _, rfl, hl'.2, hr'.2⟩

theorem checkValues_delivers {a b : Ty} (ha : a.Legal) (hb : b.Legal)
    (hop : BinaryOp.isComparison op = true ∨ ∃ ar, op = .arith ar) :
    Delivers T (checkValues node op l r a b) (Operand T) := by
  unfold checkValues
  refine Delivers.bind (checkOperands_delivers ha hb _ _) (fun o ho => ?_) rfl
  obtain ⟨⟨hlegal, hnp, hna⟩, hres⟩ := ho
  refine Delivers.bind (convertBoth_delivers (convert_value_delivers hl _ hlegal hna)
    (convert_value_delivers hr _ hlegal hna)) (fun lr hlr => Delivers.some ?_) rfl
  rw [hres]
  rcases hop with hcmp | ⟨ar, rfl⟩
  · cases op with
    | compare c =>
      exact binary_operand hlr.1.1 hlr.2.1 (Ty.legal_boolLike _) ⟨o.operandType, rfl, hlr.1.2, hlr.2.2⟩ trivial
    | _ => cases hcmp
  · refine binary_operand hlr.1.1 hlr.2.1 hlegal ?_ trivial
    exact arith_coherent hlr.1.2 hlr.2.2 ((Ty.arithmetic_values hnp hnp).mpr ⟨rfl, rfl⟩)

theorem checkBinary_delivers {a b : Ty} (ha : l.type? = some a) (hb : r.type? = some b) :
    Delivers T (checkBinary node op l r) (Operand T) := by
  have values : (BinaryOp.isComparison op = true ∨ ∃ ar, op = .arith ar) →
      Delivers T (if a.rvalue.isPointer || b.rvalue.isPointer || a.rvalue.isArray || b.rvalue.isArray then
        checkPointers node op l r else checkValues node op l r a.rvalue b.rvalue) (Operand T) := by
    intro hop
    split
    · rename_i hp
      exact checkPointers_delivers hl hr node op ha hb hp hop
    · exact checkValues_delivers hl hr node op (hl.legal ha).rvalue (hr.legal hb).rvalue hop
  unfold checkBinary
  simp only [type_ok ha, type_ok hb, lift_ok, pure_bind]
  cases op with
  | comma =>
    refine Delivers.some (binary_operand (hl.toChecked ha) (hr.toChecked hb) (hr.legal hb).rvalue trivial ?_)
    exact ⟨_, b, rfl, hb, Ty.core_rvalue b⟩
  | logic lo => exact checkLogic_delivers hl hr node ha hb lo
  | arith ar => exact values (.inr ⟨ar, rfl⟩)
  | compare c => exact values (.inl rfl)

end

end Check

end Spmd
