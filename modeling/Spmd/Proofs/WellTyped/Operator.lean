import Spmd.Proofs.Ty.Common
import Spmd.Proofs.Typing.Assignment
import Spmd.Proofs.WellTyped.Conversion

/-!
# Operators build well-typed nodes

The operands of an operator are values, never references, and its result is varying as soon as one of them is.
-/

namespace Spmd

/-! ## Values -/

namespace Ty

theorem Legal.stored_isReference {t : Ty} (h : t.Legal) : t.stored.isReference = false := by
  cases t with
  | reference => exact h.1
  | _ => rfl

theorem isVarying_rvalue (t : Ty) : t.rvalue.isVarying = t.isVarying :=
  (isVarying_eq ((core_rvalue t).trans rfl)).trans (isVarying_stored t)

theorem boolLike_isVarying {t : Ty} (h : t.isReference = false) : t.boolLike.isVarying = t.isVarying := by
  cases t with
  | reference => cases h
  | _ => rfl

theorem sizeType_isVarying (T : Target) (v : Variability) :
    (T.sizeType.withVariability v).isReference = false ∧ (T.sizeType.withVariability v).isVarying = (v == .varying) := by
  obtain ⟨s, hs⟩ := sizeType_scalar T
  rw [hs]
  exact ⟨rfl, rfl⟩

end Ty

namespace Check

open Spmd.Expr

variable {T : Target}

/-- A well-typed tree of a type. -/
def Typed (t : Ty) (e : Expr) : Prop := Everywhere WellTyped e ∧ e.HasType t

section
variable {e : Expr} (he : Operand T e) (hw : Everywhere WellTyped e) (context : String) {target : Ty} (ht : target.Legal)
include he hw ht

theorem convert_typed (hn : target.isArray = false) : Yields T (convert e target context) (Typed target) :=
  Yields.mono (Yields.and (convert_wellTyped he hw context ht) (convert_value_delivers he context ht hn).yields)
    fun _ h => ⟨h.1, h.2.2⟩

theorem convert_common_typed {u : Ty} (hu : e.type? = some u) (harr : target.isArray = true → u.rvalue.isArray = true) :
    Yields T (convert e target context) (Typed target) :=
  Yields.mono (Yields.and (convert_wellTyped he hw context ht) (convert_common_delivers he hu ht harr context).yields)
    fun _ h => ⟨h.1, h.2.2⟩

end

theorem convertBoth_yields {l r : Expr} {a b : Ty} {context : String} {P Q : Expr → Prop}
    (hl : Yields T (convert l a context) P) (hr : Yields T (convert r b context) Q) :
    Yields T (convertBoth l a r b context) fun p => P p.1 ∧ Q p.2 :=
  Yields.both hl hr (fun _ _ hb hc => Yields.some ⟨hb, hc⟩) (fun _ => Yields.none) (fun _ => Yields.none)

/-! ## Unary operators -/

section
variable {e : Expr} (he : Operand T e) (hw : Everywhere WellTyped e) {t : Ty} (hs : e.type? = some t) (node : Node)
include he hw hs

theorem checkUnary_wellTyped (op : ValueOp) : Yields T (checkUnary node op e) (Everywhere WellTyped) := by
  unfold checkUnary
  simp only [type_ok hs, lift_ok, pure_bind]
  cases op with
  | neg =>
    dsimp only
    split
    · exact Yields.some (.one ⟨t, hs, rfl, nofun⟩ rfl hw)
    · exact Yields.reject _ _
  | complement =>
    dsimp only
    split
    · exact Yields.some (.one ⟨t, hs, rfl, nofun⟩ rfl hw)
    · exact Yields.reject _ _
  | not =>
    have hflat := Ty.boolLike_flat t.rvalue
    refine Yields.bind (convert_typed he hw _ (Ty.legal_boolLike _) hflat.2) (fun e' ⟨hw', ht'⟩ => ?_) Yields.none
    obtain ⟨u, hu, hcore⟩ := hasType_iff.mp ht'
    have hr : u.isReference = false := (Ty.isReference_eq hcore).trans hflat.1
    simp only [type_ok hu, lift_ok, pure_bind]
    refine Yields.some (.one ⟨u, hu, ?_, fun _ => (Expr.isReference_eq hu).trans hr⟩ rfl hw')
    cases u with
    | reference => cases hr
    | _ => rfl

omit he in
theorem checkStep_wellTyped (s : Step) : Yields T (checkStep node s e) (Everywhere WellTyped) := by
  unfold checkStep
  simp only [type_ok hs, lift_ok, pure_bind]
  refine Gives.lift fun storage hstorage => ?_
  split
  · exact Yields.reject _ _
  · rename_i hnot
    have htrue : storage = true := by simpa using hnot
    subst htrue
    split
    · exact Yields.reject _ _
    · refine Yields.bind (stepAmount_delivers node s _).yields (fun amount hone => Yields.some ?_) Yields.none
      refine .one ⟨⟨t, hs, rfl⟩, ⟨amount, rfl, hone.1⟩, hstorage, fun u one hu hp hsome => ?_⟩ rfl hw
      cases hu
      cases hsome
      exact hone.2 hp

end

/-! ## Binary operators -/

theorem binary_wellTyped {place : Option Location} {op : BinaryOp} {l r : Expr} {a b t : Ty} (hl : Typed a l)
    (hr : Typed b r) (hop : op ≠ .comma) (ha : a.isReference = false) (hb : b.isReference = false)
    (hv : (a.isVarying || b.isVarying) = true → t.isVarying = true) :
    Everywhere WellTyped (.binary (.typed place t) op l r false) := by
  have hrule : l.isReference = false ∧ r.isReference = false ∧
      ∃ u, some t = some u ∧ ((l.isVarying || r.isVarying) = true → u.isVarying = true) := by
    refine ⟨hl.2.isReference_eq.trans ha, hr.2.isReference_eq.trans hb, t, rfl, ?_⟩
    rw [hl.2.isVarying_eq, hr.2.isVarying_eq]
    exact hv
  refine .two ?_ rfl hl.1 hr.1
  cases op with
  | comma => exact absurd rfl hop
  | _ => exact hrule

theorem checkOperands_yields {a b : Ty} (ha : a.Legal) (hb : b.Legal) (place : Option Location) (op : BinaryOp) :
    Yields T (checkOperands place op a b) fun o => OperandType o.operandType ∧
      (o.resultType = if BinaryOp.isComparison op then o.operandType.boolLike else o.operandType) ∧
        o.operandType.isReference = false := by
  have hvalue : Yields T (checkOperands place op a b) fun o => o.operandType.isReference = false := by
    unfold checkOperands
    dsimp only
    split
    · exact Yields.reject _ _
    · split
      · exact Yields.reject _ _
      · refine Yields.bind (commonType_delivers _ _ _ _).yields (fun t ht => Yields.some ?_) Yields.none
        exact Ty.common_isReference (Ty.rvalue_isReference ha.rvalue) ht
  refine Yields.mono (Yields.and (checkOperands_delivers ha hb place op).yields hvalue) fun o ho => ?_
  exact ⟨ho.1.1, ho.1.2, ho.2⟩

section
variable {l r : Expr} (hl : Operand T l) (hr : Operand T r) (hwl : Everywhere WellTyped l) (hwr : Everywhere WellTyped r)
  (node : Node) (op : BinaryOp)
include hl hr hwl hwr

/-- Both operands are converted to types of values, and the result is varying as soon as one of these types is. -/
theorem converted_wellTyped {a b t : Ty} (hop : op ≠ .comma) (ha : a.Legal) (hb : b.Legal) (haa : a.isArray = false)
    (hba : b.isArray = false) (har : a.isReference = false) (hbr : b.isReference = false)
    (hv : (a.isVarying || b.isVarying) = true → t.isVarying = true) (context : String) :
    Yields T (do return binaryOf node op t (← convertBoth l a r b context)) (Everywhere WellTyped) := by
  refine Yields.bind (convertBoth_yields (convert_typed hl hwl context ha haa) (convert_typed hr hwr context hb hba))
    (fun p hp => ?_) Yields.none
  exact Yields.some (binary_wellTyped hp.1 hp.2 hop har hbr hv)

theorem comparePointers_wellTyped {a b : Ty} (hop : op ≠ .comma) (ha : a.Legal) (hb : b.Legal)
    (hp : (a.rvalue.isPointer || b.rvalue.isPointer) = true) :
    Yields T (comparePointers node op l r a b) (Everywhere WellTyped) := by
  unfold comparePointers
  refine Yields.bind (commonType_delivers _ _ _ _).yields (fun t ht => ?_) Yields.none
  have htp : t.isPointer = true := (Ty.common_isPointer ht).trans hp
  have hta : t.isArray = false := by
    cases t with
    | pointer => rfl
    | _ => cases htp
  have htr := Ty.isReference_of_pointer htp
  have hlegal := Ty.legal_common ha hb ht
  refine converted_wellTyped hl hr hwl hwr node op hop hlegal hlegal hta hta htr htr ?_ _
  rw [Bool.or_self]
  exact id

theorem subtractPointers_wellTyped {p q : Ty} {qa qb : Qualifiers} {oa ob : Origin} (hop : op ≠ .comma)
    (ha : p.Legal) (hb : q.Legal) :
    Yields T (subtractPointers node op l r (.pointer p qa oa) (.pointer q qb ob) p q) (Everywhere WellTyped) := by
  unfold subtractPointers
  split
  · exact Yields.reject _ _
  · split
    · exact Yields.reject _ _
    · split
      · exact Yields.reject _ _
      · refine Yields.target ?_
        dsimp only
        generalize (Ty.pointer p qa oa).variability.join (Ty.pointer q qb ob).variability = v
        refine converted_wellTyped hl hr hwl hwr node op hop (.withVariability v (t := .pointer p qa oa) ha)
          (.withVariability v (t := .pointer q qb ob) hb) rfl rfl rfl rfl (fun hv => ?_) _
        rw [(Ty.sizeType_isVarying T v).2]
        exact (Bool.or_self _).symm.trans hv

omit hl hr hwl hwr in
theorem isVarying_shifted {t : Ty} (v : Variability) (hp : t.isPointer = true) :
    (t.withVariability v).asNonConst.isVarying = (v == .varying) := by
  cases t with
  | pointer => rfl
  | _ => cases hp

theorem offsetLeft_wellTyped {a b : Ty} (hop : op ≠ .comma) (ha : a.Legal) (hp : a.isPointer = true) :
    Yields T (offsetPointer node op l r a b true) (Everywhere WellTyped) := by
  unfold offsetPointer
  simp only [if_true, Bool.not_true, Bool.false_eq_true, and_false, if_false]
  split
  · exact Yields.reject _ _
  · split
    · exact Yields.reject _ _
    · refine Yields.target ?_
      obtain ⟨hsl, -, hsa, -⟩ := Ty.sizeType_withVariability T b.variability
      obtain ⟨hsr, hsv⟩ := Ty.sizeType_isVarying T b.variability
      obtain ⟨hrl, hrp, hra⟩ := shifted_pointer (a.variability.join b.variability) ha hp
      refine converted_wellTyped hl hr hwl hwr node op hop hrl hsl hra hsa (Ty.isReference_of_pointer hrp) hsr ?_ _
      rw [hsv, isVarying_shifted _ hp]
      cases a.variability <;> cases b.variability <;> exact id

theorem offsetRight_wellTyped {a b : Ty} (hop : op ≠ .comma) (hb : b.Legal) (hp : b.isPointer = true) :
    Yields T (offsetPointer node op l r a b false) (Everywhere WellTyped) := by
  unfold offsetPointer
  simp only [Bool.false_eq_true, if_false, Bool.not_false, and_true]
  split
  · exact Yields.reject _ _
  · split
    · exact Yields.reject _ _
    · split
      · exact Yields.reject _ _
      · refine Yields.target ?_
        obtain ⟨hsl, -, hsa, -⟩ := Ty.sizeType_withVariability T a.variability
        obtain ⟨hsr, hsv⟩ := Ty.sizeType_isVarying T a.variability
        obtain ⟨hrl, hrp, hra⟩ := shifted_pointer (a.variability.join b.variability) hb hp
        refine converted_wellTyped hl hr hwl hwr node op hop hsl hrl hsa hra hsr (Ty.isReference_of_pointer hrp) ?_ _
        rw [hsv, isVarying_shifted _ hp]
        cases a.variability <;> cases b.variability <;> exact id

theorem checkPointers_wellTyped {a b : Ty} (ha : l.type? = some a) (hb : r.type? = some b)
    (hp : (a.rvalue.isPointer || b.rvalue.isPointer || a.rvalue.isArray || b.rvalue.isArray) = true) (hop : op ≠ .comma) :
    Yields T (checkPointers node op l r) (Everywhere WellTyped) := by
  have hda := decayed_legal (hl.legal ha)
  have hdb := decayed_legal (hr.legal hb)
  have hpp := decayed_points hp
  have hsa := Ty.stored_of_not_reference (decayed_isReference (hl.legal ha))
  have hsb := Ty.stored_of_not_reference (decayed_isReference (hr.legal hb))
  unfold checkPointers
  simp only [type_ok ha, type_ok hb, lift_ok, pure_bind]
  generalize decayed a = a' at *
  generalize decayed b = b' at *
  split
  · refine comparePointers_wellTyped hl hr hwl hwr node op hop hda hdb ?_
    rw [Ty.rvalue_isPointer, Ty.rvalue_isPointer, hsa, hsb]
    exact hpp
  · split
    · exact Yields.reject _ _
    · split
      · exact subtractPointers_wellTyped hl hr hwl hwr node op hop hda hdb
      · exact offsetLeft_wellTyped hl hr hwl hwr node op hop hda rfl
      · rename_i hnot _
        refine offsetRight_wellTyped hl hr hwl hwr node op hop hdb ?_
        cases a' with
        | pointer => exact absurd rfl (hnot _ _ _)
        | _ => exact hpp

theorem checkLogic_wellTyped {a b : Ty} (ha : l.type? = some a) (hb : r.type? = some b) (hop : op ≠ .comma) :
    Yields T (checkLogic node op l r) (Everywhere WellTyped) := by
  unfold checkLogic
  simp only [type_ok ha, type_ok hb, lift_ok, pure_bind]
  refine Yields.both (convert_typed hl hwl _ (Ty.legal_basic _ _) rfl) (convert_typed hr hwr _ (Ty.legal_basic _ _) rfl)
    (fun l' r' hl' hr' => ?_) (fun _ => Yields.none) (fun _ => Yields.none)
  obtain ⟨u, hu, hcu⟩ := hasType_iff.mp hl'.2
  obtain ⟨w, hw, hcw⟩ := hasType_iff.mp hr'.2
  simp only [type_ok hu, type_ok hw, lift_ok, pure_bind, Ty.variability_eq hcu, Ty.variability_eq hcw]
  refine Yields.some (binary_wellTyped hl' hr' hop rfl rfl ?_)
  unfold truthType
  cases a.stored.variability <;> cases b.stored.variability <;> exact id

theorem checkValues_wellTyped {a b : Ty} (ha : a.Legal) (hb : b.Legal) (hop : op ≠ .comma) :
    Yields T (checkValues node op l r a b) (Everywhere WellTyped) := by
  unfold checkValues
  refine Yields.bind (checkOperands_yields ha hb _ _) (fun o ho => ?_) Yields.none
  obtain ⟨⟨hlegal, -, hna⟩, hres, hnr⟩ := ho
  refine converted_wellTyped hl hr hwl hwr node op hop hlegal hlegal hna hna hnr hnr ?_ _
  rw [Bool.or_self, hres]
  split
  · rw [Ty.boolLike_isVarying hnr]
    exact id
  · exact id

theorem checkBinary_wellTyped {a b : Ty} (ha : l.type? = some a) (hb : r.type? = some b) :
    Yields T (checkBinary node op l r) (Everywhere WellTyped) := by
  have values : op ≠ .comma →
      Yields T (if a.rvalue.isPointer || b.rvalue.isPointer || a.rvalue.isArray || b.rvalue.isArray then
        checkPointers node op l r else checkValues node op l r a.rvalue b.rvalue) (Everywhere WellTyped) := by
    intro hop
    split
    · rename_i hp
      exact checkPointers_wellTyped hl hr hwl hwr node op ha hb hp hop
    · exact checkValues_wellTyped hl hr hwl hwr node op (hl.legal ha).rvalue (hr.legal hb).rvalue hop
  unfold checkBinary
  simp only [type_ok ha, type_ok hb, lift_ok, pure_bind]
  cases op with
  | comma => exact Yields.some (.two ⟨b, hb, rfl⟩ rfl hwl hwr)
  | logic lo => exact checkLogic_wellTyped hl hr hwl hwr node _ ha hb nofun
  | arith ar => exact values nofun
  | compare c => exact values nofun

end

/-! ## Assignments -/

section
variable {target value : Expr} (node : Node) {t : Ty} (ht : target.type? = some t) (hl : t.Legal) (hv : Operand T value)
  (hstorage : target.isStorage = .ok true) (hwt : Everywhere WellTyped target) (hwv : Everywhere WellTyped value)
include ht hwt hstorage

theorem assign_wellTyped {op : AssignOp} {operandType : Option Ty} {u : Ty} {v : Expr} (hv : Typed u v)
    (hu : u.isReference = false) : Everywhere WellTyped (.assign (.typed node.place t.stored) op target v operandType) :=
  .two ⟨⟨t, ht, rfl⟩, hstorage, hv.2.isReference_eq.trans hu⟩ rfl hwt hv.1

include hv hwv

theorem assignPointer_wellTyped (op : ArithOp) {u : Ty} (hu : value.type? = some u) :
    Yields T (assignPointer node op target value t.stored) (Everywhere WellTyped) := by
  unfold assignPointer
  simp only [type_ok hu, lift_ok, pure_bind]
  split
  · exact Yields.reject _ _
  · split
    · exact Yields.reject _ _
    · split
      · exact Yields.reject _ _
      · refine Yields.target ?_
        obtain ⟨hsl, -, hsa, -⟩ := Ty.sizeType_withVariability T t.stored.variability
        refine Yields.bind (convert_typed hv hwv _ hsl hsa) (fun v hv' => Yields.some ?_) Yields.none
        exact assign_wellTyped node ht hstorage hwt hv' (Ty.sizeType_isVarying T _).1

include hl

theorem assignCompound_wellTyped (op : ArithOp) {u : Ty} (hu : value.type? = some u) :
    Yields T (assignCompound node op target value t.stored) (Everywhere WellTyped) := by
  unfold assignCompound
  simp only [type_ok hu, lift_ok, pure_bind]
  refine Yields.bind (checkOperands_yields hl.stored (hv.legal hu) _ _) (fun o ho => ?_) Yields.none
  obtain ⟨⟨hlegal, -, hna⟩, -, hnr⟩ := ho
  refine ifConverts_yields fun _ => ?_
  refine Yields.bind (convert_typed hv hwv _ hlegal hna) (fun v hv' => Yields.some ?_) Yields.none
  exact assign_wellTyped node ht hstorage hwt hv' hnr

omit hstorage in
theorem checkAssign_wellTyped (op : AssignOp) (hu : op ≠ .plain → ∃ u, value.type? = some u) :
    Yields T (checkAssign node op target value) (Everywhere WellTyped) := by
  unfold checkAssign
  simp only [type_ok ht, lift_ok, pure_bind]
  refine Gives.lift fun storage hstorage => ?_
  split
  · exact Yields.reject _ _
  · rename_i hnot
    have htrue : storage = true := by simpa using hnot
    subst htrue
    split
    · exact Yields.reject _ _
    · split
      · exact Yields.reject _ _
      · rename_i hn
        cases op with
        | plain =>
          have hna : t.stored.isArray = false := (Bool.or_eq_false_iff.mp (Bool.not_eq_true _ ▸ hn)).1
          refine Yields.bind (convert_typed hv hwv _ hl.stored hna) (fun v hv' => Yields.some ?_) Yields.none
          exact assign_wellTyped node ht hstorage hwt hv' hl.stored_isReference
        | compound op =>
          obtain ⟨u, hu⟩ := hu nofun
          dsimp only
          split
          · exact assignPointer_wellTyped node ht hv hstorage hwt hwv op hu
          · exact assignCompound_wellTyped node ht hl hv hstorage hwt hwv op hu

end

/-! ## Selections -/

theorem checkSelect_wellTyped {test a b : Expr} {w u v : Ty} (node : Node) (ht : Operand T test)
    (hw : test.type? = some w) (ha : Operand T a) (hu : a.type? = some u) (hb : Operand T b) (hv : b.type? = some v)
    (hwt : Everywhere WellTyped test) (hwa : Everywhere WellTyped a) (hwb : Everywhere WellTyped b) :
    Yields T (checkSelect node test a b) (Everywhere WellTyped) := by
  unfold checkSelect
  simp only [type_ok hw, type_ok hu, type_ok hv, lift_ok, pure_bind]
  refine Yields.bind (convert_typed ht hwt _ (Ty.legal_basic _ _) rfl) (fun test' ht' => ?_) Yields.none
  refine Yields.bind (commonType_delivers _ _ _ _).yields (fun t hc => ?_) Yields.none
  have hlegal := Ty.legal_common (ha.legal hu) (hb.legal hv) hc
  have hnr := Ty.common_isReference (Ty.rvalue_isReference (ha.legal hu)) hc
  have hvar : test'.isVarying = w.stored.isVarying := ht'.2.isVarying_eq
  dsimp only
  generalize htype : (if w.stored.isVarying = true then t.asVarying else t) = type
  have htl : type.Legal := by
    rw [← htype]
    split
    · exact hlegal.withVariability _
    · exact hlegal
  have htr : type.isReference = false := by
    rw [← htype]
    split
    · exact (Ty.isReference_withVariability _ t).trans hnr
    · exact hnr
  have harr : type.isArray = true → u.rvalue.isArray = true ∧ v.rvalue.isArray = true := by
    rw [← htype, Ty.isArray_spread]
    exact Ty.common_isArray hc
  refine Yields.bind (convertBoth_yields (convert_common_typed ha hwa _ htl hu fun h => (harr h).1)
    (convert_common_typed hb hwb _ htl hv fun h => (harr h).2)) (fun p hp => Yields.some ?_) Yields.none
  have hrule : (Expr.select (.typed node.place type) test' p.1 p.2).WellTyped := by
    refine ⟨ht'.2.isReference_eq, hp.1.2.isReference_eq.trans htr, hp.2.2.isReference_eq.trans htr, type, rfl, fun h => ?_⟩
    rw [hvar] at h
    exact ⟨t, by rw [← htype, if_pos h]⟩
  refine .node hrule fun c hm => ?_
  simp only [children, List.mem_cons, List.not_mem_nil, or_false] at hm
  rcases hm with rfl | rfl | rfl
  · exact ht'.1
  · exact hp.1.1
  · exact hp.2.1

end Check

end Spmd
