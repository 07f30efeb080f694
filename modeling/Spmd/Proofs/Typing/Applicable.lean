import Spmd.Proofs.Constant.Outcome
import Spmd.Proofs.Machine.Evaluation
import Spmd.Proofs.Retyping.Building
import Spmd.Proofs.Typing.Reports

/-!
# Operators apply to their operands

What the checker lets an operator take is a matter of types, what folding can do with it a matter of kinds. Every operator of a
checked tree applies to the kind of its operands, and no node of it was reported yet (`Check.check_suited`).
-/

namespace Spmd

/-- An operator applies to the kind that both operands have, and nothing about the node was reported. -/
def Expr.Suited : Expr → Prop
  | .unary _ op e => ∀ k, e.kind? = some k → op.appliesTo k = true
  | .binary _ op l r reported =>
    reported = false ∧ (op ≠ .comma → ∀ k, l.kind? = some k → r.kind? = some k → op.appliesTo k = true)
  | .cast _ _ _ reported => reported = false
  | _ => True

namespace Check

open Spmd.Expr

variable {T : Target} {e : Expr} {t : Ty} {k : Kind}

/-! ## Conversions -/

section
variable {source target : Ty} (h : Everywhere Suited e) (context : String)
include h

theorem ReadAs.suited {c : Expr} (hc : ReadAs e source target c) : Everywhere Suited c := by
  cases hc with
  | kept => exact h
  | cast => exact .one rfl rfl h

theorem convertValue_suited (hs : e.type? = some source) : Yields T (convertValue e target context) (Everywhere Suited) := by
  have hread : ∀ node : Node, Everywhere Suited (.dereference node e) := fun _ => .one trivial rfl h
  refine Yields.mono (convertValue_yields hs) fun c hc => ?_
  cases hc with
  | same => exact h
  | null => exact .leaf trivial rfl
  | binds _ bound =>
    cases bound with
    | kept => exact h
    | bound => exact .one trivial rfl h
  | dereferences => exact hread _
  | readsThrough _ _ read => exact read.suited (hread _)
  | reads _ _ _ read => exact read.suited h

end

theorem convertFunction_suited (f : FunctionName) (target : Ty) (context : String) :
    Yields T (convertFunction f target context) (Everywhere Suited) := by
  have hname : ∀ f : FunctionName, Everywhere Suited (.function f) := fun _ => .leaf trivial rfl
  have hpick : Yields T (pickOverload f target) fun _ => True :=
    Gives.mono ((pickOverload_once f target).gives T) fun _ _ _ _ => trivial
  refine Yields.mono (convertFunction_yields hpick) fun c hc => ?_
  cases hc with
  | kept => exact hname _
  | cast => exact .one rfl rfl (hname _)

theorem convert_suited (h : Grown T Suited e) (target : Ty) (context : String) :
    Yields T (convert e target context) (Everywhere Suited) :=
  convert_grows (fun _ hs _ h _ => convertValue_suited h context hs) (fun _ target => convertFunction_suited _ target context)
    (fun _ _ => trivial) h.1 h.2 target

/-! ## Operators -/

theorem validOperand_applies {op : ArithOp} (h : validOperand (.arith op) t = true) (hk : t.kind? = some k) :
    op.appliesTo k = true := by
  cases t with
  | scalar s =>
    cases hk
    have hkind : ∀ k : Kind, validOperand (.arith op) (.basic k) = true → op.appliesTo k = true := by
      intro k
      cases op <;> cases k <;> decide
    exact hkind s.element.kind h
  | _ => cases hk

theorem boolLike_kind (h : t.boolLike.kind? = some k) : k = .bool := by
  cases t with
  | vector => cases h
  | _ => exact (Option.some.inj h).symm

theorem checkUnary_suited (node : Node) (op : ValueOp) (he : Operand T e) : Yields T (checkUnary node op e) Suited := by
  unfold checkUnary
  refine Gives.lift fun t ht => ?_
  have hread : ∀ {k}, e.kind? = some k → t.rvalue.kind? = some k := by
    intro k hk
    obtain ⟨s, hs, rfl⟩ := type_of_kind hk
    cases (type?_of_ok ht).symm.trans hs
    rfl
  cases op with
  | neg =>
    dsimp only
    split
    · rename_i hn
      exact Yields.some fun k hk => validOperand_applies (show validOperand (.arith .sub) t.rvalue = true from hn) (hread hk)
    · exact Yields.reject _ _
  | complement =>
    dsimp only
    split
    · rename_i hn
      exact Yields.some fun k hk => validOperand_applies (show validOperand (.arith .mod) t.rvalue = true from hn) (hread hk)
    · exact Yields.reject _ _
  | not =>
    have hconvert := convert_value_delivers he "logical not" (Ty.legal_boolLike t.rvalue) (Ty.boolLike_flat _).2
    refine Yields.bind hconvert.yields (fun c hc => Gives.lift fun _ _ => Yields.some fun k hk => ?_) Yields.none
    rw [hc.2.kind_eq] at hk
    rw [boolLike_kind hk]
    rfl

section
variable {l r : Expr} (hl : Operand T l) (hr : Operand T r) (node : Node)
include hl hr

/-- The operands of a node that is built are of the kinds of the types they were brought to. -/
theorem binaryOf_suited {op : BinaryOp} {a b : Ty} (context : String) (ha : a.Legal) (hb : b.Legal) (hna : a.isArray = false)
    (hnb : b.isArray = false) (h : ∀ k, a.kind? = some k → b.kind? = some k → op.appliesTo k = true) :
    Yields T (do return binaryOf node op t (← convertBoth l a r b context)) Suited := by
  have hboth := convertBoth_delivers (convert_value_delivers hl context ha hna) (convert_value_delivers hr context hb hnb)
  refine Yields.bind hboth.yields (fun p hp => Yields.some ⟨rfl, fun _ k hk hk' => ?_⟩) Yields.none
  rw [hp.1.2.kind_eq] at hk
  rw [hp.2.2.kind_eq] at hk'
  exact h k hk hk'

theorem checkLogic_suited (op : LogicOp) {a b : Ty} (ha : l.type? = some a) (hb : r.type? = some b) :
    Yields T (checkLogic node (.logic op) l r) Suited := by
  unfold checkLogic
  simp only [type_ok ha, type_ok hb, lift_ok, pure_bind]
  refine Yields.both (convert_value_delivers hl _ (Ty.legal_basic _ _) rfl).yields
    (convert_value_delivers hr _ (Ty.legal_basic _ _) rfl).yields (fun c d hc _ => ?_) (fun _ => Yields.none) fun _ => Yields.none
  refine Gives.lift fun _ _ => Gives.lift fun _ _ => Yields.some ⟨rfl, fun _ k hk _ => ?_⟩
  rw [hc.2.kind_eq] at hk
  cases hk
  rfl

omit hl hr in
theorem kind_pointer (h : t.isPointer = true) : t.kind? = none := by
  cases t with
  | pointer => rfl
  | _ => cases h

theorem offsetPointer_suited (op : BinaryOp) {a b : Ty} {left : Bool} (hp : (if left then a else b).isPointer = true)
    (ha : a.Legal) (hb : b.Legal) : Yields T (offsetPointer node op l r a b left) Suited := by
  have size := Ty.sizeType_withVariability T
  unfold offsetPointer
  extract_lets pointer offset
  split
  · exact Yields.reject _ _
  split
  · exact Yields.reject _ _
  split
  · exact Yields.reject _ _
  refine Yields.target ?_
  obtain ⟨hsize, -, hns, -⟩ := size offset.variability
  cases left with
  | true =>
    obtain ⟨hlegal, hpointer, hna⟩ := shifted_pointer (a.variability.join b.variability) ha hp
    exact binaryOf_suited hl hr node _ hlegal hsize hna hns fun _ hk _ =>
      nomatch (kind_pointer hpointer).symm.trans hk
  | false =>
    obtain ⟨hlegal, hpointer, hna⟩ := shifted_pointer (a.variability.join b.variability) hb hp
    exact binaryOf_suited hl hr node _ hsize hlegal hns hna fun _ _ hk =>
      nomatch (kind_pointer hpointer).symm.trans hk

theorem comparePointers_suited (op : CompareOp) {a b : Ty} (ha : a.Legal) (hb : b.Legal)
    (hp : (a.rvalue.isPointer || b.rvalue.isPointer) = true) : Yields T (comparePointers node (.compare op) l r a b) Suited := by
  unfold comparePointers
  refine Yields.bind (commonType_delivers _ _ _ _).yields (fun t ht => ?_) Yields.none
  have hna : t.isArray = false := by
    have htp : t.isPointer = true := (Ty.common_isPointer ht).trans hp
    cases t with
    | pointer => rfl
    | _ => cases htp
  have hlegal := Ty.legal_common ha hb ht
  exact binaryOf_suited hl hr node _ hlegal hlegal hna hna fun _ _ _ => rfl

theorem subtractPointers_suited (op : BinaryOp) {p q : Ty} {qa qb : Qualifiers} {oa ob : Origin} (hp : p.Legal) (hq : q.Legal) :
    Yields T (subtractPointers node op l r (.pointer p qa oa) (.pointer q qb ob) p q) Suited := by
  unfold subtractPointers
  split
  · exact Yields.reject _ _
  split
  · exact Yields.reject _ _
  split
  · exact Yields.reject _ _
  refine Yields.target (binaryOf_suited hl hr node _ ?_ ?_ rfl rfl fun _ hk _ => by cases hk)
  · exact .withVariability _ (t := .pointer p qa oa) hp
  · exact .withVariability _ (t := .pointer q qb ob) hq

theorem checkPointers_suited (op : BinaryOp) {a b : Ty} (ha : l.type? = some a) (hb : r.type? = some b)
    (hp : (a.rvalue.isPointer || b.rvalue.isPointer || a.rvalue.isArray || b.rvalue.isArray) = true) :
    Yields T (checkPointers node op l r) Suited := by
  have hla := decayed_legal (hl.legal ha)
  have hlb := decayed_legal (hr.legal hb)
  have hpointer := decayed_points hp
  unfold checkPointers
  simp only [type_ok ha, type_ok hb, lift_ok, pure_bind]
  split
  · rename_i hcmp
    cases op with
    | compare op =>
      refine comparePointers_suited hl hr node op hla hlb ?_
      rw [Ty.rvalue_isPointer, Ty.rvalue_isPointer, Ty.stored_of_not_reference (decayed_isReference (hl.legal ha)),
        Ty.stored_of_not_reference (decayed_isReference (hr.legal hb))]
      exact hpointer
    | _ => cases hcmp
  split
  · exact Yields.reject _ _
  generalize decayed a = a' at *
  generalize decayed b = b' at *
  split
  · exact subtractPointers_suited hl hr node op hla hlb
  · exact offsetPointer_suited hl hr node op rfl hla hlb
  · rename_i hnot _
    refine offsetPointer_suited hl hr node op ?_ hla hlb
    cases a' with
    | pointer => exact absurd rfl (hnot _ _ _)
    | _ => exact hpointer

theorem checkValues_suited {op : BinaryOp} (hop : BinaryOp.isComparison op = true ∨ ∃ ar, op = .arith ar) {a b : Ty}
    (ha : a.Legal) (hb : b.Legal) : Yields T (checkValues node op l r a b) Suited := by
  unfold checkValues
  refine Yields.bind (Yields.and (checkOperands_delivers ha hb _ _).yields (checkOperands_takes _ _ _ _)) (fun o ho => ?_) Yields.none
  obtain ⟨⟨⟨hlegal, -, hna⟩, -⟩, hva, hvb, hcommon, -⟩ := ho
  have hvalid := validOperand_common hva hvb hcommon
  refine binaryOf_suited hl hr node _ hlegal hlegal hna hna fun k hk _ => ?_
  cases op with
  | arith op => exact validOperand_applies hvalid hk
  | compare => rfl
  | _ => simp [BinaryOp.isComparison] at hop

theorem checkBinary_suited (op : BinaryOp) {a b : Ty} (ha : l.type? = some a) (hb : r.type? = some b) :
    Yields T (checkBinary node op l r) Suited := by
  have values : (BinaryOp.isComparison op = true ∨ ∃ ar, op = .arith ar) → Yields T (checkBinary node op l r) Suited := by
    intro hop
    rw [checkBinary_generic node l r hop]
    simp only [type_ok ha, type_ok hb, lift_ok, pure_bind]
    split
    · rename_i hp
      exact checkPointers_suited hl hr node op ha hb hp
    · exact checkValues_suited hl hr node hop (hl.legal ha).rvalue (hr.legal hb).rvalue
  cases op with
  | comma => exact Gives.lift fun _ _ => Yields.some ⟨rfl, fun hn => (hn rfl).elim⟩
  | logic op => exact checkLogic_suited hl hr node op ha hb
  | arith op => exact values (.inr ⟨op, rfl⟩)
  | compare => exact values (.inl rfl)

end

theorem checkCast_suited (node : Node) (target : Ty) (he : Grown T Suited e) : Yields T (checkCast node target e) Suited := by
  unfold checkCast
  dsimp only
  split
  · exact Yields.mono (convert_suited he target _) fun _ h => h.here
  · refine Gives.lift fun source _ => ?_
    split
    · exact Yields.some rfl
    · exact canConvert_yields (fun _ => Yields.some rfl) Yields.none

/-! ## Trees -/

theorem suited_conserved : Conserved T Suited where
  convert h target context := convert_suited h target context
  name _ := trivial
  plain _ hn := by
    rename_i e _
    cases e with
    | unary | binary | cast => cases hn
    | _ => trivial
  unary node op h := checkUnary_suited node op h.1.1.operand
  binary node op hl hr := by
    obtain ⟨⟨hl, -⟩, a, ha⟩ := hl
    obtain ⟨⟨hr, -⟩, b, hb⟩ := hr
    exact checkBinary_suited hl.operand hr.operand node op ha hb
  cast node target _ h := checkCast_suited node target h

/-- At every node of what checking a tree gives, an operator applies to the kind that its operands have, and nothing was
reported. -/
theorem check_suited {e : Expr} (h : Everywhere (Loaded T) e) : Yields T (check e) (Everywhere Suited) :=
  Yields.mono (suited_conserved.steps.check h) fun _ h => h.2

end Check

end Spmd
