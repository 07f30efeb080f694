import Spmd.Proofs.Typing.Operator

/-!
# The contracts of checking assignments and selections

The value of an assignment gets the type that is stored, or what the operator of the assignment asks for. Both branches
of a selection get its type.
-/

namespace Spmd.Check

open Spmd.Expr

variable {T : Target}

/-! ## Assignments -/

section
variable {target value : Expr} (node : Node) (hc : Checked T target) {t : Ty} (ht : target.type? = some t)
  (hv : Operand T value)
include hc ht

theorem assign_operand {op : AssignOp} {operandType : Option Ty} {v : Expr} (hv : Checked T v)
    (h : (Expr.assign (.typed node.place t.stored) op target v operandType).Coherent T) :
    Operand T (.assign (.typed node.place t.stored) op target v operandType) := by
  refine .checked (.node ⟨⟨t.stored, rfl, (hc.legal ht).stored⟩, h, trivial⟩ fun c hm => ?_) rfl
  rcases List.mem_pair.mp hm with rfl | rfl
  · exact hc
  · exact hv

include hv

theorem assignPointer_delivers (op : ArithOp) {u : Ty} (hu : value.type? = some u) (hp : t.stored.isPointer = true) :
    Delivers T (assignPointer node op target value t.stored) (Operand T) := by
  unfold assignPointer
  simp only [type_ok hu, lift_ok, pure_bind]
  split
  · exact Delivers.reject _ _
  · split
    · exact Delivers.reject _ _
    · split
      · exact Delivers.reject _ _
      · refine Delivers.target ?_
        obtain ⟨hsl, -, hsa, -⟩ := Ty.sizeType_withVariability T t.stored.variability
        refine Delivers.bind (convert_value_delivers hv _ hsl hsa) (fun v hv' => Delivers.some ?_) rfl
        refine assign_operand node hc ht hv'.1 ⟨t, t.stored, ht, rfl, ?_⟩
        rw [if_pos hp]
        exact hv'.2

theorem assignCompound_delivers (op : ArithOp) {u : Ty} (hu : value.type? = some u)
    (hp : t.stored.isPointer = false) : Delivers T (assignCompound node op target value t.stored) (Operand T) := by
  unfold assignCompound
  simp only [type_ok hu, lift_ok, pure_bind]
  refine Delivers.bind (checkOperands_delivers (hc.legal ht).stored (hv.legal hu) _ _) (fun o ho => ?_) rfl
  refine ifConverts fun _ => ?_
  refine Delivers.bind (convert_value_delivers hv _ ho.1.legal ho.1.not_array) (fun v hv' => Delivers.some ?_) rfl
  refine assign_operand node hc ht hv'.1 ⟨t, o.operandType, ht, rfl, ?_⟩
  rw [if_neg (by rw [hp]; exact Bool.false_ne_true)]
  exact hv'.2

theorem checkAssign_delivers (op : AssignOp) (hu : op ≠ .plain → ∃ u, value.type? = some u) :
    Delivers T (checkAssign node op target value) (Operand T) := by
  obtain ⟨v, hst⟩ := storageVariability_ok hc.addressType_ok ⟨t, type_ok ht⟩
  have hstorage : target.isStorage = .ok v.isSome := by rw [isStorage, hst]; rfl
  unfold checkAssign
  simp only [type_ok ht, hstorage, lift_ok, pure_bind]
  split
  · exact Delivers.reject _ _
  · split
    · exact Delivers.reject _ _
    · split
      · exact Delivers.reject _ _
      · rename_i hn
        cases op with
        | plain =>
          have hna : t.stored.isArray = false := (Bool.or_eq_false_iff.mp (Bool.not_eq_true _ ▸ hn)).1
          refine Delivers.bind (convert_value_delivers hv _ (hc.legal ht).stored hna) (fun v hv' => Delivers.some ?_) rfl
          exact assign_operand node hc ht hv'.1 ⟨t, ht, hv'.2⟩
        | compound op =>
          obtain ⟨u, hu⟩ := hu (fun h => by cases h)
          dsimp only
          split
          · rename_i hp
            exact assignPointer_delivers node hc ht hv op hu hp
          · rename_i hp
            exact assignCompound_delivers node hc ht hv op hu (by simpa using hp)

end

/-! ## Selections -/

/-- An operand converted to the common type of two operands gets exactly that type: a list has no array as its common
type with anything. -/
theorem convert_common_delivers {e : Expr} {t u : Ty} (he : Operand T e) (hu : e.type? = some u) (ht : t.Legal)
    (harr : t.isArray = true → u.rvalue.isArray = true) (context : String) :
    Delivers T (convert e t context) fun e' => Checked T e' ∧ e'.HasType t := by
  by_cases hn : t.isArray = true
  · refine convert_single_delivers he context ht ?_
    rintro n es rfl
    have hlist := harr hn
    cases he with
    | list type_eq _ _ =>
      have htype : n.type = some u := hu
      rw [type_eq] at htype
      cases htype
      cases hlist
    | checked _ closed => cases closed
  · exact convert_value_delivers he context ht (by simpa using hn)

theorem checkSelect_delivers {test a b : Expr} {w u v : Ty} (node : Node) (ht : Operand T test)
    (hw : test.type? = some w) (ha : Operand T a) (hu : a.type? = some u) (hb : Operand T b)
    (hv : b.type? = some v) : Delivers T (checkSelect node test a b) (Operand T) := by
  unfold checkSelect
  simp only [type_ok hw, type_ok hu, type_ok hv, lift_ok, pure_bind]
  refine Delivers.bind (convert_value_delivers ht _ (Ty.legal_basic _ _) rfl) (fun test' ht' => ?_) rfl
  refine Delivers.bind (commonType_delivers _ _ _ _) (fun t hc => ?_) rfl
  have hlegal := Ty.legal_common (ha.legal hu) (hb.legal hv) hc
  obtain ⟨x, hx, hcore⟩ := hasType_iff.mp ht'.2
  have hvar : x.isVarying = (Ty.basic .bool w.stored.variability).isVarying := Ty.isVarying_eq hcore
  dsimp only
  generalize htype : (if w.stored.isVarying = true then t.asVarying else t) = type
  have htl : type.Legal := by
    rw [← htype]
    split
    · exact hlegal.withVariability _
    · exact hlegal
  have harr : type.isArray = true → u.rvalue.isArray = true ∧ v.rvalue.isArray = true := by
    rw [← htype, Ty.isArray_spread]
    exact Ty.common_isArray hc
  refine Delivers.bind (convertBoth_delivers (convert_common_delivers ha hu htl (fun h => (harr h).1) _)
    (convert_common_delivers hb hv htl (fun h => (harr h).2) _)) (fun p hp => ?_) rfl
  refine Delivers.some (.checked (.node ⟨⟨type, rfl, htl⟩, ?_, ?_⟩ fun c hm => ?_) rfl)
  · exact ⟨type, _, rfl, ht'.2, hp.1.2, hp.2.2⟩
  · refine ⟨type, x, rfl, hx, fun s hs hxv => ?_⟩
    rw [hvar] at hxv
    rw [if_pos (show w.stored.isVarying = true from hxv), hs] at htype
    cases t with
    | scalar s' =>
      cases htype
      rfl
    | _ => cases htype
  · simp only [children, List.mem_cons, List.not_mem_nil, or_false] at hm
    rcases hm with rfl | rfl | rfl
    · exact ht'.1
    · exact hp.1.1
    · exact hp.2.1

end Spmd.Check
