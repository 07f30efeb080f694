import Spmd.Proofs.Retyping.Operator

/-!
# Assignments and selections again

An assignment brings its value to a type that does not depend on it, and a compound one to the common type, which absorbs the
type of the target. A selection has the type of its first branch again.
-/

namespace Spmd.Check

open Spmd.Expr

variable {T : Target}

/-! ## Assignments -/

section
variable {target value : Expr} (node : Node) (hc : Checked T target) (hlast : Lasts T target) {t : Ty}
  (ht : target.type? = some t) (hv : Durable T value)

theorem assign_outline {op : AssignOp} {target' value' : Expr} {t' : Ty} {place : Option Location} {o o' : Option Ty}
    (ht : t'.outline = t.outline) (htarget : target'.outline = target.outline) (hvalue : value'.outline = value.outline) :
    (Expr.assign (.typed place t') op target' value' o').outline =
      (Expr.assign (.typed place t) op target value o).outline := by
  simp only [outline, Node.outline, Node.typed, Option.map_some, ht, htarget, hvalue]

/-- What a check asks of the target of an assignment. -/
structure Assignable (target : Expr) (t : Ty) : Prop where
  isStorage : target.isStorage = .ok true
  isConst : t.isConst = false
  isAggregate : (t.isArray || t.isFunction) = false

theorem Assignable.again {target' : Expr} {op : AssignOp} {v : Expr} {place : Option Location} {P : Option Expr → Prop}
    (ha : Assignable target t.stored) (ht : target.type? = some t) (htarget : target'.outline = target.outline)
    (h : ∀ t', target'.type? = some t' → t'.stored.outline = t.stored.outline → Quiet T (match op with
      | .plain => do return assignOf (.typed place t.stored) op target' t'.stored none (← convert v t'.stored "assignment")
      | .compound ar =>
        if t'.stored.isPointer then assignPointer (.typed place t.stored) ar target' v t'.stored
        else assignCompound (.typed place t.stored) ar target' v t'.stored) P) :
    Quiet T (checkAssign (.typed place t.stored) op target' v) P := by
  unfold checkAssign
  refine Quiet.mirrors (isStorage_mirrors htarget) ha.isStorage fun b hb => ?_
  cases hb
  refine Quiet.type htarget ht fun t' ht' hout => ?_
  have hstored := Ty.outline_eq Ty.outline_stored hout
  have hbare := Ty.bare_of_outline hstored
  dsimp only
  rw [Ty.eq_of_bare Ty.isConst_bare hbare, ha.isConst, Ty.eq_of_bare Ty.isArray_bare hbare,
    Ty.eq_of_bare Ty.isFunction_bare hbare, ha.isAggregate]
  exact h t' ht' hstored

include hc hlast

theorem assign_lasts {op : AssignOp} {o : Option Ty} {v : Expr} (hop : op ≠ .plain) (hv : Checked T v) (hl : Lasts T v)
    (h : ∀ target' v', target'.outline = target.outline → v'.outline = v.outline →
      Again T (checkAssign (.typed node.place t.stored) op target' v') (.assign (.typed node.place t.stored) op target v o)) :
    Lasts T (.assign (.typed node.place t.stored) op target v o) := by
  intro hrep
  rw [Fixed, check]
  refine Again.bind ((hlast (hrep.child (by simp [children]))).needed hc) fun target' htarget => ?_
  rw [if_neg hop]
  exact Again.bind ((hl (hrep.child (by simp [children]))).needed hv) fun v' hv' => h target' v' htarget hv'

include ht hv

theorem assignPlain_endures (ha : Assignable target t.stored) :
    Yields T (do return assignOf node .plain target t.stored none (← convert value t.stored "assignment")) (Endures T) := by
  refine Yields.bind (convert_reaches hv (hc.legal ht).stored _) (fun v hreach => Yields.some ⟨rfl, fun hrep => ?_⟩) Yields.none
  rw [Fixed, check]
  refine Again.bind ((hlast (hrep.child (by simp [children]))).needed hc) fun target' htarget => ?_
  rw [if_pos rfl]
  refine Quiet.result (hreach (hrep.child (by simp [children]))) fun d hd => ?_
  show Again T (checkAssign _ .plain target' d) _
  refine ha.again ht htarget fun t' ht' hout => ?_
  exact Again.bind (hd.converts _ hout _) fun v' hv' => Again.some (assign_outline hout htarget hv')

theorem assignPointer_endures (op : ArithOp) (ha : Assignable target t.stored) {u : Ty} (hu : value.type? = some u)
    (hp : t.stored.isPointer = true) : Yields T (assignPointer node op target value t.stored) (Endures T) := by
  unfold assignPointer
  simp only [type_ok hu, lift_ok, pure_bind]
  split
  · exact Yields.reject _ _
  · rename_i hop
    split
    · exact Yields.reject _ _
    · split
      · exact Yields.reject _ _
      · rename_i hvoid
        refine Yields.target ?_
        obtain ⟨hsl, -⟩ := Ty.sizeType_withVariability T t.stored.variability
        refine Yields.bind (convert_converted hv hsl (fun _ _ _ => fillTargets_size _ _ _) _) (fun v h => ?_) Yields.none
        obtain ⟨s, hv₁⟩ := h
        refine Yields.some ⟨rfl, assign_lasts node hc hlast nofun hv₁.checked hv₁.lasts fun target' v' htarget hv' => ?_⟩
        refine ha.again ht htarget fun t' ht' hout => ?_
        have hbare := Ty.bare_of_outline hout
        dsimp only
        rw [if_pos ((Ty.eq_of_bare Ty.isPointer_bare hbare).trans hp)]
        unfold assignPointer
        refine Quiet.type hv' hv₁.type_eq fun s' _ hsout => ?_
        obtain ⟨_, -, hinteger, -⟩ := size_of_core (hv₁.core_of_bare hsout rfl)
        dsimp only
        rw [if_neg hop, hinteger, Ty.eq_of_bare Ty.isVoidPointer_bare hbare, if_neg (by exact Bool.false_ne_true), if_neg hvoid]
        refine Quiet.target ?_
        rw [Ty.eq_of_bare Ty.variability_bare hbare]
        exact Again.bind (hv₁.again hv' rfl) fun v'' hv'' => Again.some (assign_outline hout htarget hv'')

theorem assignCompound_endures (op : ArithOp) (ha : Assignable target t.stored) {u : Ty} (hu : value.type? = some u)
    (hp : t.stored.isPointer = false) : Yields T (assignCompound node op target value t.stored) (Endures T) := by
  unfold assignCompound
  simp only [type_ok hu, lift_ok, pure_bind]
  have hdelivers := checkOperands_delivers (T := T) (hc.legal ht).stored (hv.operand.legal hu) node.place (.arith op)
  have hoperands := Yields.and hdelivers.yields
    (checkOperands_takes node.place (.arith op) t.stored u)
  refine Yields.bind hoperands (fun o h => ?_) Yields.none
  obtain ⟨⟨htype, _⟩, hva, hvb, hcommon, hres⟩ := h
  obtain ⟨w, result⟩ := o
  obtain rfl : result = w := hres
  dsimp only at htype hcommon ⊢
  refine ifConverts_yields fun hobstacle => ?_
  have hvalid := validOperand_common hva hvb hcommon
  have hnr := element_not_reference hvalid
  have hfill : ∀ n items, value = .list n items → fillTargets? items.length result = none := by
    intro n items hn
    have hlist := hv.list_type hu n items hn
    have hsome := element_of_valid hvb
    cases u with
    | list => cases hsome
    | _ => cases hlist
  refine Yields.bind (convert_converted hv htype.legal hfill _) (fun v h => ?_) Yields.none
  obtain ⟨s, hv₁⟩ := h
  -- the rest is the second check, of a target and a value that look as they did
  refine Yields.some ⟨rfl, assign_lasts node hc hlast nofun hv₁.checked hv₁.lasts fun target' v' htarget hv' => ?_⟩
  refine ha.again ht htarget fun t' ht' hout => ?_
  have hbare := Ty.bare_of_outline hout
  dsimp only
  rw [if_neg (by rw [Ty.eq_of_bare Ty.isPointer_bare hbare, hp]; exact Bool.false_ne_true)]
  unfold assignCompound
  refine Quiet.type hv' hv₁.type_eq fun s' _ hsout => ?_
  have hs := Ty.core_rvalue_of_core (hv₁.core_of_bare hsout rfl) hnr
  have hta : t'.stored.rvalue.bare = t.stored.rvalue.bare := Ty.bare_of_outline (Ty.outline_eq Ty.outline_rvalue hout)
  have hva' : validOperand (.arith op) t'.stored.rvalue = true := by
    rw [← validOperand_core, Ty.core_of_bare hta, validOperand_core]
    exact hva
  have hvb' : validOperand (.arith op) s'.rvalue = true := by
    rw [← validOperand_core, hs, validOperand_core]
    exact hvalid
  obtain ⟨w', hw', hwbare⟩ := Ty.common_absorbs hta (element_of_valid hva) (element_of_valid hvb) hcommon hs
  have hvalid' : validOperand (.arith op) w' = true := by
    rw [← validOperand_core, Ty.core_of_bare hwbare, validOperand_core]
    exact hvalid
  have hlist : result.isList = false ∧ result.isReference = false := by
    have hsome := element_of_valid hvalid
    cases result with
    | scalar | vector => exact ⟨rfl, rfl⟩
    | _ => cases hsome
  refine Quiet.then (checkOperands_again hva' hvb' hw') ?_
  refine Quiet.converts (Ty.obstacle_of_bare (.inl hlist) hwbare hbare hobstacle) ?_
  rw [if_pos rfl]
  exact Again.bind (hv₁.again hv' hwbare) fun v'' hv'' => Again.some (assign_outline hout htarget hv'')

theorem checkAssign_endures (op : AssignOp) (hu : op ≠ .plain → ∃ u, value.type? = some u) :
    Yields T (checkAssign node op target value) (Endures T) := by
  unfold checkAssign
  simp only [type_ok ht, lift_ok, pure_bind]
  refine Gives.lift fun b hb => ?_
  split
  · exact Yields.reject _ _
  · rename_i hstorage
    split
    · exact Yields.reject _ _
    · rename_i hconst
      split
      · exact Yields.reject _ _
      · rename_i haggregate
        have ha : Assignable target t.stored := by
          refine ⟨?_, by simpa using hconst, by simpa using haggregate⟩
          rw [hb]
          simpa using hstorage
        cases op with
        | plain => exact assignPlain_endures node hc hlast ht hv ha
        | compound op =>
          obtain ⟨u, hu⟩ := hu nofun
          dsimp only
          split
          · rename_i hp
            exact assignPointer_endures node hc hlast ht hv op ha hu hp
          · rename_i hp
            exact assignCompound_endures node hc hlast ht hv op ha hu (by simpa using hp)

end

/-! ## Selections -/

theorem select_outline {place : Option Location} {t t' : Ty} {test test' a a' b b' : Expr} (ht : t'.outline = t.outline)
    (htest : test'.outline = test.outline) (ha : a'.outline = a.outline) (hb : b'.outline = b.outline) :
    (Expr.select (.typed place t') test' a' b').outline = (Expr.select (.typed place t) test a b).outline := by
  simp only [outline, Node.outline, Node.typed, Option.map_some, ht, htest, ha, hb]

theorem checkSelect_endures {test a b : Expr} {w u v : Ty} (node : Node) (ht : Durable T test) (hw : test.type? = some w)
    (ha : Durable T a) (hu : a.type? = some u) (hb : Durable T b) (hv : b.type? = some v) :
    Yields T (checkSelect node test a b) (Endures T) := by
  unfold checkSelect
  simp only [type_ok hw, type_ok hu, type_ok hv, lift_ok, pure_bind]
  refine Yields.bind (convert_converted ht (Ty.legal_basic _ _) (fun _ _ _ => rfl) _) (fun test₁ h => ?_) Yields.none
  obtain ⟨x, ht₁⟩ := h
  refine Yields.bind (commonType_delivers _ _ _ _).yields (fun t hc => ?_) Yields.none
  have hlegal := Ty.legal_common (ha.operand.legal hu) (hb.operand.legal hv) hc
  have hreference := Ty.common_isReference (Ty.rvalue_isReference (ha.operand.legal hu)) hc
  have hcore := Ty.common_core hc
  dsimp only
  generalize htype : (if w.stored.isVarying = true then t.asVarying else t) = type
  -- the type of the selection is that of a value, and making it varying again changes nothing
  have hsel : type.Legal ∧ type.isReference = false ∧ type.core = type.bare ∧
      (∀ n, (u.isList = true ∨ v.isList = true) → fillTargets? n type = none) ∧
      ∀ s : Ty, s.outline = type.outline → (if w.stored.isVarying = true then s.asVarying else s).outline = type.outline := by
    have hfill : ∀ n, (u.isList = true ∨ v.isList = true) → fillTargets? n t = none := by
      intro n hl
      have hlist := Ty.common_isList hc hl
      cases t with
      | list => rfl
      | _ => cases hlist
    rw [← htype]
    split
    · refine ⟨hlegal.withVariability _, ?_, Ty.core_withVariability _ hcore, fun n hl => ?_, fun s hs => ?_⟩
      · rw [Ty.asVarying, Ty.isReference_withVariability, hreference]
      · have hnone := hfill n hl
        cases t with
        | array | vector | struct => cases hnone
        | _ => rfl
      · rw [Ty.outline_asVarying, hs, ← Ty.outline_asVarying]
        exact Ty.withVariability_withVariability _ _ t
    · exact ⟨hlegal, hreference, hcore, hfill, fun s hs => hs⟩
  obtain ⟨htl, htr, htc, hfill, hagain⟩ := hsel
  refine Yields.bind (convertBoth_yields
    (convert_converted ha htl (fun n items hn => hfill _ (.inl (ha.list_type hu n items hn))) _)
    (convert_converted hb htl (fun n items hn => hfill _ (.inr (hb.list_type hv n items hn))) _))
    (fun p h => ?_) Yields.none
  obtain ⟨⟨s, ha₁⟩, r, hb₁⟩ := h
  refine Yields.some ⟨rfl, fun hrep => ?_⟩
  have hs : s.rvalue.outline = type.outline := hrep.here type s rfl ha₁.type_eq
  rw [Fixed, check]
  refine Again.bind (ht₁.fixed (hrep.child (by simp [children]))) fun test₂ ht₂ => ?_
  refine Again.bind (ha₁.fixed (hrep.child (by simp [children]))) fun a₂ ha₂ => ?_
  refine Again.bind (hb₁.fixed (hrep.child (by simp [children]))) fun b₂ hb₂ => ?_
  show Again T (checkSelect _ test₂ a₂ b₂) _
  unfold checkSelect
  refine Quiet.type ht₂ ht₁.type_eq fun x₂ _ hx₂ => ?_
  have hx := ht₁.core_of_bare hx₂ rfl
  have hstored : x₂.stored.variability = w.stored.variability := by
    have hself : x₂.stored.variability = x₂.variability := by cases x₂ <;> rfl
    rw [hself, Ty.variability_eq hx]
    rfl
  dsimp only
  rw [hstored]
  refine Again.bind (ht₁.again ht₂ rfl) fun test₃ ht₃ => ?_
  refine Quiet.type ha₂ ha₁.type_eq fun s₂ _ hs₂ => Quiet.type hb₂ hb₁.type_eq fun r₂ _ hr₂ => ?_
  obtain ⟨hcommon, -⟩ := Ty.common_of_core htc htr (ha₁.core_of_bare hs₂ rfl) (hb₁.core_of_bare hr₂ rfl)
  refine Quiet.then (commonType_again hcommon) ?_
  have hvarying : x₂.stored.isVarying = w.stored.isVarying := congrArg (· == Variability.varying) hstored
  have hout := hagain s₂.rvalue ((Ty.outline_eq Ty.outline_rvalue hs₂).trans hs)
  dsimp only
  rw [hvarying]
  refine Quiet.result (convertBoth_again (ha₁.again ha₂ (Ty.bare_of_outline hout)) (hb₁.again hb₂ (Ty.bare_of_outline hout)))
    fun q hq => ?_
  exact Again.some (select_outline hout ht₃ hq.1 hq.2)

end Spmd.Check
