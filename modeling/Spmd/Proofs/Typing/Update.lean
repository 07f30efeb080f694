import Spmd.Proofs.Retyping.Assignment
import Spmd.Proofs.Ty.UpperBound
import Spmd.Proofs.Typing.Offset
import Spmd.Proofs.Typing.Reports

/-!
# Updates

An operator updates what is stored if the type that it gives for it and another operand converts back to the stored one
(`Check.Updates`). A compound assignment is accepted exactly for an update of something that can be assigned to, and has the type
that is stored (`Check.checkCompound_judged`).
-/

namespace Spmd

/-! ## Types -/

namespace Ty

variable {a b t : Ty}

theorem asNonConst_asNonConst : ∀ t : Ty, t.asNonConst.asNonConst = t.asNonConst
  | .void _ | .pointer .. | .struct .. | .function .. | .list _ => rfl
  | .scalar ⟨.basic _, _, _⟩ | .vector ⟨.basic _, _, _⟩ _ _ => by
    simp [asNonConst, withConst, ScalarTy.withConst, ScalarTy.qualify, Element.isBasic]
  | .scalar ⟨.enumeration .., _, _⟩ | .vector ⟨.enumeration .., _, _⟩ _ _ => rfl
  | .array e n _ => congrArg (array · n) (asNonConst_asNonConst e)
  | .reference t _ => congrArg reference (asNonConst_asNonConst t)

theorem rvalue_rvalue (h : t.Legal) : t.rvalue.rvalue = t.rvalue := by
  rw [rvalue_eq t.rvalue, stored_of_not_reference (rvalue_isReference h), rvalue_eq t, asNonConst_asNonConst]

theorem isReference_stored (h : t.Legal) : t.stored.isReference = false := by
  cases t with
  | reference => exact h.1
  | _ => rfl

theorem stored_stored (h : t.Legal) : t.stored.stored = t.stored := stored_of_not_reference (isReference_stored h)

theorem rvalue_stored (h : t.Legal) : t.stored.rvalue = t.rvalue := by
  rw [rvalue_eq, stored_stored h, rvalue_eq]

theorem flat_of_isSome (h : t.element?.isSome = true) : t.isPointer = false ∧ t.isArray = false := by
  cases t with
  | scalar | vector => exact ⟨rfl, rfl⟩
  | _ => cases h

theorem common_rvalue (ha : a.Legal) (hb : b.Legal) : common a.rvalue b.rvalue = common a b := by
  unfold common
  rw [rvalue_rvalue ha, rvalue_rvalue hb]

/-- A pointer that was moved is stored where it came from, if the distance is as varying. -/
theorem obstacle_moved {p : Ty} {q : Qualifiers} {o : Origin} (hq : q.isConst = false) (v : Variability) :
    obstacle false (pointer p ⟨q.variability.join v, false⟩) (pointer p q o) = none ↔ v.join q.variability = q.variability := by
  obtain ⟨w, c⟩ := q
  obtain rfl : c = false := hq
  constructor
  · intro ho
    cases v with
    | uniform => rfl
    | varying =>
      have hvarying : (pointer p ⟨w.join .varying, false⟩).isVarying = true := by cases w <;> rfl
      exact (eq_of_beq ((obstacle_value_varying rfl ho hvarying).resolve_right (fun h => by cases h.1))).symm
  · intro hv
    have hw : w.join v = w := (Variability.join_comm w v).trans hv
    rw [hw]
    exact obstacle_of_same ((same_iff _ _).mpr rfl)

theorem obstacle_scalar_pointer {p : Ty} {q : Qualifiers} {o : Origin} (s : ScalarTy) :
    obstacle false (scalar s) (pointer p q o) ≠ none := by
  intro h
  unfold obstacle at h
  rw [if_neg (by exact Bool.false_ne_true), if_neg (by exact Bool.false_ne_true), if_neg (by exact Bool.false_ne_true)] at h
  dsimp only at h
  split at h <;> cases h

theorem obstacle_pointer_integer {p : Ty} {q : Qualifiers} {o : Origin} (hint : t.isIntegerScalar = true) :
    obstacle false (pointer p q o) t ≠ none := by
  intro h
  cases t with
  | scalar s =>
    unfold obstacle at h
    rw [if_neg (by exact Bool.false_ne_true), if_neg (by exact Bool.false_ne_true), if_neg (by exact Bool.false_ne_true)] at h
    dsimp only at h
    split at h
    · cases h
    · obtain ⟨e, q', o'⟩ := s
      cases e with
      | basic k =>
        have hk : ¬ (k = .bool ∨ k.isInteger = true ∧ false = true) := by
          rintro (rfl | ⟨-, hfalse⟩)
          · cases hint
          · cases hfalse
        change (if k = .bool ∨ k.isInteger = true ∧ false = true then none else some _) = none at h
        rw [if_neg hk] at h
        cases h
      | enumeration => cases h
  | _ => cases hint

end Ty

namespace Check

open Spmd.Expr

variable {T : Target} {x y : Expr} {s t u w : Ty} {node m : Node} {op : ArithOp} {context : String}

/-! ## Operands -/

/-- The type that an arithmetic operator brings two values to. -/
def operands? (op : ArithOp) (a b : Ty) : Option Ty :=
  if validOperand (.arith op) a.rvalue && validOperand (.arith op) b.rvalue then (Ty.common a.rvalue b.rvalue).toOption
  else none

theorem checkOperands_gives (place : Option Location) (op : ArithOp) (a b : Ty) :
    Meets T (checkOperands place (.arith op) a b) fun o _ => o = (operands? op a b).map fun t => ⟨t, t⟩ := by
  have refused : ∀ (α : Type) (problem : Problem), Meets T (reject place problem) fun (o : Option α) _ => o = none :=
    fun _ _ => Meets.bind (report_meets _ _) fun _ _ _ => Meets.pure rfl
  unfold checkOperands operands?
  dsimp only
  cases validOperand (.arith op) a.rvalue with
  | false => exact refused _ _
  | true =>
    cases validOperand (.arith op) b.rvalue with
    | false => exact refused _ _
    | true =>
      unfold commonType
      simp only [Bool.not_true, Bool.false_eq_true, if_false, Bool.and_self, if_true]
      cases Ty.common a.rvalue b.rvalue with
      | error d =>
        refine Meets.bind (refused Ty _) fun o _ ho => ?_
        subst ho
        exact Meets.pure rfl
      | ok t => exact Meets.pure rfl

theorem operands_reach {a b : Ty} (ha : a.Legal) (hb : b.Legal) (h : operands? op a b = some w) :
    a.rvalue.element?.isSome = true ∧ b.rvalue.element?.isSome = true ∧ w.element?.isSome = true ∧
      Ty.obstacle false a.stored w = none ∧ Ty.obstacle false b.stored w = none := by
  unfold operands? at h
  split at h
  · rename_i hvalid
    obtain ⟨hva, hvb⟩ := Bool.and_eq_true_iff.mp hvalid
    have hcommon : Ty.common a.rvalue b.rvalue = .ok w := by
      cases hc : Ty.common a.rvalue b.rvalue with
      | error => rw [hc] at h; cases h
      | ok t =>
        rw [hc] at h
        cases h
        rfl
    have hea := element_of_valid hva
    have heb := element_of_valid hvb
    have hakin := Ty.akin_rvalue.mp (.inl ⟨hea, heb⟩)
    have hw := element_of_valid (validOperand_common hva hvb hcommon)
    rw [Ty.common_rvalue ha hb] at hcommon
    exact ⟨hea, heb, hw, (Ty.common_upper hcommon hakin).1, Ty.common_upper_right hcommon hakin⟩
  · cases h

theorem operands_rvalue (ht : t.Legal) (hu : u.Legal) : operands? op t.rvalue u.rvalue = operands? op t.stored u := by
  unfold operands?
  rw [Ty.rvalue_rvalue ht, Ty.rvalue_rvalue hu, Ty.rvalue_stored ht]

theorem convert_element_succeeds (hx : Operand T x) (ht : x.type? = some t) (he : t.rvalue.element?.isSome = true)
    (hw : w.element?.isSome = true) (ho : Ty.obstacle false t.stored w = none) : Succeeds T (convert x w context) := by
  have hfill : ∀ n es, x = .list n es → fillTargets? es.length w = none := by
    rintro n es rfl
    cases hx with
    | list type_eq =>
      cases type_eq.symm.trans ht
      cases he
    | checked _ closed => cases closed
  cases w with
  | scalar | vector => exact convert_plain_succeeds hx ht trivial rfl ⟨rfl, rfl⟩ hfill (fun _ _ => rfl) ho
  | _ => cases hw

theorem obstacle_of_accepted (h : Accepted x t w) (hn : (x.isZeroConstant && t.acceptsNull w) = false) :
    Ty.obstacle false t w = none := by
  unfold Accepted Argument.fits at h
  rw [hn, Bool.false_or, Ty.converts, Option.isNone_iff_eq_none] at h
  exact h

theorem convert_basic_keeps (hy : Operand T y) (hu : y.type? = some u) (k : Kind) (v : Variability) :
    Yields T (convert y (.basic k v) context) fun _ => u.rvalue.variability.join v = v := by
  have hpassed : Passed y (.basic k v) := by
    refine ⟨fun f hf => ?_, fun _ _ _ hn => (by cases hn), fun _ _ _ _ => ⟨rfl, rfl⟩⟩
    subst hf
    exact hy.known.isResolved hu
  refine Yields.mono (convert_accepted hy hu (Ty.legal_basic k v) hpassed context) fun _ haccepted => ?_
  have ho := obstacle_of_accepted haccepted (Bool.and_false _)
  rw [Ty.variability_rvalue]
  cases hv : u.variability with
  | uniform => rfl
  | varying =>
    have hvarying := Ty.obstacle_varying (hy.legal hu) ho (by rw [Ty.isVarying, hv]; rfl)
    exact (eq_of_beq (hvarying.resolve_right fun h => by cases h.2)).symm

theorem convert_any (e : Expr) (t : Ty) (context : String) : Yields T (convert e t context) fun _ => True :=
  Gives.mono ((convert_once e t context).gives T) fun _ _ _ _ => trivial

/-! ## Updates -/

/-- The type that an operator gives for something stored and an operand: a pointer is moved by an integer, and values are brought
to one type. -/
def updated? (op : ArithOp) (t u : Ty) : Option Ty :=
  match t with
  | .pointer p q _ => if op = .add ∨ op = .sub then moved? p q u.rvalue else none
  | _ => operands? op t u

/-- What an operator gives for something stored and an operand can be stored again. -/
def Updates (op : ArithOp) (t u : Ty) : Prop := ∃ w, updated? op t u = some w ∧ Ty.obstacle false w t = none

theorem updates_iff (h : updated? op t u = some w) : Ty.obstacle false w t = none ↔ Updates op t u := by
  refine ⟨fun ho => ⟨w, h, ho⟩, fun ⟨w', h', ho⟩ => ?_⟩
  obtain rfl : w = w' := Option.some.inj (h.symm.trans h')
  exact ho

theorem updated_value (u : Ty) (h : t.isPointer = false) : updated? op t u = operands? op t u := by
  cases t with
  | pointer => cases h
  | _ => rfl

/-- A pointer is moved in place by an integer that is as varying. -/
theorem updates_pointer {p : Ty} {q : Qualifiers} {o : Origin} (hq : q.isConst = false) : Updates op (.pointer p q o) u ↔
    (op = .add ∨ op = .sub) ∧ u.rvalue.isIntegerScalar = true ∧ p.isVoid = false ∧
      u.rvalue.variability.join q.variability = q.variability := by
  unfold Updates updated? moved?
  by_cases hop : op = .add ∨ op = .sub
  · by_cases hm : (u.rvalue.isIntegerScalar && !p.isVoid) = true
    · simp only [if_pos hop, if_pos hm, Option.some.injEq, exists_eq_left', Ty.obstacle_moved hq]
      obtain ⟨hint, hvoid⟩ := Bool.and_eq_true_iff.mp hm
      exact ⟨fun hv => ⟨hop, hint, by simpa using hvoid, hv⟩, fun h => h.2.2.2⟩
    · simp only [if_pos hop, if_neg hm, reduceCtorEq, false_and, exists_false, false_iff]
      rintro ⟨-, hint, hvoid, -⟩
      exact hm (by rw [hint, hvoid]; rfl)
  · simp only [if_neg hop, reduceCtorEq, false_and, exists_false, false_iff]
    exact fun h => hop h.1

/-! ## Assignments -/

/-- An assignment to something of a type that can be assigned to. -/
def assign (node : Node) (op : AssignOp) (x y : Expr) (t : Ty) : Check (Option Expr) :=
  match op with
  | .plain => do return assignOf node op x t none (← convert y t "assignment")
  | .compound op => if t.isPointer then assignPointer node op x y t else assignCompound node op x y t

theorem checkAssign_yields {op : AssignOp} {P : Expr → Prop} (ht : x.type? = some t)
    (h : Assignable x t.stored → Yields T (assign node op x y t.stored) P) : Yields T (checkAssign node op x y) P := by
  unfold checkAssign
  simp only [type_ok ht, lift_ok, pure_bind]
  refine Gives.lift fun b hb => ?_
  split
  · exact Yields.reject _ _
  · rename_i hstorage
    split
    · exact Yields.reject _ _
    · rename_i hconst
      split
      · exact Yields.reject _ _
      · rename_i haggregate
        refine h ⟨?_, by simpa using hconst, by simpa using haggregate⟩
        rw [hb]
        simpa using hstorage

theorem checkAssign_assigns (op : AssignOp) (ht : x.type? = some t) (ha : Assignable x t.stored) :
    checkAssign node op x y = assign node op x y t.stored := by
  unfold checkAssign
  simp only [type_ok ht, ha.isStorage, ha.isConst, ha.isAggregate, lift_ok, pure_bind, Bool.not_true, Bool.false_eq_true, if_false]
  rfl

/-- A form that is accepted on one condition, and then has a type. -/
inductive Judged (P : Prop) (t : Ty) : Option Expr → Prop
  | refused (fails : ¬ P) : Judged P t none
  | accepted {d : Expr} (holds : P) (type_eq : d.type? = some t) (plain : d.isFunctionName = false) : Judged P t (some d)

theorem Judged.pairs {P : Prop} {o o' : Option Expr} (h : Judged P t o) (h' : Judged P u o') (same : P → t.same u = true) :
    Pairs T (resolved o) (resolved o') SameType := by
  cases h with
  | refused fails =>
    cases h' with
    | refused => exact Pairs.pure .refused
    | accepted holds => exact absurd holds fails
  | accepted holds type_eq plain =>
    cases h' with
    | refused fails => exact absurd holds fails
    | accepted _ type_eq' plain' =>
      rw [resolved_plain plain, resolved_plain plain']
      exact Pairs.pure (.accepted type_eq type_eq' (same holds))

theorem Judged.alike {P : Prop} {o o' : Option Expr} (h : Judged P t o) (h' : Judged P t o') :
    Pairs T (resolved o) (resolved o') SameType :=
  h.pairs h' fun _ => (Ty.same_iff _ _).mpr rfl

/-- A check is judged by a condition that all its results satisfy and that is enough for a result. -/
theorem judged {P : Prop} {Q : Expr → Prop} {k : Check (Option Expr)} (h : Delivers T k Q)
    (hsound : Yields T k fun d => P ∧ d.type? = some t ∧ d.isFunctionName = false)
    (hcomplete : P → Meets T k fun o _ => o.isSome = true) : Meets T k fun o _ => Judged P t o := by
  by_cases hP : P
  · refine Meets.mono (Meets.and_gives (hcomplete hP) hsound) fun o _ ⟨hsome, hall⟩ => ?_
    obtain ⟨d, rfl⟩ := Option.isSome_iff_exists.mp hsome
    obtain ⟨-, htype, hplain⟩ := hall d rfl
    exact .accepted hP htype hplain
  · refine Meets.mono (Delivers.refused h (Yields.mono hsound fun _ hd => hP hd.1)) fun o _ ho => ?_
    subst ho
    exact .refused hP

/-! ## Compound assignments -/

section
variable (hy : Operand T y) (hu : y.type? = some u)
include hy hu

theorem assignPointer_sound {p : Ty} {q : Qualifiers} {o : Origin} (hq : q.isConst = false) :
    Yields T (assignPointer node op x y (.pointer p q o)) fun d => Updates op (.pointer p q o) u ∧
      d.type? = some (.pointer p q o) ∧ d.isFunctionName = false := by
  unfold assignPointer
  simp only [type_ok hu, lift_ok, pure_bind]
  split
  · exact Yields.reject _ _
  · rename_i hop
    split
    · exact Yields.reject _ _
    · rename_i hint
      split
      · exact Yields.reject _ _
      · rename_i hvoid
        refine Yields.target ?_
        obtain ⟨k, hk⟩ := Ty.sizeType_basic T q.variability
        refine Yields.bind (Q := fun _ => u.rvalue.variability.join q.variability = q.variability) ?_ (fun v hv => ?_) Yields.none
        · exact hk ▸ convert_basic_keeps hy hu k q.variability
        · refine Yields.some ⟨(updates_pointer hq).mpr ⟨?_, by simpa using hint, ?_, hv⟩, rfl, rfl⟩
          · exact Decidable.or_iff_not_not_and_not.mpr hop
          · exact Bool.eq_false_iff.mpr hvoid

theorem assignPointer_complete {p : Ty} {q : Qualifiers} {o : Origin} (hq : q.isConst = false)
    (h : Updates op (.pointer p q o) u) : Succeeds T (assignPointer node op x y (.pointer p q o)) := by
  obtain ⟨hop, hint, hvoid, hv⟩ := (updates_pointer hq).mp h
  unfold assignPointer
  simp only [type_ok hu, lift_ok, pure_bind]
  rw [if_neg (Decidable.or_iff_not_not_and_not.mp hop), hint, if_neg (by simp), if_neg (by exact Bool.eq_false_iff.mp hvoid)]
  obtain ⟨k, hk⟩ := Ty.sizeType_basic T q.variability
  refine Succeeds.after (Q := (· = T)) (Meets.mono target_meets fun _ _ h => ⟨by rw [h.2]; rfl, h.1⟩) fun _ hT => ?_
  subst hT
  refine Succeeds.bind ?_ fun v => Succeeds.some
  exact hk ▸ convert_integer_succeeds hy hu hint k hv

omit hy in
theorem assignCompound_sound (hs : s.isPointer = false) : Yields T (assignCompound node op x y s) fun d =>
    Updates op s u ∧ d.type? = some s ∧ d.isFunctionName = false := by
  unfold assignCompound
  simp only [type_ok hu, lift_ok, pure_bind]
  refine Gives.bind (Meets.gives (checkOperands_gives node.place op s u)) fun o ho => ?_
  obtain ⟨-, rfl⟩ := ho
  cases hw : operands? op s u with
  | none => exact Yields.none
  | some w =>
    refine ifConverts_yields fun ho => ?_
    refine Yields.bind (Q := fun _ => True) ?_ (fun v _ => Yields.some ⟨⟨w, ?_, ho⟩, rfl, rfl⟩) Yields.none
    · exact convert_any y w _
    · rw [updated_value u hs, hw]

theorem assignCompound_complete (hs : s.isPointer = false) (hl : s.Legal) (h : Updates op s u) :
    Meets T (assignCompound node op x y s) fun o _ => o.isSome = true := by
  obtain ⟨w, hw, ho⟩ := h
  rw [updated_value u hs] at hw
  obtain ⟨-, he, hew, -, hyw⟩ := operands_reach hl (hy.legal hu) hw
  unfold assignCompound
  simp only [type_ok hu, lift_ok, pure_bind]
  refine Meets.bind (checkOperands_gives node.place op s u) fun o _ hgives => ?_
  subst hgives
  rw [hw, Option.map_some]
  dsimp only
  rw [canConvert_true ho, pure_bind, if_pos rfl]
  refine Meets.bind (convert_element_succeeds hy hu he hew hyw) fun v _ hv => ?_
  obtain ⟨v, rfl⟩ := Option.isSome_iff_exists.mp hv.1
  exact Meets.pure rfl

/-- A compound assignment updates what its target is stored as. -/
theorem checkCompound_judged (hx : Operand T x) (ht : x.type? = some t) : Meets T (checkAssign node (.compound op) x y) fun d _ =>
    Judged (Assignable x t.stored ∧ Updates op t.stored u) t.stored d := by
  have hc := hx.toChecked ht
  have hl := (hx.legal ht).stored
  refine judged (checkAssign_delivers node hc ht hy (.compound op) fun _ => ⟨u, hu⟩) ?_ fun ⟨ha, hupdates⟩ => ?_
  · refine checkAssign_yields ht fun ha => ?_
    unfold assign
    cases hs : t.stored with
    | pointer p q o =>
      rw [hs] at ha
      exact Yields.mono (assignPointer_sound hy hu ha.isConst) fun _ h => ⟨⟨ha, h.1⟩, h.2⟩
    | _ =>
      rw [hs] at ha
      exact Yields.mono (assignCompound_sound hu rfl) fun _ h => ⟨⟨ha, h.1⟩, h.2⟩
  · rw [checkAssign_assigns (.compound op) ht ha]
    unfold assign
    cases hs : t.stored with
    | pointer p q o =>
      rw [hs] at ha hupdates
      exact Meets.mono (assignPointer_complete hy hu ha.isConst hupdates) fun _ _ h => h.1
    | _ =>
      rw [hs] at hl hupdates
      exact assignCompound_complete hy hu rfl hl hupdates

end

end Check

end Spmd
