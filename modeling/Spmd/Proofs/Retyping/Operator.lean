import Spmd.Proofs.Retyping.Filling
import Spmd.Proofs.Retyping.Operand

/-!
# Operators again

The operands of an operator were brought to a type when it was checked. Checking it again finds this type, and leaves the
operands as they are.
-/

namespace Spmd.Check

open Spmd.Expr

variable {T : Target}

/-! ## Steps -/

/-- What a step adds is there for all numbers and all pointers but those to `void`. -/
def isSteppable (t : Ty) : Bool := if t.isPointer then !t.isVoidPointer else t.isScalar && t.isNumeric

theorem isSteppable_bare (t : Ty) : isSteppable t.bare = isSteppable t := by
  rw [isSteppable, isSteppable, Ty.isPointer_bare, Ty.isVoidPointer_bare, Ty.isScalar_bare, Ty.isNumeric_bare]

theorem stepAmount_steps (node : Node) (s : Step) (t : Ty) : Yields T (stepAmount node s t) fun _ => isSteppable t = true := by
  unfold stepAmount isSteppable
  refine Yields.target ?_
  split
  · split
    · exact Yields.reject _ _
    · rename_i hv
      exact Gives.lift fun _ _ => Yields.some (by simpa using hv)
  · split
    · rename_i hn
      exact Gives.lift fun _ _ => Yields.some hn
    · exact Yields.reject _ _

theorem stepAmount_again (node : Node) (s : Step) {t : Ty} (h : isSteppable t = true) :
    Quiet T (stepAmount node s t) fun o => ∃ amount, o = some amount ∧ True := by
  unfold stepAmount
  unfold isSteppable at h
  refine Quiet.target ?_
  by_cases hp : t.isPointer = true
  · rw [if_pos hp] at h ⊢
    rw [Bool.not_eq_true'] at h
    rw [h, if_neg Bool.false_ne_true]
    obtain ⟨size, hsize⟩ := Ty.sizeType_scalar T
    obtain ⟨v, hv, -⟩ := Literal.ofScalars_ok T.width size [.int 1] (.inl rfl)
    exact Quiet.read (hsize ▸ hv) (Quiet.pure ⟨_, rfl, trivial⟩)
  · rw [if_neg hp] at h ⊢
    rw [if_pos h]
    cases t with
    | scalar k =>
      obtain ⟨v, hv, -⟩ := Literal.ofScalars_ok T.width (k.withVariability .uniform) [.int 1] (.inl rfl)
      exact Quiet.read hv (Quiet.pure ⟨_, rfl, trivial⟩)
    | _ => cases h

/-! ## Unary operators -/

theorem unary_lasts {op : ValueOp} {c : Expr} {u : Ty} {place : Option Location} (hc : Checked T c) (hl : Lasts T c)
    (h : ∀ c', c'.outline = c.outline → Again T (checkUnary (.typed place u) op c') (.unary (.typed place u) op c)) :
    Lasts T (.unary (.typed place u) op c) := by
  intro hrep
  rw [Fixed, check]
  exact Again.bind ((hl (hrep.child (by simp [children]))).needed hc) h

section
variable {e : Expr} (he : Durable T e) {t : Ty} (hs : e.type? = some t) (node : Node)
include he hs

theorem checkUnary_endures (op : ValueOp) : Yields T (checkUnary node op e) (Endures T) := by
  have hchecked := he.operand.toChecked hs
  -- an operand that is used as it is has a type of the same kinds again
  have unchanged : ∀ {t' : Ty} {e' : Expr}, t'.outline = t.outline → e'.outline = e.outline →
      t'.rvalue.bare = t.rvalue.bare ∧ (Expr.unary (.typed node.place t'.rvalue) op e').outline =
        (Expr.unary (.typed node.place t.rvalue) op e).outline := by
    intro t' e' hout he'
    have hrvalue := Ty.outline_eq Ty.outline_rvalue hout
    refine ⟨Ty.bare_of_outline hrvalue, ?_⟩
    simp only [outline, Node.outline, Node.typed, Option.map_some, he', hrvalue]
  unfold checkUnary
  simp only [type_ok hs, lift_ok, pure_bind]
  cases op with
  | neg =>
    dsimp only
    split
    · rename_i hn
      refine Yields.some ⟨rfl, unary_lasts hchecked (he.lasts hs) fun e' he' => ?_⟩
      unfold checkUnary
      refine Quiet.type he' hs fun t' _ hout => ?_
      obtain ⟨hbare, hsame⟩ := unchanged hout he'
      rw [← Ty.eq_of_bare Ty.isNumeric_bare hbare] at hn
      dsimp only
      rw [if_pos hn]
      exact Again.some hsame
    · exact Yields.reject _ _
  | complement =>
    dsimp only
    split
    · rename_i hn
      refine Yields.some ⟨rfl, unary_lasts hchecked (he.lasts hs) fun e' he' => ?_⟩
      unfold checkUnary
      refine Quiet.type he' hs fun t' _ hout => ?_
      obtain ⟨hbare, hsame⟩ := unchanged hout he'
      rw [← Ty.eq_of_bare Ty.isInteger_bare hbare] at hn
      dsimp only
      rw [if_pos hn]
      exact Again.some hsame
    · exact Yields.reject _ _
  | not =>
    have hfill : ∀ n items, e = .list n items → fillTargets? items.length t.rvalue.boolLike = none := by
      intro n items hn
      have hlist := he.list_type hs n items hn
      cases t with
      | list => rfl
      | _ => cases hlist
    refine Yields.bind (convert_converted he (Ty.legal_boolLike _) hfill _) (fun c hc => ?_) Yields.none
    obtain ⟨u, hc⟩ := hc
    simp only [type_ok hc.type_eq, lift_ok, pure_bind]
    refine Yields.some ⟨rfl, unary_lasts hc.checked hc.lasts fun c' hc' => ?_⟩
    unfold checkUnary
    refine Quiet.type hc' hc.type_eq fun u' hu' hout => ?_
    have htruth : u'.rvalue.boolLike = t.rvalue.boolLike := Ty.boolLike_of_core (hc.core_of_bare hout rfl)
    dsimp only
    rw [htruth]
    refine Again.bind (hc.again hc' rfl) fun c'' hc'' => ?_
    refine Quiet.type hc'' hc.type_eq fun u'' _ hout' => Again.some ?_
    simp only [outline, Node.outline, Node.typed, Option.map_some, hc'', Ty.outline_eq Ty.outline_asNonConst hout']

theorem checkStep_endures (s : Step) : Yields T (checkStep node s e) (Endures T) := by
  have hchecked := he.operand.toChecked hs
  unfold checkStep
  simp only [type_ok hs, lift_ok, pure_bind]
  refine Gives.lift fun b hb => ?_
  split
  · exact Yields.reject _ _
  · rename_i hstorage
    split
    · exact Yields.reject _ _
    · rename_i hconst
      refine Yields.bind (stepAmount_steps node s _) (fun amount hstep => Yields.some ⟨rfl, fun hrep => ?_⟩) Yields.none
      rw [Fixed, check]
      refine Again.bind ((he.lasts hs (hrep.child (by simp [children]))).needed hchecked) fun e' he' => ?_
      show Again T (checkStep _ s e') _
      unfold checkStep
      refine Quiet.type he' hs fun t' ht' hout => Quiet.mirrors (isStorage_mirrors he') hb fun b' hb' => ?_
      have hrvalue := Ty.outline_eq Ty.outline_rvalue hout
      have hstored := Ty.bare_of_outline (Ty.outline_eq Ty.outline_stored hout)
      cases hb'
      rw [if_neg hstorage]
      refine Quiet.read (type_ok ht') ?_
      dsimp only
      rw [Ty.eq_of_bare Ty.isConst_bare hstored, if_neg hconst]
      refine Quiet.result (stepAmount_again _ s (Ty.eq_of_bare isSteppable_bare (Ty.bare_of_outline hrvalue) ▸ hstep))
        fun amount' _ => Again.some ?_
      simp only [outline, Node.outline, Node.typed, Option.map_some, he', hrvalue]

end

/-! ## Two operands -/

theorem convertBoth_again {l l' r r' : Expr} {a b : Ty} {context : String} (hl : Again T (convert l' a context) l)
    (hr : Again T (convert r' b context) r) : Quiet T (convertBoth l' a r' b context) fun o =>
      ∃ p, o = some p ∧ p.1.outline = l.outline ∧ p.2.outline = r.outline := by
  unfold convertBoth
  exact Again.bind hl fun l'' hl'' => Again.bind hr fun r'' hr'' => Quiet.pure ⟨_, rfl, hl'', hr''⟩

theorem binary_lasts {op : BinaryOp} {l r : Expr} {t : Ty} {place : Option Location} (hcl : Checked T l) (hl : Lasts T l)
    (hcr : Checked T r) (hr : Lasts T r) (h : ∀ l' r', l'.outline = l.outline → r'.outline = r.outline →
      Again T (checkBinary (.typed place t) op l' r') (.binary (.typed place t) op l r false)) :
    Lasts T (.binary (.typed place t) op l r false) := by
  intro hrep
  rw [Fixed, check]
  refine Again.bind ((hl (hrep.child (by simp [children]))).needed hcl) fun l' hl' => ?_
  exact Again.bind ((hr (hrep.child (by simp [children]))).needed hcr) fun r' hr' => h l' r' hl' hr'

theorem binary_outline {op : BinaryOp} {l l' r r' : Expr} {t t' : Ty} {place : Option Location} (ht : t'.outline = t.outline)
    (hl : l'.outline = l.outline) (hr : r'.outline = r.outline) : (Expr.binary (.typed place t') op l' r' false).outline =
      (Expr.binary (.typed place t) op l r false).outline := by
  simp only [outline, Node.outline, Node.typed, Option.map_some, ht, hl, hr]

theorem commonType_again {place : Option Location} {context : String} {a b t : Ty} (h : Ty.common a b = .ok t) :
    Quiet T (commonType place context a b) (· = some t) := by
  unfold commonType
  rw [h]
  exact Quiet.pure rfl

/-! ## Values -/

theorem checkOperands_takes (place : Option Location) (op : BinaryOp) (a b : Ty) :
    Yields T (checkOperands place op a b) fun o => validOperand op a.rvalue = true ∧ validOperand op b.rvalue = true ∧
      Ty.common a.rvalue b.rvalue = .ok o.operandType ∧
      o.resultType = if BinaryOp.isComparison op then o.operandType.boolLike else o.operandType := by
  unfold checkOperands
  dsimp only
  split
  · exact Yields.reject _ _
  · rename_i ha
    split
    · exact Yields.reject _ _
    · rename_i hb
      refine Yields.bind (commonType_delivers _ _ _ _).yields (fun t ht => Yields.some ⟨?_, ?_, ht, rfl⟩) Yields.none
      · simpa using ha
      · simpa using hb

theorem checkOperands_again {place : Option Location} {op : BinaryOp} {a b t : Ty} (ha : validOperand op a.rvalue = true)
    (hb : validOperand op b.rvalue = true) (h : Ty.common a.rvalue b.rvalue = .ok t) : Quiet T (checkOperands place op a b)
      (· = some ⟨t, if BinaryOp.isComparison op then t.boolLike else t⟩) := by
  unfold checkOperands
  dsimp only
  rw [ha, hb]
  exact Quiet.then (commonType_again h) (Quiet.pure rfl)

theorem checkBinary_generic (node : Node) {op : BinaryOp} (l r : Expr)
    (h : BinaryOp.isComparison op = true ∨ ∃ ar, op = .arith ar) :
    checkBinary node op l r = (do
      let a := (← l.type).rvalue
      let b := (← r.type).rvalue
      if a.isPointer || b.isPointer || a.isArray || b.isArray then checkPointers node op l r
      else checkValues node op l r a b) := by
  cases op with
  | arith => rfl
  | compare => rfl
  | logic lo =>
    rcases h with h | ⟨ar, h⟩
    · cases h
    · cases h
  | comma =>
    rcases h with h | ⟨ar, h⟩
    · cases h
    · cases h

section
variable {l r : Expr} (hl : Durable T l) (hr : Durable T r) (node : Node) (op : BinaryOp) {a b : Ty} (ha : l.type? = some a)
  (hb : r.type? = some b)
include hl hr ha hb

theorem checkLogic_endures (lo : LogicOp) : Yields T (checkLogic node (.logic lo) l r) (Endures T) := by
  have variability : ∀ {s s' : Ty}, s'.outline = s.outline → s'.variability = s.variability :=
    fun hout => Ty.eq_of_bare Ty.variability_bare (Ty.bare_of_outline hout)
  unfold checkLogic
  simp only [type_ok ha, type_ok hb, lift_ok, pure_bind]
  refine Yields.both (convert_converted hl (Ty.legal_basic _ _) (fun _ _ _ => rfl) _)
    (convert_converted hr (Ty.legal_basic _ _) (fun _ _ _ => rfl) _) (fun l₁ r₁ ⟨s, hl₁⟩ ⟨w, hr₁⟩ => ?_)
    (fun _ => Yields.none) (fun _ => Yields.none)
  simp only [type_ok hl₁.type_eq, type_ok hr₁.type_eq, lift_ok, pure_bind]
  refine Yields.some ⟨rfl, binary_lasts hl₁.checked hl₁.lasts hr₁.checked hr₁.lasts fun l₂ r₂ hl₂ hr₂ => ?_⟩
  show Again T (checkLogic _ _ l₂ r₂) _
  unfold checkLogic
  refine Quiet.type hl₂ hl₁.type_eq fun s₂ _ hs₂ => ?_
  rw [truthType_of_core (hl₁.core_of_bare hs₂ rfl)]
  refine Again.bind (hl₁.again hl₂ rfl) fun l₃ hl₃ => Quiet.type hr₂ hr₁.type_eq fun w₂ _ hw₂ => ?_
  rw [truthType_of_core (hr₁.core_of_bare hw₂ rfl)]
  refine Again.bind (hr₁.again hr₂ rfl) fun r₃ hr₃ => ?_
  refine Quiet.type hl₃ hl₁.type_eq fun s₃ _ hs₃ => Quiet.type hr₃ hr₁.type_eq fun w₃ _ hw₃ => Again.some ?_
  rw [variability hs₃, variability hw₃]
  exact binary_outline rfl hl₃ hr₃

theorem checkValues_endures (hop : BinaryOp.isComparison op = true ∨ ∃ ar, op = .arith ar) :
    Yields T (checkValues node op l r a.rvalue b.rvalue) (Endures T) := by
  have hla := (hl.operand.legal ha).rvalue
  have hlb := (hr.operand.legal hb).rvalue
  -- no list takes part in an operation on values
  have not_list : ∀ {e : Expr} {t target : Ty}, Durable T e → e.type? = some t → validOperand op t.rvalue.rvalue = true →
      ∀ n items, e = .list n items → fillTargets? items.length target = none := by
    intro e t target he ht hv n items hn
    have hlist := he.list_type ht n items hn
    have hsome := element_of_valid hv
    cases t with
    | list => cases hsome
    | _ => cases hlist
  unfold checkValues
  refine Yields.bind (Yields.and (checkOperands_delivers hla hlb _ _).yields (checkOperands_takes _ _ _ _))
    (fun o h => ?_) Yields.none
  obtain ⟨⟨htype, _⟩, hva, hvb, hcommon, hres⟩ := h
  obtain ⟨t, result⟩ := o
  dsimp only at htype hcommon hres
  subst hres
  refine Yields.bind (convertBoth_yields (convert_converted hl htype.legal (not_list hl ha hva) _)
    (convert_converted hr htype.legal (not_list hr hb hvb) _)) (fun p h => ?_) Yields.none
  obtain ⟨⟨s, hl₁⟩, w, hr₁⟩ := h
  refine Yields.some ⟨rfl, binary_lasts hl₁.checked hl₁.lasts hr₁.checked hr₁.lasts fun l₂ r₂ hl₂ hr₂ => ?_⟩
  have hcore := Ty.common_core hcommon
  have hvalid := validOperand_common hva hvb hcommon
  have hnr := element_not_reference hvalid
  have valid : ∀ {u : Ty}, u.core = t.core → validOperand op u = true := by
    intro u hu
    rw [← validOperand_core, hu, validOperand_core]
    exact hvalid
  rw [checkBinary_generic _ _ _ hop]
  refine Quiet.type hl₂ hl₁.type_eq fun s₂ hs₂ hsout => Quiet.type hr₂ hr₁.type_eq fun w₂ hw₂ hwout => ?_
  have hs := Ty.core_rvalue_of_core (hl₁.core_of_bare hsout rfl) hnr
  have hw := Ty.core_rvalue_of_core (hr₁.core_of_bare hwout rfl) hnr
  have hs' := Ty.core_rvalue_of_core hs hnr
  have hw' := Ty.core_rvalue_of_core hw hnr
  obtain ⟨hagain, hbare, -⟩ := Ty.common_of_core hcore hnr hs' hw'
  have hout : s₂.rvalue.rvalue.rvalue.outline = t.outline := by
    rw [Ty.outline_eq_bare (element_of_valid (valid (Ty.core_rvalue_of_core hs' hnr))),
      Ty.outline_eq_bare (element_of_valid hvalid), hbare]
  dsimp only
  rw [(validOperand_flat (valid hs)).1, (validOperand_flat (valid hs)).2, (validOperand_flat (valid hw)).1,
    (validOperand_flat (valid hw)).2]
  simp only [Bool.or_self, Bool.false_eq_true, if_false]
  unfold checkValues
  refine Quiet.then (checkOperands_again (valid hs') (valid hw') hagain) ?_
  refine Quiet.result (convertBoth_again (hl₁.again hl₂ hbare) (hr₁.again hr₂ hbare)) fun q hq => ?_
  refine Again.some (binary_outline ?_ hq.1 hq.2)
  dsimp only
  split
  · exact Ty.outline_eq Ty.outline_boolLike hout
  · exact hout

/-! ## Pointers -/

omit hl hr ha hb in
theorem checkBinary_pointers {a b : Ty} {P : Option Expr → Prop} (hop : BinaryOp.isComparison op = true ∨ ∃ ar, op = .arith ar)
    (ha : l.type? = some a) (hb : r.type? = some b) (hp : (a.isPointer || b.isPointer) = true)
    (h : Quiet T (checkPointers node op l r) P) : Quiet T (checkBinary node op l r) P := by
  have hflags : (a.rvalue.isPointer || b.rvalue.isPointer || a.rvalue.isArray || b.rvalue.isArray) = true := by
    have hrvalue : ∀ {t : Ty}, t.isPointer = true → t.rvalue.isPointer = true := by
      intro t ht
      rw [Ty.rvalue_isPointer, Ty.stored_of_not_reference (Ty.isReference_of_pointer ht), ht]
    rcases Bool.or_eq_true_iff.mp hp with ht | ht
    · rw [hrvalue ht, Bool.true_or, Bool.true_or, Bool.true_or]
    · rw [hrvalue ht, Bool.or_true, Bool.true_or, Bool.true_or]
  rw [checkBinary_generic _ _ _ hop]
  refine Quiet.read (type_ok ha) (Quiet.read (type_ok hb) ?_)
  dsimp only
  rw [if_pos hflags]
  exact h

omit hl hr ha hb in
theorem checkPointers_arith {ar : ArithOp} {a b : Ty} {P : Option Expr → Prop} (hop : ar = .add ∨ ar = .sub)
    (ha : l.type? = some a) (hb : r.type? = some b) (h : Quiet T (match decayed a, decayed b with
      | .pointer p _ _, .pointer q _ _ => subtractPointers node (.arith ar) l r (decayed a) (decayed b) p q
      | .pointer .., _ => offsetPointer node (.arith ar) l r (decayed a) (decayed b) true
      | _, _ => offsetPointer node (.arith ar) l r (decayed a) (decayed b) false) P) :
    Quiet T (checkPointers node (.arith ar) l r) P := by
  unfold checkPointers
  refine Quiet.read (type_ok ha) (Quiet.read (type_ok hb) ?_)
  dsimp only
  rw [if_neg (by exact Bool.false_ne_true), if_neg]
  · exact h
  · rintro ⟨hadd, hsub⟩
    exact hop.elim (fun h => hadd (congrArg BinaryOp.arith h)) fun h => hsub (congrArg BinaryOp.arith h)

omit ha hb in
theorem comparePointers_endures {c : CompareOp} {a b : Ty} (ha : a.Legal) (hb : b.Legal)
    (hp : (a.rvalue.isPointer || b.rvalue.isPointer) = true) :
    Yields T (comparePointers node (.compare c) l r a b) (Endures T) := by
  unfold comparePointers
  refine Yields.bind (commonType_delivers _ _ _ _).yields (fun t ht => ?_) Yields.none
  have htp : t.isPointer = true := (Ty.common_isPointer ht).trans hp
  have hlegal := Ty.legal_common ha hb ht
  have hcore := Ty.common_core ht
  have hfill : ∀ n, fillTargets? n t = none := by
    intro n
    cases t with
    | pointer => rfl
    | _ => cases htp
  refine Yields.bind (convertBoth_yields (convert_converted hl hlegal (fun _ _ _ => hfill _) _)
    (convert_converted hr hlegal (fun _ _ _ => hfill _) _)) (fun p h => ?_) Yields.none
  obtain ⟨⟨s, hl₁⟩, w, hr₁⟩ := h
  refine Yields.some ⟨rfl, binary_lasts hl₁.checked hl₁.lasts hr₁.checked hr₁.lasts fun l₂ r₂ hl₂ hr₂ => ?_⟩
  obtain ⟨s₂, hs₂, hsout⟩ := type_of_outline hl₂ hl₁.type_eq
  obtain ⟨w₂, hw₂, hwout⟩ := type_of_outline hr₂ hr₁.type_eq
  have hs := hl₁.core_of_bare hsout rfl
  have hw := hr₁.core_of_bare hwout rfl
  have hsp : s₂.isPointer = true := (Ty.isPointer_eq hs).trans htp
  have hwp : w₂.isPointer = true := (Ty.isPointer_eq hw).trans htp
  obtain ⟨hagain, hbare, -⟩ := Ty.common_of_core hcore (Ty.isReference_of_pointer htp) ((decayed_of_pointer hsp).trans hs)
    ((decayed_of_pointer hwp).trans hw)
  refine checkBinary_pointers _ _ (.inl rfl) hs₂ hw₂ (by rw [hsp]; rfl) ?_
  unfold checkPointers
  refine Quiet.read (type_ok hs₂) (Quiet.read (type_ok hw₂) ?_)
  show Quiet T (comparePointers _ _ l₂ r₂ (decayed s₂) (decayed w₂)) _
  unfold comparePointers
  refine Quiet.then (commonType_again hagain) ?_
  refine Quiet.result (convertBoth_again (hl₁.again hl₂ hbare) (hr₁.again hr₂ hbare)) fun q hq => ?_
  rw [Ty.eq_of_bare Ty.variability_bare hbare]
  exact Again.some (binary_outline rfl hq.1 hq.2)

omit ha hb in
theorem subtractPointers_endures {ar : ArithOp} (hop : ar = .add ∨ ar = .sub) {p q : Ty} {qa qb : Qualifiers} {oa ob : Origin}
    (ha : p.Legal) (hb : q.Legal) (hca : qa.isConst = false) (hcb : qb.isConst = false) :
    Yields T (subtractPointers node (.arith ar) l r (.pointer p qa oa) (.pointer q qb ob) p q) (Endures T) := by
  unfold subtractPointers
  split
  · exact Yields.reject _ _
  · rename_i hadd
    have hsub : ar = .sub := hop.resolve_left fun h => hadd (congrArg BinaryOp.arith h)
    subst hsub
    split
    · exact Yields.reject _ _
    · rename_i hpq
      split
      · exact Yields.reject _ _
      · rename_i hvoid
        refine Yields.target ?_
        dsimp only
        generalize hv : (Ty.pointer p qa oa).variability.join (Ty.pointer q qb ob).variability = v
        have hlp : ((Ty.pointer p qa oa).withVariability v).Legal := ha
        have hlq : ((Ty.pointer q qb ob).withVariability v).Legal := hb
        refine Yields.bind (convertBoth_yields (convert_converted hl hlp (fun _ _ _ => rfl) _)
          (convert_converted hr hlq (fun _ _ _ => rfl) _)) (fun x h => ?_) Yields.none
        obtain ⟨⟨s, hl₁⟩, w, hr₁⟩ := h
        -- checked again, both operands are pointers to what they pointed to, with the variability they were brought to
        refine Yields.some ⟨rfl, binary_lasts hl₁.checked hl₁.lasts hr₁.checked hr₁.lasts fun l₂ r₂ hl₂ hr₂ => ?_⟩
        obtain ⟨s₂, hs₂, hsout⟩ := type_of_outline hl₂ hl₁.type_eq
        obtain ⟨w₂, hw₂, hwout⟩ := type_of_outline hr₂ hr₁.type_eq
        obtain ⟨p', rp, op', rfl, hp', hvp⟩ := pointer_of_core (hl₁.core_of_bare hsout rfl)
        obtain ⟨q', rq, oq', rfl, hq', hvq⟩ := pointer_of_core (hr₁.core_of_bare hwout rfl)
        dsimp only at hvp hvq
        refine checkBinary_pointers _ _ (.inr ⟨_, rfl⟩) hs₂ hw₂ rfl (checkPointers_arith _ (.inr rfl) hs₂ hw₂ ?_)
        show Quiet T (subtractPointers _ _ l₂ r₂ (.pointer p' { rp with isConst := false })
          (.pointer q' { rq with isConst := false }) p' q') _
        have hsame : p'.sameIgnoringConst q' = p.sameIgnoringConst q := by
          rw [← Ty.sameIgnoringConst_bare, hp', hq', Ty.sameIgnoringConst_bare]
        have hjoin : (Ty.pointer p' { rp with isConst := false }).variability.join
            (Ty.pointer q' { rq with isConst := false }).variability = v := by
          show rp.variability.join rq.variability = v
          rw [hvp, hvq, Variability.join_self]
        unfold subtractPointers
        rw [if_neg hadd, hsame, if_neg hpq, Ty.eq_of_bare Ty.isVoid_bare hp', if_neg hvoid]
        refine Quiet.target ?_
        dsimp only
        rw [hjoin]
        refine Quiet.result (convertBoth_again (hl₁.again hl₂ ?_) (hr₁.again hr₂ ?_)) fun y hy => ?_
        · simp only [Ty.withVariability, Ty.bare, hp', hca]
        · simp only [Ty.withVariability, Ty.bare, hq', hcb]
        · exact Again.some (binary_outline rfl hy.1 hy.2)

omit ha hb hl hr in
/-- A pointer keeps its pointee when it is shifted, so that it is shifted to the same type again. -/
theorem shift_converted {e : Expr} {t p : Ty} {q : Qualifiers} {o : Origin} {v : Variability} (he : Durable T e)
    (hs : e.type? = some t) (hd : decayed t = .pointer p q o) (hp : p.Legal) (context : String) :
    Yields T (convert e (.pointer p ⟨v, false⟩) context) fun c => ∃ s, Converted T (.pointer p ⟨v, false⟩) s c ∧
      ∀ s' : Ty, s'.outline = s.outline → ∃ p' r o', s' = .pointer p' r o' ∧ p'.outline = p.outline ∧ r.variability = v := by
  have hlegal : (Ty.pointer p ⟨v, false⟩).Legal := hp
  refine Yields.mono (Yields.and (convert_converted he hlegal (fun _ _ _ => rfl) context)
    (convert_retains hs context he fun _ _ _ => rfl)) fun c h => ?_
  obtain ⟨⟨s, hc⟩, u, hu, hret⟩ := h
  obtain rfl : s = u := Option.some.inj (hc.type_eq.symm.trans hu)
  exact ⟨s, hc, fun s' hout => pointer_of_shifted hd hc.core_eq hret hout⟩

omit hb in
theorem offsetLeft_endures {ar : ArithOp} (hop : ar = .add ∨ ar = .sub) {p b' : Ty} {q : Qualifiers} {o : Origin}
    (hd : decayed a = .pointer p q o) (hp : p.Legal) :
    Yields T (offsetPointer node (.arith ar) l r (.pointer p q o) b' true) (Endures T) := by
  unfold offsetPointer
  simp only [if_true, Bool.not_true, Bool.false_eq_true, and_false, if_false]
  split
  · exact Yields.reject _ _
  · split
    · exact Yields.reject _ _
    · rename_i hvoid
      refine Yields.target ?_
      generalize hv : (Ty.pointer p q o).variability.join b'.variability = v
      have hshift : ((Ty.pointer p q o).withVariability v).asNonConst = .pointer p ⟨v, false⟩ := rfl
      obtain ⟨hsl, -⟩ := Ty.sizeType_withVariability T b'.variability
      rw [hshift]
      refine Yields.bind (convertBoth_yields (shift_converted hl ha hd hp _)
        (convert_converted hr hsl (fun _ _ _ => fillTargets_size _ _ _) _)) (fun x h => ?_) Yields.none
      obtain ⟨⟨s, hl₁, hshifted⟩, w, hr₁⟩ := h
      refine Yields.some ⟨rfl, binary_lasts hl₁.checked hl₁.lasts hr₁.checked hr₁.lasts fun l₂ r₂ hl₂ hr₂ => ?_⟩
      obtain ⟨s₂, hs₂, hsout⟩ := type_of_outline hl₂ hl₁.type_eq
      obtain ⟨w₂, hw₂, hwout⟩ := type_of_outline hr₂ hr₁.type_eq
      obtain ⟨p', rp, op', rfl, hp', hvp⟩ := hshifted s₂ hsout
      obtain ⟨k, rfl, hinteger, hvw⟩ := size_of_core (hr₁.core_of_bare hwout rfl)
      refine checkBinary_pointers _ _ (.inr ⟨_, rfl⟩) hs₂ hw₂ rfl (checkPointers_arith _ hop hs₂ hw₂ ?_)
      show Quiet T (offsetPointer _ _ l₂ r₂ (.pointer p' { rp with isConst := false }) (Ty.scalar k).rvalue true) _
      have hjoin : (Ty.pointer p' { rp with isConst := false }).variability.join (Ty.scalar k).rvalue.variability = v := by
        show rp.variability.join _ = v
        rw [hvp, hvw, ← hv, Variability.join_right]
      have hvoid' : (Ty.pointer p' { rp with isConst := false }).isVoidPointer = (Ty.pointer p q o).isVoidPointer :=
        (Ty.eq_of_bare Ty.isVoid_bare (Ty.bare_of_outline hp') : p'.isVoid = p.isVoid)
      unfold offsetPointer
      simp only [if_true, Bool.not_true, Bool.false_eq_true, and_false, if_false, hinteger, hvoid', hvoid, hjoin]
      refine Quiet.target ?_
      rw [hvw]
      refine Quiet.result (convertBoth_again (hl₁.again hl₂ ?_) (hr₁.again hr₂ rfl)) fun y hy => ?_
      · exact congrArg (Ty.pointer · ⟨v, false⟩) (Ty.bare_of_outline hp')
      · exact Again.some (binary_outline (congrArg (Ty.pointer · ⟨v, false⟩) hp') hy.1 hy.2)

omit ha in
theorem offsetRight_endures {ar : ArithOp} (hop : ar = .add ∨ ar = .sub) {p a' : Ty} {q : Qualifiers} {o : Origin}
    (hd : decayed b = .pointer p q o) (hp : p.Legal) :
    Yields T (offsetPointer node (.arith ar) l r a' (.pointer p q o) false) (Endures T) := by
  unfold offsetPointer
  simp only [Bool.false_eq_true, if_false, Bool.not_false, and_true]
  split
  · exact Yields.reject _ _
  · rename_i hsub
    split
    · exact Yields.reject _ _
    · split
      · exact Yields.reject _ _
      · rename_i hvoid
        refine Yields.target ?_
        generalize hv : a'.variability.join (Ty.pointer p q o).variability = v
        have hshift : ((Ty.pointer p q o).withVariability v).asNonConst = .pointer p ⟨v, false⟩ := rfl
        obtain ⟨hsl, -⟩ := Ty.sizeType_withVariability T a'.variability
        rw [hshift]
        refine Yields.bind (convertBoth_yields (convert_converted hl hsl (fun _ _ _ => fillTargets_size _ _ _) _)
          (shift_converted hr hb hd hp _)) (fun x h => ?_) Yields.none
        obtain ⟨⟨s, hl₁⟩, w, hr₁, hshifted⟩ := h
        refine Yields.some ⟨rfl, binary_lasts hl₁.checked hl₁.lasts hr₁.checked hr₁.lasts fun l₂ r₂ hl₂ hr₂ => ?_⟩
        obtain ⟨s₂, hs₂, hsout⟩ := type_of_outline hl₂ hl₁.type_eq
        obtain ⟨w₂, hw₂, hwout⟩ := type_of_outline hr₂ hr₁.type_eq
        obtain ⟨p', rp, op', rfl, hp', hvp⟩ := hshifted w₂ hwout
        obtain ⟨k, rfl, hinteger, hvs⟩ := size_of_core (hl₁.core_of_bare hsout rfl)
        refine checkBinary_pointers _ _ (.inr ⟨_, rfl⟩) hs₂ hw₂ rfl (checkPointers_arith _ hop hs₂ hw₂ ?_)
        show Quiet T (offsetPointer _ _ l₂ r₂ (Ty.scalar k).rvalue (.pointer p' { rp with isConst := false }) false) _
        have hjoin : (Ty.scalar k).rvalue.variability.join (Ty.pointer p' { rp with isConst := false }).variability = v := by
          show (Ty.scalar k).rvalue.variability.join rp.variability = v
          rw [hvp, hvs, ← hv, Variability.join_join]
        have hvoid' : (Ty.pointer p' { rp with isConst := false }).isVoidPointer = (Ty.pointer p q o).isVoidPointer :=
          (Ty.eq_of_bare Ty.isVoid_bare (Ty.bare_of_outline hp') : p'.isVoid = p.isVoid)
        unfold offsetPointer
        simp only [Bool.false_eq_true, if_false, Bool.not_false, and_true, hsub, hinteger, Bool.not_true, hvoid', hvoid, hjoin]
        refine Quiet.target ?_
        rw [hvs]
        refine Quiet.result (convertBoth_again (hl₁.again hl₂ rfl) (hr₁.again hr₂ ?_)) fun y hy => ?_
        · exact congrArg (Ty.pointer · ⟨v, false⟩) (Ty.bare_of_outline hp')
        · exact Again.some (binary_outline (congrArg (Ty.pointer · ⟨v, false⟩) hp') hy.1 hy.2)

theorem checkPointers_endures (hp : (a.rvalue.isPointer || b.rvalue.isPointer || a.rvalue.isArray || b.rvalue.isArray) = true)
    (hop : BinaryOp.isComparison op = true ∨ ∃ ar, op = .arith ar) : Yields T (checkPointers node op l r) (Endures T) := by
  have hla := hl.operand.legal ha
  have hlb := hr.operand.legal hb
  have hpp := decayed_points hp
  unfold checkPointers
  simp only [type_ok ha, type_ok hb, lift_ok, pure_bind]
  split
  · rename_i hcmp
    cases op with
    | compare c =>
      refine comparePointers_endures hl hr node (decayed_legal hla) (decayed_legal hlb) ?_
      rw [Ty.rvalue_isPointer, Ty.rvalue_isPointer, Ty.stored_of_not_reference (decayed_isReference hla),
        Ty.stored_of_not_reference (decayed_isReference hlb)]
      exact hpp
    | _ => cases hcmp
  · rename_i hcmp
    obtain ⟨ar, rfl⟩ := hop.resolve_left hcmp
    split
    · exact Yields.reject _ _
    · rename_i hn
      have har := adds_or_subtracts hn
      have hda := decayed_legal hla
      have hdb := decayed_legal hlb
      generalize hA : decayed a = a' at *
      generalize hB : decayed b = b' at *
      split
      · exact subtractPointers_endures hl hr node har hda hdb (decayed_not_const hA) (decayed_not_const hB)
      · exact offsetLeft_endures hl hr node ha har hA hda
      · rename_i hnot _
        cases a' with
        | pointer => exact absurd rfl (hnot _ _ _)
        | _ =>
          cases b' with
          | pointer p q o => exact offsetRight_endures hl hr node hb har hB hdb
          | _ => cases hpp

theorem checkBinary_endures : Yields T (checkBinary node op l r) (Endures T) := by
  have values : (BinaryOp.isComparison op = true ∨ ∃ ar, op = .arith ar) → Yields T (checkBinary node op l r) (Endures T) := by
    intro hop
    rw [checkBinary_generic _ _ _ hop]
    simp only [type_ok ha, type_ok hb, lift_ok, pure_bind]
    split
    · rename_i hp
      exact checkPointers_endures hl hr node op ha hb hp hop
    · exact checkValues_endures hl hr node op ha hb hop
  cases op with
  | comma =>
    unfold checkBinary
    simp only [type_ok hb, lift_ok, pure_bind]
    have hcl := hl.operand.toChecked ha
    have hcr := hr.operand.toChecked hb
    refine Yields.some ⟨rfl, binary_lasts hcl (hl.lasts ha) hcr (hr.lasts hb) fun l' r' hl' hr' => ?_⟩
    unfold checkBinary
    refine Quiet.type hr' hb fun b' _ hout => Again.some (binary_outline ?_ hl' hr')
    exact Ty.outline_eq Ty.outline_rvalue hout
  | logic lo => exact checkLogic_endures hl hr node ha hb lo
  | arith ar => exact values (.inr ⟨ar, rfl⟩)
  | compare c => exact values (.inl rfl)

end

end Spmd.Check
