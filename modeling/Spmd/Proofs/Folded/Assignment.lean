import Spmd.Proofs.Folded.Operator
import Spmd.Proofs.Retyping.Assignment

/-!
# Assignments and selections of folded operands

An assignment asks its target for storage, which a folded target denotes too, and brings its value to a type that depends on the
target. A selection has the common type of its branches.
-/

namespace Spmd.Check

open Spmd.Expr

variable {T : Target} {n : Node} (n' : Node)

section
variable {c₁ c₂ d₁ d₂ u₁ u₂ : Expr} {s w : Ty} (hl : Twins c₁ d₁ u₁) (hr : Twins c₂ d₂ u₂) (hs : d₁.type? = some s)
  (hw : d₂.type? = some w)

/-! ## Assignments -/

section
include hr hw

theorem assignOf_fills {op : AssignOp} {o₁ : Option Ty} (hc₂ : c₂.isOpen = false) (p t : Ty) (context : String) :
    Yields T (do return assignOf n op d₁ t o₁ (← convert d₂ p context)) fun r =>
      ∀ {m c₁ o}, r.outline = (Expr.assign m op c₁ c₂ o).outline → w.Fills p ∧ ∃ v, r = .assign (.typed n.place t) op d₁ v o₁ := by
  refine Yields.bind (hr.fills hw hc₂ p context) (fun v hv => Yields.some fun hout => ?_) Yields.none
  simp only [outline, assign.injEq] at hout
  exact ⟨hv hout.2.2.2.1, v, rfl⟩

theorem assignOf_accepts {op : AssignOp} {o₁ o₂ : Option Ty} {p p' t t' : Ty} {v : Expr} {context : String} (hf : w.Fills p)
    (hp : p'.outline = p.outline) (ht : t'.outline = t.outline) :
    Accepts T (do return assignOf n' op u₁ t' o₂ (← convert u₂ p' context))
      (Expr.assign (.typed n.place t) op d₁ v o₁).Resembles :=
  Accepts.bind (hr.converts hw hf hp context) fun _ _ =>
    Accepts.some (.of_nodes rfl rfl (Ty.relaxed_of_outline ht) rfl rfl rfl rfl)

theorem assignPointer_follows (m : Node) {op : ArithOp} {o : Option Ty} (hc₂ : c₂.isOpen = false) {t t' : Ty}
    (ht : t'.outline = t.outline) : Yields T (assignPointer n op d₁ d₂ t) fun r =>
      r.outline = (Expr.assign m (.compound op) c₁ c₂ o).outline → Accepts T (assignPointer n' op u₁ u₂ t') r.Resembles := by
  obtain ⟨w', hw', hrw⟩ := hr.resembles.type hw
  have hbare := Ty.bare_of_outline ht
  unfold assignPointer
  simp only [type_ok hw, type_ok hw', lift_ok, pure_bind]
  split
  · exact Yields.reject _ _
  rename_i hop
  split
  · exact Yields.reject _ _
  rename_i hinteger
  split
  · exact Yields.reject _ _
  rename_i hvoid
  refine Yields.target (Yields.mono (assignOf_fills hr hw hc₂ _ _ _) fun r hfills hout => ?_)
  obtain ⟨hf, v, rfl⟩ := hfills hout
  have hlist : w.isList = false := by
    obtain ⟨size, hsize⟩ := Ty.sizeType_scalar T
    rw [hsize] at hf
    exact hf.not_list (.inl rfl)
  rw [Ty.eq_of_bare Ty.isIntegerScalar_bare (Ty.bare_of_outline (Ty.rvalue_of_relaxed hrw hlist)), if_neg hinteger,
    Ty.eq_of_bare Ty.isVoidPointer_bare hbare, if_neg hvoid, Ty.eq_of_bare Ty.variability_bare hbare]
  exact Accepts.target (assignOf_accepts n' hr hw hf rfl ht)

theorem assignCompound_follows (m : Node) {op : ArithOp} {o : Option Ty} (hc₂ : c₂.isOpen = false) {t t' : Ty}
    (ht : t'.outline = t.outline) : Yields T (assignCompound n op d₁ d₂ t) fun r =>
      r.outline = (Expr.assign m (.compound op) c₁ c₂ o).outline → Accepts T (assignCompound n' op u₁ u₂ t') r.Resembles := by
  obtain ⟨w', hw', hrw⟩ := hr.resembles.type hw
  have hbare := Ty.bare_of_outline ht
  unfold assignCompound
  simp only [type_ok hw, type_ok hw', lift_ok, pure_bind]
  refine Yields.bind (checkOperands_takes _ _ _ _) (fun x hx => ?_) Yields.none
  obtain ⟨p, result⟩ := x
  obtain ⟨hvt, hvw, hcommon, hresult⟩ := hx
  obtain rfl : result = p := hresult
  dsimp only at hcommon ⊢
  refine ifConverts_yields fun hobstacle => ?_
  refine Yields.mono (assignOf_fills hr hw hc₂ _ _ _) fun r hfills hout => ?_
  obtain ⟨hf, v, rfl⟩ := hfills hout
  have hvalid := validOperand_common hvt hvw hcommon
  have hnr := element_not_reference hvalid
  have helement := element_of_valid hvalid
  have hlist : result.isList = false := by cases result <;> first | rfl | cases helement
  have hwl : w.isList = false := by
    have hsome := element_of_valid hvw
    cases w with
    | list => cases hsome
    | _ => rfl
  have hcore := Ty.core_rvalue_of_core ((Ty.core_of_relaxed hrw hwl).trans ((Ty.fills_iff hwl).mp hf).1) hnr
  have hrvalue : t'.rvalue.bare = t.rvalue.bare := Ty.bare_of_outline (Ty.outline_eq Ty.outline_rvalue ht)
  -- the common type takes in that of the value, which was converted to it
  obtain ⟨p', hp', hpbare⟩ := Ty.common_absorbs hrvalue (element_of_valid hvt) (element_of_valid hvw) hcommon hcore
  have hvt' : validOperand (.arith op) t'.rvalue = true := by
    rw [← validOperand_core, Ty.core_of_bare hrvalue, validOperand_core]
    exact hvt
  have hvw' : validOperand (.arith op) w'.rvalue = true := by
    rw [← validOperand_core, hcore, validOperand_core]
    exact hvalid
  refine Accepts.then (checkOperands_again hvt' hvw' hp') ?_
  change Accepts T (canConvert n'.place _ false p' t' >>= _) _
  rw [canConvert_true (Ty.obstacle_of_bare (.inl ⟨hlist, hnr⟩) hpbare hbare hobstacle)]
  simp only [pure_bind, if_true]
  refine assignOf_accepts n' hr hw hf ?_ ht
  rw [Ty.outline_eq_bare (t := p') ?_, hpbare, Ty.outline_eq_bare helement]
  rw [← Ty.element_core, Ty.core_of_bare hpbare, Ty.element_core]
  exact helement

end

include hl hr hs hw

theorem checkAssign_follows {m : Node} {op : AssignOp} {o : Option Ty} (hst : d₁.Stored u₁) (hc₂ : c₂.isOpen = false) :
    Yields T (checkAssign n op d₁ d₂) fun r => r.outline = (Expr.assign m op c₁ c₂ o).outline →
      Accepts T (checkAssign n' op u₁ u₂) r.Resembles := by
  obtain ⟨s', hs', hrs, hexact⟩ := hl.resembles.typed s hs
  unfold checkAssign
  simp only [type_ok hs, type_ok hs', lift_ok, pure_bind]
  refine Gives.lift fun b hb => ?_
  split
  · exact Yields.reject _ _
  rename_i hstorage
  obtain rfl : b = true := by simpa using hstorage
  have ht := Ty.outline_eq Ty.outline_stored (hexact (denotesStorage_of_isStorage hs hb))
  have hbare := Ty.bare_of_outline ht
  split
  · exact Yields.reject _ _
  rename_i hconst
  split
  · exact Yields.reject _ _
  rename_i haggregate
  simp only [hst.isStorage hs hs' (Ty.isReference_of_relaxed hrs) hb, lift_ok, pure_bind]
  rw [if_neg hstorage, Ty.eq_of_bare Ty.isConst_bare hbare, if_neg hconst, Ty.eq_of_bare Ty.isArray_bare hbare,
    Ty.eq_of_bare Ty.isFunction_bare hbare, if_neg haggregate]
  cases op with
  | plain =>
    refine Yields.mono (assignOf_fills hr hw hc₂ _ _ _) fun r hfills hout => ?_
    obtain ⟨hf, v, rfl⟩ := hfills hout
    exact assignOf_accepts n' hr hw hf ht ht
  | compound op =>
    dsimp only
    rw [Ty.eq_of_bare Ty.isPointer_bare hbare]
    split
    · exact assignPointer_follows n' hr hw m hc₂ ht
    · exact assignCompound_follows n' hr hw m hc₂ ht

end

/-! ## Selections -/

/-- What a selection has brought its operands to. -/
structure Selected (x s w t type : Ty) : Prop where
  common : Ty.common s w = .ok t
  type_eq : type = if x.stored.isVarying then t.asVarying else t
  isReference : type.isReference = false
  core : type.core = type.bare
  test : x.Fills (.basic .bool x.stored.variability)
  left : s.core = type.core ∧ s.isList = false
  right : w.core = type.core ∧ w.isList = false

section
variable {c c₁ c₂ d d₁ d₂ : Expr} {x s w : Ty} (ht : Drawn c d) (hl : Drawn c₁ d₁) (hr : Drawn c₂ d₂) (hx : d.type? = some x)
  (hs : d₁.type? = some s) (hw : d₂.type? = some w) (hclosed : ∀ b ∈ [c, c₁, c₂], b.isOpen = false)
  (hnr : s.rvalue.isReference = false)
include ht hl hr hx hs hw hclosed hnr

theorem checkSelect_selects (m : Node) : Yields T (checkSelect n d d₁ d₂) fun r => r.outline = (Expr.select m c c₁ c₂).outline →
    ∃ t type, Selected x s w t type ∧ ∃ test a b, r = .select (.typed n.place type) test a b := by
  unfold checkSelect
  simp only [type_ok hx, type_ok hs, type_ok hw, lift_ok, pure_bind]
  refine Yields.bind (ht.fills hx (hclosed c (by simp)) _ _) (fun test htest => ?_) Yields.none
  refine Yields.bind (commonType_delivers _ _ _ _).yields (fun t hcommon => ?_) Yields.none
  dsimp only
  generalize htype : (if x.stored.isVarying = true then t.asVarying else t) = type
  have hselected : type.isReference = false ∧ type.core = type.bare ∧ type.isList = t.isList := by
    have hreference := Ty.common_isReference hnr hcommon
    have hcore := Ty.common_core hcommon
    rw [← htype]
    split
    · exact ⟨(Ty.isReference_withVariability _ t).trans hreference, Ty.core_withVariability _ hcore, by cases t <;> rfl⟩
    · exact ⟨hreference, hcore, rfl⟩
  obtain ⟨htr, htc, htl⟩ := hselected
  refine Yields.bind (convertBoth_yields (hl.fills hs (hclosed c₁ (by simp)) _ _) (hr.fills hw (hclosed c₂ (by simp)) _ _))
    (fun p hp => Yields.some fun hout => ?_) Yields.none
  simp only [outline, select.injEq] at hout
  -- a list has a common type with lists only, and fills none of them
  have closed : ∀ {z : Ty}, z.Fills type → (z.isList = true → t.isList = true) → z.core = type.core ∧ z.isList = false := by
    intro z hf hz
    have hzl : z.isList = false := by
      cases z with
      | list zs =>
        obtain ⟨-, -, us, hus, -⟩ := hf
        have hnone := (Ty.listTargets_aggregate hus).2.1
        rw [htl, hz rfl] at hnone
        cases hnone
      | _ => rfl
    exact ⟨((Ty.fills_iff hzl).mp hf).1, hzl⟩
  exact ⟨t, type, ⟨hcommon, htype.symm, htr, htc, htest hout.2.1, closed (hp.1 hout.2.2.1) fun h => Ty.common_isList hcommon (.inl h),
    closed (hp.2 hout.2.2.2) fun h => Ty.common_isList hcommon (.inr h)⟩, _, _, _, rfl⟩

end

section
variable {c c₁ c₂ d d₁ d₂ u u₁ u₂ : Expr} {x s w : Ty} (ht : Twins c d u) (hl : Twins c₁ d₁ u₁) (hr : Twins c₂ d₂ u₂)
  (hx : d.type? = some x) (hs : d₁.type? = some s) (hw : d₂.type? = some w)
include ht hl hr hx hs hw

theorem checkSelect_follows {m : Node} (hclosed : ∀ b ∈ [c, c₁, c₂], b.isOpen = false) (hnr : s.rvalue.isReference = false) :
    Yields T (checkSelect n d d₁ d₂) fun r => r.outline = (Expr.select m c c₁ c₂).outline →
      Accepts T (checkSelect n' u u₁ u₂) r.Resembles := by
  obtain ⟨x', hx', hrx⟩ := ht.resembles.type hx
  obtain ⟨s', hs', hrs⟩ := hl.resembles.type hs
  obtain ⟨w', hw', hrw⟩ := hr.resembles.type hw
  have htruth := Ty.stored_variability_of_relaxed hrx
  have hvarying : x'.stored.isVarying = x.stored.isVarying := congrArg (· == Variability.varying) htruth
  refine Yields.mono (checkSelect_selects ht.toDrawn hl.toDrawn hr.toDrawn hx hs hw hclosed hnr m) fun r hr' hout => ?_
  obtain ⟨t, type, hsel, test, a, b, rfl⟩ := hr' hout
  obtain ⟨t', ht', hout'⟩ := Ty.common_alike hsel.common hsel.core hsel.isReference hsel.left.1 hsel.right.1 hsel.left.2 hsel.right.2
    hrs hrw
  have htype : (if x.stored.isVarying = true then t'.asVarying else t').outline = type.outline := by
    rw [hsel.type_eq]
    split
    · exact Ty.outline_eq Ty.outline_asVarying hout'
    · exact hout'
  have hfills : ∀ {z : Ty}, z.core = type.core ∧ z.isList = false → z.Fills type := fun h =>
    Ty.fills_of_core h.2 hsel.isReference h.1
  unfold checkSelect
  simp only [type_ok hx', type_ok hs', type_ok hw', lift_ok, pure_bind, htruth, hvarying]
  refine Accepts.bind (ht.converts hx hsel.test rfl _) fun test' _ => ?_
  refine Accepts.then (commonType_again ht') ?_
  unfold convertBoth
  simp only [bind_assoc]
  refine Accepts.bind (hl.converts hs (hfills hsel.left) htype _) fun a _ => ?_
  refine Accepts.bind (hr.converts hw (hfills hsel.right) htype _) fun b _ => ?_
  simp only [pure_bind]
  exact Accepts.some (.of_nodes rfl rfl (Ty.relaxed_of_outline htype) rfl rfl rfl rfl)

end

end Spmd.Check
