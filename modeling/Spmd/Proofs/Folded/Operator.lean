import Spmd.Proofs.Folded.Conversion
import Spmd.Proofs.Retyping.Operator

/-!
# Operators on folded operands

An operator that takes its operands when its node is checked again takes operands that resemble them, and what it makes of
them resembles what it made before.
-/

namespace Spmd

namespace Ty

theorem element_boolLike (t : Ty) : t.boolLike.element?.isSome = true := by cases t <;> rfl

/-- Scalars and vectors have no members, so that their cores are their outlines but for `const`. -/
theorem shape_of_core {t p : Ty} (hp : p.element?.isSome = true) (h : t.core = p.core) : t.asNonConst.outline = p.core := by
  rw [← element_core, ← h, element_core] at hp
  rw [← h]
  refine outline_eq_bare ?_
  cases t <;> exact hp

theorem not_list_of_pointer {t : Ty} (h : t.isPointer = true) : t.isList = false := by
  cases t with
  | pointer => rfl
  | _ => cases h

theorem rvalue_of_pointer {t : Ty} (h : t.isPointer = true) : t.rvalue.isPointer = true := by
  rwa [rvalue_isPointer, stored_of_not_reference (isReference_of_pointer h)]

theorem common_alike {a b t w a' b' : Ty} (h : common a b = .ok t) (hw : w.core = w.bare) (hr : w.isReference = false)
    (ha : a.core = w.core) (hb : b.core = w.core) (hl : a.isList = false) (hm : b.isList = false)
    (ha' : a'.relaxed = a.relaxed) (hb' : b'.relaxed = b.relaxed) : ∃ t', common a' b' = .ok t' ∧ t'.outline = t.outline := by
  obtain ⟨hcommon, -⟩ := common_of_core hw hr ha hb
  rw [hcommon] at h
  cases h
  obtain ⟨hcommon', -⟩ := common_of_core hw hr ((core_of_relaxed ha' hl).trans ha) ((core_of_relaxed hb' hm).trans hb)
  exact ⟨_, hcommon', rvalue_of_relaxed ha' hl⟩

end Ty

namespace Expr

theorem Resembles.of_nodes {e u : Expr} {t t' : Ty} (he : e.type? = some t) (hu : u.type? = some t') (h : t'.relaxed = t.relaxed)
    (hk : e.isSpecial = false) (hc : u.awaitsTarget = false) (ha : e.addressType = .ok none) (hua : u.addressType = .ok none) :
    e.Resembles u := .of_unplaced he hu (.closed hc hu) hk h ha fun _ => hua

end Expr

namespace Check

open Spmd.Expr

variable {T : Target} {n : Node} (n' : Node)

/-- What another check gives of a child of a checked node. -/
structure Drawn (c d : Expr) : Prop where
  tolerant : Everywhere Tolerant c
  redrawn : c.Redrawn d
  typed : ∃ t, d.type? = some t

theorem Drawn.fills {c d : Expr} {s : Ty} (h : Drawn c d) (hs : d.type? = some s) (hc : c.isOpen = false) (p : Ty)
    (context : String) : Yields T (convert d p context) fun r => r.outline = c.outline → s.Fills p :=
  convert_fills h.tolerant hc h.redrawn hs

/-- What checks give of a child as it is, and of the child when it is folded. -/
structure Twins (c d u : Expr) : Prop extends Drawn c d where
  resembles : d.Resembles u

section
variable {c d u : Expr} {s : Ty} (h : Twins c d u) (hs : d.type? = some s)
include h hs

theorem Twins.converts {p p' : Ty} (hf : s.Fills p) (hp : p'.outline = p.outline) (context : String) :
    Accepts T (convert u p' context) fun r => s.isList = false → ∃ t, r.type? = some t ∧ t.core = p.core := by
  obtain ⟨s', hs', hrelaxed⟩ := h.resembles.type hs
  refine Accepts.mono (convert_accepts h.resembles.determined hs' (hf.congr hrelaxed hp)) fun r hr hl => ?_
  obtain ⟨t, ht, hcore⟩ := hr ((Ty.isList_of_relaxed hrelaxed).trans hl)
  exact ⟨t, ht, hcore.trans (Ty.core_of_bare (Ty.bare_of_outline hp))⟩

theorem Twins.kept_type {e : Expr} {p : Ty} (hl : s.isList = false) (hf : s.Fills p) (hout : e.outline = c.outline) :
    ∃ t, e.type? = some t ∧ t.core = p.core := by
  obtain ⟨t, ht, htout⟩ := type_of_outline (hout.trans (h.redrawn.outline_eq hs hl).symm) hs
  exact ⟨t, ht, (Ty.core_of_bare (Ty.bare_of_outline htout)).trans ((Ty.fills_iff hl).mp hf).1⟩

/-! ## Unary operators -/

theorem checkUnary_follows {m : Node} (hc : c.isOpen = false) (op : ValueOp) : Yields T (checkUnary n op d) fun r =>
    r.outline = (Expr.unary m op c).outline → Accepts T (checkUnary n' op u) r.Resembles := by
  obtain ⟨s', hs', hrelaxed⟩ := h.resembles.type hs
  have hrvalue := Ty.rvalue_relaxed hrelaxed
  have used : (Expr.unary (.typed n.place s.rvalue) op d).Resembles (.unary (.typed n'.place s'.rvalue) op u) :=
    .of_nodes rfl rfl hrvalue rfl rfl rfl rfl
  -- the operand has elements, and is no list
  have alike : s.isList = false → s'.rvalue.bare = s.rvalue.bare := fun hl => Ty.bare_of_outline (Ty.rvalue_of_relaxed hrelaxed hl)
  unfold checkUnary
  simp only [type_ok hs, type_ok hs', lift_ok, pure_bind]
  cases op with
  | neg =>
    dsimp only
    split
    · rename_i hn
      have hl : s.isList = false := by cases s <;> first | rfl | cases hn
      refine Yields.some fun _ => ?_
      rw [if_pos (Ty.eq_of_bare Ty.isNumeric_bare (alike hl) ▸ hn)]
      exact Accepts.some used
    · exact Yields.reject _ _
  | complement =>
    dsimp only
    split
    · rename_i hn
      have hl : s.isList = false := by cases s <;> first | rfl | cases hn
      refine Yields.some fun _ => ?_
      rw [if_pos (Ty.eq_of_bare Ty.isInteger_bare (alike hl) ▸ hn)]
      exact Accepts.some used
    · exact Yields.reject _ _
  | not =>
    refine Yields.bind (h.fills hs hc _ _) (fun r hr => ?_) Yields.none
    refine Gives.lift fun t ht => Yields.some fun hout => ?_
    have hrout : r.outline = c.outline := by
      simp only [outline, unary.injEq] at hout
      exact hout.2.2
    have hfills := hr hrout
    have hl : s.isList = false := by
      cases s with
      | list =>
        obtain ⟨-, -, us, hus, -⟩ := hfills
        cases hus
      | _ => rfl
    have hbool := Ty.element_boolLike s.rvalue
    refine Accepts.bind (h.converts hs hfills (Ty.outline_eq Ty.outline_boolLike (Ty.rvalue_of_relaxed hrelaxed hl)) _)
      fun r' hr' => ?_
    obtain ⟨t', ht', hcore'⟩ := hr' hl
    obtain ⟨t₁, ht₁, hcore⟩ := h.kept_type hs hl hfills hrout
    obtain rfl : t = t₁ := Option.some.inj ((type?_of_ok ht).symm.trans ht₁)
    refine Accepts.read (type_ok ht') (Accepts.some (.of_nodes rfl rfl (Ty.relaxed_of_outline ?_) rfl rfl rfl rfl))
    rw [Ty.shape_of_core hbool hcore', Ty.shape_of_core hbool hcore]

theorem checkStep_follows (hst : d.Stored u) (step : Step) : Yields T (checkStep n step d) fun r =>
    Accepts T (checkStep n' step u) r.Resembles := by
  obtain ⟨s', hs', hrelaxed, hexact⟩ := h.resembles.typed s hs
  unfold checkStep
  simp only [type_ok hs, type_ok hs', lift_ok, pure_bind]
  refine Gives.lift fun b hb => ?_
  split
  · exact Yields.reject _ _
  · rename_i hstorage
    obtain rfl : b = true := by simpa using hstorage
    have hout := hexact (denotesStorage_of_isStorage hs hb)
    have hstored := Ty.bare_of_outline (Ty.outline_eq Ty.outline_stored hout)
    have hrvalue := Ty.outline_eq Ty.outline_rvalue hout
    split
    · exact Yields.reject _ _
    · rename_i hconst
      refine Yields.bind (stepAmount_steps n step _) (fun amount hstep => Yields.some ?_) Yields.none
      refine Accepts.read (hst.isStorage hs hs' (Ty.isReference_of_relaxed hrelaxed) hb) ?_
      rw [if_neg hstorage, Ty.eq_of_bare Ty.isConst_bare hstored, if_neg hconst]
      refine Accepts.bind (stepAmount_again n' step ?_).accepts fun amount' _ => Accepts.some ?_
      · rwa [Ty.eq_of_bare isSteppable_bare (Ty.bare_of_outline hrvalue)]
      · exact .of_nodes rfl rfl (Ty.relaxed_of_outline hrvalue) rfl rfl rfl rfl

end

/-! ## Two operands -/

section
variable {c₁ c₂ d₁ d₂ u₁ u₂ : Expr} {s w : Ty} (hl : Twins c₁ d₁ u₁) (hr : Twins c₂ d₂ u₂) (hs : d₁.type? = some s)
  (hw : d₂.type? = some w)
include hl hr hs hw

theorem binaryOf_fills (m : Node) {op : BinaryOp} (reported : Bool) (hc₁ : c₁.isOpen = false) (hc₂ : c₂.isOpen = false)
    (a b t : Ty) (context : String) : Yields T (do return binaryOf n op t (← convertBoth d₁ a d₂ b context)) fun r =>
      r.outline = (Expr.binary m op c₁ c₂ reported).outline → s.Fills a ∧ w.Fills b ∧
        ∃ x y, r = .binary (.typed n.place t) op x y false := by
  refine Yields.bind (convertBoth_yields (hl.fills hs hc₁ a context) (hr.fills hw hc₂ b context)) (fun p hp => ?_) Yields.none
  refine Yields.some fun hout => ?_
  simp only [outline, binary.injEq] at hout
  exact ⟨hp.1 hout.2.2.1, hp.2 hout.2.2.2.1, _, _, rfl⟩

theorem binaryOf_accepts {op : BinaryOp} {a a' b b' t t' : Ty} {x y : Expr} {context : String} (hfa : s.Fills a) (hfb : w.Fills b)
    (ha : a'.outline = a.outline) (hb : b'.outline = b.outline) (ht : t'.relaxed = t.relaxed) :
    Accepts T (do return binaryOf n' op t' (← convertBoth u₁ a' u₂ b' context))
      (Expr.binary (.typed n.place t) op x y false).Resembles := by
  unfold convertBoth
  simp only [bind_assoc]
  refine Accepts.bind (hl.converts hs hfa ha context) fun l _ => Accepts.bind (hr.converts hw hfb hb context) fun r _ => ?_
  simp only [pure_bind]
  exact Accepts.some (.of_nodes rfl rfl ht rfl rfl rfl rfl)

/-! ## Pointers -/

omit hl hr hs hw in
theorem decayed_of_outline {t t' : Ty} (h : t'.rvalue.outline = t.rvalue.outline) : (decayed t').outline = (decayed t).outline := by
  unfold decayed
  cases hrv : t.rvalue with
  | array e m o =>
    rw [hrv] at h
    cases hrv' : t'.rvalue with
    | array =>
      rw [hrv'] at h
      exact congrArg (Ty.pointer · _) (Ty.array.inj h).1
    | _ =>
      rw [hrv'] at h
      cases h
  | _ =>
    rw [hrv] at h
    cases hrv' : t'.rvalue with
    | array =>
      rw [hrv'] at h
      cases h
    | _ =>
      rw [hrv'] at h
      exact h

theorem comparePointers_follows (m : Node) {c : CompareOp} (reported : Bool) (hc₁ : c₁.isOpen = false) (hc₂ : c₂.isOpen = false)
    (hp : ((decayed s).isPointer || (decayed w).isPointer) = true) :
    Yields T (comparePointers n (.compare c) d₁ d₂ (decayed s) (decayed w)) fun r =>
      r.outline = (Expr.binary m (.compare c) c₁ c₂ reported).outline → s.isList = false ∧ w.isList = false ∧
        ∀ a b, a.outline = (decayed s).outline → b.outline = (decayed w).outline →
          Accepts T (comparePointers n' (.compare c) u₁ u₂ a b) r.Resembles := by
  unfold comparePointers
  refine Yields.bind (commonType_delivers _ _ _ _).yields (fun t ht => ?_) Yields.none
  refine Yields.mono (binaryOf_fills hl hr hs hw m reported hc₁ hc₂ _ _ _ _) fun r hr' hout => ?_
  obtain ⟨hfs, hfw, x, y, rfl⟩ := hr' hout
  have htp : t.isPointer = true := by
    rw [Ty.common_isPointer ht]
    exact Bool.or_eq_true_iff.mpr ((Bool.or_eq_true_iff.mp hp).imp Ty.rvalue_of_pointer Ty.rvalue_of_pointer)
  have hsl := hfs.not_list (.inr (.inr (.inl htp)))
  have hwl := hfw.not_list (.inr (.inr (.inl htp)))
  have pointers : ∀ {s : Ty}, s.isList = false → s.Fills t → (decayed s).core = t.core ∧ (decayed s).isList = false := by
    intro s hl hf
    have hcore := ((Ty.fills_iff hl).mp hf).1
    have hdecayed := (decayed_of_pointer ((Ty.isPointer_eq hcore).trans htp)).trans hcore
    exact ⟨hdecayed, Ty.not_list_of_pointer ((Ty.isPointer_eq hdecayed).trans htp)⟩
  obtain ⟨hds, hdl⟩ := pointers hsl hfs
  obtain ⟨hdw, hdl'⟩ := pointers hwl hfw
  refine ⟨hsl, hwl, fun a b ha hb => ?_⟩
  obtain ⟨t', ht', hout'⟩ := Ty.common_alike ht (Ty.common_core ht) (Ty.isReference_of_pointer htp) hds hdw hdl hdl'
    (Ty.relaxed_of_outline ha) (Ty.relaxed_of_outline hb)
  refine Accepts.then (commonType_again ht') ?_
  dsimp only
  rw [Ty.eq_of_bare Ty.variability_bare (Ty.bare_of_outline hout')]
  exact binaryOf_accepts n' hl hr hs hw hfs hfw hout' hout' rfl

theorem subtractPointers_follows (m : Node) {op : BinaryOp} (reported : Bool) (hc₁ : c₁.isOpen = false) (hc₂ : c₂.isOpen = false)
    {a b p q : Ty} (ha : a.isPointer = true) (hb : b.isPointer = true) :
    Yields T (subtractPointers n op d₁ d₂ a b p q) fun r =>
      r.outline = (Expr.binary m op c₁ c₂ reported).outline → s.isList = false ∧ w.isList = false ∧
        ∀ a' b' p' q', a'.outline = a.outline → b'.outline = b.outline → p'.outline = p.outline → q'.outline = q.outline →
          Accepts T (subtractPointers n' op u₁ u₂ a' b' p' q') r.Resembles := by
  have pointer : ∀ {t : Ty} (v : Variability), t.isPointer = true → (t.withVariability v).isPointer = true :=
    fun v h => (Ty.isPointer_withVariability v _).trans h
  unfold subtractPointers
  split
  · exact Yields.reject _ _
  split
  · exact Yields.reject _ _
  split
  · exact Yields.reject _ _
  rename_i hadd hpq hvoid
  refine Yields.target ?_
  refine Yields.mono (binaryOf_fills hl hr hs hw m reported hc₁ hc₂ _ _ _ _) fun r hr' hout => ?_
  obtain ⟨hfs, hfw, x, y, rfl⟩ := hr' hout
  refine ⟨hfs.not_list (.inr (.inr (.inl (pointer _ ha)))), hfw.not_list (.inr (.inr (.inl (pointer _ hb)))), ?_⟩
  intro a' b' p' q' ha' hb' hp' hq'
  have hsame : p'.sameIgnoringConst q' = p.sameIgnoringConst q := by
    rw [← Ty.sameIgnoringConst_bare, Ty.bare_of_outline hp', Ty.bare_of_outline hq', Ty.sameIgnoringConst_bare]
  have hva := Ty.eq_of_bare Ty.variability_bare (Ty.bare_of_outline ha')
  have hvb := Ty.eq_of_bare Ty.variability_bare (Ty.bare_of_outline hb')
  rw [hsame, if_neg hpq, Ty.eq_of_bare Ty.isVoid_bare (Ty.bare_of_outline hp'), if_neg hvoid, hva, hvb]
  refine Accepts.target ?_
  exact binaryOf_accepts n' hl hr hs hw hfs hfw (Ty.outline_eq (Ty.outline_withVariability _) ha')
    (Ty.outline_eq (Ty.outline_withVariability _) hb') rfl

theorem offsetPointer_follows (m : Node) {op : BinaryOp} (reported : Bool) (hc₁ : c₁.isOpen = false) (hc₂ : c₂.isOpen = false)
    {a b : Ty} (left : Bool) (hp : (if left then a else b).isPointer = true) :
    Yields T (offsetPointer n op d₁ d₂ a b left) fun r =>
      r.outline = (Expr.binary m op c₁ c₂ reported).outline → s.isList = false ∧ w.isList = false ∧
        ∀ a' b', a'.outline = a.outline → b'.outline = b.outline →
          Accepts T (offsetPointer n' op u₁ u₂ a' b' left) r.Resembles := by
  have not_list : ∀ {s p : Ty} {v : Variability}, p.isPointer = true → s.Fills (p.withVariability v).asNonConst →
      s.isList = false := by
    intro s p v hp hf
    have hpointer := (Ty.isPointer_withVariability v p).trans hp
    exact hf.not_list (.inr (.inr (.inl ((Ty.isPointer_eq (Ty.core_asNonConst _)).trans hpointer))))
  have not_list_size : ∀ {s : Ty} {v : Variability}, s.Fills (T.sizeType.withVariability v) → s.isList = false := by
    intro s v hf
    obtain ⟨size, hsize⟩ := Ty.sizeType_scalar T
    rw [hsize] at hf
    exact hf.not_list (.inl rfl)
  have shifted : ∀ {p p' : Ty} (v : Variability), p'.outline = p.outline →
      (p'.withVariability v).asNonConst.outline = (p.withVariability v).asNonConst.outline :=
    fun v h => Ty.outline_eq Ty.outline_asNonConst (Ty.outline_eq (Ty.outline_withVariability v) h)
  -- the two orders ask the same of the pointer and the integer, except that nothing is subtracted from an integer
  unfold offsetPointer
  cases left with
  | true =>
    simp only [if_true, Bool.not_true, Bool.false_eq_true, and_false, if_false]
    split
    · exact Yields.reject _ _
    split
    · exact Yields.reject _ _
    rename_i hinteger hvoid
    refine Yields.target (Yields.mono (binaryOf_fills hl hr hs hw m reported hc₁ hc₂ _ _ _ _) fun r hr' hout => ?_)
    obtain ⟨hfs, hfw, x, y, rfl⟩ := hr' hout
    refine ⟨not_list hp hfs, not_list_size hfw, fun a' b' ha' hb' => ?_⟩
    rw [Ty.eq_of_bare Ty.isIntegerScalar_bare (Ty.bare_of_outline hb'), if_neg hinteger,
      Ty.eq_of_bare Ty.isVoidPointer_bare (Ty.bare_of_outline ha'), if_neg hvoid,
      Ty.eq_of_bare Ty.variability_bare (Ty.bare_of_outline ha'), Ty.eq_of_bare Ty.variability_bare (Ty.bare_of_outline hb')]
    exact Accepts.target (binaryOf_accepts n' hl hr hs hw hfs hfw (shifted _ ha') rfl (Ty.relaxed_of_outline (shifted _ ha')))
  | false =>
    simp only [Bool.false_eq_true, if_false, Bool.not_false, and_true]
    split
    · exact Yields.reject _ _
    split
    · exact Yields.reject _ _
    split
    · exact Yields.reject _ _
    rename_i hsub hinteger hvoid
    refine Yields.target (Yields.mono (binaryOf_fills hl hr hs hw m reported hc₁ hc₂ _ _ _ _) fun r hr' hout => ?_)
    obtain ⟨hfs, hfw, x, y, rfl⟩ := hr' hout
    refine ⟨not_list_size hfs, not_list hp hfw, fun a' b' ha' hb' => ?_⟩
    rw [Ty.eq_of_bare Ty.isIntegerScalar_bare (Ty.bare_of_outline ha'), if_neg hinteger,
      Ty.eq_of_bare Ty.isVoidPointer_bare (Ty.bare_of_outline hb'), if_neg hvoid,
      Ty.eq_of_bare Ty.variability_bare (Ty.bare_of_outline ha'), Ty.eq_of_bare Ty.variability_bare (Ty.bare_of_outline hb')]
    exact Accepts.target (binaryOf_accepts n' hl hr hs hw hfs hfw rfl (shifted _ hb') (Ty.relaxed_of_outline (shifted _ hb')))

omit hl hr hs hw in
theorem pointer_of_outline {a p : Ty} {q : Qualifiers} {o : Origin} (h : a.outline = (Ty.pointer p q o).outline) :
    ∃ p' q' o', a = .pointer p' q' o' ∧ p'.outline = p.outline := by
  cases a with
  | pointer p' q' o' => exact ⟨p', q', o', rfl, (Ty.pointer.inj h).1⟩
  | _ => cases h

/-- What an operator on two pointers makes of its operands depends on the outlines of the decayed types. -/
theorem checkPointers_follows (m : Node) {op : BinaryOp} (reported : Bool) (hc₁ : c₁.isOpen = false) (hc₂ : c₂.isOpen = false)
    (hop : BinaryOp.isComparison op = true ∨ ∃ ar, op = .arith ar)
    (hp : ((decayed s).isPointer || (decayed w).isPointer) = true) :
    Yields T (checkPointers n op d₁ d₂) fun r =>
      r.outline = (Expr.binary m op c₁ c₂ reported).outline → s.isList = false ∧ w.isList = false ∧
        Accepts T (checkPointers n' op u₁ u₂) r.Resembles := by
  obtain ⟨s', hs', hrs⟩ := hl.resembles.type hs
  obtain ⟨w', hw', hrw⟩ := hr.resembles.type hw
  -- types that are not lists decay alike
  have decays : s.isList = false → w.isList = false → (decayed s').outline = (decayed s).outline ∧
      (decayed w').outline = (decayed w).outline := fun hsl hwl =>
    ⟨decayed_of_outline (Ty.rvalue_of_relaxed hrs hsl), decayed_of_outline (Ty.rvalue_of_relaxed hrw hwl)⟩
  unfold checkPointers
  simp only [type_ok hs, type_ok hw, type_ok hs', type_ok hw', lift_ok, pure_bind]
  split
  · rename_i hcompares
    cases op with
    | compare c =>
      refine Yields.mono (comparePointers_follows n' hl hr hs hw m reported hc₁ hc₂ hp) fun r hr' hout => ?_
      obtain ⟨hsl, hwl, h⟩ := hr' hout
      exact ⟨hsl, hwl, h _ _ (decays hsl hwl).1 (decays hsl hwl).2⟩
    | _ => cases hcompares
  · split
    · exact Yields.reject _ _
    · generalize decayed s = a at *
      generalize decayed w = b at *
      generalize decayed s' = a' at *
      generalize decayed w' = b' at *
      split
      · refine Yields.mono (subtractPointers_follows n' hl hr hs hw m reported hc₁ hc₂ rfl rfl) fun r hr' hout => ?_
        obtain ⟨hsl, hwl, h⟩ := hr' hout
        obtain ⟨ha, hb⟩ := decays hsl hwl
        obtain ⟨p', q', o', rfl, hp'⟩ := pointer_of_outline ha
        obtain ⟨p'', q'', o'', rfl, hp''⟩ := pointer_of_outline hb
        exact ⟨hsl, hwl, h _ _ _ _ ha hb hp' hp''⟩
      · rename_i hnot
        refine Yields.mono (offsetPointer_follows n' hl hr hs hw m reported hc₁ hc₂ true rfl) fun r hr' hout => ?_
        obtain ⟨hsl, hwl, h⟩ := hr' hout
        obtain ⟨ha, hb⟩ := decays hsl hwl
        have hright := h _ _ ha hb
        obtain ⟨p', q', o', rfl, -⟩ := pointer_of_outline ha
        refine ⟨hsl, hwl, ?_⟩
        cases b' with
        | pointer =>
          obtain ⟨_, _, _, rfl, -⟩ := pointer_of_outline hb.symm
          exact absurd rfl (hnot _ _ _)
        | _ => exact hright
      · rename_i hnot _
        have ha : a.isPointer = false := by
          cases a with
          | pointer => exact absurd rfl (hnot _ _ _)
          | _ => rfl
        rw [ha, Bool.false_or] at hp
        refine Yields.mono (offsetPointer_follows n' hl hr hs hw m reported hc₁ hc₂ false hp) fun r hr' hout => ?_
        obtain ⟨hsl, hwl, h⟩ := hr' hout
        obtain ⟨hda, hdb⟩ := decays hsl hwl
        have hright := h _ _ hda hdb
        refine ⟨hsl, hwl, ?_⟩
        cases a' with
        | pointer =>
          obtain ⟨_, _, _, rfl, -⟩ := pointer_of_outline hda.symm
          cases ha
        | _ => exact hright

/-! ## Values -/

theorem checkLogic_follows (m : Node) {lo : LogicOp} (reported : Bool) (hc₁ : c₁.isOpen = false) (hc₂ : c₂.isOpen = false) :
    Yields T (checkLogic n (.logic lo) d₁ d₂) fun r => r.outline = (Expr.binary m (.logic lo) c₁ c₂ reported).outline →
      Accepts T (checkLogic n' (.logic lo) u₁ u₂) r.Resembles := by
  obtain ⟨s', hs', hrs⟩ := hl.resembles.type hs
  obtain ⟨w', hw', hrw⟩ := hr.resembles.type hw
  have truth : ∀ {t t' : Ty}, t'.relaxed = t.relaxed → truthType t' = truthType t := by
    intro t t' h
    rw [truthType, truthType, Ty.stored_variability_of_relaxed h]
  -- an operand that was left as it is has the variability of its truth type
  have left_as_is : ∀ {c d u e : Expr} {s t : Ty}, Twins c d u → d.type? = some s → s.Fills (truthType s) →
      e.outline = c.outline → e.type? = some t → s.isList = false ∧ t.variability = (truthType s).variability := by
    intro c d u e s t h hs hf hout ht
    have hsl := hf.not_list (.inl rfl)
    obtain ⟨t₁, ht₁, hcore⟩ := h.kept_type hs hsl hf hout
    obtain rfl : t = t₁ := Option.some.inj (ht.symm.trans ht₁)
    exact ⟨hsl, Ty.variability_eq hcore⟩
  unfold checkLogic
  simp only [type_ok hs, type_ok hw, type_ok hs', type_ok hw', lift_ok, pure_bind]
  refine Yields.both (hl.fills hs hc₁ _ _) (hr.fills hw hc₂ _ _) (fun x y hx hy => ?_) (fun _ => Yields.none)
    fun _ => Yields.none
  refine Gives.lift fun t ht => Gives.lift fun v hv => Yields.some fun hout => ?_
  simp only [outline, binary.injEq] at hout
  obtain ⟨hsl, htv⟩ := left_as_is hl hs (hx hout.2.2.1) hout.2.2.1 (type?_of_ok ht)
  obtain ⟨hwl, hvv⟩ := left_as_is hr hw (hy hout.2.2.2.1) hout.2.2.2.1 (type?_of_ok hv)
  rw [truth hrs, truth hrw]
  refine Accepts.bind (hl.converts hs (hx hout.2.2.1) rfl _) fun x' hx' => ?_
  refine Accepts.bind (hr.converts hw (hy hout.2.2.2.1) rfl _) fun y' hy' => ?_
  obtain ⟨t', ht', hct⟩ := hx' hsl
  obtain ⟨v', hv', hcv⟩ := hy' hwl
  refine Accepts.read (type_ok ht') (Accepts.read (type_ok hv') (Accepts.some ?_))
  rw [htv, hvv, Ty.variability_eq hct, Ty.variability_eq hcv]
  exact .of_nodes rfl rfl rfl rfl rfl rfl rfl

theorem checkValues_follows (m : Node) {op : BinaryOp} (reported : Bool) (hc₁ : c₁.isOpen = false) (hc₂ : c₂.isOpen = false)
    {s' w' : Ty} (hrs : s'.relaxed = s.relaxed) (hrw : w'.relaxed = w.relaxed) :
    Yields T (checkValues n op d₁ d₂ s.rvalue w.rvalue) fun r => r.outline = (Expr.binary m op c₁ c₂ reported).outline →
      Accepts T (checkValues n' op u₁ u₂ s'.rvalue w'.rvalue) r.Resembles := by
  have values : ∀ {t : Ty}, validOperand op t = true → t.isList = false := by
    intro t ht
    have hsome := element_of_valid ht
    cases t with
    | list => cases hsome
    | _ => rfl
  have not_list : ∀ {t : Ty}, validOperand op t.rvalue.rvalue = true → t.isList = false := by
    intro t ht
    have hvalue := values ht
    cases t with
    | list => cases hvalue
    | _ => rfl
  have valid : ∀ {t t' : Ty}, t'.relaxed = t.relaxed → validOperand op t.rvalue.rvalue = true →
      validOperand op t'.rvalue.rvalue = true := by
    intro t t' h ht
    have hbare := Ty.bare_of_outline (Ty.outline_eq Ty.outline_rvalue (Ty.rvalue_of_relaxed h (not_list ht)))
    rw [← validOperand_core, Ty.core_of_bare hbare, validOperand_core]
    exact ht
  unfold checkValues
  refine Yields.bind (checkOperands_takes _ _ _ _) (fun o ho => ?_) Yields.none
  obtain ⟨t, result⟩ := o
  obtain ⟨hvs, hvw, hcommon, hresult⟩ := ho
  dsimp only at hcommon hresult
  subst hresult
  refine Yields.mono (binaryOf_fills hl hr hs hw m reported hc₁ hc₂ _ _ _ _) fun r hr' hout => ?_
  obtain ⟨hfs, hfw, x, y, rfl⟩ := hr' hout
  have hnr := element_not_reference (validOperand_common hvs hvw hcommon)
  have hcs := Ty.core_rvalue_of_core (Ty.core_rvalue_of_core ((Ty.fills_iff (not_list hvs)).mp hfs).1 hnr) hnr
  have hcw := Ty.core_rvalue_of_core (Ty.core_rvalue_of_core ((Ty.fills_iff (not_list hvw)).mp hfw).1 hnr) hnr
  -- the folded operands differ in `const` at most, so that they have the like common type
  obtain ⟨t', ht', hout'⟩ := Ty.common_alike hcommon (Ty.common_core hcommon) hnr hcs hcw
    (values hvs) (values hvw)
    (Ty.rvalue_relaxed (Ty.rvalue_relaxed hrs)) (Ty.rvalue_relaxed (Ty.rvalue_relaxed hrw))
  refine Accepts.then (checkOperands_again (valid hrs hvs) (valid hrw hvw) ht') ?_
  refine binaryOf_accepts n' hl hr hs hw hfs hfw hout' hout' (Ty.relaxed_of_outline ?_)
  dsimp only
  split
  · exact Ty.outline_eq Ty.outline_boolLike hout'
  · exact hout'

theorem checkBinary_follows {m : Node} {op : BinaryOp} {reported : Bool} (hk : (Expr.binary m op c₁ c₂ reported).Tolerant) :
    Yields T (checkBinary n op d₁ d₂) fun r => r.outline = (Expr.binary m op c₁ c₂ reported).outline →
      Accepts T (checkBinary n' op u₁ u₂) r.Resembles := by
  obtain ⟨s', hs', hrs⟩ := hl.resembles.type hs
  obtain ⟨w', hw', hrw⟩ := hr.resembles.type hw
  have generic : c₁.isOpen = false → c₂.isOpen = false → (BinaryOp.isComparison op = true ∨ ∃ ar, op = .arith ar) →
      Yields T (checkBinary n op d₁ d₂) fun r => r.outline = (Expr.binary m op c₁ c₂ reported).outline →
        Accepts T (checkBinary n' op u₁ u₂) r.Resembles := by
    intro hc₁ hc₂ hop
    have hpointer := fun {t t' : Ty} (h : t'.relaxed = t.relaxed) => Ty.isPointer_of_relaxed (Ty.rvalue_relaxed h)
    have harray := fun {t t' : Ty} (h : t'.relaxed = t.relaxed) => Ty.isArray_of_relaxed (Ty.rvalue_relaxed h)
    rw [checkBinary_generic _ _ _ hop, checkBinary_generic _ _ _ hop]
    simp only [type_ok hs, type_ok hw, type_ok hs', type_ok hw', lift_ok, pure_bind, hpointer hrs, hpointer hrw, harray hrs,
      harray hrw]
    split
    · rename_i hflags
      exact Yields.mono (checkPointers_follows n' hl hr hs hw m reported hc₁ hc₂ hop (decayed_points hflags))
        fun r h hout => (h hout).2.2
    · exact checkValues_follows n' hl hr hs hw m reported hc₁ hc₂ hrs hrw
  have closed : op ≠ .comma → c₁.isOpen = false ∧ c₂.isOpen = false := by
    intro hop
    have hlists : ∀ c ∈ [c₁, c₂], c.isOpen = false := hk.lists (by
      cases op with
      | comma => exact absurd rfl hop
      | _ => rfl)
    exact ⟨hlists c₁ (by simp), hlists c₂ (by simp)⟩
  cases op with
  | comma =>
    unfold checkBinary
    simp only [type_ok hw, type_ok hw', lift_ok, pure_bind]
    exact Yields.some fun _ => Accepts.some (.of_nodes rfl rfl (Ty.rvalue_relaxed hrw) rfl rfl rfl rfl)
  | logic lo =>
    obtain ⟨hc₁, hc₂⟩ := closed BinaryOp.noConfusion
    exact checkLogic_follows n' hl hr hs hw m reported hc₁ hc₂
  | arith ar =>
    obtain ⟨hc₁, hc₂⟩ := closed BinaryOp.noConfusion
    exact generic hc₁ hc₂ (.inr ⟨ar, rfl⟩)
  | compare c =>
    obtain ⟨hc₁, hc₂⟩ := closed BinaryOp.noConfusion
    exact generic hc₁ hc₂ (.inl rfl)

end

end Check

end Spmd
