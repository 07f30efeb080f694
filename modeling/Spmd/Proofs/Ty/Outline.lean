import Spmd.Fault
import Spmd.Proofs.Ty.Legal

/-!
# Outlines of types

`Ty.outline` takes away where a type was defined and its enumerators, and keeps everything else, the members of structs
too. Every operation on types goes from outlines to outlines, and what a bare type decides an outline decides
(`Ty.bare_outline`).
-/

namespace Spmd

theorem Element.text_bare (e : Element) : e.bare.text = e.text := by cases e <;> rfl

theorem ScalarTy.text_bare (s : ScalarTy) : s.bare.text = s.text :=
  congrArg (s.qualifiers.text ++ " " ++ ·) s.element.text_bare

namespace Ty

mutual
/-- A type without where it was defined and without enumerators. -/
def outline : Ty → Ty
  | .void _ => .void
  | .scalar s => .scalar s.bare
  | .pointer p q _ => .pointer p.outline q
  | .array e n _ => .array e.outline n
  | .vector s n _ => .vector s.bare n
  | .struct s ms q _ => .struct s (outlineMembers ms) q
  | .reference t _ => .reference t.outline
  | .function r ps task _ => .function r.outline (outlineAll ps) task
  | .list es => .list (outlineAll es)
def outlineMembers : List (String × Ty) → List (String × Ty)
  | [] => []
  | m :: ms => (m.1, m.2.outline) :: outlineMembers ms
def outlineAll : List Ty → List Ty
  | [] => []
  | t :: ts => t.outline :: outlineAll ts
end

theorem outlineAll_eq (ts : List Ty) : outlineAll ts = ts.map outline := by
  induction ts with
  | nil => rfl
  | cons t ts ih => rw [outlineAll, ih, List.map_cons]

theorem outlineMembers_eq (ms : List (String × Ty)) : outlineMembers ms = ms.map fun m => (m.1, m.2.outline) := by
  induction ms with
  | nil => rfl
  | cons m ms ih => rw [outlineMembers, ih, List.map_cons]

mutual
theorem bare_outline : ∀ t : Ty, t.outline.bare = t.bare
  | .void _ => rfl
  | .scalar ⟨.basic _, _, _⟩ | .scalar ⟨.enumeration .., _, _⟩ => rfl
  | .pointer p q _ => congrArg (pointer · q) (bare_outline p)
  | .array e n _ => congrArg (array · n) (bare_outline e)
  | .vector ⟨.basic _, _, _⟩ _ _ | .vector ⟨.enumeration .., _, _⟩ _ _ => rfl
  | .struct .. => rfl
  | .reference t _ => congrArg reference (bare_outline t)
  | .function r ps task _ => by
    rw [outline, bare, bare, bare_outline r, allBare_outlineAll ps]
  | .list es => congrArg list (allBare_outlineAll es)
theorem allBare_outlineAll : ∀ ts : List Ty, allBare (outlineAll ts) = allBare ts
  | [] => rfl
  | t :: ts => by rw [outlineAll, allBare, allBare, bare_outline t, allBare_outlineAll ts]
end

theorem bare_of_outline {t u : Ty} (h : t.outline = u.outline) : t.bare = u.bare := by
  rw [← bare_outline t, h, bare_outline]

theorem core_of_bare {t u : Ty} (h : t.bare = u.bare) : t.core = u.core := core_eq_of_same ((same_iff t u).mpr h)

/-- Scalars and vectors have no members, so that their bare types are their outlines. -/
theorem outline_eq_bare {t : Ty} (h : t.element?.isSome = true) : t.outline = t.bare := by
  cases t with
  | scalar => rfl
  | vector => rfl
  | _ => cases h

/-! ## Equality of bare types -/

mutual
theorem bare_bare : ∀ t : Ty, t.bare.bare = t.bare
  | .void _ => rfl
  | .scalar ⟨.basic _, _, _⟩ | .scalar ⟨.enumeration .., _, _⟩ => rfl
  | .pointer p q _ => congrArg (pointer · q) (bare_bare p)
  | .array e n _ => congrArg (array · n) (bare_bare e)
  | .vector ⟨.basic _, _, _⟩ _ _ | .vector ⟨.enumeration .., _, _⟩ _ _ => rfl
  | .struct .. => rfl
  | .reference t _ => congrArg reference (bare_bare t)
  | .function r ps task _ => by rw [bare, bare, bare_bare r, allBare_allBare ps]
  | .list es => congrArg list (allBare_allBare es)
theorem allBare_allBare : ∀ ts : List Ty, allBare (allBare ts) = allBare ts
  | [] => rfl
  | t :: ts => by rw [allBare, allBare, bare_bare t, allBare_allBare ts]
end

theorem same_bare (a b : Ty) : a.bare.same b.bare = a.same b := by
  rw [Bool.eq_iff_iff, same_iff, same_iff, bare_bare, bare_bare]

theorem core_bare (t : Ty) : t.bare.core = t.core := core_of_bare (bare_bare t)

theorem sameIgnoringConst_bare (a b : Ty) : a.bare.sameIgnoringConst b.bare = a.sameIgnoringConst b := by
  rw [Bool.eq_iff_iff, sameIgnoringConst_iff, sameIgnoringConst_iff, core_bare, core_bare]

mutual
theorem bare_withVariability (v : Variability) : ∀ t : Ty, (t.withVariability v).bare = t.bare.withVariability v
  | .void _ => by simp [bare, withVariability]
  | .scalar s => by simp [bare, withVariability, ScalarTy.withVariability]
  | .pointer .. => rfl
  | .array e n _ => by simp only [bare, withVariability]; rw [bare_withVariability v e]
  | .vector s n _ => by simp [bare, withVariability, ScalarTy.withVariability]
  | .struct .. => rfl
  | .reference t _ => by simp only [bare, withVariability]; rw [bare_withVariability v t]
  | .function .. => rfl
  | .list es => by simp only [bare, withVariability]; rw [allBare_withVariability v es]
theorem allBare_withVariability (v : Variability) :
    ∀ ts : List Ty, allBare (allWithVariability v ts) = allWithVariability v (allBare ts)
  | [] => rfl
  | t :: ts => by simp only [allBare, allWithVariability]; rw [bare_withVariability v t, allBare_withVariability v ts]
end

theorem withVariability_withConst (v : Variability) (c : Bool) :
    ∀ t : Ty, ((t.withVariability v).withConst c).bare = ((t.withConst c).withVariability v).bare
  | .void _ => by simp [bare, withConst, withVariability]
  | .scalar _ | .pointer .. | .vector .. | .struct .. | .function .. | .list _ => rfl
  | .array e n _ => by simp only [bare, withConst, withVariability]; rw [withVariability_withConst v c e]
  | .reference t _ => by simp only [bare, withConst, withVariability]; rw [withVariability_withConst v c t]

mutual
theorem withVariability_withVariability (v w : Variability) :
    ∀ t : Ty, ((t.withVariability v).withVariability w).outline = (t.withVariability w).outline
  | .void _ => rfl
  | .scalar ⟨.basic _, _, _⟩ | .scalar ⟨.enumeration .., _, _⟩ => rfl
  | .pointer .. | .struct .. | .function .. => rfl
  | .array e n _ => by simp only [outline, withVariability]; rw [withVariability_withVariability v w e]
  | .vector ⟨.basic _, _, _⟩ _ _ | .vector ⟨.enumeration .., _, _⟩ _ _ => rfl
  | .reference t _ => by simp only [outline, withVariability]; rw [withVariability_withVariability v w t]
  | .list es => by simp only [outline, withVariability]; rw [allWithVariability_allWithVariability v w es]
theorem allWithVariability_allWithVariability (v w : Variability) :
    ∀ ts : List Ty, outlineAll (allWithVariability w (allWithVariability v ts)) = outlineAll (allWithVariability w ts)
  | [] => rfl
  | t :: ts => by
    simp only [outlineAll, allWithVariability]
    rw [withVariability_withVariability v w t, allWithVariability_allWithVariability v w ts]
end

/-! ## What types decide -/

section
variable {α : Type} {f : Ty → α} {t u : Ty}

theorem eq_of_bare (hf : ∀ t, f t.bare = f t) (h : t.bare = u.bare) : f t = f u := by
  rw [← hf t, h, hf]

end

theorem isConst_bare : ∀ t : Ty, t.bare.isConst = t.isConst
  | .void _ | .scalar _ | .pointer .. | .vector .. | .struct .. | .function .. | .list _ => rfl
  | .array e _ _ => isConst_bare e
  | .reference t _ => isConst_bare t

theorem isVarying_bare (t : Ty) : t.bare.isVarying = t.isVarying := congrArg (· == .varying) (variability_bare t)

theorem isUniform_bare (t : Ty) : t.bare.isUniform = t.isUniform := congrArg (· == .uniform) (variability_bare t)

theorem isVoid_bare (t : Ty) : t.bare.isVoid = t.isVoid := by cases t <;> rfl

theorem isPointer_bare (t : Ty) : t.bare.isPointer = t.isPointer := by cases t <;> rfl

theorem isArray_bare (t : Ty) : t.bare.isArray = t.isArray := by cases t <;> rfl

theorem isReference_bare (t : Ty) : t.bare.isReference = t.isReference := by cases t <;> rfl

theorem isFunction_bare (t : Ty) : t.bare.isFunction = t.isFunction := by cases t <;> rfl

theorem isScalar_bare (t : Ty) : t.bare.isScalar = t.isScalar := by cases t <;> rfl

theorem isVoidPointer_bare (t : Ty) : t.bare.isVoidPointer = t.isVoidPointer := by
  cases t with
  | pointer p q o => exact isVoid_bare p
  | _ => rfl

theorem element_bare (t : Ty) : t.bare.element? = t.element?.map Element.bare := by cases t <;> rfl

theorem anyElement_bare {p : Kind → Bool} (t : Ty) :
    (t.bare.element?.any fun e => p e.kind) = t.element?.any fun e => p e.kind := by
  rw [element_bare]
  cases t.element? with
  | none => rfl
  | some e => exact congrArg p (Element.bare_kind e)

theorem isInteger_bare (t : Ty) : t.bare.isInteger = t.isInteger := anyElement_bare t

theorem isFloat_bare (t : Ty) : t.bare.isFloat = t.isFloat := anyElement_bare t

theorem isNumeric_bare (t : Ty) : t.bare.isNumeric = t.isNumeric := by
  rw [isNumeric, isNumeric, isInteger_bare, isFloat_bare]

theorem isIntegerScalar_bare (t : Ty) : t.bare.isIntegerScalar = t.isIntegerScalar := by
  rw [isIntegerScalar, isIntegerScalar, isScalar_bare, isInteger_bare]

mutual
theorem text_bare : ∀ t : Ty, t.bare.text = t.text
  | .void _ => rfl
  | .scalar s => ScalarTy.text_bare s
  | .pointer p q _ => congrArg (· ++ " * " ++ q.text) (text_bare p)
  | .array e n _ => congrArg (· ++ "[" ++ (n.map countText).getD "" ++ "]") (text_bare e)
  | .vector s n _ => congrArg (· ++ "<" ++ countText n ++ ">") (ScalarTy.text_bare s)
  | .struct .. => rfl
  | .reference t _ => congrArg (· ++ " &") (text_bare t)
  | .function r ps task _ => by rw [bare, text, text, text_bare r, texts_allBare ps]
  | .list es => by rw [bare, text, text, texts_allBare es]
theorem texts_allBare : ∀ ts : List Ty, texts (allBare ts) = texts ts
  | [] => rfl
  | t :: ts => by rw [allBare, texts, texts, text_bare t, texts_allBare ts]
end

/-! ## Operations -/

section
variable {f : Ty → Ty} {t u : Ty}

theorem outline_eq (hf : ∀ t, (f t).outline = f t.outline) (h : t.outline = u.outline) : (f t).outline = (f u).outline := by
  rw [hf, h, hf]

end

theorem outline_withConst (c : Bool) : ∀ t : Ty, (t.withConst c).outline = t.outline.withConst c
  | .void _ => by simp [outline, withConst]
  | .scalar s => by simp [outline, withConst, ScalarTy.withConst]
  | .pointer .. => rfl
  | .array e n _ => by simp only [outline, withConst]; rw [outline_withConst c e]
  | .vector s n _ => by simp [outline, withConst, ScalarTy.withConst]
  | .struct .. => rfl
  | .reference t _ => by simp only [outline, withConst]; rw [outline_withConst c t]
  | .function .. => rfl
  | .list _ => rfl

mutual
theorem outline_withVariability (v : Variability) : ∀ t : Ty, (t.withVariability v).outline = t.outline.withVariability v
  | .void _ => by simp [outline, withVariability]
  | .scalar s => by simp [outline, withVariability, ScalarTy.withVariability]
  | .pointer .. => rfl
  | .array e n _ => by simp only [outline, withVariability]; rw [outline_withVariability v e]
  | .vector s n _ => by simp [outline, withVariability, ScalarTy.withVariability]
  | .struct .. => rfl
  | .reference t _ => by simp only [outline, withVariability]; rw [outline_withVariability v t]
  | .function .. => rfl
  | .list es => by simp only [outline, withVariability]; rw [outlineAll_withVariability v es]
theorem outlineAll_withVariability (v : Variability) :
    ∀ ts : List Ty, outlineAll (allWithVariability v ts) = allWithVariability v (outlineAll ts)
  | [] => rfl
  | t :: ts => by simp only [outlineAll, allWithVariability]; rw [outline_withVariability v t, outlineAll_withVariability v ts]
end

theorem outline_asVarying (t : Ty) : t.asVarying.outline = t.outline.asVarying := outline_withVariability .varying t

theorem outline_asNonConst (t : Ty) : t.asNonConst.outline = t.outline.asNonConst := outline_withConst false t

theorem outline_stored (t : Ty) : t.stored.outline = t.outline.stored := by cases t <;> rfl

theorem outline_rvalue (t : Ty) : t.rvalue.outline = t.outline.rvalue := by
  cases t <;> exact outline_withConst false _

theorem variability_outline (t : Ty) : t.outline.variability = t.variability :=
  eq_of_bare variability_bare (bare_outline t)

theorem outline_boolLike (t : Ty) : t.boolLike.outline = t.outline.boolLike := by
  have hv : basic .bool t.stored.variability = basic .bool t.outline.stored.variability := by
    rw [← outline_stored, variability_outline]
  cases t with
  | vector => rfl
  | _ => exact hv

theorem outline_memberType (q : Qualifiers) (t : Ty) : (memberType q t).outline = memberType q t.outline := by
  unfold memberType
  dsimp only
  split <;> split <;> simp only [asConst, asVarying, outline_withConst, outline_withVariability]

theorem outline_elementAt (i : Nat) (t : Ty) : t.outline.elementAt? i = (t.elementAt? i).map outline := by
  cases t with
  | array e n o => simp only [outline, elementAt?]; split <;> rfl
  | vector s n o => simp only [outline, elementAt?]; split <;> rfl
  | struct s ms q o =>
    simp only [outline, elementAt?, outlineMembers_eq, List.getElem?_map, Option.map_map]
    exact congrArg (Option.map · ms[i]?) (funext fun m => (outline_memberType q m.2).symm)
  | list es => simp only [outline, elementAt?, outlineAll_eq, List.getElem?_map]
  | _ => rfl

theorem memberIndex_outline (name : String) (t : Ty) : t.outline.memberIndex? name = t.memberIndex? name := by
  cases t with
  | struct s ms q o =>
    simp only [outline, memberIndex?, outlineMembers_eq, List.findIdx?_map]
    rfl
  | _ => rfl

end Ty

end Spmd
