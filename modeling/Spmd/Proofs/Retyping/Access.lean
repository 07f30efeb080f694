import Spmd.Proofs.Retyping.Operator

/-!
# Access again

What an index or a member picks is read off the outline of the type of its base, and so is what a reference, a pointer or
an address leads to.
-/

namespace Spmd

namespace Check

open Spmd.Expr

variable {T : Target}

/-! ## Elements -/

theorem indexed_of_outline {t t' element : Ty} {varying : Bool} (h : t'.outline = t.outline)
    (hi : indexed? t = some (element, varying)) : ∃ element', indexed? t' = some (element', varying) ∧
      element'.outline = element.outline := by
  cases t with
  | pointer p q o =>
    cases t' with
    | pointer p' q' o' =>
      simp only [Ty.outline, Ty.pointer.injEq, and_true] at h
      obtain ⟨hp, rfl⟩ := h
      cases hi
      exact ⟨p', rfl, hp⟩
    | _ => cases h
  | array e n o =>
    cases t' with
    | array e' n' o' =>
      simp only [Ty.outline, Ty.array.injEq] at h
      cases hi
      exact ⟨e', rfl, h.1⟩
    | _ => cases h
  | vector s n o =>
    cases t' with
    | vector s' n' o' =>
      simp only [Ty.outline, Ty.vector.injEq] at h
      cases hi
      exact ⟨.scalar s', rfl, congrArg Ty.scalar h.1⟩
    | _ => cases h
  | _ => cases hi

section
variable {e : Expr} (he : Durable T e) {t : Ty} (hs : e.type? = some t) (node : Node)
include he hs

theorem checkIndex_endures {position : Expr} (hp : Durable T position) {u : Ty} (hu : position.type? = some u) :
    Yields T (checkIndex node e position) (Endures T) := by
  unfold checkIndex
  simp only [type_ok hs, type_ok hu, lift_ok, pure_bind]
  split
  · exact Yields.reject _ _
  · rename_i element varying hi
    split
    · exact Yields.reject _ _
    · refine Yields.bind (convert_converted hp (Ty.legal_basic _ _) (fun _ _ _ => rfl) _) (fun p₁ h => ?_) Yields.none
      obtain ⟨s, hp₁⟩ := h
      dsimp only
      split
      · exact Yields.reject _ _
      · rename_i hvoid
        refine Yields.some ⟨rfl, fun hrep => ?_⟩
        rw [Fixed, check]
        refine Again.bind ((he.lasts hs (hrep.child (by simp [children]))).needed (he.operand.toChecked hs)) fun e' he' => ?_
        refine Again.bind (hp₁.fixed (hrep.child (by simp [children]))) fun p₂ hp₂ => ?_
        show Again T (checkIndex _ e' p₂) _
        unfold checkIndex
        refine Quiet.type he' hs fun t' _ hout => ?_
        obtain ⟨element', hi', helement⟩ := indexed_of_outline (Ty.outline_eq Ty.outline_stored hout) hi
        dsimp only
        rw [hi']
        refine Quiet.type hp₂ hp₁.type_eq fun s' _ hsout => ?_
        obtain ⟨hinteger, hvariability⟩ := integer_of_core (hp₁.core_of_bare hsout rfl) rfl
        have hvarying : s'.rvalue.isVarying = u.rvalue.isVarying := congrArg (· == Variability.varying) hvariability
        rw [hinteger, hvariability, hvarying]
        refine Again.bind (hp₁.again hp₂ rfl) fun p₃ hp₃ => ?_
        dsimp only
        rw [Ty.eq_of_bare Ty.isVoid_bare (Ty.bare_of_outline helement), if_neg hvoid]
        refine Again.some ?_
        have htype : (if u.rvalue.isVarying || varying then element'.asVarying else element').outline =
            (if u.rvalue.isVarying || varying then element.asVarying else element).outline := by
          split
          · exact Ty.outline_eq Ty.outline_asVarying helement
          · exact helement
        simp only [outline, Node.outline, Node.typed, Option.map_some, he', hp₃, htype]

/-! ## Members -/

omit he hs in
theorem memberBase_of_outline {arrow varying : Bool} {t t' aggregate : Ty} (h : t'.outline = t.outline)
    (hb : memberBase arrow t = .ok (aggregate, varying)) : ∃ aggregate', memberBase arrow t' = .ok (aggregate', varying) ∧
      aggregate'.outline = aggregate.outline := by
  cases arrow with
  | true =>
    cases t with
    | pointer p q o =>
      cases t' with
      | pointer p' q' o' =>
        simp only [Ty.outline, Ty.pointer.injEq, and_true] at h
        obtain ⟨hp, rfl⟩ := h
        cases hb
        exact ⟨p', rfl, hp⟩
      | _ => cases h
    | _ => cases hb
  | false =>
    cases t with
    | pointer => cases hb
    | _ =>
      cases hb
      cases t' with
      | pointer => cases h
      | _ => exact ⟨_, rfl, h⟩

omit he hs in
theorem found_of_outline {type type' t : Ty} {name : String} {i : Nat} (h : type'.outline = type.outline)
    (hf : ((type.memberIndex? name).bind fun i => (type.elementAt? i).map fun t => (i, t)) = some (i, t)) :
    ∃ t', ((type'.memberIndex? name).bind fun i => (type'.elementAt? i).map fun t => (i, t)) = some (i, t') ∧
      t'.outline = t.outline := by
  obtain ⟨j, hj, ht⟩ := Option.bind_eq_some_iff.mp hf
  obtain ⟨u, hu, hpair⟩ := Option.map_eq_some_iff.mp ht
  cases hpair
  have hindex : type'.memberIndex? name = some i := by
    rw [← Ty.memberIndex_outline, h, Ty.memberIndex_outline, hj]
  have helement : (type'.elementAt? i).map Ty.outline = some t.outline := by
    rw [← Ty.outline_elementAt, h, Ty.outline_elementAt, hu]
    rfl
  obtain ⟨t', ht', hout⟩ := Option.map_eq_some_iff.mp helement
  exact ⟨t', by rw [hindex, Option.bind_some, ht']; rfl, hout⟩

omit he hs in
theorem member_outline {place : Option Location} {e e' : Expr} {name : String} {arrow : Bool} {a a' : Access} {t t' : Ty}
    (he : e'.outline = e.outline) (ha : a'.outline = a.outline) (ht : t'.outline = t.outline) :
    (memberOf (.typed place t) e' name arrow a' t').outline = (memberOf (.typed place t) e name arrow a t).outline := by
  simp only [memberOf, outline, Node.outline, Node.typed, Option.map_some, he, ha, ht]

theorem member_lasts {name : String} {arrow : Bool} {a : Access} {u : Ty} (h : ∀ e' t', e'.outline = e.outline →
      e'.type? = some t' → t'.outline = t.outline → Again T (checkMember (.typed node.place u) e' name arrow)
        (memberOf node e name arrow a u)) : Lasts T (memberOf node e name arrow a u) := by
  intro hrep
  rw [memberOf] at hrep
  rw [Fixed, memberOf, check]
  refine Again.bind ((he.lasts hs (hrep.child (by simp [children]))).needed (he.operand.toChecked hs)) fun e' he' => ?_
  obtain ⟨t', ht', hout⟩ := type_of_outline he' hs
  exact h e' t' he' ht' hout

theorem checkMember_endures (name : String) (arrow : Bool) : Yields T (checkMember node e name arrow) (Endures T) := by
  unfold checkMember
  simp only [type_ok hs, lift_ok, pure_bind]
  split
  · exact Yields.reject _ _
  · rename_i aggregate varying hbase
    split
    · rename_i a members q o
      unfold checkField
      dsimp only
      split
      · exact Yields.reject _ _
      · rename_i i u hfound
        refine Yields.some ⟨rfl, member_lasts he hs node fun e' t' he' ht' hout => ?_⟩
        -- checked again, the base has a type that looks alike, and the name finds the same field in it
        obtain ⟨aggregate', hbase', haggregate⟩ := memberBase_of_outline (Ty.outline_eq Ty.outline_stored hout) hbase
        obtain ⟨u', hfound', hu⟩ := found_of_outline haggregate hfound
        unfold checkMember
        refine Quiet.read (type_ok ht') ?_
        rw [hbase']
        cases aggregate' with
        | struct a' members' q' o' =>
          dsimp only
          unfold checkField
          rw [hfound']
          have hpicked : (if varying then u'.asVarying else u').outline = (if varying then u.asVarying else u).outline := by
            split
            · exact Ty.outline_eq Ty.outline_asVarying hu
            · exact hu
          exact Again.some (member_outline he' (congrArg (Access.field i) haggregate) hpicked)
        | _ => cases haggregate
    · rename_i s n o
      unfold checkSwizzle
      split
      · exact Yields.reject _ _
      · rename_i indices hindices
        refine Yields.some ⟨rfl, member_lasts he hs node fun e' t' he' ht' hout => ?_⟩
        obtain ⟨aggregate', hbase', haggregate⟩ := memberBase_of_outline (Ty.outline_eq Ty.outline_stored hout) hbase
        unfold checkMember
        refine Quiet.read (type_ok ht') ?_
        rw [hbase']
        cases aggregate' with
        | vector s' n' o' =>
          simp only [Ty.outline, Ty.vector.injEq, and_true] at haggregate
          obtain ⟨hs', rfl⟩ := haggregate
          have helement : (if varying then s'.withVariability .varying else s').bare =
              (if varying then s.withVariability .varying else s).bare := by
            split
            · have hq : s'.qualifiers = s.qualifiers := (ScalarTy.mk.inj hs').2.1
              simp only [ScalarTy.withVariability, ScalarTy.bare_qualify, hs', hq]
            · exact hs'
          have hpicked : (if indices.length = 1 then Ty.scalar (if varying then s'.withVariability .varying else s')
                else .vector (if varying then s'.withVariability .varying else s') indices.length).outline =
              (if indices.length = 1 then Ty.scalar (if varying then s.withVariability .varying else s)
                else .vector (if varying then s.withVariability .varying else s) indices.length).outline := by
            split
            · exact congrArg Ty.scalar helement
            · exact congrArg (Ty.vector · indices.length) helement
          dsimp only
          unfold checkSwizzle
          rw [hindices]
          exact Again.some (member_outline he' (congrArg (fun s => Access.swizzle indices (.vector s n')) hs') hpicked)
        | _ => cases haggregate
    · exact Yields.reject _ _

/-! ## References and addresses -/

theorem checkReference_durable : Yields T (checkReference node e) (Durable T) := by
  have hchecked := he.operand.toChecked hs
  unfold checkReference
  simp only [type_ok hs, lift_ok, pure_bind]
  split
  · exact Yields.some he
  · rename_i hr
    have hnr : t.isReference = false := by simpa using hr
    refine Gives.lift fun b hb => ?_
    split
    · rename_i hass
      subst hass
      refine Gives.lift fun u hu => Yields.some ?_
      rw [Ty.referenceTo, hnr, if_neg Bool.false_ne_true] at hu
      cases hu
      have hlegal : (Ty.reference t).Legal := ⟨hnr, hchecked.legal hs⟩
      exact .closed (Checked.one ⟨⟨_, rfl, hlegal⟩, trivial, trivial⟩ rfl hchecked) rfl
        (reference_lasts hchecked hs (he.lasts hs) node.place hnr hb)
    · exact Yields.reject _ _

theorem checkDereference_endures : Yields T (checkDereference node e) (Endures T) := by
  have hchecked := he.operand.toChecked hs
  unfold checkDereference
  simp only [type_ok hs, lift_ok, pure_bind]
  split
  · exact Yields.some ⟨rfl, dereference_lasts hchecked hs (he.lasts hs) rfl node.place⟩
  · rename_i p q o
    split
    · exact Yields.reject _ _
    · rename_i hvoid
      refine Yields.some ⟨rfl, fun hrep => ?_⟩
      rw [Fixed, check]
      refine Again.bind ((he.lasts hs (hrep.child (by simp [children]))).needed hchecked) fun e' he' => ?_
      show Again T (checkDereference _ e') _
      unfold checkDereference
      refine Quiet.type he' hs fun t' _ hout => ?_
      cases t' with
      | pointer p' q' o' =>
        simp only [Ty.outline, Ty.pointer.injEq, and_true] at hout
        obtain ⟨hp, rfl⟩ := hout
        dsimp only
        rw [Ty.eq_of_bare Ty.isVoid_bare (Ty.bare_of_outline hp), if_neg hvoid]
        refine Again.some ?_
        have hread : (if q'.variability = .varying then p'.asVarying else p').outline =
            (if q'.variability = .varying then p.asVarying else p).outline := by
          split
          · exact Ty.outline_eq Ty.outline_asVarying hp
          · exact hp
        simp only [outline, Node.outline, Node.typed, Option.map_some, he', hread]
      | _ => cases hout
  · exact Yields.reject _ _

omit he hs in
theorem addressTypeOf_mirrors {e' : Expr} (h : e'.outline = e.outline) :
    Mirrors (Option.map Ty.outline) (addressTypeOf e) (addressTypeOf e') := by
  refine Mirrors.bind (mirrors_type h) fun t t' ht => ?_
  cases t with
  | reference u o =>
    cases t' with
    | reference u' o' =>
      simp only [Ty.outline, Ty.reference.injEq, and_true] at ht
      exact Mirrors.ok (congrArg (some <| Ty.pointer · {}) ht)
    | _ => cases ht
  | _ =>
    cases t' with
    | reference => cases ht
    | _ => exact addressType_mirrors h

omit hs in
theorem checkAddressOf_endures : Yields T (checkAddressOf node e) (Endures T) := by
  have hnode : ∀ {place : Option Location} {e' : Expr} {t t' : Ty}, e'.outline = e.outline → t'.outline = t.outline →
      (Expr.addressOf (.typed place t') e').outline = (Expr.addressOf (.typed place t) e).outline := by
    intro place e' t t' he' ht
    simp only [outline, Node.outline, Node.typed, Option.map_some, he', ht]
  -- the operand is checked without being needed, so that it may be a name without a function
  have hlasts : ∀ {t : Ty}, (∃ u, e.type? = some u) → (∀ e', e'.outline = e.outline →
      Again T (checkAddressOf (.typed node.place t) e') (.addressOf (.typed node.place t) e)) →
        Lasts T (.addressOf (.typed node.place t) e) := by
    rintro t ⟨u, hu⟩ h hrep
    rw [Fixed, check]
    exact Again.bind (he.lasts hu (hrep.child (by simp [children]))) h
  unfold checkAddressOf
  split
  · rename_i f
    split
    · exact Yields.reject _ _
    · rename_i hres
      refine Gives.lift fun u hu => Yields.some ⟨rfl, hlasts ⟨u, type?_of_ok hu⟩ fun e' he' => ?_⟩
      obtain ⟨f', rfl, hres', -⟩ := function_of_outline he' rfl
      unfold checkAddressOf
      dsimp only
      rw [hres', if_neg hres]
      exact Quiet.type he' (type?_of_ok hu) fun u' _ hout => Again.some (hnode he' (congrArg (Ty.pointer · {}) hout))
  · rename_i hname
    refine Gives.lift fun a ha => ?_
    split
    · rename_i u
      have htyped : ∃ u, e.type? = some u := by
        obtain ⟨v, hv, -⟩ := bind_eq_ok ha
        exact ⟨v, type?_of_ok hv⟩
      refine Yields.some ⟨rfl, hlasts htyped fun e' he' => ?_⟩
      unfold checkAddressOf
      split
      · rename_i f'
        obtain ⟨f, hf, -⟩ := function_of_outline he'.symm rfl
        exact absurd hf (hname f)
      · refine Quiet.mirrors (addressTypeOf_mirrors he') ha fun a' ha' => ?_
        obtain ⟨u', rfl, hout⟩ := Option.map_eq_some_iff.mp ha'
        exact Again.some (hnode he' hout)
    · exact Yields.reject _ _

end

end Check

end Spmd
