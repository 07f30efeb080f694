import Spmd.Proofs.Folded.Operator
import Spmd.Proofs.Retyping.Access

/-!
# Access to folded operands

An index or a member of a folded base picks the same, up to a `const` that the base brings back. Where the base denotes storage, or
points to it, what is picked has the same address. References and pointers lead to the same.
-/

namespace Spmd

/-! ## Parts of types that differ in `const` -/

namespace Ty

theorem shape_memberType (q : Qualifiers) (t : Ty) :
    (memberType { q with isConst := false } t).asNonConst.outline = (memberType q t).asNonConst.outline := by
  obtain ⟨v, c⟩ := q
  cases c with
  | true => exact (shape_withConst true _).symm
  | false => rfl

theorem shape_elementAt (i : Nat) (t : Ty) : (t.asNonConst.elementAt? i).map (fun u => u.asNonConst.outline) =
    (t.elementAt? i).map (fun u => u.asNonConst.outline) := by
  cases t with
  | array e n o =>
    show (if n.all (i < ·) then some e.asNonConst else none).map (fun u => u.asNonConst.outline) =
      (if n.all (i < ·) then some e else none).map (fun u => u.asNonConst.outline)
    split
    · exact congrArg some (shape_withConst false e)
    · rfl
  | vector s n o =>
    show (if i < n then some (scalar (s.withConst false)) else none).map (fun u => u.asNonConst.outline) =
      (if i < n then some (scalar s) else none).map (fun u => u.asNonConst.outline)
    split <;> rfl
  | struct s ms q o =>
    show (ms[i]?.map fun m => memberType { q with isConst := false } m.2).map (fun u => u.asNonConst.outline) =
      (ms[i]?.map fun m => memberType q m.2).map (fun u => u.asNonConst.outline)
    simp only [Option.map_map, Function.comp_def, shape_memberType]
  | _ => rfl

section
variable {t t' : Ty} (h : t'.asNonConst.outline = t.asNonConst.outline)
include h

theorem elementAt_of_shape {i : Nat} {u : Ty} (hu : t.elementAt? i = some u) :
    ∃ u', t'.elementAt? i = some u' ∧ u'.asNonConst.outline = u.asNonConst.outline := by
  have houtline : ∀ t : Ty, (t.elementAt? i).map (fun u => u.asNonConst.outline) =
      (t.asNonConst.outline.elementAt? i).map asNonConst := fun t => by
    rw [← shape_elementAt, outline_elementAt, Option.map_map]
    congr 1
    funext u
    exact outline_asNonConst u
  have heq := houtline t'
  rw [h, ← houtline, hu, Option.map_some] at heq
  obtain ⟨u', hu', hout⟩ := Option.map_eq_some_iff.mp heq
  exact ⟨u', hu', hout⟩

theorem memberIndex_of_shape (name : String) : t'.memberIndex? name = t.memberIndex? name := by
  have hconst : ∀ t : Ty, t.asNonConst.memberIndex? name = t.memberIndex? name := fun t => by cases t <;> rfl
  rw [← hconst t', ← memberIndex_outline, h, memberIndex_outline, hconst]

end

end Ty

namespace Check

open Spmd.Expr

/-! ## What is picked -/

section
variable {t t' : Ty} (h : t'.asNonConst.outline = t.asNonConst.outline)
include h

theorem indexed_of_shape {element : Ty} {varying : Bool} (hi : indexed? t = some (element, varying)) :
    ∃ element', indexed? t' = some (element', varying) ∧ element'.asNonConst.outline = element.asNonConst.outline ∧
      (t.isPointer = true ∨ t'.outline = t.outline → element'.outline = element.outline) := by
  cases t with
  | pointer p q o =>
    cases t' with
    | pointer p' q' o' =>
      obtain ⟨hp, hq, -⟩ := Ty.pointer.inj h
      have hv : q'.variability = q.variability := (Qualifiers.mk.inj hq).1
      cases hi
      exact ⟨p', by rw [indexed?, hv], Ty.outline_eq Ty.outline_asNonConst hp, fun _ => hp⟩
    | _ => cases h
  | array e n o =>
    cases t' with
    | array e' n' o' =>
      cases hi
      refine ⟨e', rfl, (Ty.array.inj h).1, fun hor => ?_⟩
      rcases hor with hp | hout
      · cases hp
      · exact (Ty.array.inj hout).1
    | _ => cases h
  | vector s n o =>
    cases t' with
    | vector s' n' o' =>
      cases hi
      refine ⟨.scalar s', rfl, congrArg Ty.scalar (Ty.vector.inj h).1, fun hor => ?_⟩
      rcases hor with hp | hout
      · cases hp
      · exact congrArg Ty.scalar (Ty.vector.inj hout).1
    | _ => cases h
  | _ => cases hi

theorem memberBase_of_shape {arrow varying : Bool} {aggregate : Ty} (hb : memberBase arrow t = .ok (aggregate, varying)) :
    ∃ aggregate', memberBase arrow t' = .ok (aggregate', varying) ∧
      aggregate'.asNonConst.outline = aggregate.asNonConst.outline ∧
      (arrow = true ∨ t'.outline = t.outline → aggregate'.outline = aggregate.outline) := by
  cases arrow with
  | true =>
    cases t with
    | pointer p q o =>
      cases t' with
      | pointer p' q' o' =>
        obtain ⟨hp, hq, -⟩ := Ty.pointer.inj h
        have hv : q'.variability = q.variability := (Qualifiers.mk.inj hq).1
        cases hb
        exact ⟨p', by rw [memberBase, hv], Ty.outline_eq Ty.outline_asNonConst hp, fun _ => hp⟩
      | _ => cases h
    | _ => cases hb
  | false =>
    have hsame : ∀ o : Ty, o = t' → false = true ∨ t'.outline = t.outline → o.outline = t.outline := by
      rintro o rfl (hn | hout)
      · cases hn
      · exact hout
    cases t with
    | pointer => cases hb
    | _ =>
      cases hb
      cases t' with
      | pointer => cases h
      | _ => exact ⟨_, rfl, h, hsame _ rfl⟩

/-- The field that a name finds. -/
theorem found_of_shape {name : String} {i : Nat} {u : Ty}
    (hf : ((t.memberIndex? name).bind fun i => (t.elementAt? i).map fun u => (i, u)) = some (i, u)) :
    ∃ u', ((t'.memberIndex? name).bind fun i => (t'.elementAt? i).map fun u => (i, u)) = some (i, u') ∧
      u'.asNonConst.outline = u.asNonConst.outline ∧ (t'.outline = t.outline → u'.outline = u.outline) := by
  obtain ⟨j, hj, hu⟩ := Option.bind_eq_some_iff.mp hf
  obtain ⟨v, hv, hpair⟩ := Option.map_eq_some_iff.mp hu
  cases hpair
  obtain ⟨u', hu', hshape⟩ := Ty.elementAt_of_shape h hv
  refine ⟨u', by rw [Ty.memberIndex_of_shape h, hj, Option.bind_some, hu']; rfl, hshape, fun hout => ?_⟩
  obtain ⟨u'', hf', hout'⟩ := found_of_outline hout hf
  rw [Ty.memberIndex_of_shape h, hj, Option.bind_some, hu'] at hf'
  cases hf'
  exact hout'

end

variable {T : Target} {n : Node} (n' : Node)

/-! ## Elements -/

theorem index_addressType {d x : Expr} {s z element : Ty} {varying : Bool} (hs : d.type? = some s) (hx : x.type? = some z)
    (hi : indexed? s.stored = some (element, varying)) : (Expr.index n d x).addressType =
      (fun b => if b then some (addressOfType element (z.isVarying || varying)) else none) <$>
        (if s.stored.isPointer then .ok true else d.isStorage) := by
  rw [addressType, type_ok hs, type_ok hx, isStorage, type_ok hs]
  generalize Option.isSome <$> storageVariability d.addressType (Except.ok s) = storage
  change elementAddressType s storage (.ok z) = _
  have sequence : ∀ v : Ty, (do if ← storage then .ok (some (addressOfType v z.isVarying)) else .ok none) =
      (fun b => if b then some (addressOfType v (z.isVarying || false)) else none) <$> storage := by
    intro v
    rw [Bool.or_false]
    cases storage with
    | error => rfl
    | ok b => cases b <;> rfl
  unfold elementAddressType
  generalize s.stored = base at hi
  cases base with
  | pointer p q o =>
    cases hi
    dsimp only
    cases hv : q.variability with
    | uniform =>
      rw [if_neg (by exact Variability.noConfusion)]
      exact congrArg (fun b => Except.ok (some (addressOfType element b))) (Bool.or_false _).symm
    | varying =>
      rw [if_pos rfl]
      exact congrArg (fun b => Except.ok (some (addressOfType element b))) (Bool.or_true _).symm
  | array e m o =>
    cases hi
    exact sequence element
  | vector e m o =>
    cases hi
    exact sequence _
  | _ => cases hi

theorem index_stored {d u x y : Expr} {s s' z z' element element' : Ty} {varying : Bool} (hst : d.Stored u)
    (hs : d.type? = some s) (hs' : u.type? = some s') (hshape : s'.stored.core = s.stored.core)
    (hr : s'.isReference = s.isReference) (hx : x.type? = some z) (hy : y.type? = some z') (hz : z'.isVarying = z.isVarying)
    (hi : indexed? s.stored = some (element, varying)) (hi' : indexed? s'.stored = some (element', varying))
    (he : element'.outline = element.outline) (hbase : s.stored.isPointer = true ∨ d.denotesStorage = true) :
    (Expr.index n d x).Stored (.index n' u y) := by
  refine ⟨fun a ha => ?_, fun _ ha => ?_⟩
  · rw [index_addressType hs hx hi] at ha
    obtain ⟨b, hb, hsome⟩ := map_eq_ok ha
    cases b with
    | false => cases hsome
    | true =>
      cases hsome
      refine ⟨addressOfType element' (z'.isVarying || varying), ?_, ?_⟩
      · rw [index_addressType hs' hy hi', Ty.isPointer_eq hshape]
        split at hb
        · rw [if_pos ‹_›]
          rfl
        · rw [if_neg ‹_›, hst.isStorage hs hs' hr hb]
          rfl
      · rw [addressOfType_outline, addressOfType_outline, he, hz]
  · rw [index_addressType hs hx hi] at ha
    obtain ⟨b, hb, hnone⟩ := map_eq_ok ha
    have htrue : b = true := by
      split at hb
      · cases hb
        rfl
      · rename_i hp
        exact storage_of_denotesStorage hs (hbase.resolve_left hp) hb
    subst htrue
    cases hnone

theorem index_base {d x : Expr} {s z element : Ty} {varying : Bool} (hs : d.type? = some s) (hx : x.type? = some z)
    (hi : indexed? s.stored = some (element, varying)) (h : (Expr.index n d x).hasAddress = true) :
    s.stored.isPointer = true ∨ d.denotesStorage = true := by
  by_contra hn
  rw [not_or] at hn
  unfold hasAddress at h
  rw [index_addressType hs hx hi, if_neg hn.1] at h
  cases hb : d.isStorage with
  | error => rw [hb] at h; cases h
  | ok b =>
    rw [hb] at h
    cases b with
    | false => cases h
    | true => exact hn.2 (denotesStorage_of_isStorage hs hb)

theorem isReference_of_node {k m : Node} (h : k.outline = m.outline) (hr : k.type.any Ty.isReference = true) :
    m.type.any Ty.isReference = true := by
  have htype : k.type.map Ty.outline = m.type.map Ty.outline := congrArg Node.type h
  cases ht : k.type with
  | none => rw [ht] at hr; cases hr
  | some t =>
    rw [ht] at hr htype
    obtain ⟨u, hu, hout⟩ := Option.map_eq_some_iff.mp htype.symm
    rw [hu, Option.any_some, Ty.eq_of_bare Ty.isReference_bare (Ty.bare_of_outline hout)]
    exact hr

/-- What another check makes of the base of an access denotes storage, or is a pointer, if the base does. -/
theorem Twins.base {c d u : Expr} {s : Ty} (h : Twins c d u) (hs : d.type? = some s) (hl : s.isList = false)
    (hc : c.denotesStorage = true ∨ c.isPointer = true) : s.stored.isPointer = true ∨ d.denotesStorage = true := by
  have hout := h.redrawn.outline_eq hs hl
  rcases hc with hc | hc
  · exact .inr (denotesStorage_of_outline hout hc)
  · obtain ⟨t, ht, htout⟩ := type_of_outline hout.symm hs
    rw [Expr.isPointer, ht, Option.any_some] at hc
    exact .inl (Ty.eq_of_bare Ty.isPointer_bare (Ty.bare_of_outline (Ty.outline_eq Ty.outline_stored htout)) ▸ hc)

theorem checkIndex_follows {c₁ c₂ d₁ d₂ u₁ u₂ : Expr} {s w : Ty} (hl : Twins c₁ d₁ u₁) (hr : Twins c₂ d₂ u₂)
    (hs : d₁.type? = some s) (hw : d₂.type? = some w) {m : Node} (hk : (Expr.index m c₁ c₂).Tolerant) :
    Yields T (checkIndex n d₁ d₂) fun r => r.outline = (Expr.index m c₁ c₂).outline →
      Accepts T (checkIndex n' u₁ u₂) r.Resembles := by
  obtain ⟨s', hs', hrs, hexact⟩ := hl.resembles.typed s hs
  obtain ⟨w', hw', hrw⟩ := hr.resembles.type hw
  have hlists : ∀ c ∈ [c₁, c₂], c.isOpen = false := hk.lists rfl
  unfold checkIndex
  simp only [type_ok hs, type_ok hw, type_ok hs', type_ok hw', lift_ok, pure_bind]
  split
  · exact Yields.reject _ _
  rename_i element varying hi
  have hsl : s.isList = false := by cases s <;> first | rfl | cases hi
  have hst := hl.resembles.stored (not_scalarSymbol hs (by cases s <;> first | rfl | cases hi))
  obtain ⟨element', hi', hshape, hsame⟩ := indexed_of_shape (Ty.stored_of_relaxed hrs hsl) hi
  split
  · exact Yields.reject _ _
  rename_i hinteger
  refine Yields.bind (hr.fills hw (hlists c₂ (by simp)) _ _) (fun p hp => ?_) Yields.none
  dsimp only
  split
  · exact Yields.reject _ _
  rename_i hvoid
  -- here the element was found, and the folded base has the like element at the like address
  refine Yields.some fun hout => ?_
  simp only [outline, index.injEq] at hout
  have hf := hp hout.2.2
  have hwl := hf.not_list (.inl rfl)
  have hposition := Ty.bare_of_outline (Ty.rvalue_of_relaxed hrw hwl)
  rw [hi']
  dsimp only
  rw [Ty.eq_of_bare Ty.isIntegerScalar_bare hposition, if_neg hinteger, Ty.eq_of_bare Ty.variability_bare hposition,
    Ty.eq_of_bare Ty.isVarying_bare hposition]
  refine Accepts.bind (hr.converts hw hf rfl _) fun p' hp' => ?_
  obtain ⟨z', hz', hcore'⟩ := hp' hwl
  obtain ⟨z, hz, hcore⟩ := hr.kept_type hw hwl hf hout.2.2
  dsimp only
  rw [Ty.isVoid_eq (Ty.core_of_shape hshape), if_neg hvoid]
  refine Accepts.some (.of_part rfl rfl (.closed rfl rfl) rfl ?_ fun hd => ?_)
  · split
    · exact Ty.shape_withVariability _ hshape
    · exact hshape
  have hbase : s.stored.isPointer = true ∨ d₁.denotesStorage = true := by
    rw [denotesStorage, Bool.or_eq_true] at hd
    rcases hd with hd | hd
    · exact index_base hs hz hi hd
    · exact hl.base hs hsl (hk.node (isReference_of_node hout.1 hd))
  have helement := hsame (hbase.imp_right fun h => Ty.outline_eq Ty.outline_stored (hexact h))
  refine ⟨?_, ?_⟩
  · split
    · exact Ty.outline_eq Ty.outline_asVarying helement
    · exact helement
  · have hvarying : z'.isVarying = z.isVarying := congrArg (· == Variability.varying) (Ty.variability_eq (hcore'.trans hcore.symm))
    exact index_stored _ hst hs hs' (Ty.core_of_shape (Ty.stored_of_relaxed hrs hsl)) (Ty.isReference_of_relaxed hrs) hz hz'
      hvarying hi hi' helement hbase

/-! ## Members -/

theorem member_addressType {d : Expr} {s : Ty} {name : String} {arrow : Bool} {access : Access} (hs : d.type? = some s)
    (ha : access.isAddressable = true) : (Expr.member n d name arrow (some access)).addressType =
      (if arrow then .ok (some s.stored.isVarying) else storageVariability d.addressType d.type) >>= fun v => match v with
        | none => .ok none
        | some v =>
          match accessedType? access with
          | some t => .ok (some (addressOfType t v))
          | none => .error (.missingMember name) := by
  rw [addressType]
  simp only [ha, Bool.not_true, Bool.false_eq_true, if_false, type_ok hs]
  cases arrow <;> rfl

section
variable {c d u : Expr} {s s' t t' : Ty} {name : String} {arrow : Bool} {a a' : Access} (hst : d.Stored u)
  (hs : d.type? = some s) (hs' : u.type? = some s') (hrelaxed : s'.relaxed = s.relaxed)

theorem member_base (hs : d.type? = some s) (h : (Expr.member n d name arrow (some a)).hasAddress = true) :
    arrow = true ∨ d.denotesStorage = true := by
  by_contra hn
  rw [not_or] at hn
  unfold hasAddress at h
  cases ha : a.isAddressable with
  | false =>
    rw [addressType, ha] at h
    cases h
  | true =>
    rw [member_addressType hs ha, if_neg hn.1] at h
    cases hv : storageVariability d.addressType d.type with
    | error => rw [hv] at h; cases h
    | ok v =>
      cases v with
      | none => rw [hv] at h; cases h
      | some v => exact hn.2 (denotesStorage_of_isStorage hs (by rw [isStorage, hv]; rfl))

include hst hs hs' hrelaxed in
theorem member_stored (ha : a.isAddressable = true) (ha' : a'.isAddressable = true)
    (hpicked : (accessedType? a').map Ty.outline = (accessedType? a).map Ty.outline)
    (hbase : arrow = true ∨ d.denotesStorage = true) :
    (Expr.member n d name arrow (some a)).Stored (.member n' u name arrow (some a')) := by
  refine ⟨fun x hx => ?_, fun _ hx => ?_⟩
  · rw [member_addressType hs ha] at hx
    obtain ⟨v, hv, hx⟩ := bind_eq_ok hx
    cases v with
    | none => cases hx
    | some v =>
      cases hp : accessedType? a with
      | none => rw [hp] at hx; cases hx
      | some t =>
        rw [hp] at hx hpicked
        cases hx
        obtain ⟨t', ht', hout⟩ := Option.map_eq_some_iff.mp hpicked
        refine ⟨addressOfType t' v, ?_, by rw [addressOfType_outline, addressOfType_outline, hout]⟩
        have hv' : (if arrow then .ok (some s'.stored.isVarying) else storageVariability u.addressType u.type) = Except.ok (some v) := by
          split at hv
          · cases hv
            rw [if_pos ‹_›]
            exact congrArg (fun v => Except.ok (some (v == Variability.varying))) (Ty.stored_variability_of_relaxed hrelaxed)
          · rw [if_neg ‹_›]
            exact hst.storage hs hs' (Ty.isReference_of_relaxed hrelaxed) hv
        rw [member_addressType hs' ha', hv']
        dsimp only [bind, Except.bind]
        rw [ht']
  · rw [member_addressType hs ha] at hx
    obtain ⟨v, hv, hx⟩ := bind_eq_ok hx
    cases v with
    | none =>
      split at hv
      · cases hv
      · rename_i harrow
        exact absurd (storage_of_denotesStorage hs (hbase.resolve_left harrow) (by rw [isStorage, hv]; rfl)) Bool.false_ne_true
    | some v =>
      cases hp : accessedType? a with
      | none => rw [hp] at hx; cases hx
      | some t => rw [hp] at hx; cases hx

/-- What picks a member of the base, and of the folded base. -/
structure Picks (d : Expr) (s s' : Ty) (arrow : Bool) (a a' : Access) (t t' : Ty) : Prop where
  shape : t'.asNonConst.outline = t.asNonConst.outline
  addressable : a'.isAddressable = a.isAddressable
  several : a.isAddressable = false → t.isReference = false
  same : arrow = true ∨ s'.stored.outline = s.stored.outline → t'.outline = t.outline ∧
    (accessedType? a').map Ty.outline = (accessedType? a).map Ty.outline

include hst hs hs' hrelaxed in
theorem memberOf_resembles (hp : Picks d s s' arrow a a' t t') (hexact : d.denotesStorage = true → s'.outline = s.outline)
    (hk : t.isReference = true → arrow = true ∨ d.denotesStorage = true) :
    (memberOf n d name arrow a t).Resembles (memberOf n' u name arrow a' t') := by
  refine .of_part rfl rfl (.closed rfl rfl) rfl hp.shape fun hd => ?_
  rw [denotesStorage, Bool.or_eq_true] at hd
  have hbase : arrow = true ∨ d.denotesStorage = true := hd.elim (member_base hs) hk
  obtain ⟨hsame, hpicked⟩ := hp.same (hbase.imp_right fun h => Ty.outline_eq Ty.outline_stored (hexact h))
  refine ⟨hsame, ?_⟩
  cases ha : a.isAddressable with
  | true => exact member_stored _ hst hs hs' hrelaxed ha (hp.addressable.trans ha) hpicked hbase
  | false =>
    refine .of_value ?_
    have hnone : (memberOf n d name arrow a t).addressType = .ok none := by
      rw [memberOf, addressType, ha]
      rfl
    rw [denotesStorage, hasAddress, hnone]
    exact hp.several ha

end

theorem checkField_follows {c d u : Expr} {s s' type type' : Ty} (hst : d.Stored u) (hs : d.type? = some s)
    (hs' : u.type? = some s') (hrs : s'.relaxed = s.relaxed) (hexact : d.denotesStorage = true → s'.outline = s.outline)
    {m : Node} {name : String} {arrow varying : Bool} {access : Option Access} {names names' : List String}
    (hshape : type'.asNonConst.outline = type.asNonConst.outline)
    (hsame : arrow = true ∨ s'.stored.outline = s.stored.outline → type'.outline = type.outline)
    (hk : m.type.any Ty.isReference = true → arrow = true ∨ d.denotesStorage = true) :
    Yields T (checkField n d name arrow varying type names) fun r => r.outline = (Expr.member m c name arrow access).outline →
      Accepts T (checkField n' u name arrow varying type' names') r.Resembles := by
  unfold checkField
  dsimp only
  cases hf : (type.memberIndex? name).bind fun i => (type.elementAt? i).map fun t => (i, t) with
  | none => exact Yields.reject _ _
  | some found =>
    obtain ⟨i, t⟩ := found
    obtain ⟨t', hf', ht, hout⟩ := found_of_shape hshape hf
    have helement : ∀ {type t : Ty}, ((type.memberIndex? name).bind fun i => (type.elementAt? i).map fun t => (i, t)) = some (i, t) →
        accessedType? (.field i type) = some t := by
      intro type t hf
      obtain ⟨j, -, hj⟩ := Option.bind_eq_some_iff.mp hf
      obtain ⟨v, hv, hpair⟩ := Option.map_eq_some_iff.mp hj
      cases hpair
      exact hv
    rw [hf']
    refine Yields.some fun hnode => Accepts.some (memberOf_resembles n' hst hs hs' hrs ⟨?_, rfl, nofun, fun h => ⟨?_, ?_⟩⟩ hexact
      fun hr => hk ?_)
    · split
      · exact Ty.shape_withVariability _ ht
      · exact ht
    · split
      · exact Ty.outline_eq Ty.outline_asVarying (hout (hsame h))
      · exact hout (hsame h)
    · rw [helement hf, helement hf', Option.map_some, Option.map_some, hout (hsame h)]
    · simp only [memberOf, outline, member.injEq] at hnode
      exact isReference_of_node hnode.1 hr

theorem checkSwizzle_follows {c d u : Expr} {s s' : Ty} (hst : d.Stored u) (hs : d.type? = some s) (hs' : u.type? = some s')
    (hrs : s'.relaxed = s.relaxed) (hexact : d.denotesStorage = true → s'.outline = s.outline) {m : Node} {name : String}
    {arrow varying : Bool} {access : Option Access} {v v' : ScalarTy} {count : Nat} {o o' : Origin}
    (hshape : (Ty.scalar v').asNonConst.outline = (Ty.scalar v).asNonConst.outline)
    (hsame : arrow = true ∨ s'.stored.outline = s.stored.outline → v'.bare = v.bare) :
    Yields T (checkSwizzle n d name arrow varying (.vector v count o) v count) fun r =>
      r.outline = (Expr.member m c name arrow access).outline →
        Accepts T (checkSwizzle n' u name arrow varying (.vector v' count o') v' count) r.Resembles := by
  unfold checkSwizzle
  cases hindices : swizzle? name count with
  | none => exact Yields.reject _ _
  | some indices =>
    dsimp only
    have picked : ∀ {w w' : ScalarTy}, (Ty.scalar w').outline = (Ty.scalar w).outline →
        (if indices.length = 1 then Ty.scalar w' else .vector w' indices.length).outline =
          (if indices.length = 1 then Ty.scalar w else .vector w indices.length).outline := by
      intro w w' hw
      split
      · exact hw
      · exact congrArg (Ty.vector · indices.length) (Ty.scalar.inj hw)
    have nonConst : ∀ w : ScalarTy, (if indices.length = 1 then Ty.scalar w else .vector w indices.length).asNonConst =
        if indices.length = 1 then .scalar (w.withConst false) else .vector (w.withConst false) indices.length := by
      intro w
      split <;> rfl
    have value : ∀ w : ScalarTy, (if indices.length = 1 then Ty.scalar w else .vector w indices.length).isReference = false := by
      intro w
      split <;> rfl
    -- one element is a scalar, several are a vector: what is shown of scalars carries over by `picked`
    refine Yields.some fun _ => Accepts.some (memberOf_resembles n' hst hs hs' hrs ⟨?_, rfl, fun _ => value _, fun h => ⟨?_, ?_⟩⟩
      hexact fun hr => ?_)
    · rw [nonConst, nonConst]
      refine picked ?_
      split
      · exact Ty.shape_withVariability .varying hshape
      · exact hshape
    · refine picked ?_
      have hout : (Ty.scalar v').outline = (Ty.scalar v).outline := congrArg Ty.scalar (hsame h)
      split
      · exact Ty.outline_eq Ty.outline_asVarying hout
      · exact hout
    · exact congrArg (fun w => some (Ty.scalar w)) (hsame h)
    · rw [value] at hr
      cases hr

theorem memberBase_pointer {arrow : Bool} {t : Ty} {base : Ty × Bool} (hb : memberBase arrow t = .ok base)
    (hp : t.isPointer = true) : arrow = true := by
  cases arrow with
  | true => rfl
  | false =>
    cases t with
    | pointer => cases hb
    | _ => cases hp

theorem checkMember_follows {c d u : Expr} {s : Ty} (h : Twins c d u) (hs : d.type? = some s) {m : Node}
    {name : String} {arrow : Bool} {access : Option Access} (hk : (Expr.member m c name arrow access).Tolerant) :
    Yields T (checkMember n d name arrow) fun r => r.outline = (Expr.member m c name arrow access).outline →
      Accepts T (checkMember n' u name arrow) r.Resembles := by
  obtain ⟨s', hs', hrs, hexact⟩ := h.resembles.typed s hs
  unfold checkMember
  simp only [type_ok hs, type_ok hs', lift_ok, pure_bind]
  cases hb : memberBase arrow s.stored with
  | error => exact Yields.reject _ _
  | ok base =>
    obtain ⟨type, varying⟩ := base
    by_cases hsl : s.isList = true
    · -- a list has no members
      cases s with
      | list =>
        cases arrow with
        | true => cases hb
        | false =>
          cases hb
          exact Yields.reject _ _
      | _ => cases hsl
    rw [Bool.not_eq_true] at hsl
    obtain ⟨type', hb', hshape, hsame⟩ := memberBase_of_shape (Ty.stored_of_relaxed hrs hsl) hb
    have hbase : m.type.any Ty.isReference = true → arrow = true ∨ d.denotesStorage = true := fun hr =>
      (h.base hs hsl (hk.node hr)).imp_left (memberBase_pointer hb)
    have hst : type.isScalar = false → d.Stored u := fun hn => h.resembles.stored <| not_scalarSymbol hs <| by
      cases s with
      | scalar =>
        cases arrow with
        | true => cases hb
        | false =>
          cases hb
          cases hn
      | _ => rfl
    rw [hb']
    dsimp only
    cases type with
    | struct =>
      cases type' with
      | struct => exact checkField_follows n' (hst rfl) hs hs' hrs hexact hshape hsame hbase
      | _ => cases hshape
    | vector v count o =>
      cases type' with
      | vector v' count' o' =>
        obtain ⟨hv, rfl, -⟩ := Ty.vector.inj hshape
        exact checkSwizzle_follows n' (hst rfl) hs hs' hrs hexact (congrArg Ty.scalar hv) fun h => (Ty.vector.inj (hsame h)).1
      | _ => cases hshape
    | _ => exact Yields.reject _ _

/-! ## References and addresses -/

theorem addressTypeOf_reference {e : Expr} {t : Ty} {o : Origin} (ht : e.type? = some (.reference t o)) :
    addressTypeOf e = .ok (some (.pointer t {})) := by
  unfold addressTypeOf
  rw [type_ok ht]
  rfl

theorem addressTypeOf_value {e : Expr} {t : Ty} (ht : e.type? = some t) (hr : t.isReference = false) :
    addressTypeOf e = e.addressType := by
  unfold addressTypeOf
  rw [type_ok ht]
  cases t with
  | reference => cases hr
  | _ => rfl

theorem addressTypeOf_follows {d u : Expr} {s s' a : Ty} (hst : d.Stored u) (hs : d.type? = some s) (hs' : u.type? = some s')
    (hrs : s'.relaxed = s.relaxed) (ha : addressTypeOf d = .ok (some a)) :
    ∃ b, addressTypeOf u = .ok (some b) ∧ b.outline = a.outline := by
  have hr := Ty.isReference_of_relaxed hrs
  cases hsr : s.isReference with
  | true =>
    cases s with
    | reference t o =>
      cases s' with
      | reference t' o' =>
        rw [addressTypeOf_reference hs] at ha
        cases ha
        exact ⟨_, addressTypeOf_reference hs', congrArg (Ty.pointer · {}) (Ty.reference.inj hrs).1⟩
      | _ => cases hr
    | _ => cases hsr
  | false =>
    rw [addressTypeOf_value hs hsr] at ha
    rw [addressTypeOf_value hs' (hr.trans hsr)]
    exact hst.address a ha

section
variable {c d u : Expr} {s : Ty} (h : Twins c d u) (hs : d.type? = some s)
include h hs

theorem checkReference_follows {m : Node} (hst : d.Stored u) : Yields T (checkReference n d) fun r =>
    r.outline = (Expr.reference m c).outline → Accepts T (checkReference n' u) r.Resembles := by
  obtain ⟨s', hs', hrs, hexact⟩ := h.resembles.typed s hs
  unfold checkReference
  simp only [type_ok hs, type_ok hs', lift_ok, pure_bind, Ty.isReference_of_relaxed hrs]
  split
  · rename_i hr
    refine Yields.some fun hout => ?_
    have hsl : s.isList = false := by cases s <;> first | rfl | cases hr
    rw [h.redrawn.outline_eq hs hsl] at hout
    exact absurd hout.symm (reference_outline_ne m)
  · rename_i hr
    refine Gives.lift fun b hb => ?_
    split
    · rename_i hassignable
      subst hassignable
      obtain ⟨a, ha, hsome⟩ := map_eq_ok hb
      obtain ⟨a, rfl⟩ := Option.isSome_iff_exists.mp hsome
      have hsame := hexact (denotesStorage_of_address ha)
      rw [hst.isAssignable hb]
      simp only [Ty.referenceTo, Ty.isReference_of_relaxed hrs, hr, Bool.false_eq_true, if_false, if_true, lift_ok, pure_bind]
      refine Yields.some fun _ => Accepts.some (.of_stored rfl rfl (.closed rfl rfl) rfl (congrArg Ty.reference hsame) ⟨?_, ?_⟩)
      · intro x hx
        obtain ⟨y, hy, hout⟩ := hst.address x (by rwa [addressType] at hx)
        exact ⟨y, by rwa [addressType], hout⟩
      · intro _ hnone
        rw [addressType, ha] at hnone
        cases hnone
    · exact Yields.reject _ _

theorem checkDereference_follows : Yields T (checkDereference n d) fun r => Accepts T (checkDereference n' u) r.Resembles := by
  obtain ⟨s', hs', hrs, hexact⟩ := h.resembles.typed s hs
  unfold checkDereference
  simp only [type_ok hs, type_ok hs', lift_ok, pure_bind]
  cases s with
  | reference t o =>
    cases s' with
    | reference t' o' =>
      have ht : t'.outline = t.outline := Ty.reference.inj hrs |>.1
      refine Yields.some <| Accepts.some (.of_stored rfl rfl (.closed rfl rfl) rfl ht ⟨?_, ?_⟩)
      · intro a ha
        rw [addressType, type_ok hs] at ha
        cases ha
        refine ⟨addressOfType t' false, by rw [addressType, type_ok hs']; rfl, ?_⟩
        rw [addressOfType_outline, addressOfType_outline, ht]
      · intro _ ha
        rw [addressType, type_ok hs] at ha
        cases ha
    | _ => cases (Ty.isReference_of_relaxed hrs : false = true)
  | pointer p q o =>
    cases s' with
    | pointer p' q' o' =>
      obtain ⟨hp, hq, -⟩ := Ty.pointer.inj hrs
      have hv : q'.variability = q.variability := (Qualifiers.mk.inj hq).1
      dsimp only
      rw [Ty.eq_of_bare Ty.isVoid_bare (Ty.bare_of_outline hp), hv]
      split
      · exact Yields.reject _ _
      · refine Yields.some <| Accepts.some (.of_stored rfl rfl (.closed rfl rfl) rfl ?_ ⟨?_, ?_⟩)
        · split
          · exact Ty.outline_eq Ty.outline_asVarying hp
          · exact hp
        · intro a ha
          rw [addressType, type_ok hs] at ha
          cases ha
          refine ⟨.pointer p' { q' with isConst := false }, by rw [addressType, type_ok hs']; rfl, ?_⟩
          rw [Ty.outline, Ty.outline, hp, hv]
        · intro _ ha
          rw [addressType, type_ok hs] at ha
          cases ha
    | _ => cases (Ty.isPointer_of_relaxed hrs : false = true)
  | _ => exact Yields.reject _ _

theorem checkAddressOf_follows (hst : d.Stored u) : Yields T (checkAddressOf n d) fun r =>
    Accepts T (checkAddressOf n' u) r.Resembles := by
  obtain ⟨s', hs', hrs, hexact⟩ := h.resembles.typed s hs
  by_cases hname : d.isFunctionName = true
  · -- a name stands for itself
    obtain rfl : u = d := h.resembles.name_kept hname
    cases u with
    | function f =>
      unfold checkAddressOf
      simp only [type_ok hs, lift_ok, pure_bind]
      split
      · exact Yields.reject _ _
      · exact Yields.some (Accepts.some (.of_nodes rfl rfl rfl rfl rfl rfl rfl))
    | _ => cases hname
  · have hvalue : ∀ {n : Node} {e : Expr}, ¬ e.isFunctionName = true → checkAddressOf n e = (do
        match ← addressTypeOf e with
        | some t => return some (.addressOf (.typed n.place t) e)
        | none => reject n.place (.addressOfValue e.text)) := by
      intro n e he
      cases e with
      | function => exact absurd rfl he
      | _ => rfl
    rw [hvalue hname]
    refine Gives.lift fun o ho => ?_
    cases o with
    | none => exact Yields.reject _ _
    | some a =>
      -- a name of functions has no address, and its type is no reference
      obtain ⟨b, hb, hout⟩ := addressTypeOf_follows hst hs hs' hrs ho
      have hnot : ¬ u.isFunctionName = true := by
        intro hu
        cases u with
        | function f =>
          cases h.resembles.determined with
          | name _ type_eq isFunction =>
            obtain rfl := Option.some.inj (hs'.symm.trans type_eq)
            rw [addressTypeOf_value hs' (by cases s' <;> first | rfl | cases isFunction)] at hb
            cases hb
          | closed closed => cases closed
        | _ => cases hu
      rw [hvalue hnot]
      refine Yields.some (Accepts.read hb (Accepts.some (.of_nodes rfl rfl (Ty.relaxed_of_outline hout) rfl rfl rfl rfl)))

end

end Check

end Spmd
