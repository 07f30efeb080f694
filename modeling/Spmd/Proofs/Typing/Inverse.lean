import Spmd.Proofs.Typing.Compound
import Spmd.Proofs.Typing.Pointer
import Spmd.Proofs.WellTyped.Address

/-!
# Addresses and what they point to

Taking an address and following a pointer undo each other on types: what the address of some storage points to is read with the
type of the storage, and the address of what a pointer points to is that pointer (`typecheck_address_inverse`). The type of an
address and the type of what is stored there are made varying apart. They agree because storage at an address that differs from
lane to lane is of a type that being varying does not change (`Expr.Checked.address_varies`). A reference to `void` has an address
that cannot be followed (`voidReference_stuck`).
-/

namespace Spmd

/-! ## Types that are varying already -/

namespace Ty

variable {t u : Ty} {q : Qualifiers}

/-- Being varying changes nothing. -/
def Varies (t : Ty) : Prop := t.asVarying.bare = t.bare

theorem varies_asVarying (t : Ty) : t.asVarying.Varies := by
  have h := congrArg bare (withVariability_withVariability .varying .varying t)
  rwa [bare_outline, bare_outline] at h

theorem Varies.asConst (h : t.Varies) : t.asConst.Varies :=
  calc t.asConst.asVarying.bare
    _ = (t.asVarying.withConst true).bare := (withVariability_withConst .varying true t).symm
    _ = t.asVarying.bare.withConst true := bare_withConst true _
    _ = t.bare.withConst true := congrArg (withConst true) h
    _ = t.asConst.bare := (bare_withConst true t).symm

theorem memberType_varies (hq : q.variability = .varying) (t : Ty) : (memberType q t).Varies := by
  unfold memberType
  dsimp only
  rw [if_pos hq]
  split
  · exact (varies_asVarying t).asConst
  · exact varies_asVarying t

theorem scalar_varies {s : ScalarTy} (hs : s.qualifiers.variability = .varying) : (scalar s).Varies := by
  obtain ⟨e, ⟨v, c⟩, o⟩ := s
  cases hs
  rfl

theorem vector_varies {s : ScalarTy} (hs : s.qualifiers.variability = .varying) (n : Nat) : (vector s n).Varies := by
  obtain ⟨e, ⟨v, c⟩, o⟩ := s
  cases hs
  rfl

theorem Varies.stored (h : t.Varies) : t.stored.Varies := by
  cases t with
  | reference r o => exact reference.inj h |>.1
  | _ => exact h

end Ty

/-- What is picked out of something varying, or through a varying pointer, is varying. -/
theorem Access.pickedType_varies {x : Access} {varying : Bool} {t : Ty} (h : x.pickedType varying = some t)
    (hv : varying = true ∨ x.aggregate.Varies) : t.Varies := by
  cases x with
  | field i aggregate =>
    simp only [pickedType, Option.ite_none_right_eq_some, Option.map_eq_some_iff] at h
    obtain ⟨hstruct, u, hu, rfl⟩ := h
    cases varying with
    | true => exact Ty.varies_asVarying u
    | false =>
      have hagg : aggregate.Varies := hv.resolve_left Bool.false_ne_true
      cases aggregate with
      | struct s ms q o =>
        have hq : q.variability = .varying := (congrArg Qualifiers.variability (Ty.struct.inj hagg).2.2.1).symm
        simp only [Ty.elementAt?, Option.map_eq_some_iff] at hu
        obtain ⟨m, -, rfl⟩ := hu
        exact Ty.memberType_varies hq m.2
      | _ => cases hstruct
  | swizzle indices aggregate =>
    cases aggregate with
    | vector s n o =>
      cases h
      have hs : (if varying then s.withVariability .varying else s).qualifiers.variability = .varying := by
        cases varying with
        | true => rfl
        | false =>
          have hagg := (Ty.vector.inj (hv.resolve_left Bool.false_ne_true)).1
          exact (congrArg (·.qualifiers.variability) hagg).symm
      split
      · exact Ty.scalar_varies hs
      · exact Ty.vector_varies hs _
    | _ => cases h

namespace Expr

variable {T : Target} {e : Expr} {a t : Ty}

theorem memberBase_spread {varying : Bool} {aggregate : Ty} (h : Check.memberBase true t = .ok (aggregate, varying))
    (hv : t.isVarying = true) : varying = true := by
  cases t with
  | pointer => cases h; exact hv
  | _ => cases h

theorem memberBase_dot {varying : Bool} {aggregate : Ty} (h : Check.memberBase false t = .ok (aggregate, varying)) :
    t = aggregate := by
  cases t with
  | pointer => cases h
  | _ => cases h; rfl

/-- What is stored at a varying address is of a type that is varying already. -/
theorem Checked.address_varies (h : Checked T e) (hw : Everywhere WellTyped e) (ht : e.type? = some t)
    (ha : e.addressType = .ok (some a)) (hv : a.isVarying = true) : t.Varies := by
  induction e using Expr.induct generalizing a t with
  | h e ih =>
  cases e with
  | index n base position =>
    obtain ⟨element, varying, hn, rfl⟩ := WellTyped.index_address h hw.here ha
    rw [addressOfType_isVarying] at hv
    rw [hv, if_pos rfl] at hn
    obtain rfl := Option.some.inj (ht.symm.trans hn)
    exact Ty.varies_asVarying _
  | member n base name arrow access =>
    obtain ⟨b, aggregate, varying, x, hb, hbase, rfl, rfl, hn⟩ := hw.here
    obtain ⟨hx, u, v, hpicked, rfl, harrow, hdot⟩ := memberAddressType_some ha
    rw [addressOfType_isVarying] at hv
    subst hv
    refine Access.pickedType_varies (hn.symm.trans ht) ?_
    -- behind an arrow it is the pointer that is varying, behind a dot the storage of the base
    cases arrow with
    | true =>
      obtain ⟨b', hb', hv⟩ := harrow rfl
      cases Except.ok.inj ((type_ok hb).symm.trans hb')
      exact .inl (memberBase_spread hbase hv.symm)
    | false =>
      rcases storageVariability_some (hdot rfl) with ⟨a, ha, -, hv⟩ | ⟨-, hv⟩
      · have hbase' := ih base (by simp [children]) (h.child (by simp [children])) (hw.child (by simp [children])) hb ha hv.symm
        exact .inr (memberBase_dot hbase ▸ hbase'.stored)
      · cases hv
  | reference n c =>
    obtain ⟨b, hb, -, hn, -⟩ := hw.here
    obtain rfl := Option.some.inj (ht.symm.trans hn)
    have hc := ih c (by simp [children]) (h.child (by simp [children])) (hw.child (by simp [children])) hb ha hv
    exact congrArg Ty.reference hc
  | dereference n c =>
    obtain ⟨b, u, hb, hread, hn⟩ := hw.here
    obtain rfl := Option.some.inj (ht.symm.trans hn)
    rw [addressType, type_ok hb] at ha
    cases b with
    | reference r o =>
      cases ha
      rw [addressOfType_isVarying] at hv
      cases hv
    | pointer p q o =>
      cases ha
      cases hread
      have hq : q.variability = .varying := by simpa [Ty.isVarying, Ty.variability] using hv
      rw [if_pos hq]
      exact Ty.varies_asVarying p
    | _ => cases ha
  | symbol n s =>
    rw [addressType, type_ok ht] at ha
    cases ha
    rw [addressOfType_isVarying] at hv
    cases hv
  | _ => cases ha

theorem pickedType_reads {x : Access} {varying : Bool} {u : Ty} (hx : x.isAddressable = true)
    (ht : x.pickedType varying = some t) (hu : accessedType? x = some u) : t = u ∨ t = u.asVarying := by
  cases varying with
  | false => exact .inl (pickedType_addressable hx ht hu)
  | true =>
    refine .inr ?_
    cases x with
    | field i aggregate =>
      simp only [Access.pickedType, if_true, Option.ite_none_right_eq_some, Option.map_eq_some_iff] at ht
      obtain ⟨-, w, hw, rfl⟩ := ht
      rw [Option.some.inj (hw.symm.trans hu)]
    | swizzle indices aggregate =>
      simp only [Access.isAddressable, beq_iff_eq] at hx
      cases aggregate with
      | vector s n o =>
        simp only [Access.pickedType, hx, if_true] at ht
        cases hu
        exact (Option.some.inj ht).symm
      | _ => cases ht

/-- The address of a value points to its type, which is varying where that is not. -/
theorem addressType_points (h : Checked T e) (hw : e.WellTyped) (ht : e.type? = some t) (hr : t.isReference = false)
    (ha : e.addressType = .ok (some a)) : ∃ p q o, a = .pointer p q o ∧ (t = p ∨ t = p.asVarying) := by
  -- the other forms have no address, and the address of a reference is none of a value
  cases e with
  | index n base position =>
    obtain ⟨element, varying, hn, rfl⟩ := WellTyped.index_address h hw ha
    obtain rfl := Option.some.inj (ht.symm.trans hn)
    refine ⟨element, _, _, rfl, ?_⟩
    split
    · exact .inr rfl
    · exact .inl rfl
  | member n base name arrow access =>
    obtain ⟨b, aggregate, varying, x, -, -, rfl, -, hn⟩ := hw
    obtain ⟨hx, u, v, hpicked, rfl, -⟩ := memberAddressType_some ha
    exact ⟨u, _, _, rfl, pickedType_reads hx (hn.symm.trans ht) hpicked⟩
  | reference n c =>
    obtain ⟨b, -, -, hn, -⟩ := hw
    rw [Option.some.inj (ht.symm.trans hn)] at hr
    cases hr
  | dereference n c =>
    obtain ⟨b, u, hb, hread, hn⟩ := hw
    obtain rfl := Option.some.inj (ht.symm.trans hn)
    rw [addressType, type_ok hb] at ha
    cases b with
    | reference r o =>
      cases ha
      cases hread
      exact ⟨_, _, _, rfl, .inl rfl⟩
    | pointer p q o =>
      cases ha
      cases hread
      exact ⟨p, _, _, rfl, Ty.through_cases p q⟩
    | _ => cases ha
  | symbol n s =>
    rw [addressType, type_ok ht] at ha
    cases ha
    exact ⟨t, _, _, rfl, .inl rfl⟩
  | _ => cases ha

/-- What an address points to is read with the type of what is stored there. -/
theorem Checked.addressTypeOf_reads (h : Checked T e) (hw : Everywhere WellTyped e) (ht : e.type? = some t)
    (ha : Check.addressTypeOf e = .ok (some a)) : ∃ p q o, a = .pointer p q o ∧ (p.through q).bare = t.stored.bare := by
  cases hr : t.isReference with
  | true =>
    unfold Check.addressTypeOf at ha
    rw [type_ok ht] at ha
    cases t with
    | reference r _ =>
      cases ha
      exact ⟨_, {}, none, rfl, rfl⟩
    | _ => cases hr
  | false =>
    rw [addressTypeOf_value ht hr] at ha
    rw [Ty.stored_of_not_reference hr]
    cases hv : a.isVarying with
    | false => exact ⟨t, {}, none, addressType_uniform h hw.here ht hr ha hv, rfl⟩
    | true =>
      have hvaries : t.Varies := h.address_varies hw ht ha hv
      obtain ⟨p, q, o, rfl, hp⟩ := addressType_points h hw.here ht hr ha
      have hq : q.variability = .varying := by simpa [Ty.isVarying, Ty.variability] using hv
      refine ⟨p, q, o, rfl, ?_⟩
      rw [Ty.through, if_pos hq]
      rcases hp with rfl | rfl
      · exact hvaries
      · rfl

theorem Checked.addressTypeOf_some (h : Checked T e) (ht : e.type? = some t) (hs : e.isStorage = .ok true) :
    ∃ a, Check.addressTypeOf e = .ok (some a) := by
  cases hr : t.isReference with
  | true =>
    unfold Check.addressTypeOf
    rw [type_ok ht]
    cases t with
    | reference => exact ⟨_, rfl⟩
    | _ => cases hr
  | false =>
    obtain ⟨a, ha⟩ := h.addressType_ok
    rw [h.isStorage_eq, denotesStorage, hasAddress_of_ok ha, isReference_eq ht, hr, Bool.or_false] at hs
    obtain ⟨a, rfl⟩ := Option.isSome_iff_exists.mp (Except.ok.inj hs)
    exact ⟨a, (addressTypeOf_value ht hr).trans ha⟩

end Expr

namespace Check

open Spmd.Expr

variable {T : Target} {e c : Expr} {t : Ty} {n m : Node}

/-! ## Both checks in a row -/

theorem checkAddressOf_address {a : Ty} (hname : c.isFunctionName = false) (ha : addressTypeOf c = .ok (some a)) :
    checkAddressOf n c = pure (some (.addressOf (.typed n.place a) c)) := by
  unfold checkAddressOf
  split
  · cases hname
  · rw [ha]
    rfl

theorem resolved_run {o : Option Expr} {s s' : Session} (h : (resolved o).run s = (.ok (some c), s')) : o = some c ∧ s' = s := by
  unfold resolved at h
  split at h
  · split at h
    · cases h
      exact ⟨rfl, rfl⟩
    · cases h
  · cases h
    exact ⟨rfl, rfl⟩

theorem always_check (h : Always T (typecheck e) (some c)) : Always T (check e) (some c) := by
  intro s hs
  obtain ⟨s', hrun, hs'⟩ := h s hs
  obtain ⟨o, s'', hcheck, hresolved⟩ := run_bind_ok hrun
  obtain ⟨rfl, rfl⟩ := resolved_run hresolved
  exact ⟨s', hcheck, hs'⟩

theorem typecheck_dereference : typecheck (.dereference m e) =
    typecheck e >>= fun o => withOne o (checkDereference m) >>= resolved := by
  unfold typecheck
  rw [check]
  simp only [needed, bind_assoc]

theorem typecheck_addressOf : typecheck (.addressOf n e) = check e >>= fun o => withOne o (checkAddressOf n) >>= resolved := by
  unfold typecheck
  rw [check]
  simp only [needed, bind_assoc]

/-- The type of the address of what is accepted, or of what a pointer points to. -/
theorem always_addressOf {a : Ty} (h : Always T (check e) (some c)) (hname : c.isFunctionName = false)
    (ha : addressTypeOf c = .ok (some a)) :
    Always T (typecheck (.addressOf n e)) (some (.addressOf (.typed n.place a) c)) := by
  rw [typecheck_addressOf]
  refine h.bind ?_
  rw [withOne, checkAddressOf_address hname ha, pure_bind]
  exact Always.pure _

theorem always_dereference {p : Ty} {q : Qualifiers} {o : Origin} (h : Always T (typecheck e) (some c))
    (hc : c.type? = some (.pointer p q o)) (hvoid : p.isVoid = false) :
    Always T (typecheck (.dereference m e)) (some (.dereference (.typed m.place (p.through q)) c)) := by
  rw [typecheck_dereference]
  refine h.bind ?_
  rw [withOne, checkDereference_pointer hc hvoid, pure_bind]
  exact Always.pure _

/-- The address of storage that is not `void` can be followed. -/
theorem dereference_addressOf (h : Always T (typecheck e) (some c)) (hc : Checked T c) (hw : Everywhere WellTyped c)
    (ht : c.type? = some t) (hname : c.isFunctionName = false) (hs : c.isStorage = .ok true) (hvoid : t.stored.isVoid = false) :
    ∃ d u, Always T (typecheck (.dereference m (.addressOf n e))) (some d) ∧ d.type? = some u ∧ u.same t.stored = true := by
  obtain ⟨a, ha⟩ := hc.addressTypeOf_some ht hs
  obtain ⟨p, q, o, rfl, hreads⟩ := hc.addressTypeOf_reads hw ht ha
  have hp : p.isVoid = false := by
    rw [← hvoid, ← Ty.isVoid_bare t.stored, ← hreads, Ty.isVoid_bare]
    rcases Ty.through_cases p q with h | h <;> rw [h]
    exact (Ty.isVoid_withVariability .varying p).symm
  exact ⟨_, _, always_dereference (always_addressOf (always_check h) hname ha) rfl hp, rfl, (Ty.same_iff _ _).mpr hreads⟩

/-- The address of what a pointer points to is the pointer. -/
theorem addressOf_dereference {p : Ty} {q : Qualifiers} {o : Origin} (h : Always T (typecheck e) (some c))
    (ht : c.type? = some (.pointer p q o)) (hvoid : p.isVoid = false) (hr : p.isReference = false) :
    ∃ d u, Always T (typecheck (.addressOf n (.dereference m e))) (some d) ∧ d.type? = some u ∧
      u.same (Ty.pointer p q o).asNonConst = true := by
  have hderef := always_check (always_dereference (m := m) h ht hvoid)
  have ha : addressTypeOf (.dereference (.typed m.place (p.through q)) c) =
      .ok (some (.pointer p { q with isConst := false })) := by
    rw [addressTypeOf_value (t := p.through q) rfl ((Ty.isReference_through p q).trans hr), addressType, type_ok ht]
    rfl
  exact ⟨_, _, always_addressOf hderef rfl ha, rfl, (Ty.same_iff _ _).mpr rfl⟩

end Check

/-- What an expression is accepted as, in all sessions with the target, can be followed back from its address, unless it is or
refers to `void`, and is the address of what it points to, unless that is `void` or a reference. -/
theorem typecheck_address_inverse {T : Target} {e : Expr} {n m : Node} (he : Expr.Everywhere (Expr.Loaded T) e) :
    ∃ r, Check.Always T (Check.typecheck e) r ∧ ∀ c, r = some c → ∃ t, c.type? = some t ∧
      (c.isFunctionName = false → c.isStorage = .ok true → t.stored.isVoid = false →
        ∃ d u, Check.Always T (Check.typecheck (.dereference m (.addressOf n e))) (some d) ∧ d.type? = some u ∧
          u.same t.stored = true) ∧
      ∀ p q o, t = .pointer p q o → p.isVoid = false → p.isReference = false →
        ∃ d u, Check.Always T (Check.typecheck (.addressOf n (.dereference m e))) (some d) ∧ d.type? = some u ∧
          u.same t.asNonConst = true := by
  have hprepared := Expr.prepared_of_loaded he
  obtain ⟨r, hr, hchecked⟩ := typecheck_always he
    (Check.needed_yields (Check.check_delivers hprepared) (Check.check_wellTyped hprepared))
  refine ⟨r, hr, fun c hc => ?_⟩
  obtain ⟨⟨hoperand, t, ht⟩, hw, -⟩ := hchecked c hc
  subst hc
  refine ⟨t, ht, fun hname hs hvoid => ?_, ?_⟩
  · exact Check.dereference_addressOf hr (hoperand.toChecked ht) hw ht hname hs hvoid
  · rintro p q o rfl hvoid href
    exact Check.addressOf_dereference hr ht hvoid href

/-! ## Variables -/

/-- A variable `a`, on its own. -/
def variableJson (type : Json) : Json := programJson [("a", type)] (.object [("symbol", .string "a")])

theorem typecheck_address_inverse_pointer :
    (∃ d u, Check.Always .standard (Check.typecheck (.dereference {} (.addressOf {} pointerNamed))) (some d) ∧ d.type? = some u ∧
      u.same (.pointer .int32 {}) = true) ∧
    ∃ d u, Check.Always .standard (Check.typecheck (.addressOf {} (.dereference {} pointerNamed))) (some d) ∧ d.type? = some u ∧
      u.same (.pointer .int32 {}) = true := by
  obtain ⟨scope, hread⟩ : ∃ scope, Program.read .standard "program"
      (some (variableJson (.object [("pointer", .string "int32")]))) = .ok ⟨scope, [pointerNamed]⟩ := ⟨_, rfl⟩
  obtain ⟨r, hr, h⟩ := typecheck_address_inverse (n := {}) (m := {}) (Program.loaded hread (List.mem_singleton_self _))
  obtain ⟨s', hrun, -⟩ := hr { target := .standard } rfl
  rw [pointerNamed, localNamed, Check.typecheck, Check.check] at hrun
  cases hrun
  obtain ⟨t, ht, hstorage, hpointer⟩ := h _ rfl
  cases ht
  exact ⟨hstorage rfl rfl rfl, hpointer _ _ _ rfl rfl rfl⟩

/-- A reference to `void` is of a type that is not `void`, and denotes storage, but its address cannot be followed. -/
theorem voidReference_stuck : ∃ scope,
    Program.read .standard "program" (some (variableJson (.object [("reference", .string "void")]))) =
      .ok ⟨scope, [localNamed "a" (.reference .void)]⟩ ∧
    ((Check.typecheck (localNamed "a" (.reference .void))).run { target := .standard }).1 =
      .ok (some (localNamed "a" (.reference .void))) ∧
    (localNamed "a" (.reference .void)).isStorage = .ok true ∧ (Ty.reference .void).isVoid = false ∧
    ((Check.typecheck (.dereference {} (.addressOf {} (localNamed "a" (.reference .void))))).run { target := .standard }).1 =
      .ok none :=
  ⟨_, rfl, rfl, rfl, rfl, rfl⟩

end Spmd
