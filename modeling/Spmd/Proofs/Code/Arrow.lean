import Spmd.Proofs.Code.Place
import Spmd.Proofs.Typing.Pointer

/-!
# Members of what a pointer points to

The member `p->x` and the member `(*p).x` are both refused, or both accepted with the same type
(`typecheck_arrow_alike`). A field and a single element are then read at the same place, which the value of `p` gives. Several
elements have no place of their own: `(*p).xy` takes them from the vector that it loads, and `p->xy` from the pointer itself.
-/

namespace Spmd

/-! ## Types behind a pointer -/

namespace Ty

variable {t u : Ty} {q : Qualifiers}

theorem bare_memberType_varying (q : Qualifiers) (t : Ty) :
    (memberType { q with variability := .varying } t).bare = (memberType q t).asVarying.bare := by
  have htwice : (t.through q).asVarying.bare = t.asVarying.bare := by
    rcases through_cases t q with h | h <;> rw [h]
    exact bare_of_outline (withVariability_withVariability _ _ t)
  change (if q.isConst then t.asVarying.asConst else t.asVarying).bare =
    (if q.isConst then (t.through q).asConst else t.through q).asVarying.bare
  split
  · calc t.asVarying.asConst.bare = t.asVarying.bare.asConst := bare_withConst true _
      _ = (t.through q).asVarying.bare.asConst := by rw [htwice]
      _ = (t.through q).asVarying.asConst.bare := (bare_withConst true _).symm
      _ = (t.through q).asConst.asVarying.bare := withVariability_withConst .varying true _
  · exact htwice.symm

theorem elementAt_through {s : String} {ms : List (String × Ty)} {r : Qualifiers} {o : Origin} {i : Nat}
    (h : (struct s ms r o).elementAt? i = some u) :
    ∃ u', ((struct s ms r o).through q).elementAt? i = some u' ∧ u'.same (u.through q) = true := by
  obtain ⟨m, hm, rfl⟩ := Option.map_eq_some_iff.mp h
  unfold through
  split
  · refine ⟨memberType { r with variability := .varying } m.2, ?_, (same_iff _ _).mpr (bare_memberType_varying r m.2)⟩
    simp only [asVarying, withVariability, elementAt?, hm, Option.map_some]
  · exact ⟨_, h, (same_iff _ _).mpr rfl⟩

end Ty

open Emit (emit)

/-! ## Code for members -/

namespace Expr

/-- A member at a place that the value of a pointer gives: its type, the type of its address, and the code for both. -/
structure ReadAt (pointer : Expr) (position : Nat) (aggregate place type : Ty) (e : Expr) : Prop where
  type_eq : e.type? = some type
  addressType_eq : e.addressType = .ok (some place)
  address_eq : e.address = some <$> memberCode pointer.value position aggregate place
  value_eq : e.value = do emit (.load (← memberCode pointer.value position aggregate place) type)

/-- Elements that are taken from a vector, given the code for the vector. -/
structure TakenFrom (vector : Emit Value) (indices : List Nat) (type : Ty) (e : Expr) : Prop where
  type_eq : e.type? = some type
  addressType_eq : e.addressType = .ok none
  address_eq : e.address = pure none
  value_eq : e.value = do emit (.swizzle (← vector) indices type)

variable {node m : Node} {b c : Expr} {name : String} {arrow : Bool} {access : Access} {t p u place : Ty} {q : Qualifiers}
  {o : Origin}

theorem member_readAt (ht : node.type = some t)
    (hplace : (Expr.member node b name arrow (some access)).addressType = .ok (some place))
    (hb : (if arrow then b.value else storageAddress b b.value b.address) = c.value) :
    ReadAt c access.position access.aggregate place t (.member node b name arrow (some access)) := by
  obtain ⟨haddress, hvalue⟩ := member_placed ht hplace
  rw [hb] at haddress hvalue
  exact ⟨ht, hplace, haddress, hvalue⟩

theorem member_takenFrom {i j : Nat} {is : List Nat} (ht : node.type = some t) (hv : t.isVector = true) :
    TakenFrom b.value (i :: j :: is) t (.member node b name arrow (some (.swizzle (i :: j :: is) p))) := by
  have hnone : (Expr.member node b name arrow (some (.swizzle (i :: j :: is) p))).addressType = .ok none := by
    rw [addressType]
    rfl
  have haddress : (Expr.member node b name arrow (some (.swizzle (i :: j :: is) p))).address = pure none := by
    rw [address, memberAddress, hnone, Emit.lift_ok, pure_bind]
  refine ⟨ht, hnone, haddress, ?_⟩
  have hvalue : (Expr.member node b name arrow (some (.swizzle (i :: j :: is) p))).value =
      (Expr.member node b name arrow (some (.swizzle (i :: j :: is) p))).address >>= fun a => loadFrom a node.checked
        (pickElements (.member node b name arrow (some (.swizzle (i :: j :: is) p))) node (some (.swizzle (i :: j :: is) p))
          b.value) := by
    rw [value, address]
  rw [hvalue, haddress, pure_bind]
  simp only [loadFrom, pickElements, accessOf, Emit.lift_ok, pure_bind, type_of_node ht, hv, if_true]

/-! ## Members behind a pointer -/

theorem arrow_addressType (hc : c.type? = some (.pointer p q o)) (ha : access.isAddressable = true)
    (hu : accessedType? access = some u) :
    (Expr.member node c name true (some access)).addressType = .ok (some (addressOfType u (q.variability == .varying))) := by
  rw [addressType]
  simp only [ha, Bool.not_true, Bool.false_eq_true, if_false, if_true, type_ok hc, hu]
  rfl

theorem dot_addressType (hm : m.type = some t) (hc : c.type? = some (.pointer p q o)) (ha : access.isAddressable = true)
    (hu : accessedType? access = some u) :
    (Expr.member node (.dereference m c) name false (some access)).addressType =
      .ok (some (addressOfType u (q.variability == .varying))) := by
  have hb : (Expr.dereference m c).addressType = .ok (some (.pointer p { q with isConst := false })) := by
    rw [addressType, type_ok hc]
    rfl
  rw [addressType, hb, type_ok (e := .dereference m c) hm]
  simp only [ha, Bool.not_true, Bool.false_eq_true, if_false, hu]
  rfl

/-- The storage that a dereferenced pointer denotes is where the pointer points. -/
theorem dereference_storage (hm : m.type = some t) (hr : t.isReference = false) :
    storageAddress (.dereference m c) (value (.dereference m c)) (address (.dereference m c)) = c.value := by
  rw [storageAddress, address, type_ok (e := .dereference m c) hm, Emit.lift_ok, pure_bind, hr]
  simp only [Bool.false_eq_true, if_false, map_eq_pure_bind, bind_assoc, pure_bind, bind_pure]

/-- The expressions `p->x` and `(*p).x`, checked. -/
inductive ArrowAlike (name : String) : Option Expr → Option Expr → Prop
  | refused : ArrowAlike name none none
  /-- A field or an element: both are read at one place. -/
  | placed (node node' m : Node) (c : Expr) (access access' : Access) {p u u' : Ty} {q : Qualifiers} {o : Origin}
      (pointer : c.type? = some (.pointer p q o)) (same : u'.same (u.through q) = true)
      (arrow : ReadAt c access.position p (addressOfType u (q.variability == .varying)) (u.through q)
        (.member node c name true (some access)))
      (dot : ReadAt c access.position (p.through q) (addressOfType u' (q.variability == .varying)) u'
        (.member node' (.dereference m c) name false (some access'))) :
      ArrowAlike name (some (.member node c name true (some access)))
        (some (.member node' (.dereference m c) name false (some access')))
  /-- Several elements: they are taken from the vector, or from the pointer. -/
  | taken (node node' m : Node) (c : Expr) (access access' : Access) (indices : List Nat) {p t : Ty} {q : Qualifiers} {o : Origin}
      (pointer : c.type? = some (.pointer p q o))
      (arrow : TakenFrom c.value indices t (.member node c name true (some access)))
      (dot : TakenFrom (do emit (.load (← c.value) (p.through q))) indices t
        (.member node' (.dereference m c) name false (some access'))) :
      ArrowAlike name (some (.member node c name true (some access)))
        (some (.member node' (.dereference m c) name false (some access')))

end Expr

namespace Check

open Spmd.Expr

variable {T : Target} {c : Expr} {name : String} {p : Ty} {q : Qualifiers} {o : Origin} {m : Node}

variable (node node' : Node)

theorem checkField_alike {s : String} {ms : List (String × Ty)} {r : Qualifiers} {os : Origin}
    (hc : c.type? = some (.pointer (.struct s ms r os) q o)) (hm : m.type = some ((Ty.struct s ms r os).through q)) :
    Pairs T (checkField node c name true (q.variability == .varying) (.struct s ms r os) (ms.map Prod.fst))
      (checkField node' (.dereference m c) name false false ((Ty.struct s ms r os).through q) (ms.map Prod.fst))
      (ArrowAlike name) := by
  have hindex : ((Ty.struct s ms r os).through q).memberIndex? name = (Ty.struct s ms r os).memberIndex? name := by
    rcases Ty.through_cases (.struct s ms r os) q with h | h <;> rw [h]
    rfl
  unfold checkField
  rw [hindex]
  cases hi : (Ty.struct s ms r os).memberIndex? name with
  | none => exact Pairs.reject .refused
  | some i =>
    obtain ⟨hlt, -⟩ := List.findIdx?_eq_some_iff_getElem.mp hi
    have hu : (Ty.struct s ms r os).elementAt? i = some (Ty.memberType r ms[i].2) := by
      rw [Ty.elementAt?, List.getElem?_eq_getElem hlt, Option.map_some]
    obtain ⟨u', hu', hsame⟩ := Ty.elementAt_through (q := q) hu
    have hr : ((Ty.struct s ms r os).through q).isReference = false := Ty.isReference_through _ q
    simp only [Option.bind_some, hu, hu', Option.map_some]
    refine Pairs.pure (.placed _ _ _ _ _ _ hc hsame ?_ ?_)
    · exact member_readAt (by simp only [Ty.through, beq_iff_eq]; rfl) (arrow_addressType hc rfl hu) rfl
    · exact member_readAt rfl (dot_addressType hm hc rfl (show accessedType? (.field i _) = _ from hu')) (dereference_storage hm hr)

theorem swizzle_nonempty {count : Nat} {indices : List Nat} (h : swizzle? name count = some indices) : indices ≠ [] := by
  rintro rfl
  unfold swizzle? at h
  cases hname : name.toList with
  | nil =>
    rw [hname] at h
    cases h
  | cons a as =>
    rw [hname] at h
    obtain ⟨i, -, hrest⟩ := Option.bind_eq_some_iff.mp (List.mapM_cons.symm.trans h)
    obtain ⟨is, -, hcons⟩ := Option.bind_eq_some_iff.mp hrest
    cases hcons

theorem checkSwizzle_alike {s s' : ScalarTy} {n : Nat} {os os' : Origin} (hc : c.type? = some (.pointer (.vector s n os) q o))
    (hm : m.type = some ((Ty.vector s n os).through q)) (hthrough : (Ty.vector s n os).through q = .vector s' n os') :
    Pairs T (checkSwizzle node c name true (q.variability == .varying) (.vector s n os) s n)
      (checkSwizzle node' (.dereference m c) name false false (.vector s' n os') s' n) (ArrowAlike name) := by
  have helement : (if q.variability == .varying then s.withVariability .varying else s) = s' := by
    unfold Ty.through at hthrough
    simp only [beq_iff_eq]
    split at hthrough <;> cases hthrough
    · rename_i hq
      exact if_pos hq
    · rename_i hq
      exact if_neg hq
  have hscalar : (Ty.scalar s).through q = .scalar s' := by
    rw [← helement]
    simp only [Ty.through, beq_iff_eq]
    split <;> rfl
  have hr : ((Ty.vector s n os).through q).isReference = false := Ty.isReference_through _ q
  unfold checkSwizzle
  cases hindices : swizzle? name n with
  | none => exact Pairs.reject .refused
  | some indices =>
    simp only [helement, Bool.false_eq_true, if_false]
    rcases indices with - | ⟨i, - | ⟨j, is⟩⟩
    · exact absurd rfl (swizzle_nonempty hindices)
    · have hsame : (Ty.scalar s').same ((Ty.scalar s).through q) = true := by
        rw [hscalar]
        exact (Ty.same_iff _ _).mpr rfl
      refine Pairs.pure (.placed _ _ _ _ _ _ hc hsame ?_ ?_)
      · exact member_readAt (by rw [hscalar]; rfl) (arrow_addressType hc rfl rfl) rfl
      · rw [hthrough]
        exact member_readAt rfl (dot_addressType hm hc rfl (show accessedType? (.swizzle [i] (.vector s' n os')) = _ from rfl))
          (dereference_storage hm hr)
    · refine Pairs.pure (.taken _ _ _ _ _ _ (i :: j :: is) (t := .vector s' (is.length + 2)) hc ?_ ?_)
      · exact member_takenFrom rfl rfl
      · rw [← hthrough, ← (dereference_placed hm).value_eq]
        exact member_takenFrom rfl rfl

theorem checkMember_alike (hc : c.type? = some (.pointer p q o)) (hp : p.isReference = false) :
    Pairs T (checkMember node c name true)
      (checkDereference m c >>= fun d => resolved d >>= fun d => withOne d fun d => checkMember node' d name false)
      (ArrowAlike name) := by
  cases hvoid : p.isVoid with
  | true =>
    have hdot : checkDereference m c = reject m.place (.dereferencedVoid (.asNonConst (.pointer p q o))) := by
      unfold checkDereference
      simp only [type_ok hc, lift_ok, pure_bind, hvoid, if_true]
    unfold checkMember
    rw [hdot, type_ok hc, lift_ok, pure_bind]
    cases p <;> cases hvoid
    exact Pairs.reject_bind .refused rfl
  | false =>
    rw [checkDereference_pointer hc hvoid, pure_bind]
    change Pairs T _ (checkMember node' (.dereference (.typed m.place (p.through q)) c) name false) _
    unfold checkMember
    rw [type_ok hc, type_ok (e := .dereference (.typed m.place (p.through q)) c) rfl]
    simp only [lift_ok, pure_bind]
    cases p with
    | void => cases hvoid
    | reference => cases hp
    | struct s ms r os =>
      have halike : Pairs T _ _ (ArrowAlike name) := checkField_alike (m := .typed m.place _) node node' hc rfl
      rcases Ty.through_cases (.struct s ms r os) q with h | h <;> rw [h] at halike ⊢ <;> exact halike
    | vector s n os =>
      rcases Ty.through_cases (.vector s n os) q with h | h
      · have halike : Pairs T _ _ (ArrowAlike name) := checkSwizzle_alike (m := .typed m.place _) node node' hc rfl h
        rw [h] at halike ⊢
        exact halike
      · have halike : Pairs T _ _ (ArrowAlike name) := checkSwizzle_alike (m := .typed m.place _) node node' hc rfl h
        rw [h] at halike ⊢
        exact halike
    | _ =>
      -- neither a struct nor a vector
      rcases Ty.through_cases _ q with h | h <;> rw [h] <;> exact Pairs.reject ArrowAlike.refused

end Check

/-- A pointer to something that is stored itself. -/
def Expr.Points (e : Expr) : Prop := ∃ p q o, e.type? = some (.pointer p q o) ∧ p.isReference = false

/-- For a pointer `p`, the expressions `p->x` and `(*p).x` are both refused in all sessions with the target, or both accepted with
the same type. Their code first computes the value of `p`; a field or a single element is then read where that points. -/
theorem typecheck_arrow_alike {T : Target} {node node' m : Node} {p : Expr} {name : String} {access access' : Option Access}
    (hp : Expr.Everywhere (Expr.Loaded T) p) (hpoints : Check.Yields T (Check.typecheck p) Expr.Points) :
    Check.Pairs T (Check.typecheck (.member node p name true access))
      (Check.typecheck (.member node' (.dereference m p) name false access')) (Expr.ArrowAlike name) := by
  have harrow : Check.typecheck (.member node p name true access) = Check.typecheck p >>= fun c =>
      Check.withOne c (fun c => Check.checkMember node c name true) >>= Check.resolved := by
    unfold Check.typecheck
    rw [Check.check]
    simp only [Check.needed, bind_assoc]
  have hdot : Check.typecheck (.member node' (.dereference m p) name false access') = Check.typecheck p >>= fun c =>
      (Check.withOne c (Check.checkDereference m) >>= fun d => Check.resolved d >>= fun d =>
        Check.withOne d fun d => Check.checkMember node' d name false) >>= Check.resolved := by
    unfold Check.typecheck
    rw [Check.check, Check.check]
    simp only [Check.needed, bind_assoc]
  rw [harrow, hdot]
  refine Check.Pairs.bind (Check.typecheck_pairs (Expr.prepared_of_loaded hp) hpoints) fun r r' h => ?_
  obtain ⟨rfl, hc⟩ := h
  cases r with
  | none => exact Check.Pairs.pure .refused
  | some c =>
    obtain ⟨q, k, o, hq, hr⟩ := (hc c rfl).2
    refine Check.Pairs.bind (Check.checkMember_alike node node' hq hr) fun e e' h => ?_
    -- a member has a type
    cases h with
    | refused => exact Check.Pairs.pure .refused
    | placed _ _ m c a a' pointer same arrow dot => exact Check.Pairs.pure (.placed _ _ m c a a' pointer same arrow dot)
    | taken _ _ m c a a' is pointer arrow dot => exact Check.Pairs.pure (.taken _ _ m c a a' is pointer arrow dot)

/-! ## Members in a program -/

/-- The members `p->name` and `(*p).name`, where `p` is declared with a type. -/
def pointerMembersJson (pointer : Json) (name : String) : Json :=
  let p : Json := .object [("symbol", .string "p")]
  let member (base : Json) (arrow : Bool) : Json := .object [("member", base), ("name", .string name), ("arrow", .bool arrow)]
  .object [("symbols", .array [.object [("name", .string "p"), ("type", pointer)]]),
    ("expressions", .array [member p true, member (.object [("dereference", p)]) false])]

/-- A pointer to a vector of four elements, that may be stored itself or referred to. -/
def vectorPointerJson (variability : String) (isReferred : Bool) : Json :=
  let vector : Json := .object [("vector", .string "float"), ("count", .number (.finite 4))]
  let stored : Json := if isReferred then .object [("reference", vector)] else vector
  .object [("pointer", stored), ("variability", .string variability)]

def arrowMember (type : Ty) (name : String) : Expr := .member {} (localNamed "p" type) name true none

def dotMember (type : Ty) (name : String) : Expr := .member {} (.dereference {} (localNamed "p" type)) name false none

def floatVector : Ty := .vector ⟨.basic .float, {}, none⟩ 4

theorem firstElement_read : ∃ scope, Program.read .standard "program"
    (some (pointerMembersJson (vectorPointerJson "uniform" false) "x")) =
      .ok ⟨scope, [arrowMember (.pointer floatVector {}) "x", dotMember (.pointer floatVector {}) "x"]⟩ := ⟨_, rfl⟩

theorem typecheck_arrow_alike_element : Check.Pairs .standard (Check.typecheck (arrowMember (.pointer floatVector {}) "x"))
    (Check.typecheck (dotMember (.pointer floatVector {}) "x")) (Expr.ArrowAlike "x") := by
  obtain ⟨scope, hread⟩ := firstElement_read
  have hp := (Program.loaded hread (List.mem_cons_self ..)).child (List.mem_singleton_self _)
  refine typecheck_arrow_alike hp fun s hs r s' hrun => ?_
  rw [localNamed, Check.typecheck, Check.check] at hrun
  cases hrun
  exact ⟨fun c hc => by cases hc; exact ⟨_, _, _, rfl, rfl⟩, hs⟩

/-- The expression that checking gives in a session of its own. -/
def ChecksTo (e e' : Expr) : Prop := ((Check.typecheck e).run { target := .standard }).1 = .ok (some e')

/-- The two members are not alike: where several elements are taken, only `(*p).xy` loads the vector; behind a varying pointer the
addresses have types of different variability; and only `(*p).x` follows a reference that `p` points to. -/
theorem arrow_unlike :
    (∃ scope, Program.read .standard "program" (some (pointerMembersJson (vectorPointerJson "uniform" false) "xy")) =
        .ok ⟨scope, [arrowMember (.pointer floatVector {}) "xy", dotMember (.pointer floatVector {}) "xy"]⟩ ∧
      ∃ e e' t s, ChecksTo (arrowMember (.pointer floatVector {}) "xy") e ∧
        ChecksTo (dotMember (.pointer floatVector {}) "xy") e' ∧
        (e.value.run []).2 = [.symbolAddress s, .load ⟨0⟩ (.pointer floatVector {}), .swizzle ⟨1⟩ [0, 1] t] ∧
        (e'.value.run []).2 = [.symbolAddress s, .load ⟨0⟩ (.pointer floatVector {}), .load ⟨1⟩ floatVector,
          .swizzle ⟨2⟩ [0, 1] t]) ∧
    (∃ scope, Program.read .standard "program" (some (pointerMembersJson (vectorPointerJson "varying" false) "x")) =
        .ok ⟨scope, [arrowMember (.pointer floatVector ⟨.varying, false⟩) "x",
          dotMember (.pointer floatVector ⟨.varying, false⟩) "x"]⟩ ∧
      ∃ e e', ChecksTo (arrowMember (.pointer floatVector ⟨.varying, false⟩) "x") e ∧
        ChecksTo (dotMember (.pointer floatVector ⟨.varying, false⟩) "x") e' ∧
        e.addressType = .ok (some (.pointer (.basic .float) ⟨.varying, false⟩)) ∧
        e'.addressType = .ok (some (.pointer (.basic .float .varying) ⟨.varying, false⟩))) ∧
    ∃ scope, Program.read .standard "program" (some (pointerMembersJson (vectorPointerJson "uniform" true) "x")) =
        .ok ⟨scope, [arrowMember (.pointer (.reference floatVector) {}) "x",
          dotMember (.pointer (.reference floatVector) {}) "x"]⟩ ∧
      ((Check.typecheck (arrowMember (.pointer (.reference floatVector) {}) "x")).run { target := .standard }).1 = .ok none ∧
      ∃ e', ChecksTo (dotMember (.pointer (.reference floatVector) {}) "x") e' :=
  ⟨⟨_, rfl, _, _, _, _, rfl, rfl, rfl, rfl⟩, ⟨_, rfl, _, _, rfl, rfl, rfl, rfl⟩, ⟨_, rfl, rfl, _, rfl⟩⟩

end Spmd
