import Spmd.Proofs.Typing.Operator
import Spmd.Typing.Access

/-!
# The contracts of checking access to storage

Elements, members, references and addresses of operands that have types are checked nodes of legal types.
-/

namespace Spmd.Check

open Spmd.Expr

variable {T : Target} {e : Expr} (he : Operand T e) {t : Ty} (hs : e.type? = some t) (node : Node)
include he hs

/-! ## Elements -/

omit he hs in
theorem indexed_legal {t element : Ty} {varying : Bool} (ht : t.Legal) (h : indexed? t = some (element, varying)) :
    element.Legal := by
  cases t with
  | pointer => cases h; exact ht
  | array => cases h; exact ht.2
  | vector => cases h; trivial
  | _ => cases h

theorem checkIndex_delivers {position : Expr} (hp : Operand T position) {u : Ty} (hu : position.type? = some u) :
    Delivers T (checkIndex node e position) (Operand T) := by
  have hc := he.toChecked hs
  unfold checkIndex
  simp only [type_ok hs, type_ok hu, lift_ok, pure_bind]
  split
  · exact Delivers.reject _ _
  · rename_i element varying hi
    have hel := indexed_legal (hc.legal hs).stored hi
    split
    · exact Delivers.reject _ _
    · refine Delivers.bind (convert_value_delivers hp _ (Ty.legal_basic _ _) rfl) (fun i hi' => ?_) rfl
      dsimp only
      split
      · exact Delivers.reject _ _
      · refine Delivers.some (.checked (.node ⟨⟨_, rfl, ?_⟩, ⟨_, hi'.2⟩, trivial⟩ fun c hm => ?_) rfl)
        · split
          · exact hel.withVariability _
          · exact hel
        · rcases List.mem_pair.mp hm with rfl | rfl
          · exact hc
          · exact hi'.1

/-! ## Members -/

omit hs he in
theorem member_operand (hc : Checked T e) {name : String} {arrow : Bool} {access : Access} {u type : Ty}
    (ha : accessedType? access = some u) (hl : u.Legal) (ht : type.Legal) :
    Operand T (memberOf node e name arrow access type) :=
  .checked (Checked.one ⟨⟨type, rfl, ht⟩, trivial, access, u, rfl, ha, hl⟩ rfl hc) rfl

omit hs he in
theorem checkField_delivers (hc : Checked T e) (name : String) (arrow varying : Bool) {type : Ty} (ht : type.Legal)
    (members : List String) : Delivers T (checkField node e name arrow varying type members) (Operand T) := by
  unfold checkField
  dsimp only
  split
  · exact Delivers.reject _ _
  · rename_i i u hfound
    obtain ⟨j, -, hj⟩ := Option.bind_eq_some_iff.mp hfound
    obtain ⟨w, hw, hwj⟩ := Option.map_eq_some_iff.mp hj
    cases hwj
    have hl := ht.elementAt hw
    refine Delivers.some (member_operand node hc hw hl ?_)
    split
    · exact hl.withVariability _
    · exact hl

omit hs he in
theorem checkSwizzle_delivers (hc : Checked T e) (name : String) (arrow varying : Bool) (element : ScalarTy)
    (n count : Nat) (o : Origin) :
    Delivers T (checkSwizzle node e name arrow varying (.vector element n o) element count) (Operand T) := by
  unfold checkSwizzle
  split
  · exact Delivers.reject _ _
  · refine Delivers.some (member_operand (u := .scalar element) node hc rfl trivial ?_)
    split
    · trivial
    · trivial

theorem checkMember_delivers (name : String) (arrow : Bool) : Delivers T (checkMember node e name arrow) (Operand T) := by
  have hc := he.toChecked hs
  unfold checkMember
  simp only [type_ok hs, lift_ok, pure_bind]
  split
  · exact Delivers.reject _ _
  · rename_i type varying hbase
    have hl : type.Legal := by
      have hst := (hc.legal hs).stored
      unfold memberBase at hbase
      split at hbase <;> cases hbase
      · rename_i hp
        rw [hp] at hst
        exact hst
      · exact hst
    split
    · exact checkField_delivers node hc name arrow varying hl _
    · exact checkSwizzle_delivers node hc name arrow varying _ _ _ _
    · exact Delivers.reject _ _

/-! ## References and addresses -/

theorem checkReference_delivers : Delivers T (checkReference node e) (Operand T) := by
  have hc := he.toChecked hs
  obtain ⟨a, ha⟩ := hc.addressType_ok
  have hass : e.isAssignable = .ok a.isSome := by rw [isAssignable, ha]; rfl
  unfold checkReference
  simp only [type_ok hs, hass, lift_ok, pure_bind]
  split
  · exact Delivers.some he
  · rename_i hr
    split
    · simp only [Ty.referenceTo, hr, Bool.false_eq_true, if_false, lift_ok, pure_bind]
      refine Delivers.some (.checked (Checked.one ⟨⟨_, rfl, ?_⟩, trivial, trivial⟩ rfl hc) rfl)
      exact ⟨by simpa using hr, hc.legal hs⟩
    · exact Delivers.reject _ _

theorem checkDereference_delivers : Delivers T (checkDereference node e) (Operand T) := by
  have hc := he.toChecked hs
  have hl := hc.legal hs
  unfold checkDereference
  simp only [type_ok hs, lift_ok, pure_bind]
  split
  · exact Delivers.some (.checked (Checked.one ⟨⟨_, rfl, hl.2⟩, trivial, trivial⟩ rfl hc) rfl)
  · split
    · exact Delivers.reject _ _
    · rename_i p q _ _
      have hp : p.Legal := hl
      refine Delivers.some (.checked (Checked.one ⟨⟨_, rfl, ?_⟩, trivial, trivial⟩ rfl hc) rfl)
      split
      · exact hp.withVariability _
      · exact hp
  · exact Delivers.reject _ _

/-- A reference's address is a pointer to what it refers to, any other expression's the address of its storage. -/
theorem addressTypeOf_ok : ∃ a, addressTypeOf e = .ok a ∧ ∀ u, a = some u → u.Legal := by
  have hc := he.toChecked hs
  obtain ⟨a, ha⟩ := hc.addressType_ok
  unfold addressTypeOf
  rw [type_ok hs]
  cases t with
  | reference r o => exact ⟨_, rfl, fun u hu => by cases hu; exact (hc.legal hs).2⟩
  | _ => exact ⟨a, ha, fun u hu => hc.addressType_legal (hu ▸ ha)⟩

omit hs in
theorem checkAddressOf_delivers : Delivers T (checkAddressOf node e) (Operand T) := by
  unfold checkAddressOf
  split
  · -- A name has a type, and so an address, once its overload is settled.
    cases he with
    | name known =>
      split
      · exact Delivers.reject _ _
      · rename_i f hres
        rw [Bool.not_eq_true, Bool.not_eq_false'] at hres
        obtain ⟨s, hfun⟩ := Option.isSome_iff_exists.mp hres
        have htype : (Expr.function f).type? = some s.type := known.type_eq.trans (by rw [hfun]; rfl)
        have hc := (Operand.name known).toChecked (T := T) htype
        have hl : s.type.Legal := hc.legal htype
        simp only [type_ok htype, lift_ok, pure_bind]
        exact Delivers.some (.checked (Checked.one ⟨⟨_, rfl, hl⟩, trivial, trivial⟩ rfl hc) rfl)
    | checked _ closed => cases closed
  · rename_i hname
    obtain ⟨t, ht⟩ : ∃ t, e.type? = some t := by
      cases he with
      | name _ => exact absurd rfl (hname _)
      | list type_eq _ _ => exact ⟨_, type_eq⟩
      | checked hc _ =>
        obtain ⟨t, ht, -⟩ := hc.typed
        exact ⟨t, ht⟩
    have hc := he.toChecked ht
    obtain ⟨a, ha, hl⟩ := addressTypeOf_ok he ht
    simp only [ha, lift_ok, pure_bind]
    cases a with
    | none => exact Delivers.reject _ _
    | some u => exact Delivers.some (.checked (Checked.one ⟨⟨u, rfl, hl u rfl⟩, trivial, trivial⟩ rfl hc) rfl)

end Spmd.Check
