import Spmd.Expr.Cost
import Spmd.Proofs.Except
import Spmd.Proofs.Expr.Formed
import Spmd.Typing.Access

/-!
# Well-typed nodes

A node of a checked tree is well typed when its type follows from the types of its children by the rule of its form.
Most forms read the value behind a reference where they convert an operand, and some use operands as they are.
-/

namespace Spmd

/-- What an access picks out of an aggregate, which may be reached through a varying pointer. -/
def Access.pickedType (varying : Bool) : Access → Option Ty
  | field i aggregate =>
    if aggregate.isStruct then (aggregate.elementAt? i).map fun t => if varying then t.asVarying else t else none
  | swizzle indices aggregate =>
    match aggregate with
    | .vector s _ _ =>
      let element := if varying then s.withVariability .varying else s
      some (if indices.length = 1 then .scalar element else .vector element indices.length)
    | _ => none

/-- The type of what a reference refers to or a pointer points to, as it is read. -/
def Ty.readType? : Ty → Option Ty
  | .reference t _ => some t
  | .pointer p q _ => some (if q.variability = .varying then p.asVarying else p)
  | _ => none

namespace Expr

def isReference (e : Expr) : Bool := e.type?.any Ty.isReference

def isVarying (e : Expr) : Bool := e.type?.any Ty.isVarying

def isPointer (e : Expr) : Bool := e.type?.any (·.stored.isPointer)

/-- The rule of typing of each form. -/
def WellTyped : Expr → Prop
  | .unary node op e => ∃ t, e.type? = some t ∧ node.type = some t.rvalue ∧ (op = .not → e.isReference = false)
  | .step node _ e amount =>
    (∃ t, e.type? = some t ∧ node.type = some t.rvalue) ∧ (∃ one, amount = some one ∧ one.type.isScalar = true) ∧
      e.isStorage = .ok true ∧
      ∀ t one, node.type = some t → t.isPointer = false → amount = some one → one.type.core = t.asUniform.core
  | .binary node .comma _ r _ => ∃ t, r.type? = some t ∧ node.type = some t.rvalue
  | .binary node _ l r _ =>
    l.isReference = false ∧ r.isReference = false ∧
      ∃ t, node.type = some t ∧ ((l.isVarying || r.isVarying) = true → t.isVarying = true)
  | .assign node _ target value _ =>
    (∃ t, target.type? = some t ∧ node.type = some t.stored) ∧ target.isStorage = .ok true ∧ value.isReference = false
  | .select node test a b =>
    test.isReference = false ∧ a.isReference = false ∧ b.isReference = false ∧
      ∃ t, node.type = some t ∧ (test.isVarying = true → ∃ u : Ty, t = u.asVarying)
  | .list node items =>
    ∃ t, node.type = some t ∧ ∀ i e, items[i]? = some e → ∃ u, t.elementAt? i = some u ∧ e.Fits u
  | .call node callee _ launch count signature =>
    (∃ s, signature = some s ∧
      node.type = some (if callee.isVarying && !s.result.isVoid then s.result.asVarying else s.result)) ∧
      (callee.isFunctionName = true → callee.isVarying = false) ∧ count.isSome = launch
  | .index node base position =>
    ∃ t element varying, base.type? = some t ∧ Check.indexed? t.stored = some (element, varying) ∧
      node.type = some (if position.isVarying || varying then element.asVarying else element)
  | .member node base _ arrow access =>
    ∃ t aggregate varying a, base.type? = some t ∧ Check.memberBase arrow t.stored = .ok (aggregate, varying) ∧
      access = some a ∧ a.aggregate = aggregate ∧ node.type = a.pickedType varying
  | .cast _ target e _ =>
    ∃ t, e.type? = some t ∧ (target.isReference = true → t.stored.core = target.stored.core) ∧
      (t.isVarying = true → target.isVarying = true ∨ t.stored.isArray = true ∧ target.isPointer = true)
  | .reference node e =>
    ∃ t, e.type? = some t ∧ t.isReference = false ∧ node.type = some (.reference t) ∧ e.isStorage = .ok true
  | .dereference node e => ∃ t u, e.type? = some t ∧ t.readType? = some u ∧ node.type = some u
  | .addressOf node e =>
    (e.isFunctionName = true → ∃ t, e.type? = some t ∧ node.type = some (.pointer t {})) ∧
      (e.isFunctionName = false → ∃ t, Check.addressTypeOf e = .ok (some t) ∧ node.type = some t)
  | .function f => f.node.type = f.function?.map Symbol.type
  | .sync node => node.type = some .void
  | .null node => ∃ t, node.type = some t ∧ t.isPointer = true
  | .new node allocated count init varying =>
    node.type = some (addressOfType allocated varying) ∧ (∀ n, count = some n → n.isReference = false) ∧
      ∀ e, init = some e → e.Fits allocated
  | _ => True

/-! ## Types of operands -/

variable {e : Expr} {t : Ty}

theorem isReference_eq (h : e.type? = some t) : e.isReference = t.isReference := by
  rw [isReference, h, Option.any_some]

theorem isVarying_eq (h : e.type? = some t) : e.isVarying = t.isVarying := by
  rw [isVarying, h, Option.any_some]

theorem HasType.isReference_eq (h : e.HasType t) : e.isReference = t.isReference := by
  obtain ⟨u, hu, hcore⟩ := hasType_iff.mp h
  rw [Expr.isReference_eq hu, Ty.isReference_eq hcore]

theorem HasType.isVarying_eq (h : e.HasType t) : e.isVarying = t.isVarying := by
  obtain ⟨u, hu, hcore⟩ := hasType_iff.mp h
  rw [Expr.isVarying_eq hu, Ty.isVarying_eq hcore]

theorem isVaryingCallee_eq (ht : e.type? = some t) (hn : e.isFunctionName = true → e.isVarying = false) :
    e.isVaryingCallee = .ok e.isVarying := by
  unfold isVaryingCallee
  split
  · rename_i hname
    rw [hn hname]
  · rw [type_ok ht, isVarying_eq ht, ← Ty.isVarying_stored t]
    rfl

/-! ## Storage -/

def hasAddress (e : Expr) : Bool :=
  match e.addressType with
  | .ok (some _) => true
  | _ => false

theorem hasAddress_of_ok {a : Option Ty} (h : e.addressType = .ok a) : e.hasAddress = a.isSome := by
  unfold hasAddress
  rw [h]
  cases a <;> rfl

def denotesStorage (e : Expr) : Bool := e.hasAddress || e.isReference

theorem Checked.isStorage_eq {T : Target} (h : Checked T e) : e.isStorage = .ok e.denotesStorage := by
  obtain ⟨t, ht, -⟩ := h.typed
  obtain ⟨a, ha⟩ := h.addressType_ok
  rw [denotesStorage, hasAddress_of_ok ha, Expr.isReference_eq ht, isStorage, storageVariability, ha, type_ok ht]
  cases a with
  | some a => rfl
  | none => cases hr : t.isReference <;> simp [bind, Except.bind, hr]

section
variable {T : Target} {node : Node} {t : Ty}

theorem elementAddressType_isSome (base position : Ty) (storage : Bool) :
    ∃ a, elementAddressType base (.ok storage) (.ok position) = .ok a ∧
      a.isSome = (base.stored.isPointer || (base.stored.isArray || base.stored.isVector) && storage) := by
  unfold elementAddressType
  cases base.stored with
  | pointer p q o => by_cases hv : q.variability = .varying <;> simp [hv, bind, Except.bind, Ty.isPointer]
  | array el n o => cases storage <;> exact ⟨_, rfl, rfl⟩
  | vector el n o => cases storage <;> exact ⟨_, rfl, rfl⟩
  | _ => exact ⟨_, rfl, rfl⟩

theorem Checked.hasAddress_index {base position : Expr} (h : Checked T (.index node base position))
    (ht : base.type? = some t) : (index node base position).hasAddress =
      (t.stored.isPointer || (t.stored.isArray || t.stored.isVector) && base.denotesStorage) := by
  obtain ⟨u, hu, -⟩ := (h.child (c := position) (by simp [children])).here.typed
  have hs := Checked.isStorage_eq (h.child (c := base) (by simp [children]))
  obtain ⟨a, ha, hsome⟩ := elementAddressType_isSome t u base.denotesStorage
  unfold isStorage at hs
  rw [type_ok ht] at hs
  rw [hasAddress_of_ok (a := a), hsome]
  rw [addressType, type_ok ht, type_ok hu]
  exact (congrArg (elementAddressType t · (.ok u)) hs).trans ha

theorem Checked.hasAddress_member {base : Expr} {name : String} {arrow : Bool} {x : Access}
    (h : Checked T (.member node base name arrow (some x))) : (member node base name arrow (some x)).hasAddress =
      (x.isAddressable && (arrow || base.denotesStorage)) := by
  obtain ⟨a, u, hx, hu, -⟩ := h.here.grounded
  cases hx
  have hb : Checked T base := h.child (by simp [children])
  obtain ⟨t, ht, -⟩ := hb.typed
  have hs := hb.isStorage_eq
  obtain ⟨v, hv, hv'⟩ := map_eq_ok hs
  rw [← hv']
  unfold hasAddress
  simp only [addressType, hu, type_ok ht]
  cases x.isAddressable with
  | false => rfl
  | true =>
    cases arrow with
    | true => rfl
    | false =>
      rw [type_ok ht] at hv
      simp only [Bool.not_true, Bool.false_eq_true, if_false, hv]
      cases v <;> rfl

theorem hasAddress_dereference {e : Expr} (ht : e.type? = some t) :
    (dereference node e).hasAddress = (t.isReference || t.isPointer) := by
  unfold hasAddress
  rw [addressType, type_ok ht]
  cases t <;> rfl

theorem hasAddress_symbol {s : Symbol} (ht : node.type = some t) : (symbol node s).hasAddress = true := by
  unfold hasAddress
  rw [addressType, type_ok (e := symbol node s) ht]
  rfl

end

end Expr

end Spmd
