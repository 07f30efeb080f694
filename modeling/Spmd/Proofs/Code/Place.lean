import Spmd.Proofs.Code.Effects
import Spmd.Proofs.Expr.WellTyped

/-!
# Reading at a place

The value of an expression that has an address is loaded from this address (`Expr.Checked.placed`). So is what denotes storage
otherwise than as a reference (`Expr.Checked.value_of_storage`), and what a cast of it casts (`Expr.Checked.cast_of_storage`).
-/

namespace Spmd

open Emit (emit)

namespace Expr

theorem type_of_node {node : Node} {t : Ty} (ht : node.type = some t) : node.checked = .ok t := type_ok (e := .sync node) ht

/-- An expression of a type whose address and value have code: the value is loaded from the address. -/
structure Placed (e : Expr) (place : Emit Value) (t : Ty) : Prop where
  address_eq : e.address = some <$> place
  value_eq : e.value = do emit (.load (← place) t)

variable {T : Target} {node : Node} {b i c : Expr} {name : String} {arrow : Bool} {access : Access} {s : Symbol} {t u a : Ty}

theorem Placed.of_value {place : Emit Value} {otherwise : Emit Value} (ht : node.type = some t)
    (haddress : c.address = some <$> place) (hvalue : c.value = c.address >>= fun a => loadFrom a node.checked otherwise) :
    Placed c place t := by
  refine ⟨haddress, ?_⟩
  rw [hvalue, haddress, type_of_node ht]
  simp only [map_eq_pure_bind, bind_assoc, pure_bind]
  rfl

theorem symbol_placed (ht : node.type = some t) : Placed (.symbol node s) (emit (.symbolAddress s)) t := by
  refine ⟨?_, ?_⟩
  · rw [address, map_eq_pure_bind]
  · rw [value]
    simp only [type_of_node ht, Emit.lift_ok, pure_bind]

theorem dereference_placed (ht : node.type = some t) : Placed (.dereference node c) c.value t := by
  refine ⟨by rw [address], ?_⟩
  rw [value]
  simp only [type_of_node ht, Emit.lift_ok, pure_bind]

/-- The code for the place of an element. -/
def elementCode (b i : Expr) (base place : Ty) : Emit Value := do
  let v ← if base.isPointer then b.value else storageAddress b b.value b.address
  let p ← i.value
  emit (.elementAddress v p base place)

theorem index_placed (ht : node.type = some t) (hb : b.type? = some u) (ha : (Expr.index node b i).addressType = .ok (some a)) :
    Placed (.index node b i) (elementCode b i u.stored a) t := by
  refine .of_value ht ?_ (by rw [value, address])
  rw [address, elementAddress, ha, type_ok hb]
  simp only [Emit.lift_ok, pure_bind, elementCode, map_eq_pure_bind]
  split <;> simp only [bind_assoc]

/-- The code for the place of a member, given the code for the address of the aggregate. -/
def memberCode (aggregateAddress : Emit Value) (position : Nat) (aggregate place : Ty) : Emit Value := do
  emit (.memberAddress (← aggregateAddress) position aggregate place)

theorem member_placed (ht : node.type = some t) (ha : (Expr.member node b name arrow (some access)).addressType = .ok (some a)) :
    Placed (.member node b name arrow (some access))
      (memberCode (if arrow then b.value else storageAddress b b.value b.address) access.position access.aggregate a) t := by
  refine .of_value ht ?_ (by rw [value, address])
  rw [address, memberAddress, ha]
  simp only [Emit.lift_ok, pure_bind, accessOf, memberCode, map_eq_pure_bind, bind_assoc]
  split <;> rfl

/-- The value of what has an address is loaded from it, unless it is a reference. -/
theorem Checked.placed (h : Checked T c) (hw : c.WellTyped) (ht : c.type? = some t) (hr : t.isReference = false)
    (ha : c.addressType = .ok (some a)) : ∃ place, Placed c place t := by
  cases c with
  | index node b i =>
    obtain ⟨u, hu, -⟩ := Checked.typed (h.child (c := b) (by simp [children]))
    exact ⟨_, index_placed ht hu ha⟩
  | member node b name arrow access =>
    obtain ⟨x, -, rfl, -⟩ := h.here.grounded
    exact ⟨_, member_placed ht ha⟩
  | dereference node c => exact ⟨_, dereference_placed ht⟩
  | symbol node s => exact ⟨_, symbol_placed ht⟩
  | reference node c =>
    obtain ⟨u, -, -, hnode, -⟩ := hw
    obtain rfl : t = .reference u := Option.some.inj (ht.symm.trans hnode)
    cases hr
  | _ => cases ha

/-- What denotes storage, and is no reference, is read from the address of this storage. -/
theorem Checked.value_of_storage (h : Checked T c) (hw : c.WellTyped) (ht : c.type? = some t) (hr : t.isReference = false)
    (hs : c.isStorage = .ok true) : c.value = (do emit (.load (← storageAddress c c.value c.address) t) : Emit Value) := by
  obtain ⟨o, ho⟩ := h.addressType_ok
  have hsome : ∃ a, o = some a := by
    rw [h.isStorage_eq, denotesStorage, hasAddress_of_ok ho, Expr.isReference_eq ht, hr, Bool.or_false] at hs
    exact Option.isSome_iff_exists.mp (Except.ok.inj hs)
  obtain ⟨a, rfl⟩ := hsome
  obtain ⟨place, haddress, hvalue⟩ := h.placed hw ht hr ho
  have hstorage : storageAddress c c.value c.address = place := by
    unfold storageAddress
    rw [type_ok ht, haddress]
    simp only [Emit.lift_ok, pure_bind, hr, Bool.false_eq_true, if_false, map_eq_pure_bind, bind_assoc, bind_pure]
  rw [hstorage]
  exact hvalue

theorem storageAddress_of_reference (ht : c.type? = some t) (hr : t.isReference = true) (v : Emit Value)
    (address : Emit (Option Value)) : storageAddress c v address = v := by
  unfold storageAddress
  rw [type_ok ht, Emit.lift_ok, pure_bind, hr, if_pos rfl]

/-- The code for a cast of what is stored at an address: a reference is the address itself, and everything else is loaded from
it. -/
def castCode (place : Emit Value) (source target : Ty) : Emit Value := do
  let a ← place
  let v ← if source.isReference then pure a else emit (.load a source)
  emit (.cast v source target)

/-- A cast of what denotes storage casts what is read there. -/
theorem Checked.cast_of_storage {target : Ty} {reported : Bool} (h : Checked T (.cast node target c reported)) (hw : c.WellTyped)
    (ht : c.type? = some t) (hs : c.isStorage = .ok true) :
    (Expr.cast node target c reported).value = castCode (storageAddress c c.value c.address) t target := by
  have hc : Checked T c := h.child (by simp [children])
  have hnode : node.type = some target := h.here.grounded.1
  have hcast : (Expr.cast node target c reported).value = (do emit (.cast (← c.value) t target) : Emit Value) := by
    rw [value]
    simp only [type_ok ht, type_of_node hnode, Emit.lift_ok, pure_bind]
  unfold castCode
  rw [hcast]
  by_cases hr : t.isReference = true
  · rw [storageAddress_of_reference ht hr]
    simp only [hr, if_true, pure_bind]
  · rw [Bool.not_eq_true] at hr
    simp only [hr, Bool.false_eq_true, if_false]
    rw [← bind_assoc]
    exact congrArg (· >>= _) (hc.value_of_storage hw ht hr hs)

end Expr

end Spmd
