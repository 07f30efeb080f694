import Spmd.Proofs.Code.Contract
import Spmd.Proofs.Ty.Equality

/-!
# References in code

A reference is the address of what it refers to. Code reads through references when every operand that is one stands
where the address of what it refers to, or a reference to it, is wanted (`Code.ReadsThrough`). `Emit.Leaves` says what an
emission leaves behind if it ends without a fault.
-/

namespace Spmd

namespace Ty

/-- What a reference refers to. -/
def referent? : Ty → Option Ty
  | .reference t _ => some t
  | _ => none

theorem referent?_eq_none {t : Ty} (h : t.isReference = false) : t.referent? = none := by
  cases t with
  | reference => cases h
  | _ => rfl

theorem referent?_boolLike (t : Ty) : t.boolLike.referent? = none := by
  cases t <;> rfl

theorem stored_of_referent {t u : Ty} (h : t.referent? = some u) : t.stored = u := by
  cases t <;> cases h
  rfl

end Ty

namespace Instruction

/-- The type of the value that an instruction computes. The result of a varying call is varying. -/
def type? : Instruction → Option Ty
  | constant _ t | nullPointer t | unary _ _ t | binary _ _ _ t | logical _ _ _ t | select _ _ _ t | cast _ _ t
  | load _ t | elementAddress _ _ _ t | memberAddress _ _ _ t | extract _ _ t | extractAt _ _ t | swizzle _ _ t
  | pointerOffset _ _ t | pointerDifference _ _ t | sizeOf _ t | aggregate _ t => some t
  | compare _ _ _ t => some t.boolLike
  | call varying _ _ s => some (if varying && !s.result.isVoid then s.result.asVarying else s.result)
  | allocate _ _ p => some p
  | rightOperand .. | store .. | symbolAddress _ | functionAddress _ | launch .. | sync => none

/-- Values in a sequence, each with what it refers to where a reference is wanted at its position. -/
def listed (wanted : Nat → Option Ty) (vs : List Value) : List (Value × Option Ty) :=
  vs.zipIdx.map fun p => (p.1, (wanted p.2).bind Ty.referent?)

/-- The operands of an instruction, each with what it refers to where it may be a reference. -/
def uses : Instruction → List (Value × Option Ty)
  | constant .. | nullPointer _ | symbolAddress _ | functionAddress _ | sync | sizeOf .. => []
  | unary _ v _ | rightOperand _ v | extractAt v _ _ | swizzle v _ _ => [(v, none)]
  | binary _ l r _ | compare _ l r _ | logical _ l r _ | extract l r _ | pointerOffset l r _
  | pointerDifference l r _ => [(l, none), (r, none)]
  | select t a b _ => [(t, none), (a, none), (b, none)]
  | cast v _ t => [(v, t.referent?)]
  | load a t => [(a, some t)]
  | store v a t => [(v, t.referent?), (a, some t)]
  -- the elements behind a pointer are reached from the pointer, those of an array or a vector from its address
  | elementAddress b i s _ => [(b, if s.isPointer then none else some s), (i, none)]
  | memberAddress b _ s _ => [(b, some s)]
  | call _ c args s => (c, none) :: listed (s.parameters[·]?) args
  | launch c args n s => (c, none) :: listed (s.parameters[·]?) args ++ [(n, none)]
  | allocate _ n _ => n.toList.map fun v => (v, none)
  | aggregate vs t => listed (t.elementAt? ·) vs

theorem map_fst_listed (wanted : Nat → Option Ty) (vs : List Value) : (listed wanted vs).map Prod.fst = vs := by
  rw [listed, List.map_map]
  exact List.zipIdx_map_fst 0 vs

theorem map_fst_uses (i : Instruction) : i.uses.map Prod.fst = i.operands := by
  cases i with
  | call varying c args s => simp only [uses, operands, List.map_cons, map_fst_listed]
  | launch c args n s =>
    simp only [uses, operands, List.map_cons, List.map_append, List.map_nil, map_fst_listed]
  | allocate t n p => cases n <;> rfl
  | aggregate vs t => simp only [uses, operands, map_fst_listed]
  | _ => rfl

end Instruction

namespace Code

def typeOf (code : Code) (v : Value) : Option Ty := code[v.id]?.bind Instruction.type?

/-- A value of the code, that may only be a reference to the type that is given. -/
def Refers (c : Code) (v : Value) (r : Option Ty) : Prop :=
  v.id < c.length ∧ ∀ t, (c.typeOf v).bind Ty.referent? = some t → ∃ u, r = some u ∧ t.sameIgnoringConst u = true

/-- Operands are values of earlier instructions, and references are only used for what they refer to. -/
def ReadsThrough (c : Code) : Prop := ∀ (d : Code) (i : Instruction), d ++ [i] <+: c → ∀ p ∈ i.uses, d.Refers p.1 p.2

variable {c d : Code} {v : Value} {i : Instruction} {r r' : Option Ty}

theorem typeOf_of_prefix (h : c <+: d) (hv : v.id < c.length) : d.typeOf v = c.typeOf v := by
  obtain ⟨e, rfl⟩ := h
  unfold typeOf
  rw [List.getElem?_append_left hv]

theorem Refers.mono (h : c.Refers v r) (hp : c <+: d) : d.Refers v r := by
  refine ⟨Nat.lt_of_lt_of_le h.1 hp.length_le, fun t ht => h.2 t ?_⟩
  rw [← typeOf_of_prefix hp h.1]
  exact ht

theorem Refers.weaken (h : c.Refers v r) (hr : ∀ t, r = some t → ∃ u, r' = some u ∧ t.core = u.core) : c.Refers v r' := by
  refine ⟨h.1, fun t ht => ?_⟩
  obtain ⟨u, hu, hsame⟩ := h.2 t ht
  obtain ⟨w, hw, hcore⟩ := hr u hu
  exact ⟨w, hw, (Ty.sameIgnoringConst_iff ..).mpr (((Ty.sameIgnoringConst_iff ..).mp hsame).trans hcore)⟩

theorem Refers.of_none (h : c.Refers v none) : c.Refers v r := h.weaken nofun

theorem ReadsThrough.nil : ReadsThrough [] := Each.nil

theorem refers_new (h : i.type?.bind Ty.referent? = r) : (c ++ [i]).Refers ⟨c.length⟩ r := by
  refine ⟨by simp, fun t ht => ⟨t, ?_, Ty.sameIgnoringConst_iff t t |>.mpr rfl⟩⟩
  unfold typeOf at ht
  rw [List.getElem?_concat_length] at ht
  exact h.symm.trans ht

end Code

namespace Emit

variable {α : Type} {c : Code}

/-- What holds of the result and the code if an emission ends without a fault: it only adds code, which still reads through
references. -/
abbrev Leaves (c : Code) (m : Emit α) (P : α → Code → Prop) : Prop := Keeps Code.ReadsThrough c m P

theorem leaves_emit {i : Instruction} {r : Option Ty} (h : ∀ p ∈ i.uses, c.Refers p.1 p.2)
    (hr : i.type?.bind Ty.referent? = r) : Leaves c (emit i) fun v d => d.Refers v r :=
  keeps_emit h (Code.refers_new hr)

theorem leaves_zero {i : Instruction} {r : Option Ty} (hi : i.uses = []) (hr : i.type?.bind Ty.referent? = r) :
    Leaves c (emit i) fun v d => d.Refers v r := by
  refine leaves_emit (fun p hp => ?_) hr
  rw [hi] at hp
  cases hp

theorem leaves_one {i : Instruction} {v : Value} {q r : Option Ty} (hi : i.uses = [(v, q)]) (hv : c.Refers v q)
    (hr : i.type?.bind Ty.referent? = r) : Leaves c (emit i) fun v d => d.Refers v r := by
  refine leaves_emit (fun p hp => ?_) hr
  rw [hi, List.mem_singleton] at hp
  exact hp ▸ hv

theorem leaves_two {i : Instruction} {v w : Value} {q q' r : Option Ty} (hi : i.uses = [(v, q), (w, q')])
    (hv : c.Refers v q) (hw : c.Refers w q') (hr : i.type?.bind Ty.referent? = r) :
    Leaves c (emit i) fun v d => d.Refers v r := by
  refine leaves_emit (fun p hp => ?_) hr
  rw [hi] at hp
  rcases List.mem_pair.mp hp with rfl | rfl
  · exact hv
  · exact hw

/-- A value that may only be a reference to the type that is given. -/
def Reads (m : Emit Value) (r : Option Ty) : Prop := ∀ c, Leaves c m fun v d => d.Refers v r

end Emit

end Spmd
