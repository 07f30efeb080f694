import Spmd.Proofs.Code.ReadsThrough

/-!
# Operands have the type of the operation

The operands of arithmetic, comparisons and selections are used as values of one type. Code agrees when they were computed
with that type (`Code.Agrees`). The code for a checked tree agrees where the value of every node is of the type that the node
has (`typecheck_agrees`), which some forms do not see to (`Expr.Exact`).
-/

namespace Spmd

/-! ## Types of values -/

namespace Instruction

/-- The types that the value of an instruction has. The address of a function is used as the function, too. -/
def computed : Instruction → List Ty
  | symbolAddress s => [Expr.addressOfType s.type false]
  | functionAddress s => [s.type, .pointer s.type {}]
  | launch _ _ _ s => [s.result]
  | sync => [.void]
  | i => i.type?.toList

def typedOperands : Instruction → List (Value × Ty)
  | binary _ l r t | compare _ l r t => [(l, t), (r, t)]
  | select _ a b t => [(a, t), (b, t)]
  | _ => []

end Instruction

namespace Code

/-- The value was computed with the type, up to top-level `const`. -/
def Computes (code : Code) (v : Value) (t : Ty) : Prop :=
  ∃ i u, code[v.id]? = some i ∧ u ∈ i.computed ∧ u.sameIgnoringConst t = true

/-- The operands of arithmetic, comparisons and selections were computed with the type of the operation. -/
def Agrees (c : Code) : Prop := Each (fun d i => ∀ p ∈ i.typedOperands, d.Computes p.1 p.2) c

variable {c d : Code} {v : Value} {i : Instruction} {t u : Ty}

theorem Computes.mono (h : c.Computes v t) (hp : c <+: d) : d.Computes v t := by
  obtain ⟨i, u, hi, hu⟩ := h
  obtain ⟨e, rfl⟩ := hp
  have hlt : v.id < c.length := (List.getElem?_eq_some_iff.mp hi).1
  exact ⟨i, u, by rw [List.getElem?_append_left hlt, hi], hu⟩

theorem Computes.congr (h : c.Computes v t) (ht : t.core = u.core) : c.Computes v u := by
  obtain ⟨i, w, hi, hw, hsame⟩ := h
  exact ⟨i, w, hi, hw, (Ty.sameIgnoringConst_iff ..).mpr (((Ty.sameIgnoringConst_iff ..).mp hsame).trans ht)⟩

theorem computes_new (h : u ∈ i.computed) (ht : u.core = t.core) : (c ++ [i]).Computes ⟨c.length⟩ t :=
  ⟨i, u, List.getElem?_concat_length, h, (Ty.sameIgnoringConst_iff ..).mpr ht⟩

end Code

namespace Emit

variable {α : Type} {c : Code} {i : Instruction} {t u : Ty} {v w : Value}

/-- What holds of the result and the code if an emission ends without a fault: it only adds code, which still agrees. -/
abbrev Accords (c : Code) (m : Emit α) (P : α → Code → Prop) : Prop := Keeps Code.Agrees c m P

/-- The emission of a value with a type. -/
def Gives (m : Emit Value) (t : Ty) : Prop := ∀ c, Accords c m fun v d => d.Computes v t

theorem accords_emit (hi : i.typedOperands = []) (hu : u ∈ i.computed) (ht : u.core = t.core) :
    Accords c (emit i) fun v d => d.Computes v t :=
  keeps_emit (fun p hp => by rw [hi] at hp; cases hp) (Code.computes_new hu ht)

theorem accords_mark (hi : i.typedOperands = []) : Accords c (emit i) fun _ _ => True :=
  keeps_emit (fun p hp => by rw [hi] at hp; cases hp) trivial

theorem accords_two (hi : i.typedOperands = [(v, t), (w, t)]) (hv : c.Computes v t) (hw : c.Computes w t) {r : Ty}
    (hu : u ∈ i.computed) (ht : u.core = r.core) : Accords c (emit i) fun v d => d.Computes v r := by
  refine keeps_emit (fun p hp => ?_) (Code.computes_new hu ht)
  rw [hi] at hp
  rcases List.mem_pair.mp hp with rfl | rfl
  · exact hv
  · exact hw

theorem accords_store {stored place : Value} {r : Ty} (hv : c.Computes v t) : Accords c (do
      let _ ← emit (.store stored place r)
      return v) fun v d => d.Computes v t :=
  Keeps.bind (accords_mark rfl) fun _ _ hd _ => Keeps.pure (hv.mono hd)

end Emit

namespace Expr

open Emit

/-- The value of a node is of the type that the node has. A step adds one in a single lane, and what a comma, a launch or an
address is made of keeps its own type. -/
def Exact : Expr → Prop
  | .step node .. => ∀ t, node.type = some t → t.isPointer = true ∨ t.isVarying = false
  | .binary _ .comma _ r _ => r.isReference = false
  | .call _ callee _ launch _ signature =>
    launch = true → callee.isVarying = true → ∀ s, signature = some s → s.result.asVarying.sameIgnoringConst s.result = true
  | .addressOf _ e => e.isReference = false ∧ e.followed? = none
  | _ => True

/-- The value of the expression is computed with its type, unless it is a reference. -/
def ValueTyped (e : Expr) (m : Emit Value) : Prop := ∀ c, Accords c m fun v d =>
  ∀ t, e.type? = some t → t.isReference = false → d.Computes v t

/-- An address is computed with the type that it is to have, where no reference was followed. -/
def AddressTyped (e : Expr) (m : Emit (Option Value)) : Prop := ∀ c, Accords c m fun a d =>
  ∀ v t, a = some v → e.followed? = none → e.addressType = .ok (some t) → d.Computes v t

variable {T : Target} {e : Expr} {node : Node} {t u : Ty} {c d : Code} {value position : Emit Value}
  {address : Emit (Option Value)}

theorem valueTyped_of_type (hn : e.type? = some t) (h : Gives value t) : e.ValueTyped value := by
  intro c
  refine Keeps.mono (h c) fun v d hv u hu _ => ?_
  rw [hn] at hu
  cases hu
  exact hv

theorem valueTyped_reference (hn : e.type? = some t) (hr : t.isReference = true)
    (h : ∀ c, Accords c value fun _ _ => True) : e.ValueTyped value := by
  intro c
  refine Keeps.mono (h c) fun v d _ u hu hur => ?_
  rw [hn] at hu
  cases hu
  rw [hr] at hur
  cases hur

theorem ValueTyped.hasType (h : e.ValueTyped value) (ht : e.HasType t) (hr : t.isReference = false) : Gives value t := by
  intro c
  obtain ⟨u, hu, hcore⟩ := hasType_iff.mp ht
  exact Keeps.mono (h c) fun v d hv => (hv u hu ((Ty.isReference_eq hcore).trans hr)).congr hcore

theorem addressTyped_nowhere : e.AddressTyped (pure none) := fun _ => Keeps.pure fun _ _ h => by cases h

theorem addressTyped_found {v : Value} {a : Ty} (ha : e.addressType = .ok (some a)) (hv : c.Computes v a) :
    Accords c (pure (some v)) fun o d => ∀ v t, o = some v → e.followed? = none → e.addressType = .ok (some t) → d.Computes v t := by
  refine Keeps.pure fun w t hw _ ht => ?_
  rw [ha] at ht
  cases hw
  cases ht
  exact hv

/-- An instruction with the type of the node, whose operands may have any type. -/
theorem accords_given {k : Ty → Instruction} (hn : node.type = some t) (hi : (k t).typedOperands = []) (hu : t ∈ (k t).computed) :
    Accords c (do emit (k (← node.checked))) fun v d => d.Computes v t :=
  Keeps.read (Node.checked_ok hn) (accords_emit hi hu rfl)

/-! ## Storage and steps -/

theorem storageAddress_accords (hv : e.ValueTyped value) (ha : e.AddressTyped address) (c : Code) :
    Accords c (storageAddress e value address) fun v d =>
      e.isReference = false → e.followed? = none → ∀ t, e.addressType = .ok (some t) → d.Computes v t := by
  refine Keeps.located (fun u hu hr => Keeps.mono (hv c) fun v d _ hn => ?_) fun _ _ _ => Keeps.mono (ha c) fun a d h => ?_
  · rw [isReference_eq (type?_of_ok hu), hr] at hn
    cases hn
  · exact fun v hv _ hf t ht => h v t hv hf ht

theorem storageAddress_found (hv : e.ValueTyped value) (ha : e.AddressTyped address) (c : Code) :
    Accords c (storageAddress e value address) fun _ _ => True :=
  Keeps.mono (storageAddress_accords hv ha c) fun _ _ _ => trivial

theorem loadFrom_gives {otherwise : Emit Value} (hn : node.type = some t) (ha : e.AddressTyped address)
    (ho : Gives otherwise t) : Gives (address >>= fun a => loadFrom a node.checked otherwise) t := by
  intro c
  refine Keeps.bind (ha c) fun a d _ _ => ?_
  cases a with
  | none => exact ho d
  | some v => exact accords_given hn rfl List.mem_cons_self

theorem emitOffset_accords (down : Bool) (before amount : Value) (x : Except Fault Ty) :
    Accords c (emitOffset down before amount x t) fun v d => d.Computes v t := by
  unfold emitOffset
  split
  · exact Keeps.lift fun u _ => Keeps.bind (accords_mark rfl) fun _ _ _ _ => accords_emit rfl List.mem_cons_self rfl
  · exact accords_emit (i := .pointerOffset before amount t) rfl List.mem_cons_self rfl

theorem core_of_asUniform {one t : Ty} (hone : one.isScalar = true) (h : one.core = t.asUniform.core) (hu : t.isVarying = false) :
    one.core = t.core := by
  cases one with
  | scalar a =>
    cases t with
    | scalar s =>
      obtain ⟨e, ⟨v, k⟩, o⟩ := s
      cases v with
      | varying => cases hu
      | uniform => exact h
    | _ => cases h
  | _ => cases hone

theorem emitStep_gives (s : Step) {one : Literal} (hn : node.type = some t)
    (hone : t.isPointer = false → one.type.core = t.core) (ha : ∀ c, Accords c value fun _ _ => True) :
    Gives (emitStep node s (some one) value) t := by
  intro c
  unfold emitStep
  refine Keeps.read (Node.checked_ok hn) (Keeps.bind (ha c) fun place d _ _ => ?_)
  refine Keeps.bind (accords_emit rfl List.mem_cons_self rfl) fun before d' _ hbefore => ?_
  refine Keeps.bind (accords_emit (u := one.type) rfl List.mem_cons_self rfl) fun amount d'' hd'' hamount => ?_
  have hbefore := hbefore.mono hd''
  have stored : ∀ (after : Value) (e : Code), d'' <+: e → e.Computes after t → Accords e (do
      let _ ← emit (.store after place t)
      return if s.isPost then before else after) fun v d => d.Computes v t := by
    intro after e he hafter
    refine accords_store ?_
    split
    · exact hbefore.mono he
    · exact hafter
  by_cases hp : t.isPointer = true
  · rw [if_pos hp]
    exact Keeps.bind (emitOffset_accords _ _ _ _) stored
  · rw [if_neg hp]
    have hamount : Code.Computes d'' amount t := hamount.congr (hone (by simpa using hp))
    exact Keeps.bind (accords_two rfl hbefore hamount List.mem_cons_self rfl) stored

/-! ## Binary operators -/

theorem emitPointerArith_accords (op : ArithOp) (a : Ty) (x : Except Fault Ty) (l r : Value) (hn : node.type = some t) :
    Accords c (emitPointerArith node op a x l r) fun v d => d.Computes v t := by
  unfold emitPointerArith
  refine Keeps.lift fun b _ => ?_
  split
  · exact accords_given hn rfl List.mem_cons_self
  · refine Keeps.read (Node.checked_ok hn) ?_
    split
    · exact Keeps.throw _
    · split
      · exact emitOffset_accords _ _ _ _
      · exact accords_emit rfl List.mem_cons_self rfl

section
variable {l r : Expr} {leftValue rightValue : Emit Value} (hl : l.ValueTyped leftValue) (hr : r.ValueTyped rightValue)
  (hn : node.type = some t)
include hl hr hn

theorem emitArith_gives {op : ArithOp} {reported : Bool} (h : (Expr.binary node (.arith op) l r reported).Coherent T)
    (hlr : l.isReference = false) (hrr : r.isReference = false) :
    Gives (emitBinary node (.arith op) l r leftValue rightValue) t := by
  obtain ⟨t', a, b, hn', ha, hb, harith⟩ := h
  obtain rfl := Option.some.inj (hn.symm.trans hn')
  rw [isReference_eq ha] at hlr
  rw [isReference_eq hb] at hrr
  intro c
  unfold emitBinary
  refine Keeps.bind (hl c) fun x d _ hx => Keeps.bind (hr d) fun y d' hd' hy => ?_
  have hx := (hx a ha hlr).mono hd'
  have hy := hy b hb hrr
  unfold emitArith
  refine Keeps.read (type_ok ha) ?_
  by_cases hpa : a.isPointer = true
  · rw [if_pos hpa]
    exact emitPointerArith_accords _ _ _ _ _ hn
  rw [if_neg hpa]
  refine Keeps.read (type_ok hb) ?_
  simp only [pure_bind]
  by_cases hpb : b.isPointer = true
  · rw [if_pos hpb]
    exact emitPointerArith_accords _ _ _ _ _ hn
  rw [if_neg hpb]
  rw [Bool.not_eq_true] at hpa hpb
  obtain ⟨hca, hcb⟩ := (Ty.arithmetic_values hpa hpb).mp harith
  exact Keeps.read (Node.checked_ok hn) (accords_two rfl (hx.congr hca) (hy.congr hcb) List.mem_cons_self rfl)

theorem emitBinary_gives {op : BinaryOp} {reported : Bool} (h : (Expr.binary node op l r reported).Coherent T)
    (hg : (Expr.binary node op l r reported).Grounded T) (hw : (Expr.binary node op l r reported).WellTyped)
    (he : (Expr.binary node op l r reported).Exact) : Gives (emitBinary node op l r leftValue rightValue) t := by
  cases op with
  | arith op => exact emitArith_gives hl hr hn h hw.1 hw.2.1
  | logic op =>
    intro c
    refine Keeps.bind (hl c) fun x d _ _ => Keeps.read (Node.checked_ok hn) (Keeps.bind (accords_mark rfl) fun _ d' _ _ => ?_)
    exact Keeps.bind (hr d') fun y d'' _ _ => accords_emit rfl List.mem_cons_self rfl
  | comma =>
    obtain ⟨t', u, hn', hu, hcore⟩ := hg
    obtain rfl := Option.some.inj (hn.symm.trans hn')
    have hrr : u.isReference = false := (isReference_eq hu).symm.trans he
    rw [Ty.stored_of_not_reference hrr] at hcore
    exact fun c => Keeps.bind (hl c) fun _ d _ _ => Keeps.mono (hr d) fun v e hv => (hv u hu hrr).congr hcore.symm
  | compare op =>
    obtain ⟨w, hn', ha, hb⟩ := h
    obtain rfl := Option.some.inj (hn.symm.trans hn')
    obtain ⟨a, ha', hcore⟩ := hasType_iff.mp ha
    have har : a.isReference = false := (isReference_eq ha').symm.trans hw.1
    intro c
    refine Keeps.bind (hl c) fun x d _ hx => Keeps.bind (hr.hasType (hb.congr hcore.symm) har d) fun y d' hd' hy => ?_
    refine Keeps.read (type_ok ha') (accords_two rfl ((hx a ha' har).mono hd') hy (u := a.boolLike) List.mem_cons_self ?_)
    rw [← Ty.boolLike_core, hcore, Ty.boolLike_core]

end

/-! ## Assignments -/

theorem emitCompound_accords (op : ArithOp) {o : Ty} {x : Except Fault Ty} {current v : Value} (hc : c.Computes current t)
    (hv : t.isPointer = false → c.Computes v o) : Accords c (emitCompound op t o x current v) fun v d => d.Computes v t := by
  unfold emitCompound
  by_cases hp : t.isPointer = true
  · rw [if_pos hp]
    exact emitOffset_accords _ _ _ _
  rw [if_neg hp]
  have hv := hv (by simpa using hp)
  split
  · rename_i hsame
    have hcore : o.core = t.core := Ty.core_eq_of_same hsame
    exact accords_two rfl (hc.congr hcore.symm) hv List.mem_cons_self hcore
  · refine Keeps.bind (accords_emit (t := o) rfl List.mem_cons_self rfl) fun left d hd hleft => ?_
    refine Keeps.bind (accords_two rfl hleft (hv.mono hd) List.mem_cons_self (r := o) rfl) fun combined d' _ _ => ?_
    exact accords_emit rfl List.mem_cons_self rfl

theorem emitAssign_gives {op : AssignOp} {v : Expr} {operandType : Option Ty} (hn : node.type = some t)
    (ha : ∀ c, Accords c value fun _ _ => True) (hv : ∀ c, Accords c position fun _ _ => True)
    (hplain : op = .plain → Gives position t)
    (hcompound : ∀ op', op = .compound op' → t.isPointer = false → Gives position (operandType.getD t)) :
    Gives (emitAssign node op v operandType value position) t := by
  intro c
  unfold emitAssign
  refine Keeps.read (Node.checked_ok hn) (Keeps.bind (ha c) fun place d _ _ => ?_)
  cases op with
  | plain => exact Keeps.bind (hplain rfl d) fun v d' _ hv => accords_store hv
  | compound op =>
    refine Keeps.bind (accords_emit rfl List.mem_cons_self rfl) fun current d' _ hcurrent => ?_
    have operand : Accords d' position fun v e => t.isPointer = false → e.Computes v (operandType.getD t) := by
      by_cases hp : t.isPointer = true
      · exact Keeps.mono (hv d') fun _ _ _ hf => by rw [hp] at hf; cases hf
      · exact Keeps.mono (hcompound op rfl (by simpa using hp) d') fun _ _ h _ => h
    refine Keeps.bind operand fun x e he hx => ?_
    exact Keeps.bind (emitCompound_accords op (hcurrent.mono he) hx) fun result e' _ hresult => accords_store hresult

/-! ## Selections and calls -/

theorem select_gives {test a b : Emit Value} (hn : node.type = some t) (ht : ∀ c, Accords c test fun _ _ => True)
    (ha : Gives a t) (hb : Gives b t) : Gives (do
      let x ← test
      let y ← a
      let z ← b
      emit (.select x y z (← node.checked))) t := by
  intro c
  refine Keeps.bind (ht c) fun x d _ _ => Keeps.bind (ha d) fun y d' _ hy => Keeps.bind (hb d') fun z d'' hd hz => ?_
  exact Keeps.read (Node.checked_ok hn) (accords_two rfl (hy.mono hd) hz List.mem_cons_self rfl)

theorem values_accord : ∀ {es : List Expr}, (∀ e ∈ es, e.ValueTyped e.value) → ∀ c, Accords c (values es) fun _ _ => True
  | [], _, _ => Keeps.pure trivial
  | e :: es, h, c => by
    rw [values]
    refine Keeps.bind (h e List.mem_cons_self c) fun v d _ _ => ?_
    exact Keeps.bind (values_accord (fun e he => h e (List.mem_cons_of_mem _ he)) d) fun vs d' _ _ => Keeps.pure trivial

/-- The result of a varying call is varying, that of a launch is what the task gives. -/
theorem emitCall_gives {e callee : Expr} {launch : Bool} {s : Signature} {args : Emit (List Value)} {count : Option (Emit Value)}
    (hv : ∀ c, Accords c value fun _ _ => True) (ha : ∀ c, Accords c args fun _ _ => True)
    (hc : ∀ m, count = some m → ∀ c, Accords c m fun _ _ => True)
    (hvarying : callee.isVaryingCallee = .ok callee.isVarying)
    (hl : launch = true → callee.isVarying = true → s.result.asVarying.sameIgnoringConst s.result = true) :
    Gives (emitCall e callee launch (some s) value args count)
      (if callee.isVarying && !s.result.isVoid then s.result.asVarying else s.result) := by
  intro c
  unfold emitCall
  refine Keeps.bind (hv c) fun f d _ _ => Keeps.bind (ha d) fun vs d' _ _ => ?_
  by_cases hlaunch : launch = true
  · rw [if_pos hlaunch]
    cases count with
    | none => exact Keeps.throw _
    | some m =>
      refine Keeps.bind (hc m rfl d') fun n d'' _ _ => accords_emit (u := s.result) rfl List.mem_cons_self ?_
      split
      · rename_i hvar
        exact ((Ty.sameIgnoringConst_iff ..).mp (hl hlaunch (Bool.and_eq_true_iff.mp hvar).1)).symm
      · rfl
  · rw [if_neg hlaunch]
    exact Keeps.read hvarying (accords_emit rfl List.mem_cons_self rfl)

/-! ## Elements and members -/

section
variable {b i : Expr} {baseValue : Emit Value} {baseAddress : Emit (Option Value)} (hb : b.ValueTyped baseValue)
  (ha : b.AddressTyped baseAddress)
include hb ha

theorem elementAddress_typed (hp : ∀ c, Accords c position fun _ _ => True) :
    (Expr.index node b i).AddressTyped (elementAddress (.index node b i) b baseValue baseAddress position) := by
  intro c
  unfold elementAddress
  refine Keeps.lift fun o ho => ?_
  cases o with
  | none => exact Keeps.pure fun _ _ h => by cases h
  | some a =>
    have last : ∀ (x : Value) (d : Code) (s : Ty), Accords d (do
        let i ← position
        return some (← emit (.elementAddress x i s a))) fun o d => ∀ v t, o = some v → (Expr.index node b i).followed? = none →
          (Expr.index node b i).addressType = .ok (some t) → d.Computes v t := by
      intro x d s
      refine Keeps.bind (hp d) fun y d' _ _ => ?_
      exact Keeps.bind (accords_emit (t := a) rfl List.mem_cons_self rfl) fun v d'' _ hv => addressTyped_found ho hv
    refine Keeps.lift fun t _ => ?_
    dsimp only
    split
    · exact Keeps.bind (hb c) fun x d _ _ => last x d _
    · exact Keeps.bind (storageAddress_found hb ha c) fun x d _ _ => last x d _

theorem memberAddress_typed {name : String} {arrow : Bool} {access : Option Access} :
    (Expr.member node b name arrow access).AddressTyped
      (memberAddress (.member node b name arrow access) b arrow access baseValue baseAddress) := by
  intro c
  unfold memberAddress
  refine Keeps.lift fun o ho => ?_
  cases o with
  | none => exact Keeps.pure fun _ _ h => by cases h
  | some a =>
    have last : ∀ (x : Value) (d : Code), Accords d (do
        let s ← accessOf (.member node b name arrow access) access
        return some (← emit (.memberAddress x s.position s.aggregate a))) fun o d => ∀ v t, o = some v →
          (Expr.member node b name arrow access).followed? = none →
          (Expr.member node b name arrow access).addressType = .ok (some t) → d.Computes v t := by
      intro x d
      refine Keeps.lift fun s _ => ?_
      exact Keeps.bind (accords_emit (t := a) rfl List.mem_cons_self rfl) fun v d' _ hv => addressTyped_found ho hv
    dsimp only
    split
    · exact Keeps.bind (hb c) fun x d _ _ => last x d
    · exact Keeps.bind (storageAddress_found hb ha c) fun x d _ _ => last x d

end

theorem pickElements_gives {access : Option Access} (hn : node.type = some t) (hb : ∀ c, Accords c value fun _ _ => True) :
    Gives (pickElements e node access value) t := by
  intro c
  unfold pickElements
  refine Keeps.lift fun a _ => Keeps.bind (hb c) fun v d _ _ => ?_
  split
  · refine Keeps.read (Node.checked_ok hn) ?_
    split
    · exact accords_emit rfl List.mem_cons_self rfl
    · exact Keeps.throw _
  · exact accords_given hn rfl List.mem_cons_self

/-! ## Pointers -/

theorem emitFunction_gives {f : FunctionName} (hf : f.node.type = f.function?.map Symbol.type) (hn : f.node.type = some t)
    (hu : u = t ∨ u = .pointer t {}) : Gives (emitFunction f) u := by
  intro c
  unfold emitFunction
  rw [hn] at hf
  split
  · rename_i s hs
    rw [hs] at hf
    cases hf
    rcases hu with rfl | rfl
    · exact accords_emit rfl List.mem_cons_self rfl
    · exact accords_emit rfl (List.mem_cons_of_mem _ List.mem_cons_self) rfl
  · exact Keeps.throw _

theorem emitNull_gives (hn : node.type = some t) : Gives (emitNull node) t := by
  intro c
  unfold emitNull
  refine Keeps.read (Node.checked_ok hn) ?_
  split
  · exact accords_emit rfl List.mem_cons_self rfl
  · exact Keeps.throw _

theorem emitNew_gives {allocated : Ty} {count init : Option (Emit Value)} (hn : node.type = some t)
    (hcount : ∀ m, count = some m → ∀ c, Accords c m fun _ _ => True)
    (hinit : ∀ m, init = some m → ∀ c, Accords c m fun _ _ => True) : Gives (emitNew node allocated count init) t := by
  intro c
  unfold emitNew
  refine Keeps.read (Node.checked_ok hn) ?_
  split
  · exact Keeps.throw _
  have allocates : ∀ (n : Option Value) (d : Code), Accords d (emit (.allocate allocated n t)) fun v d => d.Computes v t :=
    fun n d => accords_emit rfl List.mem_cons_self rfl
  have filled : ∀ m, (∀ c, Accords c m fun _ _ => True) → ∀ (d : Code) (pointer : Value), d.Computes pointer t → Accords d (do
      let _ ← emit (.store (← m) pointer allocated)
      return pointer) fun v d => d.Computes v t :=
    fun m hm d pointer hp => Keeps.bind (hm d) fun x d' hd _ => accords_store (hp.mono hd)
  cases count with
  | none =>
    simp only [pure_bind]
    refine Keeps.bind (allocates none c) fun pointer d _ hv => ?_
    cases init with
    | none => exact Keeps.pure hv
    | some m => exact filled m (hinit m rfl) d pointer hv
  | some n =>
    simp only [pure_bind]
    refine Keeps.bind (hcount n rfl c) fun size d _ _ => Keeps.bind (allocates (some size) d) fun pointer d' _ hv => ?_
    cases init with
    | none => exact Keeps.pure hv
    | some m => exact filled m (hinit m rfl) d' pointer hv

/-! ## Addresses -/

/-- Where a pointer points is given by its value. What a reference refers to was followed. -/
theorem dereference_addressTyped {b : Expr} (hu : b.type? = some u) (hread : u.readType? = some t) (hv : b.ValueTyped value) :
    (Expr.dereference node b).AddressTyped (some <$> value) := by
  intro d
  refine Keeps.bind (hv d) fun v d' _ h => Keeps.pure ?_
  intro v' a hv' hf ha
  cases hv'
  rw [addressType, type_ok hu] at ha
  cases u with
  | reference =>
    change b.referent? = none at hf
    rw [referent?_eq hu] at hf
    cases hf
  | pointer p q o =>
    cases ha
    exact (h _ hu rfl).congr rfl
  | _ => cases hread

theorem symbol_addressTyped {s : Symbol} (hs : node.type = some s.type) :
    (Expr.symbol node s).AddressTyped (do return some (← emit (.symbolAddress s))) := by
  have ha : (Expr.symbol node s).addressType = .ok (some (addressOfType s.type false)) := by
    rw [addressType, type_ok (e := .symbol node s) hs]
    rfl
  exact fun d => Keeps.bind (accords_emit rfl List.mem_cons_self rfl) fun v d' _ hv => addressTyped_found ha hv

theorem storageAddress_gives (hu : e.type? = some u) (hr : e.isReference = false) (hf : e.followed? = none)
    (hv : e.ValueTyped value) (ha : e.AddressTyped address) (ht : Check.addressTypeOf e = .ok (some t)) :
    Gives (storageAddress e value address) t := by
  rw [addressTypeOf_value hu ((isReference_eq hu).symm.trans hr)] at ht
  exact fun d => Keeps.mono (storageAddress_accords hv ha d) fun v d hv => hv hr hf t ht

/-! ## Expressions -/

theorem typed_nowhere (hn : e.type? = some t) (h : Gives value t) : e.ValueTyped value ∧ e.AddressTyped (pure none) :=
  ⟨valueTyped_of_type hn h, addressTyped_nowhere⟩

/-- The value of an exact expression is computed with the type of the expression, and so is its address. -/
theorem typed (h : Checked T e) (hw : Everywhere WellTyped e) (he : Everywhere Exact e) :
    e.ValueTyped e.value ∧ e.AddressTyped e.address := by
  induction e using Expr.induct with
  | h e ih =>
  obtain ⟨t, hn, hlegal⟩ := h.typed
  have child : ∀ c ∈ e.children, c.ValueTyped c.value ∧ c.AddressTyped c.address := fun c hm =>
    ih c hm (h.child hm) (hw.child hm) (he.child hm)
  -- many operands are only evaluated, or only located
  have evaluated : ∀ c ∈ e.children, ∀ d, Accords d c.value fun _ _ => True := fun c hm d =>
    Keeps.mono ((child c hm).1 d) fun _ _ _ => trivial
  have found : ∀ c ∈ e.children, ∀ d, Accords d (storageAddress c c.value c.address) fun _ _ => True := fun c hm =>
    storageAddress_found (child c hm).1 (child c hm).2
  cases e with
  | unary node op c =>
    rw [value]
    refine typed_nowhere hn fun d => ?_
    exact Keeps.bind (evaluated c (by simp [children]) d) fun v d' _ _ => accords_given hn rfl List.mem_cons_self
  | step node s c amount =>
    obtain ⟨-, ⟨one, rfl, hone⟩, -, hamount⟩ := hw.here
    rw [value]
    refine typed_nowhere hn (emitStep_gives s hn (fun hp => ?_) (found c (by simp [children])))
    have huniform : t.isVarying = false := (he.here t hn).resolve_left (by rw [hp]; exact Bool.false_ne_true)
    exact core_of_asUniform hone (hamount t one hn hp rfl) huniform
  | binary node op l r reported =>
    rw [value]
    exact typed_nowhere hn (emitBinary_gives (child l (by simp [children])).1 (child r (by simp [children])).1 hn
      h.here.coherent h.here.grounded hw.here he.here)
  | assign node op target v operandType =>
    obtain ⟨⟨u, hu, hn'⟩, -, hv⟩ := hw.here
    obtain rfl := Option.some.inj (hn.symm.trans hn')
    have hvalue := (child v (by simp [children])).1
    have operand : ∀ {w : Ty}, v.HasType w → Gives v.value w := fun hw => hvalue.hasType hw (hw.isReference_eq.symm.trans hv)
    rw [value]
    refine typed_nowhere hn (emitAssign_gives hn (found target (by simp [children])) (evaluated v (by simp [children])) ?_ ?_)
    · rintro rfl
      obtain ⟨u', hu', hassigned⟩ := h.here.coherent
      obtain rfl := Option.some.inj (hu.symm.trans hu')
      exact operand hassigned
    · rintro op' rfl hp
      obtain ⟨u', o, hu', rfl, hassigned⟩ := h.here.coherent
      obtain rfl := Option.some.inj (hu.symm.trans hu')
      rw [hp, if_neg Bool.false_ne_true] at hassigned
      exact operand hassigned
  | select node test a b =>
    obtain ⟨t', v, hn', -, ha, hb⟩ := h.here.coherent
    obtain rfl := Option.some.inj (hn.symm.trans hn')
    have hr : t.isReference = false := ha.isReference_eq.symm.trans hw.here.2.1
    rw [value]
    refine typed_nowhere hn (select_gives hn (evaluated test (by simp [children])) ?_ ?_)
    · exact (child a (by simp [children])).1.hasType ha hr
    · exact (child b (by simp [children])).1.hasType hb hr
  | list node items =>
    rw [value]
    refine typed_nowhere hn fun d => ?_
    exact Keeps.bind (values_accord (fun c hm => (child c hm).1) d) fun vs d' _ _ => accords_given hn rfl List.mem_cons_self
  | call node callee args launch count signature =>
    obtain ⟨⟨s, rfl, hn'⟩, hname, -⟩ := hw.here
    obtain ⟨s', u, hs, hu, -⟩ := h.here.coherent
    cases hs
    rw [value_call]
    refine typed_nowhere hn' (emitCall_gives (evaluated callee (by simp [children]))
      (values_accord fun c hm => (child c (by simp [children, hm])).1) (fun m hm => ?_) (isVaryingCallee_eq hu hname)
      fun hl hv => he.here hl hv s rfl)
    obtain ⟨n, rfl, rfl⟩ := Option.map_eq_some_iff.mp hm
    exact evaluated n (by simp [children])
  | index node base i =>
    have hb := child base (by simp [children])
    have hp := evaluated i (by simp [children])
    have haddress : (Expr.index node base i).AddressTyped _ := elementAddress_typed hb.1 hb.2 hp
    rw [value, address]
    refine ⟨valueTyped_of_type hn (loadFrom_gives hn haddress fun d => ?_), haddress⟩
    exact Keeps.bind (hb.1 d) fun x d' _ _ => Keeps.bind (hp d') fun y d'' _ _ => accords_given hn rfl List.mem_cons_self
  | member node base name arrow access =>
    have hb := child base (by simp [children])
    have haddress : (Expr.member node base name arrow access).AddressTyped _ := memberAddress_typed hb.1 hb.2
    rw [value, address]
    refine ⟨valueTyped_of_type hn (loadFrom_gives hn haddress ?_), haddress⟩
    exact pickElements_gives hn (evaluated base (by simp [children]))
  | const node c =>
    rw [value]
    exact typed_nowhere hn fun d => accords_given hn rfl List.mem_cons_self
  | cast node target c reported =>
    rw [value]
    refine typed_nowhere hn fun d => Keeps.bind (evaluated c (by simp [children]) d) fun v d' _ _ => ?_
    exact Keeps.lift fun u _ => accords_given hn rfl List.mem_cons_self
  | reference node c =>
    obtain ⟨u, hu, -, hn', -⟩ := hw.here
    have haddress := (child c (by simp [children])).2
    rw [value, address]
    exact ⟨valueTyped_reference hn' rfl (found c (by simp [children])), fun d => haddress d⟩
  | dereference node c =>
    obtain ⟨u, w, hu, hread, -⟩ := hw.here
    have hv := (child c (by simp [children])).1
    rw [value, address]
    refine ⟨valueTyped_of_type hn fun d => ?_, dereference_addressTyped hu hread hv⟩
    exact Keeps.bind (hv d) fun v d' _ _ => accords_given hn rfl List.mem_cons_self
  | addressOf node c =>
    obtain ⟨hr, hf⟩ := he.here
    obtain ⟨w, hc, -⟩ := (h.child (c := c) (by simp [children])).here.typed
    rw [value]
    refine typed_nowhere hn ?_
    split
    · rename_i hname
      obtain ⟨u, hu, hn'⟩ := hw.here.1 hname
      obtain rfl := Option.some.inj (hn.symm.trans hn')
      cases c with
      | function f =>
        rw [value]
        exact emitFunction_gives (hw.child (c := .function f) (by simp [children])).here hu (.inr rfl)
      | _ => cases hname
    · rename_i hname
      obtain ⟨u, hu, hn'⟩ := hw.here.2 (by simpa using hname)
      obtain rfl := Option.some.inj (hn.symm.trans hn')
      exact storageAddress_gives hc hr hf (child c (by simp [children])).1 (child c (by simp [children])).2 hu
  | sizeOf node c =>
    rw [value]
    exact typed_nowhere hn fun d => Keeps.lift fun u _ => accords_given hn rfl List.mem_cons_self
  | sizeOfType node measured =>
    rw [value]
    exact typed_nowhere hn fun d => accords_given hn rfl List.mem_cons_self
  | symbol node s =>
    rw [value, address]
    refine ⟨valueTyped_of_type hn fun d => ?_, symbol_addressTyped h.here.grounded.1⟩
    exact Keeps.bind (accords_mark rfl) fun v d' _ _ => accords_given hn rfl List.mem_cons_self
  | function f =>
    rw [value]
    exact typed_nowhere hn (emitFunction_gives hw.here hn (.inl rfl))
  | sync node =>
    rw [value]
    exact typed_nowhere hw.here fun d => accords_emit rfl List.mem_cons_self rfl
  | null node =>
    rw [value]
    exact typed_nowhere hn (emitNull_gives hn)
  | new node allocated count init varying =>
    rw [value_new]
    refine typed_nowhere hn (emitNew_gives hn (fun m hm => ?_) fun m hm => ?_)
    · obtain ⟨n, rfl, rfl⟩ := Option.map_eq_some_iff.mp hm
      exact evaluated n (by simp [children])
    · obtain ⟨i, rfl, rfl⟩ := Option.map_eq_some_iff.mp hm
      exact evaluated i (by simp [children])

end Expr
open Check Spmd.Expr Emit

/-- Where checking gives an exact tree, the code for it agrees: both operands of every arithmetic operation and comparison,
and both branches of every selection, were computed with the type of the operation. -/
theorem typecheck_agrees {target : Target} {file : String} {json : Option Json} {p : Program} {e t : Expr}
    {s s' : Session} (hp : Program.read target file json = .ok p) (he : e ∈ p.expressions) (hs : s.target = target)
    (ht : (typecheck e).run s = (.ok (some t), s')) (hexact : Everywhere Exact t) :
    ∃ v c, t.value.run [] = (.ok v, c) ∧ c.Agrees := by
  have hc := typecheck_checked hp he hs ht
  have hw := typecheck_wellTyped hp he hs ht
  have hready : Everywhere (Ready false) t := ready_everywhere hc hw nofun
  obtain ⟨v, c, hv, -, -⟩ := (performs hc hready).1 []
  obtain ⟨-, hagrees, -⟩ := (typed hc hw hexact).1 [] Code.Each.nil v _ hv
  exact ⟨v, _, hv, hagrees⟩

/-! ## A sum that is narrowed, and a step of many lanes -/

/-- `b += 1`, where `b` is an `int8`. -/
def narrowedJson : Json :=
  programJson [("b", .string "int8")]
    (.object [("assign", .string "+="), ("target", .object [("symbol", .string "b")]),
      ("value", .object [("const", .string "1"), ("type", .string "int32")])])

def narrowSymbol : Symbol := ⟨"b", .basic .int8 .uniform, .local, none, none⟩

/-- `b += 1`, with the types that the nodes have. -/
def narrowedExpr (node : Node) (operandType : Option Ty) : Expr :=
  .assign node (.compound .add) (.symbol (.typed none narrowSymbol.type) narrowSymbol)
    (.const (.typed none Ty.int32.asConst) ⟨.int32, 8, [.int 1]⟩) operandType

def narrowedTyped : Expr := narrowedExpr (.typed none (.basic .int8 .uniform)) (some .int32)

theorem narrowedProgram_read : Program.read .standard "program" (some narrowedJson) =
    .ok ⟨{ target := .standard, file := "program", symbols := [narrowSymbol] }, [narrowedExpr {} none]⟩ := rfl

theorem narrowedExpr_checks : ∃ s', (typecheck (narrowedExpr {} none)).run { target := .standard } =
    (.ok (some narrowedTyped), s') := ⟨_, rfl⟩

theorem typecheck_agrees_narrowed : ∃ v c, narrowedTyped.value.run [] = (.ok v, c) ∧ c.Agrees := by
  obtain ⟨s', hchecks⟩ := narrowedExpr_checks
  exact typecheck_agrees narrowedProgram_read (List.mem_singleton_self _) rfl hchecks
    (.two trivial rfl (.leaf trivial rfl) (.leaf trivial rfl))

/-- `v++`, where `v` is a varying `int32`. -/
def steppedJson : Json :=
  programJson [("v", .string "varying int32")]
    (.object [("unary", .string "post++"), ("operand", .object [("symbol", .string "v")])])

def lanesSymbol : Symbol := ⟨"v", .basic .int32 .varying, .local, none, none⟩

def steppedExpr : Expr := .step {} ⟨true, false⟩ (.symbol (.typed none lanesSymbol.type) lanesSymbol) none

theorem steppedProgram_read : Program.read .standard "program" (some steppedJson) =
    .ok ⟨{ target := .standard, file := "program", symbols := [lanesSymbol] }, [steppedExpr]⟩ := rfl

/-- The amount of a step is uniform, and it is added as it is to a value with many lanes. -/
theorem steppedExpr_disagrees : ∃ p t s' v c, Program.read .standard "program" (some steppedJson) = .ok p ∧
    steppedExpr ∈ p.expressions ∧ (typecheck steppedExpr).run { target := .standard } = (.ok (some t), s') ∧
      t.value.run [] = (.ok v, c) ∧ ¬ c.Agrees := by
  refine ⟨_, _, _, _, _, steppedProgram_read, List.mem_singleton_self _, rfl, rfl, fun h => ?_⟩
  -- the third instruction is the amount, and the fourth one adds it
  obtain ⟨i, u, hi, hu, hsame⟩ := h [.symbolAddress lanesSymbol, .load ⟨0⟩ (.basic .int32 .varying),
    .constant ⟨.int32, 8, [.int 1]⟩ Ty.int32.asConst] (.binary .add ⟨1⟩ ⟨2⟩ (.basic .int32 .varying)) ⟨_, rfl⟩
    (⟨2⟩, .basic .int32 .varying) (List.mem_cons_of_mem _ List.mem_cons_self)
  cases hi
  cases List.mem_singleton.mp hu
  cases hsame

end Spmd
