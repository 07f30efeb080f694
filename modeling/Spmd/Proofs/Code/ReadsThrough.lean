import Spmd.Proofs.Code.Performed
import Spmd.Proofs.Code.Referents
import Spmd.Proofs.WellTyped.Address

/-!
# Values are read through references

In the code for a careful tree a reference is only used for what it refers to, and it only stands for a node that is a
reference itself (`typecheck_reads_through`). A tree is careful when no node uses an operand that is a reference without
reading through it first (`Expr.Careful`): what a conversion brings to a type is read through, but some forms take an operand
as it is.
-/

namespace Spmd

namespace Expr

/-- What an expression refers to, if it is a reference. -/
def referent? (e : Expr) : Option Ty := e.type?.bind Ty.referent?

/-- What is stored where an expression denotes storage. -/
def stored? (e : Expr) : Option Ty := e.type?.map Ty.stored

/-- What the address of an expression refers to, if it is a reference that was followed. -/
def followed? : Expr → Option Ty
  | .reference _ e => e.followed?
  | .dereference _ e => e.referent?
  | _ => none

/-- The operands that are used as they are, without a conversion, are no references. -/
def Careful : Expr → Prop
  | .unary _ _ e => e.isReference = false
  | .binary _ .comma _ r _ => r.isReference = false
  | .call _ callee .. => callee.isReference = false
  | .index _ base _ => base.isReference = true → base.isPointer = false
  | .member _ base _ arrow access => base.isReference = true → arrow = false ∧ ∀ a, access = some a → a.isAddressable = true
  | .cast _ target e _ => e.isReference = true → target.isReference = true
  | .addressOf _ e => e.isReference = false ∧ e.followed? = none
  | _ => True

open Emit

variable {T : Target} {e : Expr} {node : Node} {t u : Ty} {c d : Code} {r : Option Ty} {value position : Emit Value}
  {address : Emit (Option Value)}

/-! ## Referents -/

theorem referent?_eq (h : e.type? = some t) : e.referent? = t.referent? := by
  rw [referent?, h, Option.bind_some]

theorem referent?_eq_none (h : e.isReference = false) : e.referent? = none := by
  unfold isReference at h
  unfold referent?
  cases ht : e.type? with
  | none => rfl
  | some t =>
    rw [ht, Option.any_some] at h
    exact Ty.referent?_eq_none h

theorem HasType.referent (h : e.HasType u) : ∀ t, e.referent? = some t → ∃ w, u.referent? = some w ∧ t.core = w.core := by
  intro t ht
  obtain ⟨x, hx, hcore⟩ := hasType_iff.mp h
  rw [referent?_eq hx] at ht
  have hstored := Ty.stored_core_eq hcore
  cases x with
  | reference y o =>
    have hu := (Ty.isReference_eq hcore).symm
    cases u with
    | reference w o => exact ⟨w, rfl, by cases ht; exact hstored⟩
    | _ => cases hu
  | _ => cases ht

theorem Fits.referent (h : e.Fits u) : ∀ t, e.referent? = some t → ∃ w, u.referent? = some w ∧ t.core = w.core := by
  cases hu : u.isArray with
  | false => exact (h.hasType hu).referent
  | true =>
    intro t ht
    obtain ⟨w, hw, -⟩ := HasType.referent h t ht
    cases u with
    | array el n o =>
      unfold filling at hw
      split at hw <;> cases hw
    | _ => cases hu

theorem stored?_eq (h : e.type? = some t) : e.stored? = some t.stored := by
  rw [stored?, h, Option.map_some]

theorem stored?_of_referent (h : e.referent? = some t) : e.stored? = some t := by
  unfold referent? at h
  unfold stored?
  cases ht : e.type? with
  | none => rw [ht] at h; cases h
  | some u =>
    rw [ht] at h
    rw [Option.map_some, Ty.stored_of_referent h]

/-! ## Storage -/

/-- A reference that was followed refers to what is stored. -/
theorem followed?_stored (h : Checked T e) (hw : Everywhere WellTyped e) (ht : e.followed? = some t) :
    e.stored? = some t := by
  induction e using Expr.induct with
  | h e ih =>
  cases e with
  | reference node c =>
    obtain ⟨u, hu, hr, hn, -⟩ := hw.here
    have hc := ih c (by simp [children]) (h.child (by simp [children])) (hw.child (by simp [children])) ht
    rw [stored?_eq hu, Ty.stored_of_not_reference hr] at hc
    rw [← hc]
    exact stored?_eq (e := .reference node c) hn
  | dereference node c =>
    obtain ⟨u, w, hu, hread, hn⟩ := hw.here
    have hlegal : u.Legal := Checked.legal (h.child (c := c) (by simp [children])) hu
    have href : u.referent? = some t := (referent?_eq hu).symm.trans ht
    cases u with
    | reference x o =>
      cases hread
      cases href
      rw [stored?_eq (e := .dereference node c) hn, Ty.stored_of_not_reference hlegal.1]
    | _ => cases href
  | _ => cases ht

/-- An address is no reference but one that was followed. -/
def Locates (e : Expr) (m : Emit (Option Value)) : Prop := ∀ c, Leaves c m fun a d =>
  (a = none → e.hasAddress = false) ∧ ∀ v, a = some v → d.Refers v e.followed?

theorem leaves_nowhere (h : e.hasAddress = false) : Leaves c (pure none : Emit (Option Value)) fun a d =>
    (a = none → e.hasAddress = false) ∧ ∀ v, a = some v → d.Refers v e.followed? :=
  Keeps.pure ⟨fun _ => h, fun _ hv => by cases hv⟩

theorem leaves_found {v : Value} (h : c.Refers v e.followed?) : Leaves c (pure (some v)) fun a d =>
    (a = none → e.hasAddress = false) ∧ ∀ v, a = some v → d.Refers v e.followed? :=
  Keeps.pure ⟨fun ha => (by cases ha), fun _ hv => by cases hv; exact h⟩

theorem nowhere_locates (h : e.hasAddress = false) : e.Locates (pure none) := fun _ => leaves_nowhere h

section
variable (hv : Reads value e.referent?) (ha : e.Locates address)
include hv ha

theorem storageAddress_reads (hf : ∀ t, e.followed? = some t → e.stored? = some t) :
    Reads (storageAddress e value address) e.stored? := by
  intro c
  refine Keeps.located (fun _ _ _ => Keeps.mono (hv c) fun v d h => ?_) fun _ _ _ => Keeps.mono (ha c) fun a d h v hv => ?_
  · exact h.weaken fun x hx => ⟨x, stored?_of_referent hx, rfl⟩
  · exact (h.2 v hv).weaken fun x hx => ⟨x, hf x hx, rfl⟩

theorem storageAddress_plain (hr : e.isReference = false) (hf : e.followed? = none) :
    Reads (storageAddress e value address) none := by
  rw [referent?_eq_none hr] at hv
  intro c
  refine Keeps.located (fun _ _ _ => hv c) fun _ _ _ => Keeps.mono (ha c) fun a d h v hv => ?_
  exact hf ▸ h.2 v hv

end

theorem loadFrom_reads {otherwise : Emit Value} (hn : node.type = some t) (ha : e.Locates address)
    (hf : e.followed? = none) (ho : e.hasAddress = false → Reads otherwise t.referent?) :
    Reads (address >>= fun a => loadFrom a node.checked otherwise) t.referent? := by
  intro c
  refine Keeps.bind (ha c) fun a d _ h => ?_
  cases a with
  | none => exact ho (h.1 rfl) d
  | some v => exact Keeps.read (Node.checked_ok hn) (leaves_one rfl (hf ▸ h.2 v rfl : Code.Refers d v none).of_none rfl)

/-! ## Steps -/

section
variable {before amount : Value} (hb : c.Refers before none) (ha : c.Refers amount none)
include hb ha

theorem emitOffset_leaves (down : Bool) {x : Except Fault Ty} (hx : ∀ u, x = .ok u → u.isReference = false) :
    Leaves c (emitOffset down before amount x t) fun v d => d.Refers v t.referent? := by
  unfold emitOffset
  split
  · refine Keeps.lift fun u hu => ?_
    refine Keeps.bind (leaves_one rfl ha (Ty.referent?_eq_none (hx u hu))) fun v d hp hv => ?_
    exact leaves_two rfl (hb.mono hp) hv rfl
  · exact leaves_two rfl hb ha rfl

end

theorem emitStep_reads (s : Step) {one : Literal} (hone : one.type.isScalar = true) (hn : node.type = some t)
    (hr : t.isReference = false) (ha : Reads value r) (hsame : ∀ u, r = some u → u.core = t.core) :
    Reads (emitStep node s (some one) value) t.referent? := by
  have hliteral : one.type.isReference = false := by cases h : one.type <;> rw [h] at hone <;> first | rfl | cases hone
  intro c
  unfold emitStep
  refine Keeps.read (Node.checked_ok hn) (Keeps.bind (ha c) fun place d _ hplace => ?_)
  have hplace : Code.Refers d place (some t) := hplace.weaken fun u hu => ⟨t, rfl, hsame u hu⟩
  refine Keeps.bind (leaves_one rfl hplace (Ty.referent?_eq_none hr)) fun before d hd hbefore => ?_
  refine Keeps.bind (leaves_zero rfl (Ty.referent?_eq_none hliteral)) fun amount d' hd' hamount => ?_
  have hbefore := hbefore.mono hd'
  have hplace := (hplace.mono hd).mono hd'
  have stored : ∀ (after : Value) (d'' : Code), d' <+: d'' → d''.Refers after t.referent? → Leaves d'' (do
      let _ ← emit (.store after place t)
      return if s.isPost then before else after) fun v d => d.Refers v t.referent? := by
    intro after d'' hp hafter
    refine Keeps.bind (leaves_two rfl hafter (hplace.mono hp) rfl) fun _ e he _ => Keeps.pure ?_
    split
    · exact ((hbefore.mono hp).mono he).of_none
    · exact hafter.mono he
  cases t.isPointer with
  | true =>
    refine Keeps.bind (emitOffset_leaves hbefore hamount _ fun u hu => ?_) stored
    cases hu
    exact hliteral
  | false => exact Keeps.bind (leaves_two rfl hbefore hamount rfl) stored

/-! ## Binary operators -/

section
variable {l r : Value} (hl : c.Refers l none) (hr : c.Refers r none)
include hl hr

theorem emitPointerArith_leaves {op : ArithOp} {a : Ty} {x : Except Fault Ty} (hn : node.type = some t)
    (hx : ∀ u, x = .ok u → u.isReference = false) :
    Leaves c (emitPointerArith node op a x l r) fun v d => d.Refers v t.referent? := by
  unfold emitPointerArith
  refine Keeps.lift fun b hb => ?_
  split
  · exact Keeps.read (Node.checked_ok hn) (leaves_two rfl hl hr rfl)
  · refine Keeps.read (Node.checked_ok hn) ?_
    split
    · exact Keeps.throw _
    · split
      · refine emitOffset_leaves hl hr _ fun u hu => ?_
        cases hu
        exact hx b hb
      · exact leaves_two rfl hr hl rfl

end

theorem isReference_of_ok (h : e.isReference = false) : ∀ u, e.type = .ok u → u.isReference = false := by
  intro u hu
  rw [isReference_eq (type?_of_ok hu)] at h
  exact h

theorem binary_operands {op : BinaryOp} {l r : Expr} {reported : Bool} (hw : (Expr.binary node op l r reported).WellTyped)
    (hc : (Expr.binary node op l r reported).Careful) : (op ≠ .comma → l.isReference = false) ∧ r.isReference = false := by
  cases op with
  | comma => exact ⟨fun h => absurd rfl h, hc⟩
  | _ => exact ⟨fun _ => hw.1, hw.2.1⟩

theorem emitBinary_reads {op : BinaryOp} {l r : Expr} {leftValue rightValue : Emit Value} (hn : node.type = some t)
    (hlt : op ≠ .comma → l.isReference = false) (hrt : r.isReference = false) (hl : Reads leftValue l.referent?)
    (hr : Reads rightValue r.referent?) : Reads (emitBinary node op l r leftValue rightValue) t.referent? := by
  rw [referent?_eq_none hrt] at hr
  intro c
  unfold emitBinary
  cases op with
  | comma => exact Keeps.bind (hl c) fun _ d _ _ => Keeps.mono (hr d) fun _ _ h => h.of_none
  | logic op =>
    rw [referent?_eq_none (hlt nofun)] at hl
    refine Keeps.bind (hl c) fun x d _ hx => Keeps.read (Node.checked_ok hn) ?_
    refine Keeps.bind (leaves_one rfl hx rfl) fun _ d' hd' _ => ?_
    refine Keeps.bind (hr d') fun y d'' hd'' hy => ?_
    exact leaves_two rfl ((hx.mono hd').mono hd'') hy rfl
  | compare op =>
    rw [referent?_eq_none (hlt nofun)] at hl
    refine Keeps.bind (hl c) fun x d _ hx => Keeps.bind (hr d) fun y d' hd' hy => Keeps.lift fun u hu => ?_
    exact Keeps.mono (leaves_two rfl (hx.mono hd') hy (Ty.referent?_boolLike u)) fun _ _ h => h.of_none
  | arith op =>
    rw [referent?_eq_none (hlt nofun)] at hl
    refine Keeps.bind (hl c) fun x d _ hx => Keeps.bind (hr d) fun y d' hd' hy => ?_
    have hx := hx.mono hd'
    have pointers : ∀ a, Leaves d' (emitPointerArith node op a r.type x y) fun v d => d.Refers v t.referent? := fun a =>
      emitPointerArith_leaves hx hy hn (isReference_of_ok hrt)
    unfold emitArith
    refine Keeps.lift fun a ha => ?_
    cases a.isPointer with
    | true => exact pointers a
    | false =>
      refine Keeps.lift fun b hb => ?_
      cases b.isPointer with
      | true => exact pointers a
      | false => exact Keeps.read rfl (Keeps.read (Node.checked_ok hn) (leaves_two rfl hx hy rfl))

/-! ## Assignments -/

section
variable {current v : Value} (hc : c.Refers current none) (hv : c.Refers v none)
include hc hv

theorem emitCompound_leaves (op : ArithOp) {o : Ty} {x : Except Fault Ty} (ht : t.isReference = false)
    (ho : t.isPointer = false → o.isReference = false) (hx : ∀ u, x = .ok u → u.isReference = false) :
    Leaves c (emitCompound op t o x current v) fun v d => d.Refers v none := by
  unfold emitCompound
  split
  · rw [← Ty.referent?_eq_none ht]
    exact emitOffset_leaves hc hv _ hx
  · rename_i hp
    have ho := Ty.referent?_eq_none (ho (Bool.eq_false_iff.mpr hp))
    split
    · exact leaves_two rfl hc hv ho
    · refine Keeps.bind (leaves_one rfl hc.of_none ho) fun left d hd hleft => ?_
      refine Keeps.bind (leaves_two rfl hleft (hv.mono hd) ho) fun combined d' _ hcombined => ?_
      exact leaves_one rfl hcombined.of_none (Ty.referent?_eq_none ht)

end

theorem emitAssign_reads {op : AssignOp} {v : Expr} {operandType : Option Ty} (hn : node.type = some t)
    (ht : t.isReference = false) (ha : Reads value r) (hsame : ∀ u, r = some u → u.core = t.core)
    (hv : Reads position v.referent?) (hvt : v.isReference = false)
    (ho : t.isPointer = false → ∀ op', op = .compound op' → (operandType.getD t).isReference = false) :
    Reads (emitAssign node op v operandType value position) t.referent? := by
  have hnone := Ty.referent?_eq_none ht
  rw [referent?_eq_none hvt] at hv
  intro c
  unfold emitAssign
  refine Keeps.read (Node.checked_ok hn) (Keeps.bind (ha c) fun place d _ hplace => ?_)
  have hplace : Code.Refers d place (some t) := hplace.weaken fun u hu => ⟨t, rfl, hsame u hu⟩
  cases op with
  | plain =>
    refine Keeps.bind (hv d) fun x d' hd' hx => ?_
    refine Keeps.bind (leaves_two rfl hx.of_none (hplace.mono hd') rfl) fun _ d'' hd'' _ => ?_
    exact Keeps.pure (hx.mono hd'').of_none
  | compound op =>
    refine Keeps.bind (leaves_one rfl hplace hnone) fun current d' hd' hcurrent => ?_
    refine Keeps.bind (hv d') fun x d'' hd'' hx => ?_
    have hresult := emitCompound_leaves (hcurrent.mono hd'') hx op ht (fun hp => ho hp op rfl) (isReference_of_ok hvt)
    refine Keeps.bind hresult fun result e he hres => ?_
    refine Keeps.bind (leaves_two rfl hres.of_none (((hplace.mono hd').mono hd'').mono he) rfl) fun _ e' he' _ => ?_
    exact Keeps.pure (hres.mono he').of_none

/-! ## Selections, casts and loads -/

theorem select_reads {test a b : Emit Value} (hn : node.type = some t) (ht : Reads test none) (ha : Reads a none)
    (hb : Reads b none) : Reads (do
      let x ← test
      let y ← a
      let z ← b
      emit (.select x y z (← node.checked))) t.referent? := by
  intro c
  refine Keeps.bind (ht c) fun x d _ hx => Keeps.bind (ha d) fun y d' hd' hy => Keeps.bind (hb d') fun z d'' hd'' hz => ?_
  refine Keeps.read (Node.checked_ok hn) (leaves_emit (fun p hp => ?_) rfl)
  simp only [Instruction.uses, List.mem_cons, List.not_mem_nil, or_false] at hp
  rcases hp with rfl | rfl | rfl
  · exact (hx.mono hd').mono hd''
  · exact hy.mono hd''
  · exact hz

section
variable (hu : e.type? = some u) (hn : node.type = some t) (hv : Reads value e.referent?)
include hu hn hv

/-- A cast of a reference may pass it on as a reference to what is stored in the same way. -/
theorem cast_reads (hr : e.isReference = true → t.isReference = true) (hs : t.isReference = true → u.stored.core = t.stored.core) :
    Reads (do emit (.cast (← value) (← e.type) (← node.checked))) t.referent? := by
  intro c
  refine Keeps.bind (hv c) fun v d _ h => Keeps.lift fun _ _ => ?_
  refine Keeps.read (Node.checked_ok hn) (leaves_one rfl (h.weaken fun x hx => ?_) rfl)
  rw [referent?_eq hu] at hx
  have ht : t.isReference = true := hr (by rw [isReference_eq hu]; cases u <;> cases hx; rfl)
  have hcore := hs ht
  rw [Ty.stored_of_referent hx] at hcore
  cases t with
  | reference y o => exact ⟨y, rfl, hcore⟩
  | _ => cases ht

theorem dereference_reads (hread : u.readType? = some t) :
    Reads (do emit (.load (← value) (← node.checked))) t.referent? := by
  intro c
  refine Keeps.bind (hv c) fun v d _ h => ?_
  refine Keeps.read (Node.checked_ok hn) (leaves_one rfl (h.weaken fun x hx => ?_) rfl)
  rw [referent?_eq hu] at hx
  cases u <;> cases hx
  cases hread
  exact ⟨_, rfl, rfl⟩

end

/-! ## Calls -/

theorem values_leave : ∀ {es : List Expr}, (∀ e ∈ es, Reads e.value e.referent?) →
    ∀ c, Leaves c (values es) fun vs d => List.Forall₂ (fun v e => d.Refers v e.referent?) vs es
  | [], _, _ => Keeps.pure .nil
  | e :: es, h, c => by
    rw [values]
    refine Keeps.bind (h e List.mem_cons_self c) fun v d _ hv => ?_
    refine Keeps.bind (values_leave (fun e he => h e (List.mem_cons_of_mem _ he)) d) fun vs d' hd' hvs => ?_
    exact Keeps.pure (.cons (hv.mono hd') hvs)

theorem listed_refers {wanted : Nat → Option Ty} {vs : List Value} {es : List Expr}
    (hvs : List.Forall₂ (fun v e => c.Refers v e.referent?) vs es)
    (hfits : ∀ i e, es[i]? = some e → ∃ u, wanted i = some u ∧ e.Fits u) :
    ∀ p ∈ Instruction.listed wanted vs, c.Refers p.1 p.2 := by
  intro p hp
  obtain ⟨⟨v, i⟩, hmem, rfl⟩ := List.mem_map.mp hp
  obtain ⟨e, he, hv⟩ := Forall₂.getElem? hvs (List.mem_zipIdx_iff_getElem?.mp hmem)
  obtain ⟨u, hu, hfit⟩ := hfits i e he
  rw [hu, Option.bind_some]
  exact hv.weaken hfit.referent

theorem emitCall_reads {e callee : Expr} {launch : Bool} {s : Signature} {es : List Expr} {args : Emit (List Value)}
    {count : Option (Emit Value)} (hcallee : callee.isReference = false) (hv : Reads value callee.referent?)
    (hargs : ∀ c, Leaves c args fun vs d => List.Forall₂ (fun v e => d.Refers v e.referent?) vs es)
    (hfits : List.Forall₂ Fits es s.parameters) (hcount : ∀ m, count = some m → Reads m none)
    (hvarying : callee.isVaryingCallee = .ok callee.isVarying) :
    Reads (emitCall e callee launch (some s) value args count)
      (if callee.isVarying && !s.result.isVoid then s.result.asVarying else s.result).referent? := by
  rw [referent?_eq_none hcallee] at hv
  have passed : ∀ {d : Code} {vs : List Value}, List.Forall₂ (fun v e => d.Refers v e.referent?) vs es →
      ∀ p ∈ Instruction.listed (s.parameters[·]?) vs, d.Refers p.1 p.2 := fun hvs =>
    listed_refers hvs fun _ _ he => Forall₂.getElem? hfits he
  intro c
  unfold emitCall
  refine Keeps.bind (hv c) fun f d _ hf => Keeps.bind (hargs d) fun vs d' hd' hvs => ?_
  have hf := hf.mono hd'
  cases launch with
  | true =>
    cases count with
    | none => exact Keeps.throw _
    | some m =>
      refine Keeps.bind (hcount m rfl d') fun n d'' hd'' hn => ?_
      refine Keeps.mono (leaves_emit (r := none) (fun p hp => ?_) rfl) fun _ _ h => h.of_none
      simp only [Instruction.uses, List.cons_append, List.mem_cons, List.mem_append] at hp
      rcases hp with rfl | hp | rfl | hp
      · exact hf.mono hd''
      · exact passed (hvs.imp fun _ _ h => h.mono hd'') p hp
      · exact hn
      · cases hp
  | false =>
    refine Keeps.read hvarying (leaves_emit (fun p hp => ?_) rfl)
    rcases List.mem_cons.mp hp with rfl | hp
    · exact hf
    · exact passed hvs p hp

/-! ## Elements and members -/

theorem memberBase_value {aggregate : Ty} {varying : Bool} (h : Check.memberBase false t = .ok (aggregate, varying)) :
    t = aggregate := by
  cases t <;> cases h <;> rfl

section
variable {b i : Expr} {baseValue : Emit Value} {baseAddress : Emit (Option Value)} (hb : Reads baseValue b.referent?)
  (ha : b.Locates baseAddress) (hf : ∀ t, b.followed? = some t → b.stored? = some t)
include hb ha hf

theorem elementAddress_locates (h : Checked T (.index node b i)) (hc : (Expr.index node b i).Careful)
    (hp : Reads position none) :
    (Expr.index node b i).Locates (elementAddress (.index node b i) b baseValue baseAddress position) := by
  obtain ⟨t, ht, -⟩ := (h.child (c := b) (by simp [children])).here.typed
  obtain ⟨u, hu, -⟩ := (h.child (c := i) (by simp [children])).here.typed
  obtain ⟨o, ho⟩ := h.addressType_ok
  intro c
  unfold elementAddress
  refine Keeps.read ho ?_
  cases o with
  | none => exact leaves_nowhere (hasAddress_of_ok ho)
  | some a =>
    have hpointer : a.referent? = none := by
      rw [addressType, type_ok ht] at ho
      obtain ⟨element, varying, -, -, rfl⟩ := elementAddressType_some (type_ok hu) ho
      rfl
    refine Keeps.read (type_ok ht) ?_
    have last : ∀ (x : Value) (d : Code), d.Refers x (if t.stored.isPointer then none else some t.stored) → Leaves d (do
        let i ← position
        return some (← emit (.elementAddress x i t.stored a))) fun r d =>
          (r = none → (Expr.index node b i).hasAddress = false) ∧ ∀ v, r = some v → d.Refers v none := by
      intro x d hx
      refine Keeps.bind (hp d) fun y d' hd' hy => Keeps.bind (leaves_two rfl (hx.mono hd') hy hpointer) fun v d'' _ hv => ?_
      exact leaves_found hv
    dsimp only
    cases hsp : t.stored.isPointer with
    | true =>
      have hr : b.isReference = false := by
        by_contra hr
        have hpointer := hc (by simpa using hr)
        rw [isPointer, ht, Option.any_some, hsp] at hpointer
        cases hpointer
      rw [referent?_eq_none hr] at hb
      exact Keeps.bind (hb c) fun x d _ hx => last x d hx.of_none
    | false =>
      refine Keeps.bind (storageAddress_reads hb ha hf c) fun x d _ hx => last x d ?_
      rw [stored?_eq ht] at hx
      rw [hsp]
      exact hx

theorem memberAddress_locates {name : String} {arrow : Bool} {access : Option Access}
    (h : Checked T (.member node b name arrow access)) (hw : (Expr.member node b name arrow access).WellTyped)
    (hc : (Expr.member node b name arrow access).Careful) : (Expr.member node b name arrow access).Locates
      (memberAddress (.member node b name arrow access) b arrow access baseValue baseAddress) := by
  obtain ⟨t, aggregate, varying, x, ht, hbase, rfl, rfl, -⟩ := hw
  obtain ⟨o, ho⟩ := h.addressType_ok
  intro c
  unfold memberAddress
  refine Keeps.read ho ?_
  cases o with
  | none => exact leaves_nowhere (hasAddress_of_ok ho)
  | some a =>
    have hpointer : a.referent? = none := by
      obtain ⟨-, u, v, -, rfl, -⟩ := memberAddressType_some ho
      rfl
    have last : ∀ (y : Value) (d : Code), d.Refers y (some x.aggregate) → Leaves d (do
        let x' ← accessOf (.member node b name arrow (some x)) (some x)
        return some (← emit (.memberAddress y x'.position x'.aggregate a))) fun r d =>
          (r = none → (Expr.member node b name arrow (some x)).hasAddress = false) ∧ ∀ v, r = some v → d.Refers v none := by
      intro y d hy
      exact Keeps.read rfl (Keeps.bind (leaves_one rfl hy hpointer) fun v d' _ hv => leaves_found hv)
    cases arrow with
    | true =>
      have hr : b.isReference = false := by
        by_contra hr
        cases (hc (by simpa using hr)).1
      rw [referent?_eq_none hr] at hb
      exact Keeps.bind (hb c) fun y d _ hy => last y d hy.of_none
    | false =>
      refine Keeps.bind (storageAddress_reads hb ha hf c) fun y d _ hy => last y d ?_
      rw [stored?_eq ht, memberBase_value hbase] at hy
      exact hy

end

theorem pickElements_reads {b : Expr} {name : String} {arrow : Bool} {access : Option Access}
    (h : Checked T (.member node b name arrow access)) (hc : (Expr.member node b name arrow access).Careful)
    (hnone : (Expr.member node b name arrow access).hasAddress = false) (hn : node.type = some t)
    (hb : Reads value b.referent?) : Reads (pickElements e node access value) t.referent? := by
  obtain ⟨x, -, rfl, -⟩ := h.here.grounded
  have hr : b.isReference = false := by
    by_contra hr
    rw [Bool.not_eq_false] at hr
    obtain ⟨-, hx⟩ := hc hr
    rw [h.hasAddress_member, hx x rfl, denotesStorage, hr, Bool.or_true, Bool.or_true] at hnone
    cases hnone
  rw [referent?_eq_none hr] at hb
  intro c
  unfold pickElements
  refine Keeps.read rfl (Keeps.bind (hb c) fun v d _ hv => ?_)
  split
  · refine Keeps.read (Node.checked_ok hn) ?_
    split
    · exact leaves_one rfl hv rfl
    · exact Keeps.throw _
  · exact Keeps.read (Node.checked_ok hn) (leaves_one rfl hv rfl)

theorem extract_reads {b i : Expr} (h : Checked T (.index node b i)) (hw : (Expr.index node b i).WellTyped)
    (hnone : (Expr.index node b i).hasAddress = false) (hn : node.type = some t) (hb : Reads value b.referent?)
    (hp : Reads position none) : Reads (do
      let base ← value
      let place ← position
      emit (.extract base place (← node.checked))) t.referent? := by
  obtain ⟨u, element, varying, hu, hi, -⟩ := hw
  have hr : b.isReference = false := by
    rw [h.hasAddress_index hu, Bool.or_eq_false_iff] at hnone
    obtain ⟨hpointer, hstorage⟩ := hnone
    cases hs : u.stored with
    | array | vector =>
      rw [hs] at hstorage
      exact (Bool.or_eq_false_iff.mp hstorage).2
    | pointer => rw [hs] at hpointer; cases hpointer
    | _ => rw [hs] at hi; cases hi
  rw [referent?_eq_none hr] at hb
  intro c
  refine Keeps.bind (hb c) fun x d _ hx => Keeps.bind (hp d) fun y d' hd' hy => ?_
  exact Keeps.read (Node.checked_ok hn) (leaves_two rfl (hx.mono hd') hy rfl)

/-! ## Pointers -/

theorem emitFunction_reads (f : FunctionName) : Reads (emitFunction f) r := by
  intro c
  unfold emitFunction
  split
  · exact Keeps.mono (leaves_zero (r := none) rfl rfl) fun _ _ h => h.of_none
  · exact Keeps.throw _

theorem emitNull_reads (hn : node.type = some t) : Reads (emitNull node) t.referent? := by
  intro c
  unfold emitNull
  refine Keeps.read (Node.checked_ok hn) ?_
  split
  · exact leaves_zero rfl rfl
  · exact Keeps.throw _

theorem emitNew_reads {allocated : Ty} {count init : Option (Emit Value)} (hn : node.type = some t)
    (hp : t.isPointer = true) (hcount : ∀ m, count = some m → Reads m none)
    (hinit : ∀ m, init = some m → Reads m allocated.referent?) : Reads (emitNew node allocated count init) none := by
  have hpointer := Ty.referent?_eq_none (Ty.isReference_of_pointer hp)
  intro c
  unfold emitNew
  refine Keeps.read (Node.checked_ok hn) ?_
  rw [hp, Bool.not_true, if_neg Bool.false_ne_true]
  have allocates : ∀ (n : Option Value) (d : Code), (∀ v, n = some v → d.Refers v none) →
      Leaves d (emit (.allocate allocated n t)) fun v d => d.Refers v none := by
    intro n d hsize
    refine leaves_emit (fun p hp => ?_) hpointer
    obtain ⟨v, hv, rfl⟩ := List.mem_map.mp hp
    exact hsize v (Option.mem_toList.mp hv)
  have filled : ∀ m, Reads m allocated.referent? → ∀ (d : Code) (pointer : Value), d.Refers pointer none → Leaves d (do
      let _ ← emit (.store (← m) pointer allocated)
      return pointer) fun v d => d.Refers v none := by
    intro m hm d pointer hv
    refine Keeps.bind (hm d) fun x d' hd' hx => ?_
    refine Keeps.bind (leaves_two rfl hx (hv.mono hd').of_none rfl) fun _ e he _ => ?_
    exact Keeps.pure ((hv.mono hd').mono he)
  cases count with
  | none =>
    simp only [pure_bind]
    refine Keeps.bind (allocates none c fun _ hv => by cases hv) fun pointer d _ hv => ?_
    cases init with
    | none => exact Keeps.pure hv
    | some m => exact filled m (hinit m rfl) d pointer hv
  | some n =>
    simp only [pure_bind]
    refine Keeps.bind (hcount n rfl c) fun size d _ hsize => ?_
    refine Keeps.bind (allocates (some size) d fun _ hv => by cases hv; exact hsize) fun pointer d' _ hv => ?_
    cases init with
    | none => exact Keeps.pure hv
    | some m => exact filled m (hinit m rfl) d' pointer hv

/-! ## Expressions -/

/-- The value of a careful expression is a reference only where the expression is one, and its address only where a
reference was followed. -/
theorem reads (h : Checked T e) (hw : Everywhere WellTyped e) (hc : Everywhere Careful e) :
    Reads e.value e.referent? ∧ e.Locates e.address := by
  induction e using Expr.induct with
  | h e ih =>
  obtain ⟨t, hn, hlegal⟩ := h.typed
  have child : ∀ c ∈ e.children, Reads c.value c.referent? ∧ c.Locates c.address := fun c hm =>
    ih c hm (h.child hm) (hw.child hm) (hc.child hm)
  -- operands are used in one of two ways: as plain values, or as storage that may be behind a reference
  have plain : ∀ c ∈ e.children, c.isReference = false → Reads c.value none := fun c hm hr =>
    referent?_eq_none hr ▸ (child c hm).1
  have storage : ∀ c ∈ e.children, Reads (storageAddress c c.value c.address) c.stored? := fun c hm =>
    storageAddress_reads (child c hm).1 (child c hm).2 fun _ => followed?_stored (h.child hm) (hw.child hm)
  have legal : ∀ c ∈ e.children, ∀ u, c.type? = some u → u.Legal := fun c hm u hu => Checked.legal (h.child hm) hu
  rw [referent?_eq hn]
  cases e with
  | unary node op c =>
    rw [value]
    refine ⟨fun d => ?_, nowhere_locates rfl⟩
    refine Keeps.bind (plain c (by simp [children]) hc.here d) fun v d' _ hv => ?_
    exact Keeps.read (Node.checked_ok hn) (leaves_one rfl hv rfl)
  | step node s c amount =>
    obtain ⟨⟨u, hu, hn'⟩, ⟨one, rfl, hone⟩, -⟩ := hw.here
    obtain rfl := Option.some.inj (hn.symm.trans hn')
    rw [value]
    refine ⟨emitStep_reads s hone hn (Ty.rvalue_isReference (legal c (by simp [children]) u hu))
      (storage c (by simp [children])) fun x hx => ?_, nowhere_locates rfl⟩
    rw [stored?_eq hu] at hx
    cases hx
    exact (Ty.core_rvalue u).symm
  | binary node op l r reported =>
    have hl := (child l (by simp [children])).1
    have hr := (child r (by simp [children])).1
    obtain ⟨hlt, hrt⟩ := binary_operands hw.here hc.here
    rw [value]
    exact ⟨emitBinary_reads hn hlt hrt hl hr, nowhere_locates rfl⟩
  | assign node op target v operandType =>
    obtain ⟨⟨u, hu, hn'⟩, -, hv⟩ := hw.here
    obtain rfl := Option.some.inj (hn.symm.trans hn')
    rw [value]
    refine ⟨emitAssign_reads hn (legal target (by simp [children]) u hu).stored_isReference
      (storage target (by simp [children])) (fun x hx => ?_) (child v (by simp [children])).1 hv ?_, nowhere_locates rfl⟩
    · rw [stored?_eq hu] at hx
      cases hx
      rfl
    · rintro hp op' rfl
      obtain ⟨u', o, hu', rfl, hvalue⟩ := h.here.coherent
      obtain rfl := Option.some.inj (hu.symm.trans hu')
      rw [hp, if_neg Bool.false_ne_true] at hvalue
      exact hvalue.isReference_eq.symm.trans hv
  | select node test a b =>
    obtain ⟨htest, ha, hb, -⟩ := hw.here
    rw [value]
    exact ⟨select_reads hn (plain test (by simp [children]) htest) (plain a (by simp [children]) ha)
      (plain b (by simp [children]) hb), nowhere_locates rfl⟩
  | list node items =>
    obtain ⟨u, hn', hfits⟩ := hw.here
    obtain rfl := Option.some.inj (hn.symm.trans hn')
    rw [value]
    refine ⟨fun d => ?_, nowhere_locates rfl⟩
    refine Keeps.bind (values_leave (fun c hm => (child c hm).1) d) fun vs d' _ hvs => ?_
    exact Keeps.read (Node.checked_ok hn) (leaves_emit (listed_refers hvs hfits) rfl)
  | call node callee args launch count signature =>
    obtain ⟨⟨s, rfl, hn'⟩, hname, -⟩ := hw.here
    obtain rfl := Option.some.inj (hn.symm.trans hn')
    obtain ⟨s', u, hs, hu, -, hargs, hcount⟩ := h.here.coherent
    cases hs
    have hvalues := values_leave fun c (hm : c ∈ args) => (child c (by simp [children, hm])).1
    rw [value_call]
    refine ⟨emitCall_reads hc.here (child callee (by simp [children])).1 hvalues hargs (fun m hm => ?_)
      (isVaryingCallee_eq hu hname), nowhere_locates rfl⟩
    obtain ⟨n, rfl, rfl⟩ := Option.map_eq_some_iff.mp hm
    exact plain n (by simp [children]) (hcount n rfl).isReference_eq
  | index node base i =>
    obtain ⟨v, hposition⟩ := h.here.coherent
    have hb : base ∈ (index node base i).children := by simp [children]
    have hp := plain i (by simp [children]) hposition.isReference_eq
    have haddress := elementAddress_locates (child base hb).1 (child base hb).2
      (fun _ => followed?_stored (h.child hb) (hw.child hb)) h hc.here hp
    rw [value, address]
    refine ⟨loadFrom_reads hn haddress rfl fun hnone => ?_, haddress⟩
    exact extract_reads h hw.here hnone hn (child base hb).1 hp
  | member node base name arrow access =>
    have hb : base ∈ (member node base name arrow access).children := by simp [children]
    have haddress := memberAddress_locates (child base hb).1 (child base hb).2
      (fun _ => followed?_stored (h.child hb) (hw.child hb)) h hw.here hc.here
    rw [value, address]
    refine ⟨loadFrom_reads hn haddress rfl fun hnone => ?_, haddress⟩
    exact pickElements_reads h hc.here hnone hn (child base hb).1
  | const node c =>
    rw [value]
    exact ⟨fun d => Keeps.read (Node.checked_ok hn) (leaves_zero rfl rfl), nowhere_locates rfl⟩
  | cast node target c reported =>
    obtain ⟨u, hu, hstored, -⟩ := hw.here
    obtain rfl := Option.some.inj (hn.symm.trans h.here.grounded.1)
    rw [value]
    exact ⟨cast_reads hu hn (child c (by simp [children])).1 hc.here hstored, nowhere_locates rfl⟩
  | reference node c =>
    obtain ⟨u, hu, hr, hn', -⟩ := hw.here
    obtain rfl := Option.some.inj (hn.symm.trans hn')
    have hm : c ∈ (reference node c).children := by simp [children]
    have hs := storage c hm
    rw [stored?_eq hu, Ty.stored_of_not_reference hr] at hs
    rw [value, address]
    exact ⟨hs, (child c hm).2⟩
  | dereference node c =>
    obtain ⟨u, w, hu, hread, hn'⟩ := hw.here
    obtain rfl := Option.some.inj (hn.symm.trans hn')
    have hv := (child c (by simp [children])).1
    rw [value, address]
    refine ⟨dereference_reads hu hn hv hread, fun d => ?_⟩
    exact Keeps.bind (hv d) fun v d' _ h => leaves_found h
  | addressOf node c =>
    obtain ⟨hr, hf⟩ := hc.here
    have hm : c ∈ (addressOf node c).children := by simp [children]
    rw [value]
    refine ⟨?_, nowhere_locates rfl⟩
    have hnone : Reads (if c.isFunctionName then c.value else storageAddress c c.value c.address) none := by
      split
      · exact plain c hm hr
      · exact storageAddress_plain (child c hm).1 (child c hm).2 hr hf
    exact fun d => Keeps.mono (hnone d) fun _ _ h => h.of_none
  | sizeOf node c =>
    rw [value]
    refine ⟨fun d => Keeps.lift fun u _ => ?_, nowhere_locates rfl⟩
    exact Keeps.read (Node.checked_ok hn) (leaves_zero rfl rfl)
  | sizeOfType node measured =>
    rw [value]
    exact ⟨fun d => Keeps.read (Node.checked_ok hn) (leaves_zero rfl rfl), nowhere_locates rfl⟩
  | symbol node s =>
    rw [value, address]
    refine ⟨fun d => Keeps.bind (leaves_zero (r := none) rfl rfl) fun v d' _ hv => ?_, fun d => ?_⟩
    · exact Keeps.read (Node.checked_ok hn) (leaves_one rfl hv.of_none rfl)
    · exact Keeps.bind (leaves_zero (r := none) rfl rfl) fun v d' _ hv => leaves_found hv
  | function f =>
    rw [value]
    exact ⟨emitFunction_reads f, nowhere_locates rfl⟩
  | sync node =>
    rw [value]
    exact ⟨fun d => Keeps.mono (leaves_zero (r := none) rfl rfl) fun _ _ h => h.of_none, nowhere_locates rfl⟩
  | null node =>
    rw [value]
    exact ⟨emitNull_reads hn, nowhere_locates rfl⟩
  | new node allocated count init varying =>
    obtain ⟨hn', hcount, hinit⟩ := hw.here
    obtain rfl := Option.some.inj (hn.symm.trans hn')
    rw [value_new]
    refine ⟨fun d => Keeps.mono (emitNew_reads hn rfl (fun m hm => ?_) (fun m hm => ?_) d) fun _ _ h => h.of_none,
      nowhere_locates rfl⟩
    · obtain ⟨n, rfl, rfl⟩ := Option.map_eq_some_iff.mp hm
      exact plain n (by simp [children]) (hcount n rfl)
    · obtain ⟨i, rfl, rfl⟩ := Option.map_eq_some_iff.mp hm
      exact fun d => Keeps.mono ((child i (by simp [children])).1 d) fun _ _ h => h.weaken (hinit i rfl).referent

theorem reads_everywhere (h : Checked T e) (hw : Everywhere WellTyped e) (hc : Everywhere Careful e) :
    Everywhere (fun e => Reads e.value e.referent?) e := by
  induction e using Expr.induct with
  | h e ih => exact .node (reads h hw hc).1 fun c hm => ih c hm (h.child hm) (hw.child hm) (hc.child hm)

end Expr

open Check Spmd.Expr Emit

/-- Where checking gives a careful tree, the code for it reads through references, and the value of a node is only a reference
if the node is one, to the same type. -/
theorem typecheck_reads_through {target : Target} {file : String} {json : Option Json} {p : Program} {e t : Expr}
    {s s' : Session} (hp : Program.read target file json = .ok p) (he : e ∈ p.expressions) (hs : s.target = target)
    (ht : (typecheck e).run s = (.ok (some t), s')) (hcareful : Everywhere Careful t) :
    Everywhere (fun e => Reads e.value e.referent?) t ∧
      ∃ v c, t.value.run [] = (.ok v, c) ∧ c.ReadsThrough ∧ c.Refers v t.referent? := by
  have hc := typecheck_checked hp he hs ht
  have hw := typecheck_wellTyped hp he hs ht
  refine ⟨reads_everywhere hc hw hcareful, ?_⟩
  have hready : Everywhere (Ready false) t := ready_everywhere hc hw nofun
  obtain ⟨v, c, hv, -, -⟩ := (performs hc hready).1 []
  obtain ⟨-, hthrough, hrefers⟩ := (reads hc hw hcareful).1 [] Code.ReadsThrough.nil v _ hv
  exact ⟨v, _, hv, hthrough, hrefers⟩

/-! ## A sum and a negation -/

/-- `r + 1`, where `r` is a reference. -/
def raisedJson : Json :=
  programJson [("r", .object [("reference", .string "int32")])]
    (.object [("binary", .string "+"), ("left", .object [("symbol", .string "r")]),
      ("right", .object [("const", .string "1"), ("type", .string "int32")])])

/-- `-r`. -/
def negatedJson : Json :=
  programJson [("r", .object [("reference", .string "int32")])]
    (.object [("unary", .string "-"), ("operand", .object [("symbol", .string "r")])])

def referenceSymbol : Symbol := ⟨"r", .reference .int32, .local, none, none⟩

def referenceExpr : Expr := .symbol (.typed none referenceSymbol.type) referenceSymbol

/-- `e + 1`. -/
def raisedExpr (node : Node) (e : Expr) : Expr :=
  .binary node (.arith .add) e (.const (.typed none Ty.int32.asConst) ⟨.int32, 8, [.int 1]⟩) false

def raisedTyped : Expr := raisedExpr (.typed none .int32) (.dereference (.typed none .int32) referenceExpr)

def negatedExpr (node : Node) : Expr := .unary node .neg referenceExpr

theorem raisedProgram_read : Program.read .standard "program" (some raisedJson) =
    .ok ⟨{ target := .standard, file := "program", symbols := [referenceSymbol] }, [raisedExpr {} referenceExpr]⟩ := rfl

theorem negatedProgram_read : Program.read .standard "program" (some negatedJson) =
    .ok ⟨{ target := .standard, file := "program", symbols := [referenceSymbol] }, [negatedExpr {}]⟩ := rfl

theorem raisedExpr_checks : (typecheck (raisedExpr {} referenceExpr)).run { target := .standard } =
    (.ok (some raisedTyped), { target := .standard }) := rfl

theorem raisedTyped_careful : Everywhere Careful raisedTyped :=
  .two trivial rfl (.one trivial rfl (.leaf trivial rfl)) (.leaf trivial rfl)

theorem typecheck_reads_through_raised : Everywhere (fun e => Reads e.value e.referent?) raisedTyped ∧
    ∃ v c, raisedTyped.value.run [] = (.ok v, c) ∧ c.ReadsThrough ∧ c.Refers v raisedTyped.referent? :=
  typecheck_reads_through raisedProgram_read (List.mem_singleton_self _) rfl raisedExpr_checks raisedTyped_careful

/-- The operand of a unary operator is not read through: the reference itself is negated. -/
theorem negatedExpr_uses_reference : ∃ t s' v c, (typecheck (negatedExpr {})).run { target := .standard } = (.ok (some t), s') ∧
    t.value.run [] = (.ok v, c) ∧
      c = [.symbolAddress referenceSymbol, .load ⟨0⟩ (.reference .int32), .unary .neg ⟨1⟩ .int32] ∧ ¬ c.ReadsThrough := by
  refine ⟨_, _, _, _, rfl, rfl, rfl, fun h => ?_⟩
  -- the operand of the last instruction is the reference that the one before it loads
  obtain ⟨-, hreads⟩ := h [.symbolAddress referenceSymbol, .load ⟨0⟩ (.reference .int32)] (.unary .neg ⟨1⟩ .int32)
    (List.prefix_refl _) (⟨1⟩, none) (List.mem_singleton_self _)
  obtain ⟨u, hu, -⟩ := hreads .int32 rfl
  cases hu

end Spmd
