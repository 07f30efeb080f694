import Spmd.Proofs.Code.Contract
import Spmd.Proofs.Code.Performed

/-!
# Operands are results

Code is wired when every operand is the result of an earlier instruction that has one (`Code.Wired`). Whatever an expression
looks like, the code that is emitted for it is wired if the emission ends without a fault (`Expr.emits_wired`).
-/

namespace Spmd

/-- Whether an instruction has a result. A store has none, and where a right operand starts only a mark is left. -/
def Instruction.hasResult : Instruction → Bool
  | store .. | rightOperand .. => false
  | _ => true

namespace Code

/-- The value is the result of an instruction of the code. -/
def Defines (code : Code) (v : Value) : Prop := ∃ i, code[v.id]? = some i ∧ i.hasResult = true

def Wired (c : Code) : Prop := ∀ (d : Code) (i : Instruction), d ++ [i] <+: c → ∀ v ∈ i.operands, d.Defines v

variable {c d : Code} {v : Value} {i : Instruction}

theorem Defines.mono (h : c.Defines v) (hp : c <+: d) : d.Defines v := by
  obtain ⟨i, hi, hresult⟩ := h
  obtain ⟨e, rfl⟩ := hp
  have hlt : v.id < c.length := (List.getElem?_eq_some_iff.mp hi).1
  exact ⟨i, by rw [List.getElem?_append_left hlt, hi], hresult⟩

theorem Wired.nil : Wired [] := Each.nil

theorem defines_new (h : i.hasResult = true) : (c ++ [i]).Defines ⟨c.length⟩ :=
  ⟨i, List.getElem?_concat_length, h⟩

end Code

namespace Emit

variable {α : Type} {c : Code}

/-- What holds of the result and the code if an emission ends without a fault: it only adds code, which stays wired. -/
abbrev Wires (c : Code) (m : Emit α) (P : α → Code → Prop) : Prop := Keeps Code.Wired c m P

/-! ## Instructions -/

/-- The emission of a value: it is the result of an instruction. -/
def Defines (m : Emit Value) : Prop := ∀ c, Wires c m fun v d => d.Defines v

/-- The emission of an address that may not be there. -/
def MayDefine (m : Emit (Option Value)) : Prop := ∀ c, Wires c m fun a d => ∀ v, a = some v → d.Defines v

theorem wires_emit {i : Instruction} (h : ∀ v ∈ i.operands, c.Defines v) :
    Wires c (emit i) fun v d => i.hasResult = true → d.Defines v :=
  keeps_emit h Code.defines_new

theorem wires_result {i : Instruction} (hr : i.hasResult = true) (h : ∀ v ∈ i.operands, c.Defines v) :
    Wires c (emit i) fun v d => d.Defines v := by
  intro hc v d hv
  obtain ⟨hcd, hd, hp⟩ := wires_emit h hc v d hv
  exact ⟨hcd, hd, hp hr⟩

theorem wires_zero {i : Instruction} (hr : i.hasResult = true) (hi : i.operands = []) :
    Wires c (emit i) fun v d => d.Defines v :=
  wires_result hr fun v hv => by rw [hi] at hv; cases hv

theorem wires_one {i : Instruction} {v : Value} (hr : i.hasResult = true) (hi : i.operands = [v]) (hv : c.Defines v) :
    Wires c (emit i) fun v d => d.Defines v :=
  wires_result hr fun w hw => by
    rw [hi, List.mem_singleton] at hw
    exact hw ▸ hv

theorem wires_two {i : Instruction} {v w : Value} (hr : i.hasResult = true) (hi : i.operands = [v, w]) (hv : c.Defines v)
    (hw : c.Defines w) : Wires c (emit i) fun v d => d.Defines v :=
  wires_result hr fun x hx => by
    rw [hi] at hx
    rcases List.mem_pair.mp hx with rfl | rfl
    · exact hv
    · exact hw

/-- A value is stored, and another one is what the emission gives. -/
theorem wires_store {stored place v : Value} {t : Ty} (hs : c.Defines stored) (hp : c.Defines place) (hv : c.Defines v) :
    Wires c (do
      let _ ← emit (.store stored place t)
      return v) fun v d => d.Defines v := by
  refine Keeps.bind (wires_emit fun x hx => ?_) fun _ d hcd _ => Keeps.pure (hv.mono hcd)
  rcases List.mem_pair.mp hx with rfl | rfl
  · exact hs
  · exact hp

end Emit

namespace Expr

open Emit

variable {c : Code} {node : Node} {t : Ty} {e : Expr} {value position : Emit Value} {address : Emit (Option Value)}

/-! ## Storage and steps -/

theorem storageAddress_defines (hv : Defines value) (ha : MayDefine address) : Defines (storageAddress e value address) :=
  fun c => Keeps.located (fun _ _ _ => hv c) fun _ _ _ => ha c

theorem loadFrom_defines {x : Except Fault Ty} {otherwise : Emit Value} (ha : MayDefine address) (ho : Defines otherwise) :
    Defines (address >>= fun a => loadFrom a x otherwise) := by
  intro c
  refine Keeps.bind (ha c) fun a d _ h => ?_
  cases a with
  | none => exact ho d
  | some a => exact Keeps.lift fun t _ => wires_one rfl rfl (h a rfl)

theorem emitOffset_defines {before amount : Value} (down : Bool) (x : Except Fault Ty) (hb : c.Defines before)
    (ha : c.Defines amount) : Wires c (emitOffset down before amount x t) fun v d => d.Defines v := by
  unfold emitOffset
  split
  · exact Keeps.lift fun u _ => Keeps.bind (wires_one rfl rfl ha) fun v d hcd hv => wires_two rfl rfl (hb.mono hcd) hv
  · exact wires_two (i := .pointerOffset before amount t) rfl rfl hb ha

theorem emitStep_defines (s : Step) (amount : Option Literal) (hv : Defines value) : Defines (emitStep node s amount value) := by
  intro c
  unfold emitStep
  cases amount with
  | none => exact Keeps.throw _
  | some one =>
    refine Keeps.lift fun type _ => Keeps.bind (hv c) fun place d _ hplace => ?_
    refine Keeps.bind (wires_one rfl rfl hplace) fun before d hd hbefore => ?_
    refine Keeps.bind (wires_zero rfl rfl) fun amount d' hd' hamount => ?_
    have hplace := (hplace.mono hd).mono hd'
    have hbefore := hbefore.mono hd'
    have stored : ∀ (after : Value) (e : Code), d' <+: e → e.Defines after → Wires e (do
        let _ ← emit (.store after place type)
        return if s.isPost then before else after) fun v d => d.Defines v := by
      intro after e he hafter
      refine wires_store hafter (hplace.mono he) ?_
      split
      · exact hbefore.mono he
      · exact hafter
    cases type.isPointer with
    | true => exact Keeps.bind (emitOffset_defines _ _ hbefore hamount) stored
    | false => exact Keeps.bind (wires_two rfl rfl hbefore hamount) stored

/-! ## Binary operators -/

theorem emitPointerArith_defines {l r : Value} (op : ArithOp) (a : Ty) (x : Except Fault Ty) (hl : c.Defines l)
    (hr : c.Defines r) : Wires c (emitPointerArith node op a x l r) fun v d => d.Defines v := by
  unfold emitPointerArith
  refine Keeps.lift fun b _ => ?_
  split
  · exact Keeps.lift fun t _ => wires_two rfl rfl hl hr
  · refine Keeps.lift fun t _ => ?_
    split
    · exact Keeps.throw _
    · split
      · exact emitOffset_defines _ _ hl hr
      · exact wires_two rfl rfl hr hl

theorem emitArith_defines {l r : Value} (op : ArithOp) (left right : Expr) (hl : c.Defines l) (hr : c.Defines r) :
    Wires c (emitArith node op left right l r) fun v d => d.Defines v := by
  unfold emitArith
  refine Keeps.lift fun a _ => ?_
  have rest : ∀ pointer : Bool, Wires c (if pointer then emitPointerArith node op a right.type l r
      else do emit (.binary op l r (← node.checked))) fun v d => d.Defines v := by
    intro pointer
    split
    · exact emitPointerArith_defines _ _ _ hl hr
    · exact Keeps.lift fun t _ => wires_two rfl rfl hl hr
  split
  · exact rest true
  · exact Keeps.lift fun b _ => rest b.isPointer

/-- Both operands are evaluated before they are used. -/
theorem emitBinary_defines (op : BinaryOp) (left right : Expr) {leftValue rightValue : Emit Value} (hl : Defines leftValue)
    (hr : Defines rightValue) : Defines (emitBinary node op left right leftValue rightValue) := by
  intro c
  unfold emitBinary
  cases op with
  | logic op =>
    refine Keeps.bind (hl c) fun l d _ hl => Keeps.lift fun t _ => ?_
    refine Keeps.bind (wires_emit fun x hx => ?_) fun _ d' hd' _ => Keeps.bind (hr d') fun r e he hr => ?_
    · exact List.mem_singleton.mp hx ▸ hl
    · exact wires_two rfl rfl ((hl.mono hd').mono he) hr
  | comma => exact Keeps.bind (hl c) fun _ d _ _ => hr d
  | compare op =>
    refine Keeps.bind (hl c) fun l d _ hl => Keeps.bind (hr d) fun r e he hr => ?_
    exact Keeps.lift fun t _ => wires_two rfl rfl (hl.mono he) hr
  | arith op =>
    refine Keeps.bind (hl c) fun l d _ hl => Keeps.bind (hr d) fun r e he hr => ?_
    exact emitArith_defines op left right (hl.mono he) hr

/-! ## Assignments and calls -/

theorem emitCompound_defines {current v : Value} (op : ArithOp) (type operandType : Ty) (x : Except Fault Ty)
    (hc : c.Defines current) (hv : c.Defines v) :
    Wires c (emitCompound op type operandType x current v) fun v d => d.Defines v := by
  unfold emitCompound
  split
  · exact emitOffset_defines _ _ hc hv
  · split
    · exact wires_two rfl rfl hc hv
    · refine Keeps.bind (wires_one rfl rfl hc) fun left d hd hleft => ?_
      refine Keeps.bind (wires_two rfl rfl hleft (hv.mono hd)) fun combined e _ hcombined => ?_
      exact wires_one rfl rfl hcombined

theorem emitAssign_defines (op : AssignOp) (v : Expr) (operandType : Option Ty) {assigned : Emit Value} (hp : Defines value)
    (hv : Defines assigned) : Defines (emitAssign node op v operandType value assigned) := by
  intro c
  unfold emitAssign
  refine Keeps.lift fun type _ => Keeps.bind (hp c) fun place d _ hplace => ?_
  cases op with
  | plain => exact Keeps.bind (hv d) fun v e he hv => wires_store hv (hplace.mono he) hv
  | compound op =>
    refine Keeps.bind (wires_one rfl rfl hplace) fun current d' hd hcurrent => Keeps.bind (hv d') fun v e he hv => ?_
    refine Keeps.bind (emitCompound_defines op type _ _ (hcurrent.mono he) hv) fun result f hf hresult => ?_
    exact wires_store hresult (((hplace.mono hd).mono he).mono hf) hresult

theorem values_define {es : List Expr} (h : ∀ e ∈ es, Defines e.value) (c : Code) :
    Wires c (values es) fun vs d => ∀ v ∈ vs, d.Defines v := by
  induction es generalizing c with
  | nil =>
    rw [values]
    exact Keeps.pure fun v hv => absurd hv List.not_mem_nil
  | cons e es ih =>
    rw [values]
    refine Keeps.bind (h e List.mem_cons_self c) fun v d _ hv => ?_
    refine Keeps.bind (ih (fun x hx => h x (List.mem_cons_of_mem e hx)) d) fun vs d' hd hvs => Keeps.pure ?_
    exact List.forall_mem_cons.mpr ⟨hv.mono hd, hvs⟩

theorem emitCall_defines {callee : Expr} {launch : Bool} {signature : Option Signature} {args : Emit (List Value)}
    {count : Option (Emit Value)} (hv : Defines value) (ha : ∀ c, Wires c args fun vs d => ∀ v ∈ vs, d.Defines v)
    (hc : ∀ m, count = some m → Defines m) : Defines (emitCall e callee launch signature value args count) := by
  intro c
  unfold emitCall
  cases signature with
  | none => exact Keeps.throw _
  | some s =>
    refine Keeps.bind (hv c) fun f d _ hf => Keeps.bind (ha d) fun vs d' hd hvs => ?_
    have hf := hf.mono hd
    split
    · cases count with
      | none => exact Keeps.throw _
      | some m =>
        refine Keeps.bind (hc m rfl d') fun n e he hn => wires_result rfl fun v hv => ?_
        simp only [Instruction.operands, List.cons_append, List.mem_cons, List.mem_append, List.not_mem_nil, or_false] at hv
        rcases hv with rfl | hv | rfl
        · exact hf.mono he
        · exact (hvs v hv).mono he
        · exact hn
    · exact Keeps.lift fun varying _ => wires_result rfl (List.forall_mem_cons.mpr ⟨hf, hvs⟩)

/-! ## Elements and members -/

section
variable {base : Expr} {baseValue : Emit Value} {baseAddress : Emit (Option Value)} (hv : Defines baseValue)
  (ha : MayDefine baseAddress)
include hv ha

theorem elementAddress_defines (hp : Defines position) : MayDefine (elementAddress e base baseValue baseAddress position) := by
  intro c
  unfold elementAddress
  refine Keeps.lift fun a _ => ?_
  cases a with
  | none => exact Keeps.pure nofun
  | some type =>
    refine Keeps.lift fun t _ => ?_
    have rest : ∀ (b : Value) (d : Code), d.Defines b → Wires d (do
        let i ← position
        return some (← emit (.elementAddress b i t.stored type))) fun a d => ∀ v, a = some v → d.Defines v := by
      intro b d hb
      refine Keeps.bind (hp d) fun i e he hi => Keeps.bind (wires_two rfl rfl (hb.mono he) hi) fun v f _ hv => Keeps.pure ?_
      exact fun w hw => by cases hw; exact hv
    dsimp only
    split
    · exact Keeps.bind (hv c) fun b d _ hb => rest b d hb
    · exact Keeps.bind (storageAddress_defines hv ha c) fun b d _ hb => rest b d hb

theorem memberAddress_defines (arrow : Bool) (access : Option Access) :
    MayDefine (memberAddress e base arrow access baseValue baseAddress) := by
  intro c
  unfold memberAddress
  refine Keeps.lift fun a _ => ?_
  cases a with
  | none => exact Keeps.pure nofun
  | some type =>
    have rest : ∀ (b : Value) (d : Code), d.Defines b → Wires d (do
        let a ← accessOf e access
        return some (← emit (.memberAddress b a.position a.aggregate type))) fun a d => ∀ v, a = some v → d.Defines v := by
      intro b d hb
      refine Keeps.lift fun a _ => Keeps.bind (wires_one rfl rfl hb) fun v f _ hv => Keeps.pure ?_
      exact fun w hw => by cases hw; exact hv
    dsimp only
    split
    · exact Keeps.bind (hv c) fun b d _ hb => rest b d hb
    · exact Keeps.bind (storageAddress_defines hv ha c) fun b d _ hb => rest b d hb

omit ha in
theorem pickElements_defines (access : Option Access) : Defines (pickElements e node access baseValue) := by
  intro c
  unfold pickElements
  refine Keeps.lift fun a _ => Keeps.bind (hv c) fun b d _ hb => ?_
  split
  · refine Keeps.lift fun type _ => ?_
    split
    · exact wires_one rfl rfl hb
    · exact Keeps.throw _
  · exact Keeps.lift fun t _ => wires_one rfl rfl hb

end

/-! ## Pointers -/

theorem emitFunction_defines (f : FunctionName) : Defines (emitFunction f) := by
  intro c
  unfold emitFunction
  split
  · exact wires_zero rfl rfl
  · exact Keeps.throw _

theorem emitNull_defines : Defines (emitNull node) := by
  intro c
  unfold emitNull
  refine Keeps.lift fun t _ => ?_
  split
  · exact wires_zero rfl rfl
  · exact Keeps.throw _

theorem emitNew_defines {count init : Option (Emit Value)} (hc : ∀ m, count = some m → Defines m)
    (hi : ∀ m, init = some m → Defines m) : Defines (emitNew node t count init) := by
  intro c
  unfold emitNew
  refine Keeps.lift fun type _ => ?_
  split
  · exact Keeps.throw _
  have allocates : ∀ (n : Option Value) (d : Code), (∀ v ∈ n.toList, d.Defines v) →
      Wires d (emit (.allocate t n type)) fun v d => d.Defines v := fun n d hn => wires_result rfl hn
  have filled : ∀ m, Defines m → ∀ (d : Code) (pointer : Value), d.Defines pointer → Wires d (do
      let _ ← emit (.store (← m) pointer t)
      return pointer) fun v d => d.Defines v := fun m hm d pointer hv =>
    Keeps.bind (hm d) fun v e he hx => wires_store hx (hv.mono he) (hv.mono he)
  cases count with
  | none =>
    simp only [pure_bind]
    refine Keeps.bind (allocates none c nofun) fun pointer d _ hv => ?_
    cases init with
    | none => exact Keeps.pure hv
    | some m => exact filled m (hi m rfl) d pointer hv
  | some n =>
    simp only [pure_bind]
    refine Keeps.bind (hc n rfl c) fun size d _ hsize => ?_
    refine Keeps.bind (allocates (some size) d (List.forall_mem_singleton.mpr hsize)) fun pointer d' _ hv => ?_
    cases init with
    | none => exact Keeps.pure hv
    | some m => exact filled m (hi m rfl) d' pointer hv

/-! ## Expressions -/

/-- The code for a value and for an address is wired, and what it gives is the result of an instruction. -/
theorem emits_wired (e : Expr) : Defines e.value ∧ MayDefine e.address := by
  induction e using Expr.induct with
  | h e ih =>
  have child : ∀ c ∈ e.children, Defines c.value := fun c hc => (ih c hc).1
  have nowhere : MayDefine (pure none) := fun c => Keeps.pure nofun
  have single : ∀ {i : Instruction}, i.hasResult = true → i.operands = [] → Defines (emit i) := fun hr hi c =>
    wires_zero hr hi
  -- an operand that was defined stays so while more code is added, until the instruction that uses it
  cases e with
  | unary node op a =>
    rw [value]
    refine ⟨fun c => ?_, nowhere⟩
    exact Keeps.bind (child a (by simp [children]) c) fun v d _ hv => Keeps.lift fun t _ => wires_one rfl rfl hv
  | step node s a amount =>
    obtain ⟨hv, ha⟩ := ih a (by simp [children])
    rw [value]
    exact ⟨emitStep_defines s amount (storageAddress_defines hv ha), nowhere⟩
  | binary node op l r reported =>
    rw [value]
    exact ⟨emitBinary_defines op l r (child l (by simp [children])) (child r (by simp [children])), nowhere⟩
  | assign node op t v operandType =>
    obtain ⟨hv, ha⟩ := ih t (by simp [children])
    rw [value]
    exact ⟨emitAssign_defines op v operandType (storageAddress_defines hv ha) (child v (by simp [children])), nowhere⟩
  | select node t a b =>
    rw [value]
    refine ⟨fun c => ?_, nowhere⟩
    refine Keeps.bind (child t (by simp [children]) c) fun x d _ hx => ?_
    refine Keeps.bind (child a (by simp [children]) d) fun y d' hd hy => ?_
    refine Keeps.bind (child b (by simp [children]) d') fun z e he hz => Keeps.lift fun u _ => wires_result rfl ?_
    refine List.forall_mem_cons.mpr ⟨(hx.mono hd).mono he, List.forall_mem_cons.mpr ⟨hy.mono he, ?_⟩⟩
    exact List.forall_mem_singleton.mpr hz
  | list node es =>
    rw [value]
    refine ⟨fun c => ?_, nowhere⟩
    exact Keeps.bind (values_define child c) fun vs d _ hvs => Keeps.lift fun t _ => wires_result rfl hvs
  | call node callee args launch count signature =>
    rw [value_call]
    refine ⟨emitCall_defines (child callee (by simp [children])) (values_define fun a ha => child a (by simp [children, ha]))
      fun m hm => ?_, nowhere⟩
    obtain ⟨n, rfl, rfl⟩ := Option.map_eq_some_iff.mp hm
    exact child n (by simp [children])
  | index node b i =>
    obtain ⟨hb, ha⟩ := ih b (by simp [children])
    have hi := child i (by simp [children])
    rw [value, address]
    refine ⟨loadFrom_defines (elementAddress_defines hb ha hi) fun c => ?_, elementAddress_defines hb ha hi⟩
    refine Keeps.bind (hb c) fun v d _ hv => Keeps.bind (hi d) fun w e he hw => ?_
    exact Keeps.lift fun t _ => wires_two rfl rfl (hv.mono he) hw
  | member node b name arrow access =>
    obtain ⟨hb, ha⟩ := ih b (by simp [children])
    rw [value, address]
    exact ⟨loadFrom_defines (memberAddress_defines hb ha arrow access) (pickElements_defines hb access),
      memberAddress_defines hb ha arrow access⟩
  | cast node target a reported =>
    rw [value]
    refine ⟨fun c => ?_, nowhere⟩
    refine Keeps.bind (child a (by simp [children]) c) fun v d _ hv => ?_
    exact Keeps.lift fun t _ => Keeps.lift fun u _ => wires_one rfl rfl hv
  | reference node a =>
    obtain ⟨hv, ha⟩ := ih a (by simp [children])
    rw [value, address]
    exact ⟨storageAddress_defines hv ha, ha⟩
  | dereference node a =>
    have hv := child a (by simp [children])
    rw [value, address]
    refine ⟨fun c => Keeps.bind (hv c) fun v d _ hv => Keeps.lift fun t _ => wires_one rfl rfl hv, fun c => ?_⟩
    exact Keeps.bind (hv c) fun v d _ hv => Keeps.pure fun w hw => by cases hw; exact hv
  | addressOf node a =>
    obtain ⟨hv, ha⟩ := ih a (by simp [children])
    rw [value]
    refine ⟨?_, nowhere⟩
    split
    · exact hv
    · exact storageAddress_defines hv ha
  | symbol node s =>
    rw [value, address]
    refine ⟨fun c => ?_, fun c => ?_⟩
    · exact Keeps.bind (wires_zero rfl rfl) fun v d _ hv => Keeps.lift fun t _ => wires_one rfl rfl hv
    · exact Keeps.bind (wires_zero rfl rfl) fun v d _ hv => Keeps.pure fun w hw => by cases hw; exact hv
  | new node t count init varying =>
    rw [value_new]
    refine ⟨emitNew_defines (fun m hm => ?_) fun m hm => ?_, nowhere⟩
    · obtain ⟨n, rfl, rfl⟩ := Option.map_eq_some_iff.mp hm
      exact child n (by simp [children])
    · obtain ⟨a, rfl, rfl⟩ := Option.map_eq_some_iff.mp hm
      exact child a (by simp [children])
  | const node v =>
    rw [value]
    exact ⟨fun c => Keeps.lift fun t _ => wires_zero rfl rfl, nowhere⟩
  | sizeOf node a =>
    rw [value]
    exact ⟨fun c => Keeps.lift fun t _ => Keeps.lift fun u _ => wires_zero rfl rfl, nowhere⟩
  | sizeOfType node t =>
    rw [value]
    exact ⟨fun c => Keeps.lift fun u _ => wires_zero rfl rfl, nowhere⟩
  | function f => exact ⟨emitFunction_defines f, nowhere⟩
  | sync node => exact ⟨single rfl rfl, nowhere⟩
  | null node => exact ⟨emitNull_defines, nowhere⟩

end Expr

end Spmd
