import Spmd.Proofs.Expr.Unmeasured

/-!
# Code without what `sizeof` measures

A `sizeof` is one instruction, which has the type of the operand, and the operand emits nothing. So the code of a tree is decided
by the unmeasured tree (`Expr.emits_unmeasured`), but for what structs and enumerations of the measured types contain, which no
line of the code shows (`Code.Alike.lines`).
-/

namespace Spmd

/-- The instruction with the bare type that it measures, if it measures one. -/
def Instruction.unsized : Instruction → Instruction
  | .sizeOf measured type => .sizeOf measured.bare type
  | i => i

theorem Instruction.words_unsized (i : Instruction) : i.unsized.words = i.words := by
  cases i with
  | sizeOf measured type => exact congrArg (["sizeOf", ·, type.text]) measured.text_bare
  | _ => rfl

/-- Instructions that differ at most in types that they measure, and these are the same. -/
def Code.Alike (c d : Code) : Prop := c.map Instruction.unsized = d.map Instruction.unsized

theorem Code.lines_unsized (c : Code) : Code.lines (c.map Instruction.unsized) = c.lines := by
  unfold Code.lines
  rw [List.zipIdx_map, List.map_map]
  refine List.map_congr_left fun p _ => ?_
  change (Value.mk p.2).text ++ " = " ++ " | ".intercalate p.1.unsized.words = _
  rw [Instruction.words_unsized]

theorem Code.Alike.lines {c d : Code} (h : c.Alike d) : c.lines = d.lines := by
  rw [← c.lines_unsized, h, d.lines_unsized]

theorem Code.Alike.length_eq {c d : Code} (h : c.Alike d) : c.length = d.length := by
  have hlength := congrArg List.length h
  rwa [List.length_map, List.length_map] at hlength

namespace Emit

variable {α : Type}

/-- Emissions that give the same result and add code alike to code alike, or both fail. -/
def Alike (m m' : Emit α) : Prop := RunsAlike Code.Alike Eq m m'

theorem Alike.refl_pure (a : α) : Alike (pure a) (pure a) := RunsAlike.pure rfl

theorem emit_sized {i j : Instruction} (h : i.unsized = j.unsized) : Alike (emit i) (emit j) := by
  intro c d hcd
  refine ⟨.ended (congrArg Value.mk hcd.length_eq), ?_⟩
  change (c ++ [i]).map Instruction.unsized = (d ++ [j]).map Instruction.unsized
  rw [List.map_append, List.map_append, hcd, List.map_singleton, List.map_singleton, h]

theorem emit_alike (i : Instruction) : Alike (emit i) (emit i) := emit_sized rfl

theorem Alike.next {β : Type} {m m' : Emit β} {k k' : β → Emit α} (h : Alike m m') (hk : ∀ b, Alike (k b) (k' b)) :
    Alike (m >>= k) (m' >>= k') := RunsAlike.next h hk

theorem Alike.read {β : Type} (x : Except Fault β) {k k' : β → Emit α} (hk : ∀ b, Alike (k b) (k' b)) :
    Alike ((liftM x : Emit β) >>= k) ((liftM x : Emit β) >>= k') := RunsAlike.next (RunsAlike.lift (.refl x)) hk

theorem Alike.read_both {β : Type} {x y : Except Fault β} (h : Spmd.Alike Eq x y) {k k' : β → Emit α}
    (hk : ∀ b, Alike (k b) (k' b)) : Alike ((liftM x : Emit β) >>= k) ((liftM y : Emit β) >>= k') :=
  RunsAlike.next (RunsAlike.lift h) hk

theorem Alike.meet {m m' n : Emit α} (h : Alike m n) (h' : Alike m' n) : Alike m m' :=
  RunsAlike.meet h h' (fun _ => rfl) (fun _ _ _ hs ht => hs.trans ht.symm) fun _ _ _ ha hb => ha.trans hb.symm

theorem Alike.run_ok {m m' : Emit α} (h : Alike m m') {c d : Code} {a : α} (hm : m.run c = (.ok a, d)) :
    ∃ d', m'.run c = (.ok a, d') ∧ d.Alike d' := by
  obtain ⟨hresult, hcode⟩ := h c c rfl
  change Spmd.Alike Eq (m.run c).1 (m'.run c).1 at hresult
  change (m.run c).2.Alike (m'.run c).2 at hcode
  rw [hm] at hresult hcode
  cases hm' : m'.run c with
  | mk o d' =>
    rw [hm'] at hresult hcode
    cases hresult with
    | ended hab => exact ⟨d', by rw [hab], hcode⟩

theorem Alike.throw (f g : Fault) : Alike (throw f : Emit α) (throw g) := RunsAlike.throw f g

end Emit

open Emit (emit emit_alike)

namespace Expr

variable {e e' base base' : Expr} {node : Node} {value value' : Emit Value} {address address' : Emit (Option Value)}

/-! ## Emissions that are given those of the operands -/

section
variable (hv : Emit.Alike value value') (ha : Emit.Alike address address')
include hv ha

theorem storageAddress_alike (ht : e'.type = e.type) :
    Emit.Alike (storageAddress e value address) (storageAddress e' value' address') := by
  unfold storageAddress
  rw [ht]
  refine .read _ fun t => ?_
  split
  · exact hv
  · refine ha.next fun a => ?_
    cases a with
    | some => exact .refl_pure _
    | none => exact .throw _ _

end

theorem accessOf_alike (e e' : Expr) (access : Option Access) : Spmd.Alike Eq (accessOf e access) (accessOf e' access) := by
  cases access with
  | none => exact .failed _ _
  | some a => exact .ended rfl

theorem loadFrom_alike (o : Option Value) (t : Except Fault Ty) (hv : Emit.Alike value value') :
    Emit.Alike (loadFrom o t value) (loadFrom o t value') := by
  cases o with
  | some a => exact .read t fun _ => emit_alike _
  | none => exact hv

theorem emitOffset_alike (down : Bool) (before amount : Value) (amountType : Except Fault Ty) (type : Ty) :
    Emit.Alike (emitOffset down before amount amountType type) (emitOffset down before amount amountType type) := by
  unfold emitOffset
  cases down with
  | true => exact .read amountType fun _ => (emit_alike _).next fun _ => emit_alike _
  | false => exact emit_alike _

theorem emitStep_alike (s : Step) (amount : Option Literal) (hv : Emit.Alike value value') :
    Emit.Alike (emitStep node s amount value) (emitStep node s amount value') := by
  unfold emitStep
  cases amount with
  | none => exact .throw _ _
  | some one =>
    refine .read _ fun type => hv.next fun place => (emit_alike _).next fun before => (emit_alike _).next fun amount => ?_
    have stored : ∀ after : Value, Emit.Alike (do
        let _ ← emit (.store after place type)
        return if s.isPost then before else after) (do
        let _ ← emit (.store after place type)
        return if s.isPost then before else after) := fun _ => (emit_alike _).next fun _ => .refl_pure _
    cases type.isPointer with
    | true => exact (emitOffset_alike _ _ _ _ _).next stored
    | false => exact (emit_alike _).next stored

theorem emitPointerArith_alike (op : ArithOp) (a : Ty) (x : Except Fault Ty) (l r : Value) :
    Emit.Alike (emitPointerArith node op a x l r) (emitPointerArith node op a x l r) := by
  unfold emitPointerArith
  refine .read _ fun b => ?_
  split
  · exact .read _ fun _ => emit_alike _
  · refine .read _ fun t => ?_
    split
    · exact .throw _ _
    · split
      · exact emitOffset_alike _ _ _ _ _
      · exact emit_alike _

theorem emitArith_alike {left left' right right' : Expr} (op : ArithOp) (hl : left'.type = left.type)
    (hr : right'.type = right.type) (l r : Value) :
    Emit.Alike (emitArith node op left right l r) (emitArith node op left' right' l r) := by
  unfold emitArith
  rw [hl, hr]
  have rest : ∀ (a : Ty) (pointer : Bool), Emit.Alike (if pointer then emitPointerArith node op a right.type l r
      else do emit (.binary op l r (← node.checked))) (if pointer then emitPointerArith node op a right.type l r
      else do emit (.binary op l r (← node.checked))) := by
    intro a pointer
    split
    · exact emitPointerArith_alike _ _ _ _ _
    · exact .read _ fun _ => emit_alike _
  refine .read _ fun a => ?_
  split
  · exact rest a true
  · exact .read _ fun b => rest a b.isPointer

theorem emitBinary_alike {left left' right right' : Expr} {leftValue leftValue' rightValue rightValue' : Emit Value}
    (op : BinaryOp) (htl : left'.type = left.type) (htr : right'.type = right.type) (hl : Emit.Alike leftValue leftValue')
    (hr : Emit.Alike rightValue rightValue') :
    Emit.Alike (emitBinary node op left right leftValue rightValue) (emitBinary node op left' right' leftValue' rightValue') := by
  unfold emitBinary
  cases op with
  | logic op =>
    exact hl.next fun l => .read _ fun t => (emit_alike _).next fun _ => hr.next fun r => emit_alike _
  | comma => exact hl.next fun _ => hr
  | compare op =>
    rw [htl]
    exact hl.next fun l => hr.next fun r => .read _ fun t => emit_alike _
  | arith op => exact hl.next fun l => hr.next fun r => emitArith_alike op htl htr l r

theorem emitCompound_alike (op : ArithOp) (type operandType : Ty) (x : Except Fault Ty) (current v : Value) :
    Emit.Alike (emitCompound op type operandType x current v) (emitCompound op type operandType x current v) := by
  unfold emitCompound
  split
  · exact emitOffset_alike _ _ _ _ _
  · split
    · exact emit_alike _
    · exact (emit_alike _).next fun _ => (emit_alike _).next fun _ => emit_alike _

theorem emitAssign_alike {v v' : Expr} {assigned assigned' : Emit Value} (op : AssignOp) (operandType : Option Ty)
    (ht : v'.type = v.type) (hp : Emit.Alike value value') (ha : Emit.Alike assigned assigned') :
    Emit.Alike (emitAssign node op v operandType value assigned) (emitAssign node op v' operandType value' assigned') := by
  unfold emitAssign
  rw [ht]
  refine .read _ fun type => hp.next fun place => ?_
  cases op with
  | plain => exact ha.next fun v => (emit_alike _).next fun _ => .refl_pure v
  | compound op =>
    refine (emit_alike _).next fun current => ha.next fun v => (emitCompound_alike _ _ _ _ _ _).next fun result => ?_
    exact (emit_alike _).next fun _ => .refl_pure result

theorem values_alike {es : List Expr} (h : ∀ e ∈ es, Emit.Alike e.value e.unmeasured.value) :
    RunsAlike Code.Alike Eq (values es) (values (unmeasuredEach es)) := by
  induction es with
  | nil => exact RunsAlike.pure rfl
  | cons e es ih =>
    rw [unmeasuredEach, values, values]
    refine (h e List.mem_cons_self).bind fun v _ hv => hv ▸ ?_
    exact (ih fun c hc => h c (List.mem_cons_of_mem e hc)).bind fun vs _ hvs => hvs ▸ RunsAlike.pure rfl

/-- Both are missing, or they emit alike. -/
def MayEmitAlike : Option (Emit Value) → Option (Emit Value) → Prop := Option.Rel Emit.Alike

theorem emitCall_alike {callee callee' : Expr} {launch : Bool} {signature : Option Signature} {args args' : Emit (List Value)}
    {count count' : Option (Emit Value)} (hvarying : callee'.isVaryingCallee = callee.isVaryingCallee)
    (hv : Emit.Alike value value') (ha : Emit.Alike args args') (hc : MayEmitAlike count count') :
    Emit.Alike (emitCall e callee launch signature value args count)
      (emitCall e' callee' launch signature value' args' count') := by
  unfold emitCall
  rw [hvarying]
  cases signature with
  | none => exact .throw _ _
  | some s =>
    refine hv.next fun f => ha.next fun vs => ?_
    split
    · cases hc with
      | none => exact .throw _ _
      | some hn => exact hn.next fun n => emit_alike _
    · exact .read _ fun varying => emit_alike _

section
variable (hv : Emit.Alike value value') (ha : Emit.Alike address address') (hbase : base'.type = base.type)
  (haddress : Spmd.Alike Eq e.addressType e'.addressType)
include hv ha hbase haddress

theorem elementAddress_alike {position position' : Emit Value} (hp : Emit.Alike position position') :
    Emit.Alike (elementAddress e base value address position) (elementAddress e' base' value' address' position') := by
  have hstorage := storageAddress_alike hv ha hbase
  unfold elementAddress
  rw [hbase]
  refine .read_both haddress fun a => ?_
  cases a with
  | none => exact .refl_pure none
  | some type =>
    refine .read _ fun t => ?_
    have rest : ∀ b : Value, Emit.Alike (do
        let i ← position
        return some (← emit (.elementAddress b i t.stored type))) (do
        let i ← position'
        return some (← emit (.elementAddress b i t.stored type))) := fun b =>
      hp.next fun i => (emit_alike _).next fun v => .refl_pure (some v)
    dsimp only
    split
    · exact hv.next rest
    · exact hstorage.next rest

theorem memberAddress_alike (arrow : Bool) (access : Option Access) :
    Emit.Alike (memberAddress e base arrow access value address) (memberAddress e' base' arrow access value' address') := by
  have hstorage := storageAddress_alike hv ha hbase
  unfold memberAddress
  refine .read_both haddress fun a => ?_
  cases a with
  | none => exact .refl_pure none
  | some type =>
    have rest : ∀ b : Value, Emit.Alike (do
        let a ← accessOf e access
        return some (← emit (.memberAddress b a.position a.aggregate type))) (do
        let a ← accessOf e' access
        return some (← emit (.memberAddress b a.position a.aggregate type))) := fun b =>
      .read_both (accessOf_alike e e' access) fun a => (emit_alike _).next fun v => .refl_pure (some v)
    dsimp only
    split
    · exact hv.next rest
    · exact hstorage.next rest

end

theorem pickElements_alike (access : Option Access) (hv : Emit.Alike value value') :
    Emit.Alike (pickElements e node access value) (pickElements e' node access value') := by
  unfold pickElements
  refine .read_both (accessOf_alike e e' access) fun a => hv.next fun b => ?_
  split
  · refine .read _ fun type => ?_
    split
    · exact emit_alike _
    · exact .throw _ _
  · exact .read _ fun t => emit_alike _

theorem emitFunction_alike (f : FunctionName) : Emit.Alike (emitFunction f) (emitFunction f) := by
  unfold emitFunction
  split
  · exact emit_alike _
  · exact .throw _ _

theorem emitNull_alike : Emit.Alike (emitNull node) (emitNull node) := by
  unfold emitNull
  refine .read _ fun t => ?_
  split
  · exact emit_alike _
  · exact .throw _ _

theorem fill_alike (allocated : Ty) (pointer : Value) (init init' : Option (Emit Value)) : MayEmitAlike init init' →
    Emit.Alike (match init with
      | some v => do
        let _ ← emit (.store (← v) pointer allocated)
        return pointer
      | none => return pointer) (match init' with
      | some v => do
        let _ ← emit (.store (← v) pointer allocated)
        return pointer
      | none => return pointer) := by
  intro h
  cases h with
  | none => exact .refl_pure pointer
  | some hm => exact hm.next fun v => (emit_alike _).next fun _ => .refl_pure pointer

theorem emitNew_alike {allocated : Ty} {count count' init init' : Option (Emit Value)} (hc : MayEmitAlike count count')
    (hi : MayEmitAlike init init') : Emit.Alike (emitNew node allocated count init) (emitNew node allocated count' init') := by
  unfold emitNew
  refine .read _ fun type => ?_
  split
  · exact .throw _ _
  cases hc with
  | none =>
    simp only [pure_bind]
    exact (emit_alike _).next fun pointer => fill_alike allocated pointer init init' hi
  | some hn =>
    simp only [pure_bind]
    exact hn.next fun n => (emit_alike _).next fun pointer => fill_alike allocated pointer init init' hi

/-! ## Expressions -/

theorem mayEmitAlike_unmeasured {o : Option Expr} (h : ∀ c ∈ o.toList, Emit.Alike c.value c.unmeasured.value) :
    MayEmitAlike (o.map Expr.value) ((unmeasuredOf o).map Expr.value) := by
  cases o with
  | none => exact .none
  | some c => exact .some (h c (by simp))

theorem type_measured (e : Expr) (node : Node) :
    Spmd.Alike (fun t u => t.bare = u.bare) e.type (null { node with type := e.type?.map Ty.bare }).type := by
  change Spmd.Alike _ e.node.checked (Node.checked { node with type := e.node.type.map Ty.bare })
  unfold Node.checked
  cases e.node.type with
  | none => exact .failed _ _
  | some t => exact .ended t.bare_bare.symm

/-- The operands of `sizeof` emit nothing, and their types only tell what is measured. -/
theorem emits_unmeasured (e : Expr) : Emit.Alike e.value e.unmeasured.value ∧ Emit.Alike e.address e.unmeasured.address := by
  induction e using Expr.induct with
  | h e ih =>
  have child : ∀ c ∈ e.children, Emit.Alike c.value c.unmeasured.value := fun c hc => (ih c hc).1
  have nowhere : Emit.Alike (pure none : Emit (Option Value)) (pure none) := .refl_pure none
  have typed := type_unmeasured
  cases e with
  | unary node op a =>
    rw [unmeasured, value, value]
    exact ⟨(child a (by simp [children])).next fun v => .read _ fun t => emit_alike _, nowhere⟩
  | step node s a amount =>
    obtain ⟨hv, ha⟩ := ih a (by simp [children])
    rw [unmeasured, value, value]
    exact ⟨emitStep_alike s amount (storageAddress_alike hv ha (typed a)), nowhere⟩
  | binary node op l r reported =>
    rw [unmeasured, value, value]
    exact ⟨emitBinary_alike op (typed l) (typed r) (child l (by simp [children])) (child r (by simp [children])), nowhere⟩
  | assign node op t v operandType =>
    obtain ⟨hv, ha⟩ := ih t (by simp [children])
    rw [unmeasured, value, value]
    exact ⟨emitAssign_alike op operandType (typed v) (storageAddress_alike hv ha (typed t)) (child v (by simp [children])),
      nowhere⟩
  | select node t a b =>
    rw [unmeasured, value, value]
    refine ⟨(child t (by simp [children])).next fun x => (child a (by simp [children])).next fun y => ?_, nowhere⟩
    exact (child b (by simp [children])).next fun z => .read _ fun u => emit_alike _
  | list node es =>
    rw [unmeasured, value, value]
    exact ⟨RunsAlike.next (values_alike child) fun vs => Emit.Alike.read _ fun t => emit_alike _, nowhere⟩
  | call node callee args launch count signature =>
    rw [unmeasured, value_call, value_call]
    refine ⟨emitCall_alike callee.isVaryingCallee_unmeasured (child callee (by simp [children]))
      (values_alike fun a ha => child a (by simp [children, ha])) (mayEmitAlike_unmeasured fun c hc => ?_), nowhere⟩
    exact child c (by simp only [children, List.mem_append, hc, or_true])
  | index node b i =>
    obtain ⟨hb, ha⟩ := ih b (by simp [children])
    have hi := child i (by simp [children])
    have haddress := addressType_unmeasured (index node b i)
    have helement := elementAddress_alike hb ha (typed b) haddress hi
    rw [unmeasured] at haddress helement ⊢
    rw [value, value, address, address]
    refine ⟨Emit.Alike.next helement fun a => loadFrom_alike a _ ?_, helement⟩
    exact hb.next fun v => hi.next fun w => .read _ fun t => emit_alike _
  | member node b name arrow access =>
    obtain ⟨hb, ha⟩ := ih b (by simp [children])
    have haddress := addressType_unmeasured (member node b name arrow access)
    have hmember := memberAddress_alike hb ha (typed b) haddress arrow access
    rw [unmeasured] at haddress hmember ⊢
    rw [value, value, address, address]
    exact ⟨Emit.Alike.next hmember fun a => loadFrom_alike a _ (pickElements_alike access hb), hmember⟩
  | cast node target a reported =>
    rw [unmeasured, value, value, typed]
    exact ⟨(child a (by simp [children])).next fun v => .read _ fun t => .read _ fun u => emit_alike _, nowhere⟩
  | reference node a =>
    obtain ⟨hv, ha⟩ := ih a (by simp [children])
    rw [unmeasured, value, value, address, address]
    exact ⟨storageAddress_alike hv ha (typed a), ha⟩
  | dereference node a =>
    have hv := child a (by simp [children])
    rw [unmeasured, value, value, address, address]
    exact ⟨hv.next fun v => .read _ fun t => emit_alike _, hv.next fun v => .refl_pure _⟩
  | addressOf node a =>
    obtain ⟨hv, ha⟩ := ih a (by simp [children])
    rw [unmeasured, value, value, isFunctionName_unmeasured]
    refine ⟨?_, nowhere⟩
    split
    · exact hv
    · exact storageAddress_alike hv ha (typed a)
  | symbol node s =>
    rw [unmeasured, value, address]
    exact ⟨(emit_alike _).next fun v => .read _ fun t => emit_alike _, (emit_alike _).next fun v => .refl_pure _⟩
  | new node t count init varying =>
    rw [unmeasured, value_new, value_new]
    refine ⟨emitNew_alike (mayEmitAlike_unmeasured fun c hc => ?_) (mayEmitAlike_unmeasured fun c hc => ?_), nowhere⟩
    · exact child c (by simp only [children, List.mem_append, hc, true_or])
    · exact child c (by simp only [children, List.mem_append, hc, or_true])
  | const node v =>
    rw [unmeasured, value]
    exact ⟨.read _ fun t => emit_alike _, nowhere⟩
  -- the operands differ here, but only the type of either is asked for
  | sizeOf node a =>
    rw [unmeasured, value, value]
    exact ⟨RunsAlike.bind (RunsAlike.lift (type_measured a {})) fun t u htu => Emit.Alike.read _ fun _ =>
      Emit.emit_sized (congrArg (Instruction.sizeOf · _) htu), nowhere⟩
  | sizeOfType node t =>
    rw [unmeasured, value]
    exact ⟨.read _ fun u => emit_alike _, nowhere⟩
  | function f => exact ⟨emitFunction_alike f, nowhere⟩
  | sync node => exact ⟨emit_alike _, nowhere⟩
  | null node => exact ⟨emitNull_alike, nowhere⟩

/-- Trees that differ in the operands of `sizeof` only emit alike. -/
theorem emits_remeasured (h : e'.unmeasured = e.unmeasured) : Emit.Alike e.value e'.value ∧ Emit.Alike e.address e'.address := by
  have h' := e'.emits_unmeasured
  rw [h] at h'
  exact ⟨e.emits_unmeasured.1.meet h'.1, e.emits_unmeasured.2.meet h'.2⟩

end Expr

end Spmd
