import Spmd.Proofs.Code.Effects
import Spmd.Proofs.Expr.WellTyped

/-!
# Effects of expressions

`Expr.effects` reads the effects of a checked expression off its tree, in the order of evaluation. The code that is
emitted for the expression has these effects (`Expr.performs`).
-/

namespace Spmd

/-- The effects of two branches, or of one of them if it is known which one is chosen. -/
def chosen (verdict : Option Bool) (ifTrue ifFalse : List Effect) : List Effect :=
  match verdict with
  | some true => ifTrue
  | some false => ifFalse
  | none => ifTrue ++ ifFalse

theorem chosen_sublist (verdict : Option Bool) {a b a' b' : List Effect} (ha : a.Sublist a') (hb : b.Sublist b') :
    (chosen verdict a b).Sublist (a' ++ b') := by
  cases verdict with
  | none => exact ha.append hb
  | some v =>
    cases v with
    | true => exact ha.trans (List.sublist_append_left ..)
    | false => exact hb.trans (List.sublist_append_right ..)

namespace Expr

mutual
/-- The effects of evaluating an expression. Where the test of a selection is decided, only one branch is evaluated. -/
def effects (told : Bool) (decided : Expr → Option Bool) : Expr → List Effect
  | .unary _ _ e => e.effects told decided
  | .step node _ e _ => e.effects told decided ++ node.type.toList.map .store
  | .binary _ _ l r _ => l.effects told decided ++ r.effects told decided
  | .assign node _ t v _ => t.effects told decided ++ (v.effects told decided ++ node.type.toList.map .store)
  | .select _ t a b =>
    t.effects told decided ++ chosen (decided t) (a.effects told decided) (b.effects told decided)
  | .list _ es => effectsEach told decided es
  | .call _ c args launch count signature =>
    c.effects told decided ++ (effectsEach told decided args ++
      if launch then effectsOf told decided count ++ signature.toList.map (.launch args.length)
      else signature.toList.map (.call (told && c.isVarying) args.length))
  | .index _ b i => b.effects told decided ++ i.effects told decided
  | .member _ b .. => b.effects told decided
  | .cast _ _ e _ => e.effects told decided
  | .reference _ e => e.effects told decided
  | .dereference _ e => e.effects told decided
  | .addressOf _ e => e.effects told decided
  | .sync _ => [.sync]
  | .new node t count init _ =>
    effectsOf told decided count ++ (node.type.toList.map (.allocate t count.isSome) ++
      (effectsOf told decided init ++ if init.isSome then [.store t] else []))
  | .const .. | .sizeOf .. | .sizeOfType .. | .symbol .. | .function _ | .null _ => []
def effectsEach (told : Bool) (decided : Expr → Option Bool) : List Expr → List Effect
  | [] => []
  | e :: es => e.effects told decided ++ effectsEach told decided es
def effectsOf (told : Bool) (decided : Expr → Option Bool) : Option Expr → List Effect
  | none => []
  | some e => e.effects told decided
end

/-! ## Decided selections -/

/-- A selection with a test that is not decided. -/
def Undecided (decided : Expr → Option Bool) : Expr → Prop
  | .select _ test _ _ => decided test = none
  | _ => True

section
variable {told : Bool} {decided : Expr → Option Bool} {R : List Effect → List Effect → Prop} {P : Expr → Prop} {e : Expr}

/-- A relation between the effects that remain and all effects is put together from its parts, if it holds of a choice. -/
theorem effects_relate (hself : ∀ l, R l l) (happend : ∀ {a b c d}, R a b → R c d → R (a ++ c) (b ++ d))
    (hchoice : ∀ {node test x y a b a' b'}, P (.select node test x y) → R a a' → R b b' →
      R (chosen (decided test) a b) (a' ++ b')) (h : Everywhere P e) :
    R (e.effects told decided) (e.effects told fun _ => none) := by
  induction e using Expr.induct with
  | h e ih =>
  -- what a node adds to the effects of its children does not depend on decisions, but for the choice of a branch
  have child : ∀ c ∈ e.children, R (c.effects told decided) (c.effects told fun _ => none) := fun c hc => ih c hc (h.child hc)
  have each : ∀ {es : List Expr}, (∀ c ∈ es, c ∈ e.children) →
      R (effectsEach told decided es) (effectsEach told (fun _ => none) es) := by
    intro es hes
    induction es with
    | nil => exact hself []
    | cons c cs ihs => exact happend (child c (hes c List.mem_cons_self)) (ihs fun d hd => hes d (List.mem_cons_of_mem _ hd))
  have part : ∀ {o : Option Expr}, (∀ c ∈ o.toList, c ∈ e.children) →
      R (effectsOf told decided o) (effectsOf told (fun _ => none) o) := by
    intro o ho
    cases o with
    | none => exact hself []
    | some c => exact child c (ho c (by simp))
  cases e with
  | unary node op c => exact child c (by simp [children])
  | step node s c amount => exact happend (child c (by simp [children])) (hself _)
  | binary node op l r reported => exact happend (child l (by simp [children])) (child r (by simp [children]))
  | assign node op t v operandType =>
    exact happend (child t (by simp [children])) (happend (child v (by simp [children])) (hself _))
  | select node test a b =>
    exact happend (child test (by simp [children]))
      (hchoice h.here (child a (by simp [children])) (child b (by simp [children])))
  | list node items => exact each fun c hc => hc
  | call node callee args launch count signature =>
    rw [effects, effects]
    refine happend (child callee (by simp [children])) (happend (each fun c hc => by simp [children, hc]) ?_)
    cases launch with
    | true => exact happend (part fun c hc => by simp only [children, List.mem_append, hc, or_true]) (hself _)
    | false => exact hself _
  | index node b i => exact happend (child b (by simp [children])) (child i (by simp [children]))
  | member node b name arrow access => exact child b (by simp [children])
  | cast node t c reported => exact child c (by simp [children])
  | reference node c => exact child c (by simp [children])
  | dereference node c => exact child c (by simp [children])
  | addressOf node c => exact child c (by simp [children])
  | new node allocated count init varying =>
    rw [effects, effects]
    refine happend (part fun c hc => by simp only [children, List.mem_append, hc, true_or]) (happend (hself _) ?_)
    exact happend (part fun c hc => by simp only [children, List.mem_append, hc, or_true]) (hself _)
  | const | sizeOf | sizeOfType | symbol | function | sync | null => exact hself _

/-- Deciding tests only leaves effects out. -/
theorem effects_sublist (e : Expr) : (e.effects told decided).Sublist (e.effects told fun _ => none) :=
  effects_relate List.Sublist.refl List.Sublist.append (fun _ => chosen_sublist _) (Everywhere.of_forall (fun _ => trivial) e)

theorem effects_undecided (h : Everywhere (Undecided decided) e) : e.effects told decided = e.effects told fun _ => none := by
  refine effects_relate (fun _ => rfl) (fun h h' => by rw [h, h']) (fun hp ha hb => ?_) h
  rw [show decided _ = none from hp, ha, hb]
  rfl

end

/-! ## Conditions of emission -/

/-- What a node needs beside its form for code to be emitted. -/
def Ready (told : Bool) : Expr → Prop
  | .step _ _ e amount => amount.isSome = true ∧ e.isStorage = .ok true
  | .assign _ _ target _ _ => target.isStorage = .ok true
  | .call _ _ _ launch count _ => count.isSome = launch
  | .member node _ _ _ access => ∀ indices aggregate, access = some (.swizzle indices aggregate) → 2 ≤ indices.length →
    ∃ t, node.type = some t ∧ t.isVector = true
  | .reference _ e => e.isStorage = .ok true
  | .dereference _ e => ∃ t, e.type? = some t ∧ (t.isReference || t.isPointer) = true
  | .addressOf _ e => e.isFunctionName = false → e.isStorage = .ok true
  | .function f => told = true → (Expr.function f).isVarying = false
  | .null node => ∃ t, node.type = some t ∧ t.isPointer = true
  | .new node .. => ∃ t, node.type = some t ∧ t.isPointer = true
  | _ => True

open Emit

variable {told : Bool} {T : Target} {e : Expr} {node : Node} {t : Ty} {es fs : List Effect} {value position : Emit Value}
  {address : Emit (Option Value)}

/-! ## Storage -/

theorem storageAddress_computes (h : Checked T e) (hs : e.isStorage = .ok true) (hv : Computes told value es)
    (ha : Finds told e.hasAddress address es) : Computes told (storageAddress e value address) es := by
  obtain ⟨t, ht, -⟩ := h.typed
  unfold storageAddress
  refine Computes.read (type_ok ht) ?_
  split
  · exact hv
  · rename_i hr
    rw [h.isStorage_eq, denotesStorage, isReference_eq ht, Bool.eq_false_iff.mpr hr, Bool.or_false] at hs
    rw [Except.ok.inj hs] at ha
    refine Performs.congr (Performs.bind ha fun a hsome => ?_) (List.append_nil es)
    cases a with
    | none => cases hsome
    | some a => exact Computes.pure a

theorem loadFrom_computes {otherwise : Emit Value} {found : Bool} (hn : node.type = some t)
    (ha : Finds told found address es) (ho : found = false → Computes told otherwise es) :
    Computes told (address >>= fun a => loadFrom a node.checked otherwise) es := by
  unfold Finds at ha
  cases found with
  | true =>
    refine Performs.congr (Performs.bind ha fun a hsome => ?_) (List.append_nil es)
    cases a with
    | none => cases hsome
    | some a => exact Computes.read (Node.checked_ok hn) (computes_emit _)
  | false =>
    refine Performs.bind ha fun a hsome => ?_
    cases a with
    | none => exact ho rfl
    | some a => cases hsome

/-! ## Steps -/

theorem emitOffset_computes (down : Bool) (before amount : Value) {x : Except Fault Ty} {u : Ty} (hx : x = .ok u) :
    Computes told (emitOffset down before amount x t) [] := by
  unfold emitOffset
  split
  · exact Computes.read hx (Computes.quiet_bind (computes_emit _) fun _ => computes_emit _)
  · exact computes_emit _

theorem emitStep_computes (s : Step) {amount : Option Literal} (hn : node.type = some t) (hamount : amount.isSome = true)
    (ha : Computes told value es) : Computes told (emitStep node s amount value) (es ++ [.store t]) := by
  obtain ⟨one, rfl⟩ := Option.isSome_iff_exists.mp hamount
  unfold emitStep
  refine Computes.read (Node.checked_ok hn) (Computes.bind ha fun place => ?_)
  refine Computes.quiet_bind (computes_emit _) fun before => Computes.quiet_bind (computes_emit _) fun amount => ?_
  have stored : ∀ after, Computes told (do
      let _ ← emit (.store after place t)
      return if s.isPost then before else after) [.store t] := fun after =>
    Computes.bind_quiet (computes_emit _) fun _ => Computes.pure _
  cases t.isPointer with
  | true => exact Computes.quiet_bind (emitOffset_computes _ _ _ rfl) stored
  | false => exact Computes.quiet_bind (computes_emit _) stored

/-! ## Binary operators -/

theorem emitPointerArith_computes {op : ArithOp} {a b : Ty} {x : Except Fault Ty} (hn : node.type = some t)
    (hx : x = .ok b) (ht : (a.isPointer && b.isPointer) = false → t.isPointer = true) (l r : Value) :
    Computes told (emitPointerArith node op a x l r) [] := by
  unfold emitPointerArith
  refine Computes.read hx ?_
  split
  · exact Computes.read (Node.checked_ok hn) (computes_emit _)
  · rename_i hp
    refine Computes.read (Node.checked_ok hn) ?_
    rw [ht (Bool.eq_false_iff.mpr hp), Bool.not_true, if_neg Bool.false_ne_true]
    split
    · exact emitOffset_computes _ _ _ rfl
    · exact computes_emit _

theorem arithmetic_isPointer {op : ArithOp} {a b : Ty} (h : t.Arithmetic T op a b)
    (hp : (a.isPointer || b.isPointer) = true) (hone : (a.isPointer && b.isPointer) = false) : t.isPointer = true := by
  cases a with
  | pointer p q o =>
    cases b with
    | pointer => cases hone
    | _ => exact (Ty.isPointer_eq ((Ty.sameIgnoringConst_iff ..).mp h.2.1)).symm
  | _ =>
    cases b with
    | pointer p q o => exact (Ty.isPointer_eq ((Ty.sameIgnoringConst_iff ..).mp h.2.1)).symm
    | _ => cases hp

section
variable {op : BinaryOp} {l r : Expr} {reported : Bool} {leftValue rightValue : Emit Value}
  (h : Checked T (.binary node op l r reported)) (hl : Computes told leftValue es) (hr : Computes told rightValue fs)
include h hl hr

theorem emitBinary_computes : Computes told (emitBinary node op l r leftValue rightValue) (es ++ fs) := by
  obtain ⟨t, hn, -⟩ := h.typed
  obtain ⟨a, ha, -⟩ := (h.child (c := l) (by simp [children])).here.typed
  obtain ⟨b, hb, -⟩ := (h.child (c := r) (by simp [children])).here.typed
  unfold emitBinary
  cases op with
  | logic op =>
    refine Computes.bind hl fun _ => Computes.read (Node.checked_ok hn) (Computes.quiet_bind (computes_emit _) fun _ => ?_)
    exact Computes.bind_quiet hr fun _ => computes_emit _
  | comma => exact Computes.bind hl fun _ => hr
  | compare op =>
    refine Computes.bind hl fun _ => Computes.bind_quiet hr fun _ => ?_
    exact Computes.read (type_ok ha) (computes_emit _)
  | arith op =>
    refine Computes.bind hl fun x => Computes.bind_quiet hr fun y => ?_
    obtain ⟨t', a', b', hn', ha', hb', harith⟩ := h.here.coherent
    obtain rfl := Option.some.inj (hn.symm.trans hn')
    obtain rfl := Option.some.inj (ha.symm.trans ha')
    obtain rfl := Option.some.inj (hb.symm.trans hb')
    have pointers : (a.isPointer || b.isPointer) = true →
        Computes told (emitPointerArith node op a r.type x y) [] := fun hp =>
      emitPointerArith_computes hn (type_ok hb) (arithmetic_isPointer harith hp) x y
    unfold emitArith
    refine Computes.read (type_ok ha) ?_
    cases hap : a.isPointer with
    | true => exact pointers (by rw [hap, Bool.true_or])
    | false =>
      refine Computes.read (type_ok hb) ?_
      cases hbp : b.isPointer with
      | true => exact pointers (by rw [hbp, Bool.or_true])
      | false => exact Computes.read rfl (Computes.read (Node.checked_ok hn) (computes_emit _))

end

/-! ## Assignments -/

theorem emitCompound_computes (op : ArithOp) (type operandType : Ty) {x : Except Fault Ty} {u : Ty} (hx : x = .ok u)
    (current value : Value) : Computes told (emitCompound op type operandType x current value) [] := by
  unfold emitCompound
  split
  · exact emitOffset_computes _ _ _ hx
  · split
    · exact computes_emit _
    · refine Computes.quiet_bind (computes_emit _) fun _ => ?_
      exact Computes.quiet_bind (computes_emit _) fun _ => computes_emit _

theorem emitAssign_computes {op : AssignOp} {v : Expr} {operandType : Option Ty} {u : Ty} (hn : node.type = some t)
    (hu : v.type? = some u) (ha : Computes told value es) (hv : Computes told position fs) :
    Computes told (emitAssign node op v operandType value position) (es ++ (fs ++ [.store t])) := by
  unfold emitAssign
  refine Computes.read (Node.checked_ok hn) (Computes.bind ha fun place => ?_)
  cases op with
  | plain => exact Computes.bind hv fun v => Computes.bind_quiet (computes_emit _) fun _ => Computes.pure v
  | compound op =>
    refine Computes.quiet_bind (computes_emit _) fun current => Computes.bind hv fun v => ?_
    refine Computes.quiet_bind (emitCompound_computes _ _ _ (type_ok hu) _ _) fun result => ?_
    exact Computes.bind_quiet (computes_emit _) fun _ => Computes.pure result

/-! ## Calls -/

theorem values_perform {decided : Expr → Option Bool} : ∀ {es : List Expr},
    (∀ e ∈ es, Computes told e.value (e.effects told decided)) →
      Performs told (values es) (fun vs => vs.length = es.length) (effectsEach told decided es)
  | [], _ => Performs.pure rfl
  | e :: es, h => by
    rw [values, effectsEach]
    refine Performs.bind (h e List.mem_cons_self) fun v _ => ?_
    have hrest := values_perform fun c hc => h c (List.mem_cons_of_mem _ hc)
    refine Performs.congr (Performs.bind hrest fun vs hvs => Performs.pure ?_) (List.append_nil _)
    rw [List.length_cons, List.length_cons, hvs]

theorem isVaryingCallee_told {callee : Expr} (hc : Checked T callee) (hr : callee.Ready told) :
    ∃ v, callee.isVaryingCallee = .ok v ∧ (told && v) = (told && callee.isVarying) := by
  obtain ⟨t, ht, -⟩ := hc.typed
  unfold isVaryingCallee
  split
  · rename_i hname
    refine ⟨false, rfl, ?_⟩
    cases callee with
    | function f =>
      cases told with
      | true => rw [hr rfl]
      | false => rfl
    | _ => cases hname
  · rw [type_ok ht, isVarying_eq ht, ← Ty.isVarying_stored t]
    exact ⟨_, rfl, rfl⟩

theorem emitCall_computes {e callee : Expr} {n : Nat} {launch : Bool} {signature : Signature} {gs : List Effect}
    {args : Emit (List Value)} {count : Option (Emit Value)} (hc : Checked T callee) (hr : callee.Ready told)
    (hl : launch = true → count.isSome = true) (hcallee : Computes told value es)
    (hargs : Performs told args (fun vs => vs.length = n) fs) (hcount : MayCompute told gs count) :
    Computes told (emitCall e callee launch (some signature) value args count)
      (es ++ (fs ++ if launch then gs ++ [.launch n signature] else [.call (told && callee.isVarying) n signature])) := by
  unfold emitCall
  refine Computes.bind hcallee fun c => Performs.bind hargs fun vs hvs => ?_
  cases launch with
  | true =>
    obtain ⟨m, rfl⟩ := Option.isSome_iff_exists.mp (hl rfl)
    refine Computes.bind (hcount : Computes told m gs) fun k => Performs.congr (computes_emit _) ?_
    rw [← hvs]
    rfl
  | false =>
    obtain ⟨v, hv, htold⟩ := isVaryingCallee_told hc hr
    refine Computes.read hv (Performs.congr (computes_emit _) ?_)
    rw [← hvs, ← htold]
    rfl

/-! ## Elements and members -/

section
variable {base i : Expr} {baseValue : Emit Value} {baseAddress : Emit (Option Value)} (hv : Computes told baseValue es)
  (ha : Finds told base.hasAddress baseAddress es)
include hv ha

theorem elementAddress_finds (h : Checked T (.index node base i)) (hp : Computes told position fs) :
    Finds told (index node base i).hasAddress (elementAddress (.index node base i) base baseValue baseAddress position)
      (es ++ fs) := by
  have hb : Checked T base := h.child (by simp [children])
  obtain ⟨t, ht, -⟩ := hb.typed
  obtain ⟨a, haddress⟩ := h.addressType_ok
  have hfound := hasAddress_of_ok haddress
  unfold elementAddress Finds
  rw [haddress, Emit.lift_ok, pure_bind]
  cases a with
  | none =>
    rw [hfound]
    exact Performs.pure rfl
  | some a =>
    have hsome := h.hasAddress_index ht
    rw [hfound] at hsome ⊢
    have last : ∀ b, Performs told (do
        let i ← position
        return some (← emit (.elementAddress b i t.stored a))) (fun r => r.isSome = true) fs := fun b =>
      Performs.congr (Performs.bind hp fun i _ => Performs.bind (computes_emit _) fun _ _ => Performs.pure rfl)
        (List.append_nil fs)
    dsimp only
    rw [type_ok ht, Emit.lift_ok, pure_bind]
    cases hp : t.stored.isPointer with
    | true => exact Performs.bind hv fun b _ => last b
    | false =>
      rw [hp, Bool.false_or] at hsome
      have hs : base.isStorage = .ok true := by
        rw [hb.isStorage_eq, (Bool.and_eq_true_iff.mp hsome.symm).2]
      exact Performs.bind (storageAddress_computes hb hs hv ha) fun b _ => last b

theorem memberAddress_finds {name : String} {arrow : Bool} {access : Option Access}
    (h : Checked T (.member node base name arrow access)) :
    Finds told (member node base name arrow access).hasAddress
      (memberAddress (.member node base name arrow access) base arrow access baseValue baseAddress) es := by
  have hb : Checked T base := h.child (by simp [children])
  obtain ⟨x, -, rfl, -⟩ := h.here.grounded
  obtain ⟨a, haddress⟩ := h.addressType_ok
  have hfound := hasAddress_of_ok haddress
  unfold memberAddress Finds
  rw [haddress, Emit.lift_ok, pure_bind]
  cases a with
  | none =>
    rw [hfound]
    exact Performs.pure rfl
  | some a =>
    have hsome := h.hasAddress_member
    rw [hfound] at hsome ⊢
    have last : ∀ b, Performs told (do
        let a' ← accessOf (.member node base name arrow (some x)) (some x)
        return some (← emit (.memberAddress b a'.position a'.aggregate a))) (fun r => r.isSome = true) [] := fun b =>
      Performs.read rfl (Performs.bind (computes_emit _) fun _ _ => Performs.pure rfl)
    cases arrow with
    | true => exact Performs.congr (Performs.bind hv fun b _ => last b) (List.append_nil es)
    | false =>
      have hs : base.isStorage = .ok true := by
        rw [hb.isStorage_eq]
        rw [Bool.false_or] at hsome
        rw [(Bool.and_eq_true_iff.mp hsome.symm).2]
      exact Performs.congr (Performs.bind (storageAddress_computes hb hs hv ha) fun b _ => last b) (List.append_nil es)

end

theorem pickElements_computes {b : Expr} {name : String} {arrow : Bool} {access : Option Access}
    (h : Checked T (.member node b name arrow access)) (hr : (member node b name arrow access).Ready told) (e : Expr)
    (hv : Computes told value es) : Computes told (pickElements e node access value) es := by
  obtain ⟨t, hn, -⟩ := h.typed
  obtain ⟨x, -, rfl, -⟩ := h.here.grounded
  unfold pickElements
  refine Computes.read rfl (Computes.bind_quiet hv fun b => ?_)
  split
  · rename_i i j rest aggregate
    obtain ⟨u, hu, hvector⟩ := hr _ _ rfl (by simp only [List.length_cons]; omega)
    refine Computes.read (Node.checked_ok hu) ?_
    rw [if_pos hvector]
    exact computes_emit _
  · exact Computes.read (Node.checked_ok hn) (computes_emit _)

/-! ## Pointers -/

theorem emitNew_computes {allocated : Ty} {count init : Option (Emit Value)} (hn : node.type = some t)
    (hp : t.isPointer = true) (hc : MayCompute told es count) (hi : MayCompute told fs init) :
    Computes told (emitNew node allocated count init)
      (es ++ ([.allocate allocated count.isSome t] ++ (fs ++ if init.isSome then [.store allocated] else []))) := by
  unfold emitNew
  refine Computes.read (Node.checked_ok hn) ?_
  rw [hp, Bool.not_true, if_neg Bool.false_ne_true]
  have filled : ∀ n : Option Value, ∀ m, Computes told m fs → Computes told (do
      let pointer ← emit (.allocate allocated n t)
      let _ ← emit (.store (← m) pointer allocated)
      return pointer) ([.allocate allocated n.isSome t] ++ (fs ++ [.store allocated])) := fun n m hm =>
    Computes.bind (computes_emit _) fun pointer => Computes.bind hm fun _ => Computes.bind_quiet (computes_emit _) fun _ =>
      Computes.pure pointer
  cases count with
  | none =>
    simp only [pure_bind]
    rw [show es = [] from hc]
    cases init with
    | none => rw [show fs = [] from hi]; exact Computes.bind_quiet (computes_emit _) Computes.pure
    | some m => exact filled none m hi
  | some c =>
    simp only [pure_bind]
    refine Computes.bind hc fun n => ?_
    cases init with
    | none => rw [show fs = [] from hi]; exact Computes.bind (computes_emit _) Computes.pure
    | some m => exact filled (some n) m hi

/-! ## Expressions -/

theorem value_call (callee : Expr) (args : List Expr) (launch : Bool) (count : Option Expr) (signature : Option Signature) :
    (call node callee args launch count signature).value =
      emitCall (.call node callee args launch count signature) callee launch signature callee.value (values args)
        (count.map Expr.value) := by
  cases count <;> rw [value] <;> rfl

theorem value_new (allocated : Ty) (count init : Option Expr) (varying : Bool) :
    (new node allocated count init varying).value = emitNew node allocated (count.map Expr.value) (init.map Expr.value) := by
  cases count <;> cases init <;> rw [value] <;> rfl

theorem effectsOf_computed {decided : Expr → Option Bool} {o : Option Expr}
    (h : ∀ c ∈ o.toList, Computes told c.value (c.effects told decided)) :
    MayCompute told (effectsOf told decided o) (o.map Expr.value) := by
  cases o with
  | none => rfl
  | some c => exact h c (by simp)

/-- The code that is emitted for an expression has the effects of the expression, and so has the code for its address. -/
theorem performs (h : Checked T e) (hr : Everywhere (Ready told) e) :
    Computes told e.value (e.effects told fun _ => none) ∧
      Finds told e.hasAddress e.address (e.effects told fun _ => none) := by
  induction e using Expr.induct with
  | h e ih =>
  obtain ⟨t, hn, -⟩ := h.typed
  have child : ∀ c ∈ e.children, Checked T c ∧ c.Ready told ∧ Computes told c.value (c.effects told fun _ => none) ∧
      Finds told c.hasAddress c.address (c.effects told fun _ => none) := fun c hc =>
    ⟨h.child hc, (hr.child hc).here, ih c hc (h.child hc) (hr.child hc)⟩
  have typed : ∀ c ∈ e.children, ∃ u, c.type? = some u := fun c hc => (child c hc).1.typed.imp fun _ => And.left
  -- a node without an address faults nowhere and leaves nothing, whatever its own effects are
  have nowhere : ∀ {es : List Effect}, Finds told false (pure none) es := Performs.pure rfl
  cases e with
  | unary node op c =>
    obtain ⟨-, -, hv, -⟩ := child c (by simp [children])
    rw [value, effects]
    exact ⟨Computes.bind_quiet hv fun _ => Computes.read (Node.checked_ok hn) (computes_emit _), nowhere⟩
  | step node s c amount =>
    obtain ⟨hc, -, hv, ha⟩ := child c (by simp [children])
    obtain ⟨hamount, hs⟩ := hr.here
    have hn' : node.type = some t := hn
    rw [value, effects, hn']
    exact ⟨emitStep_computes s hn hamount (storageAddress_computes hc hs hv ha), nowhere⟩
  | binary node op l r reported =>
    obtain ⟨-, -, hl, -⟩ := child l (by simp [children])
    obtain ⟨-, -, hr, -⟩ := child r (by simp [children])
    rw [value, effects]
    exact ⟨emitBinary_computes h hl hr, nowhere⟩
  | assign node op target v operandType =>
    obtain ⟨hc, -, hv, ha⟩ := child target (by simp [children])
    obtain ⟨-, -, hw, -⟩ := child v (by simp [children])
    obtain ⟨u, hu⟩ := typed v (by simp [children])
    have hn' : node.type = some t := hn
    rw [value, effects, hn']
    exact ⟨emitAssign_computes hn hu (storageAddress_computes hc hr.here hv ha) hw, nowhere⟩
  | select node test a b =>
    obtain ⟨-, -, ht, -⟩ := child test (by simp [children])
    obtain ⟨-, -, ha, -⟩ := child a (by simp [children])
    obtain ⟨-, -, hb, -⟩ := child b (by simp [children])
    rw [value, effects]
    refine ⟨Computes.bind ht fun _ => Computes.bind ha fun _ => Computes.bind_quiet hb fun _ => ?_, nowhere⟩
    exact Computes.read (Node.checked_ok hn) (computes_emit _)
  | list node items =>
    have hitems := values_perform fun c (hc : c ∈ items) => (child c hc).2.2.1
    rw [value, effects]
    refine ⟨Performs.congr (Performs.bind hitems fun _ _ => ?_) (List.append_nil _), nowhere⟩
    exact Computes.read (Node.checked_ok hn) (computes_emit _)
  | call node callee args launch count signature =>
    obtain ⟨hc, hready, hv, -⟩ := child callee (by simp [children])
    have hargs := values_perform fun c (hm : c ∈ args) => (child c (by simp [children, hm])).2.2.1
    obtain ⟨s, -, rfl, -⟩ := h.here.coherent
    have hl : launch = true → (count.map Expr.value).isSome = true := fun h => Option.isSome_map.trans (hr.here.trans h)
    rw [value_call, effects]
    refine ⟨emitCall_computes hc hready hl hv hargs (effectsOf_computed fun c hm => ?_), nowhere⟩
    exact (child c (by simp only [children, List.mem_append, hm, or_true])).2.2.1
  | index node base i =>
    obtain ⟨-, -, hb, ha⟩ := child base (by simp [children])
    obtain ⟨-, -, hp, -⟩ := child i (by simp [children])
    have hfinds := elementAddress_finds hb ha h hp
    rw [value, address, effects]
    refine ⟨loadFrom_computes hn hfinds fun _ => Computes.bind hb fun _ => Computes.bind_quiet hp fun _ => ?_, hfinds⟩
    exact Computes.read (Node.checked_ok hn) (computes_emit _)
  | member node base name arrow access =>
    obtain ⟨-, -, hb, ha⟩ := child base (by simp [children])
    have hfinds := memberAddress_finds hb ha h
    rw [value, address, effects]
    exact ⟨loadFrom_computes hn hfinds fun _ => pickElements_computes h hr.here _ hb, hfinds⟩
  | const node c =>
    rw [value, effects]
    exact ⟨Computes.read (Node.checked_ok hn) (computes_emit _), nowhere⟩
  | cast node target c reported =>
    obtain ⟨-, -, hv, -⟩ := child c (by simp [children])
    obtain ⟨u, hu⟩ := typed c (by simp [children])
    rw [value, effects]
    refine ⟨Computes.bind_quiet hv fun _ => Computes.read (type_ok hu) ?_, nowhere⟩
    exact Computes.read (Node.checked_ok hn) (computes_emit _)
  | reference node c =>
    obtain ⟨hc, -, hv, ha⟩ := child c (by simp [children])
    rw [value, address, effects]
    exact ⟨storageAddress_computes hc hr.here hv ha, ha⟩
  | dereference node c =>
    obtain ⟨-, -, hv, -⟩ := child c (by simp [children])
    obtain ⟨u, hu, hpointed⟩ := hr.here
    rw [value, address, effects, hasAddress_dereference hu, hpointed]
    refine ⟨Computes.bind_quiet hv fun _ => Computes.read (Node.checked_ok hn) (computes_emit _), ?_⟩
    exact Performs.congr (Performs.bind hv fun _ _ => Performs.pure rfl) (List.append_nil _)
  | addressOf node c =>
    obtain ⟨hc, -, hv, ha⟩ := child c (by simp [children])
    rw [value, effects]
    refine ⟨?_, nowhere⟩
    split
    · exact hv
    · rename_i hname
      exact storageAddress_computes hc (hr.here (Bool.eq_false_iff.mpr hname)) hv ha
  | sizeOf node c =>
    obtain ⟨u, hu⟩ := typed c (by simp [children])
    rw [value, effects]
    exact ⟨Computes.read (type_ok hu) (Computes.read (Node.checked_ok hn) (computes_emit _)), nowhere⟩
  | sizeOfType node measured =>
    rw [value, effects]
    exact ⟨Computes.read (Node.checked_ok hn) (computes_emit _), nowhere⟩
  | symbol node s =>
    have hfound : (symbol node s).hasAddress = true := hasAddress_symbol hn
    rw [value, address, effects, hfound]
    refine ⟨Computes.quiet_bind (computes_emit _) fun _ => Computes.read (Node.checked_ok hn) (computes_emit _), ?_⟩
    exact Performs.bind (computes_emit _) fun _ _ => Performs.pure rfl
  | function f =>
    obtain ⟨s, hs⟩ := Option.isSome_iff_exists.mp (h.here.grounded : f.isResolved = true)
    rw [value, effects]
    unfold emitFunction
    rw [hs]
    exact ⟨computes_emit _, nowhere⟩
  | sync node => exact ⟨computes_emit _, nowhere⟩
  | null node =>
    obtain ⟨u, hu, hp⟩ := hr.here
    rw [value, effects]
    refine ⟨Computes.read (Node.checked_ok hu) ?_, nowhere⟩
    rw [if_pos hp]
    exact computes_emit _
  | new node allocated count init varying =>
    obtain ⟨u, hu, hp⟩ := hr.here
    have part : ∀ c : Expr, c ∈ count.toList ++ init.toList → Computes told c.value (c.effects told fun _ => none) :=
      fun c hc => (child c hc).2.2.1
    have hcount := effectsOf_computed fun c hc => part c (List.mem_append_left _ hc)
    have hinit := effectsOf_computed fun c hc => part c (List.mem_append_right _ hc)
    rw [value_new, effects, hu]
    refine ⟨Performs.congr (emitNew_computes hu hp hcount hinit) ?_, nowhere⟩
    rw [Option.isSome_map, Option.isSome_map]
    rfl

/-! ## Well-typed nodes -/

/-- A name of functions that is not said to differ from lane to lane. -/
def UniformName : Expr → Prop
  | e@(.function _) => e.isVarying = false
  | _ => True

theorem isStorage_of_addressTypeOf {a : Ty} (h : Checked T e) (ha : Check.addressTypeOf e = .ok (some a)) : e.isStorage = .ok true := by
  obtain ⟨t, ht, -⟩ := h.typed
  rw [h.isStorage_eq, denotesStorage, isReference_eq ht]
  unfold Check.addressTypeOf at ha
  rw [type_ok ht] at ha
  cases t with
  | reference => rw [Ty.isReference, Bool.or_true]
  | _ => rw [hasAddress_of_ok ha]; rfl

theorem pickedType_isVector {indices : List Nat} {aggregate t : Ty} {varying : Bool} (hlen : 2 ≤ indices.length)
    (h : (Access.swizzle indices aggregate).pickedType varying = some t) : t.isVector = true := by
  cases aggregate with
  | vector s n o =>
    simp only [Access.pickedType, show indices.length ≠ 1 by omega, if_false, Option.some.injEq] at h
    rw [← h]
    rfl
  | _ => cases h

theorem WellTyped.ready (h : Checked T e) (hw : e.WellTyped) (hname : told = true → e.UniformName) : e.Ready told := by
  cases e with
  | step node s c amount =>
    obtain ⟨-, ⟨one, rfl, -⟩, hs, -⟩ := hw
    exact ⟨rfl, hs⟩
  | assign node op target v operandType => exact hw.2.1
  | call node callee args launch count signature => exact hw.2.2
  | member node base name arrow access =>
    obtain ⟨t, aggregate, varying, x, -, -, rfl, -, hn⟩ := hw
    obtain ⟨u, hu, -⟩ := h.typed
    intro indices a hx hlen
    cases hx
    exact ⟨u, hu, pickedType_isVector hlen (hn.symm.trans hu)⟩
  | reference node c =>
    obtain ⟨t, -, -, -, hs⟩ := hw
    exact hs
  | dereference node c =>
    obtain ⟨t, u, ht, hread, -⟩ := hw
    refine ⟨t, ht, ?_⟩
    cases t with
    | reference | pointer => rfl
    | _ => cases hread
  | addressOf node c =>
    intro hn
    obtain ⟨a, ha, -⟩ := hw.2 hn
    exact isStorage_of_addressTypeOf (h.child (by simp [children])) ha
  | function f => exact hname
  | null node => exact hw
  | new node allocated count init varying => exact ⟨_, hw.1, rfl⟩
  | _ => trivial

theorem ready_everywhere (h : Checked T e) (hw : Everywhere WellTyped e) (hname : told = true → Everywhere UniformName e) :
    Everywhere (Ready told) e := by
  induction e using Expr.induct with
  | h e ih =>
  refine .node (WellTyped.ready h hw.here fun ht => (hname ht).here) fun c hc => ?_
  exact ih c hc (h.child hc) (hw.child hc) fun ht => (hname ht).child hc

end Expr

end Spmd
