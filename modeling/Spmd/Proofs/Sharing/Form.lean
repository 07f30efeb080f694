import Spmd.Proofs.Sharing.Conversion
import Spmd.Proofs.Typing.Access
import Spmd.Proofs.Typing.Assignment
import Spmd.Proofs.Typing.Value
import Spmd.Typing.Check

/-!
# Checking a form looks at nothing but the target

Given its checked operands, each form is checked the same in every session. All that can be found out is which function a
name stands for.
-/

namespace Spmd.Check

open Spmd.Expr

variable {T : Target} {B : Bounds} {P : Option Nat → FunctionName → Prop} {k : Option Nat} {node : Node} {e l r : Expr}

/-! ## Operators -/

theorem resolved_finishes {o : Option Expr} (h : ∀ e ∈ o, Waiting P k e) : Finishes T P k (resolved o) := by
  unfold resolved
  split
  · split
    · rename_i f hf
      exact Secluded.some ⟨h _ rfl, fun _ hg => by cases hg; exact hf⟩
    · exact Secluded.reject _ _
  · rename_i hn
    exact Secluded.pure fun e he => ⟨h e he, fun g hg => absurd (he.trans (congrArg some hg)) (hn g)⟩

theorem checkUnary_closes (hP : Lawful P) (h : Waiting P none e) (op : ValueOp) : Closes T P (checkUnary node op e) := by
  unfold checkUnary
  refine Secluded.read fun _ _ => ?_
  dsimp only
  split
  · split
    · exact Secluded.some rfl
    · exact Secluded.reject _ _
  · split
    · exact Secluded.some rfl
    · exact Secluded.reject _ _
  · exact Secluded.needs (convert_leaves hP h _) (fun _ _ => Secluded.read fun _ _ => Secluded.some rfl) Secluded.none

theorem stepAmount_secluded (s : Step) (type : Ty) :
    Secluded (onNames T P) (stepAmount node s type) fun o => ∀ a ∈ o, True := by
  unfold stepAmount
  refine Secluded.target (fun _ ht => ht) ?_
  split
  · split
    · exact Secluded.reject _ _
    · exact Secluded.read fun _ _ => Secluded.some trivial
  · split
    · exact Secluded.read fun _ _ => Secluded.some trivial
    · exact Secluded.reject _ _

theorem checkStep_closes (s : Step) (e : Expr) : Closes T P (checkStep node s e) := by
  unfold checkStep
  refine Secluded.read fun _ _ => Secluded.read fun _ _ => ?_
  split
  · exact Secluded.reject _ _
  · refine Secluded.read fun _ _ => ?_
    dsimp only
    split
    · exact Secluded.reject _ _
    · exact Secluded.needs (stepAmount_secluded _ _) (fun _ _ => Secluded.some rfl) Secluded.none

theorem checkOperands_secluded (place : Option Location) (op : BinaryOp) (left right : Ty) :
    Secluded B (checkOperands place op left right) fun o => ∀ t ∈ o, True := by
  unfold checkOperands
  dsimp only
  split
  · exact Secluded.reject _ _
  · split
    · exact Secluded.reject _ _
    · exact Secluded.needs (commonType_secluded _ _ _) (fun _ _ => Secluded.some trivial) Secluded.none

theorem convertBoth_lawful (hP : Lawful P) (hl : Waiting P none l) (hr : Waiting P none r) (t u : Ty) (context : String) :
    Secluded (onNames T P) (convertBoth l t r u context) fun o => ∀ p ∈ o, Waiting P none p.1 ∧ Waiting P none p.2 := by
  unfold convertBoth
  exact Secluded.both (convert_leaves hP hl t) (convert_leaves hP hr u) (fun _ _ hb hc => Secluded.some ⟨hb, hc⟩)
    (fun _ => Secluded.none) fun _ => Secluded.none

theorem Closes.binaryOf {m : Check (Option (Expr × Expr))} {W : Option (Expr × Expr) → Prop}
    (h : Secluded (onNames T P) m W) (op : BinaryOp) (type : Ty) :
    Closes T P (m >>= fun p => return Check.binaryOf node op type p) := by
  refine Secluded.bind h fun p _ => Secluded.pure fun e he => ?_
  cases p with
  | none => cases he
  | some p => cases he; rfl

theorem checkPointers_closes (hP : Lawful P) (hl : Waiting P none l) (hr : Waiting P none r) (op : BinaryOp) :
    Closes T P (checkPointers node op l r) := by
  have offset : ∀ a b onLeft, Closes T P (offsetPointer node op l r a b onLeft) := by
    intro a b onLeft
    unfold offsetPointer
    generalize (if onLeft then a else b) = pointer, (if onLeft then b else a) = offset
    dsimp only
    split
    · exact Secluded.reject _ _
    · split
      · exact Secluded.reject _ _
      · split
        · exact Secluded.reject _ _
        · exact Secluded.target (fun _ ht => ht) (Closes.binaryOf (convertBoth_lawful hP hl hr _ _ _) _ _)
  unfold checkPointers
  refine Secluded.read fun a _ => Secluded.read fun b _ => ?_
  dsimp only
  split
  · unfold comparePointers
    exact Secluded.needs (commonType_secluded _ _ _) (fun _ _ => Closes.binaryOf (convertBoth_lawful hP hl hr _ _ _) _ _)
      Secluded.none
  · split
    · exact Secluded.reject _ _
    · split
      · unfold subtractPointers
        split
        · exact Secluded.reject _ _
        · split
          · exact Secluded.reject _ _
          · split
            · exact Secluded.reject _ _
            · exact Secluded.target (fun _ ht => ht) (Closes.binaryOf (convertBoth_lawful hP hl hr _ _ _) _ _)
      · exact offset _ _ _
      · exact offset _ _ _

theorem checkLogic_closes (hP : Lawful P) (hl : Waiting P none l) (hr : Waiting P none r) (op : BinaryOp) :
    Closes T P (checkLogic node op l r) := by
  unfold checkLogic
  refine Secluded.read fun t _ => ?_
  refine Secluded.needs (convert_leaves hP hl _) (fun l' _ => ?_) (Secluded.read fun u _ => ?_)
  · refine Secluded.read fun u _ => Secluded.needs (convert_leaves hP hr _) (fun r' _ => ?_) Secluded.none
    exact Secluded.read fun _ _ => Secluded.read fun _ _ => Secluded.some rfl
  · exact Secluded.bind (convert_leaves hP hr _) fun _ _ => Secluded.none

theorem checkBinary_closes (hP : Lawful P) (hl : Waiting P none l) (hr : Waiting P none r) (op : BinaryOp) :
    Closes T P (checkBinary node op l r) := by
  unfold checkBinary
  split
  · exact Secluded.read fun _ _ => Secluded.some rfl
  · exact checkLogic_closes hP hl hr _
  · refine Secluded.read fun a _ => Secluded.read fun b _ => ?_
    dsimp only
    split
    · exact checkPointers_closes hP hl hr op
    · unfold checkValues
      exact Secluded.needs (checkOperands_secluded _ _ _ _)
        (fun _ _ => Closes.binaryOf (convertBoth_lawful hP hl hr _ _ _) _ _) Secluded.none

/-! ## Assignments and selections -/

theorem Closes.assignOf {m : Check (Option Expr)} {W : Option Expr → Prop} (h : Secluded (onNames T P) m W)
    (op : AssignOp) (target : Expr) (type : Ty) (operandType : Option Ty) :
    Closes T P (m >>= fun v => return Check.assignOf node op target type operandType v) := by
  refine Secluded.bind h fun v _ => Secluded.pure fun e he => ?_
  cases v with
  | none => cases he
  | some v => cases he; rfl

theorem checkAssign_closes (hP : Lawful P) {t v : Expr} (hv : Waiting P none v) (op : AssignOp) :
    Closes T P (checkAssign node op t v) := by
  unfold checkAssign
  refine Secluded.read fun _ _ => ?_
  split
  · exact Secluded.reject _ _
  · refine Secluded.read fun type _ => ?_
    dsimp only
    split
    · exact Secluded.reject _ _
    · split
      · exact Secluded.reject _ _
      · split
        · exact Closes.assignOf (convert_leaves hP hv _) _ _ _ _
        · split
          · unfold assignPointer
            refine Secluded.read fun _ _ => ?_
            dsimp only
            split
            · exact Secluded.reject _ _
            · split
              · exact Secluded.reject _ _
              · split
                · exact Secluded.reject _ _
                · exact Secluded.target (fun _ ht => ht) (Closes.assignOf (convert_leaves hP hv _) _ _ _ _)
          · unfold assignCompound
            refine Secluded.read fun _ _ => ?_
            refine Secluded.needs (checkOperands_secluded _ _ _ _) (fun _ _ => ?_) Secluded.none
            refine Secluded.bind (canConvert_secluded _ _ _ _) fun _ _ => ?_
            split
            · exact Closes.assignOf (convert_leaves hP hv _) _ _ _ _
            · exact Secluded.none

theorem checkSelect_closes (hP : Lawful P) {t a b : Expr} (ht : Waiting P none t) (ha : Waiting P none a) (hb : Waiting P none b) :
    Closes T P (checkSelect node t a b) := by
  unfold checkSelect
  refine Secluded.read fun _ _ => ?_
  refine Secluded.needs (convert_leaves hP ht _) (fun _ _ => ?_) Secluded.none
  refine Secluded.read fun _ _ => Secluded.read fun _ _ => ?_
  refine Secluded.needs (commonType_secluded _ _ _) (fun _ _ => ?_) Secluded.none
  exact Secluded.needs (convertBoth_lawful hP ha hb _ _ _) (fun _ _ => Secluded.some rfl) Secluded.none

/-! ## Access -/

theorem checkIndex_closes (hP : Lawful P) {b i : Expr} (hi : Waiting P none i) : Closes T P (checkIndex node b i) := by
  unfold checkIndex
  refine Secluded.read fun _ _ => ?_
  dsimp only
  split
  · exact Secluded.reject _ _
  · refine Secluded.read fun _ _ => ?_
    split
    · exact Secluded.reject _ _
    · refine Secluded.needs (convert_leaves hP hi _) (fun _ _ => ?_) Secluded.none
      dsimp only
      split
      · exact Secluded.reject _ _
      · exact Secluded.some rfl

theorem checkMember_closes (b : Expr) (name : String) (arrow : Bool) : Closes T P (checkMember node b name arrow) := by
  unfold checkMember
  refine Secluded.read fun _ _ => ?_
  split
  · exact Secluded.reject _ _
  · split
    · unfold checkField
      dsimp only
      split
      · exact Secluded.reject _ _
      · exact Secluded.some rfl
    · unfold checkSwizzle
      split
      · exact Secluded.reject _ _
      · exact Secluded.some rfl
    · exact Secluded.reject _ _

theorem checkReference_finishes (h : Finished P k e) : Finishes T P k (checkReference node e) := by
  unfold checkReference
  refine Secluded.read fun _ _ => ?_
  split
  · exact Secluded.some h
  · refine Secluded.read fun _ _ => ?_
    split
    · exact Secluded.read fun _ _ => Secluded.some (.closed rfl)
    · exact Secluded.reject _ _

theorem checkDereference_closes (e : Expr) : Closes T P (checkDereference node e) := by
  unfold checkDereference
  refine Secluded.read fun _ _ => ?_
  split
  · exact Secluded.some rfl
  · split
    · exact Secluded.reject _ _
    · exact Secluded.some rfl
  · exact Secluded.reject _ _

theorem checkAddressOf_closes (e : Expr) : Closes T P (checkAddressOf node e) := by
  unfold checkAddressOf
  split
  · split
    · exact Secluded.reject _ _
    · exact Secluded.read fun _ _ => Secluded.some rfl
  · refine Secluded.read fun _ _ => ?_
    split
    · exact Secluded.some rfl
    · exact Secluded.reject _ _

/-! ## Values -/

/-- A name that is cast is used like the cast, unless the cast picks its function. -/
theorem checkCast_finishes (hP : Lawful P) {target : Ty}
    (h : Waiting P (if (pointedParameters? target).isNone then k else none) e) : Finishes T P k (checkCast node target e) := by
  unfold checkCast
  split
  · cases h with
    | closed closed => cases closed
    | name lawful =>
      rw [convert]
      cases ht : pointedParameters? target with
      | none => exact convertFunction_finishes (by rw [ht] at lawful; exact lawful) ht
      | some ps => exact (convertFunction_closes hP (by rw [ht] at lawful; exact lawful) (by rw [ht]; rfl)).finishes
  · refine Secluded.read fun _ _ => ?_
    split
    · exact Secluded.some (.closed rfl)
    · refine Secluded.bind (canConvert_secluded _ _ _ _) fun possible _ => Secluded.pure fun e he => ?_
      cases possible <;> cases he
      exact .closed rfl

theorem checkSizeOf_closes (e : Expr) : Closes T P (checkSizeOf node e) := by
  unfold checkSizeOf
  refine Secluded.read fun _ _ => ?_
  split
  · exact Secluded.reject _ _
  · exact Secluded.target (fun _ ht => ht) (Secluded.some rfl)

theorem checkSizeOfType_closes (t : Ty) : Closes T P (checkSizeOfType node t) := by
  unfold checkSizeOfType
  split
  · exact Secluded.reject _ _
  · exact Secluded.target (fun _ ht => ht) (Secluded.some rfl)

theorem allocationCount_leaves (hP : Lawful P) (h : Waiting P none e) (varying : Bool) :
    Leaves T P none (allocationCount node e varying) := by
  unfold allocationCount
  refine Secluded.read fun _ _ => ?_
  dsimp only
  split
  · exact Secluded.reject _ _
  · exact convert_leaves hP h _

theorem checkNew_closes (hP : Lawful P) {count init : Option Expr} (hc : ∀ c ∈ count, Waiting P none c)
    (hi : ∀ e ∈ init, Waiting P none e) (t : Ty) (varying : Bool) : Closes T P (checkNew node t count init varying) := by
  have newOf_closed : ∀ {o : Option Expr} {make : Expr → Expr}, (∀ e, (make e).awaitsTarget = false) →
      Closes T P (return o.map make) := by
    intro o make hmake
    cases o with
    | none => exact Secluded.none
    | some e => exact Secluded.some (hmake e)
  unfold checkNew
  split
  · exact Secluded.reject _ _
  · exact Secluded.bind (allocationCount_leaves hP (hc _ rfl) varying) fun _ _ => newOf_closed fun _ => rfl
  · exact Secluded.bind (convert_leaves hP (hi _ rfl) t) fun _ _ => newOf_closed fun _ => rfl
  · exact Secluded.some rfl

/-! ## Calls -/

theorem resolvedAll_secluded (es : List Expr) : Secluded B (resolvedAll es) fun _ => True := by
  induction es with
  | nil => exact Secluded.pure trivial
  | cons e es ih =>
    rw [resolvedAll]
    refine Secluded.bind (Q := fun _ => True) ?_ fun _ _ => Secluded.bind ih fun _ _ => Secluded.pure trivial
    unfold resolved
    split
    · split
      · exact Secluded.pure trivial
      · exact Secluded.mono (Secluded.reject (R := fun _ => True) _ _) fun _ _ => trivial
    · exact Secluded.pure trivial

theorem length_typesOf {es : List Expr} {ts : List Ty} (h : typesOf es = .ok ts) : ts.length = es.length := by
  induction es generalizing ts with
  | nil => cases h; rfl
  | cons e es ih =>
    rw [typesOf] at h
    obtain ⟨t, -, h⟩ := bind_eq_ok h
    obtain ⟨rest, hrest, h⟩ := bind_eq_ok h
    cases h
    rw [List.length_cons, List.length_cons, ih hrest]

theorem calledByName_secluded (hP : Lawful P) {f : FunctionName} (hf : P k f) {args : List Expr}
    (hk : ∀ n, k = some n → args.length = n) :
    Secluded (onNames T P) (calledByName f args) fun o => ∀ c ∈ o, True := by
  unfold calledByName
  refine Secluded.bind (resolvedAll_secluded args) fun all _ => ?_
  split
  · exact Secluded.none
  · refine Secluded.read fun types htypes => ?_
    have hlen : ∀ n, k = some n → (Argument.ofTypes types (args.map Expr.isZeroConstant)).length = n := by
      intro n hn
      rw [length_ofTypes, length_typesOf htypes, hk n hn]
    refine Secluded.bind (resolve_lawful hP hf hlen) fun r _ => ?_
    dsimp only
    split
    · exact Secluded.some trivial
    · exact Secluded.none

theorem calledByValue_secluded (callee : Expr) (args : List Expr) :
    Secluded B (calledByValue node callee args) fun o => ∀ c ∈ o, True := by
  unfold calledByValue
  refine Secluded.read fun _ _ => ?_
  dsimp only
  split
  · exact Secluded.reject _ _
  · split
    · exact Secluded.some trivial
    · exact Secluded.reject _ _

theorem convertStray_secluded (arg : Expr) (context : String) :
    Secluded B (convertStray arg context) fun o => ∀ e ∈ o, True := by
  have refuse : ∀ source, Secluded B (refuseVoid arg source context) fun o => ∀ e ∈ o, True := by
    intro source
    unfold refuseVoid
    split
    · exact Secluded.reject _ _
    · exact Secluded.fault _
  unfold convertStray
  split
  · split
    · exact Secluded.read fun _ _ => refuse _
    · exact Secluded.reject _ _
  · exact Secluded.read fun _ _ => refuse _

theorem convertArguments_secluded (hP : Lawful P) {args : List Expr} (h : ∀ a ∈ args, Waiting P none a) (ps : List Ty) :
    Secluded (onNames T P) (convertArguments args ps) fun o => ∀ as ∈ o, True := by
  induction args generalizing ps with
  | nil => exact Secluded.some trivial
  | cons a as ih =>
    have hrest := ih (fun c hc => h c (List.mem_cons_of_mem _ hc)) ps.tail
    have weaken : ∀ {m : Check (Option Expr)}, Leaves T P none m → Secluded (onNames T P) m fun o => ∀ e ∈ o, True :=
      fun hm => Secluded.mono hm fun _ _ _ _ => trivial
    rw [convertArguments]
    dsimp only
    split
    · exact Secluded.both (weaken (convert_leaves hP (h a List.mem_cons_self) _)) hrest (fun _ _ _ _ => Secluded.some trivial)
        (fun _ => Secluded.none) fun _ => Secluded.none
    · exact Secluded.both (convertStray_secluded a _) hrest (fun _ _ _ _ => Secluded.some trivial)
        (fun _ => Secluded.none) fun _ => Secluded.none

theorem launchCount_leaves (hP : Lawful P) {count : Option Expr} (h : ∀ c ∈ count, Waiting P none c) :
    Leaves T P none (launchCount node count) := by
  unfold launchCount
  cases count with
  | some c => exact convert_leaves hP (h c rfl) _
  | none =>
    exact Secluded.target (fun _ ht => ht) (Secluded.read fun l _ => convert_leaves hP (.closed rfl) _)

theorem applyCallee_closes (hP : Lawful P) {args : List Expr} {count : Option Expr} (ha : ∀ a ∈ args, Waiting P none a)
    (hn : ∀ c ∈ count, Waiting P none c) (callee : Callee) (launch : Bool) :
    Closes T P (applyCallee node callee args launch count) := by
  unfold applyCallee
  split
  · exact Secluded.reject _ _
  · refine Secluded.needs (convertArguments_secluded hP ha _) (fun _ _ => ?_) Secluded.none
    dsimp only
    split
    · exact Secluded.needs (launchCount_leaves hP hn) (fun _ _ => Secluded.some rfl) Secluded.none
    · exact Secluded.some rfl

theorem checkCall_closes (hP : Lawful P) {callee : Expr} {args : List Expr} {count : Option Expr}
    (hc : ∀ f, callee = .function f → ∃ k, P k f ∧ ∀ n, k = some n → args.length = n) (ha : ∀ a ∈ args, Waiting P none a)
    (hn : ∀ c ∈ count, Waiting P none c) (launch : Bool) : Closes T P (checkCall node callee args launch count) := by
  unfold checkCall
  split
  · rename_i f
    obtain ⟨k, hf, hk⟩ := hc f rfl
    exact Secluded.needs (calledByName_secluded hP hf hk) (fun c _ => applyCallee_closes hP ha hn c launch) Secluded.none
  · exact Secluded.needs (calledByValue_secluded _ _) (fun c _ => applyCallee_closes hP ha hn c launch) Secluded.none

end Spmd.Check
