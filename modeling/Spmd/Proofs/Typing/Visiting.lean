import Spmd.Proofs.Session.Result
import Spmd.Proofs.Session.Secluded
import Spmd.Typing.Check

/-!
# Operands first, then one step

A check goes over the operands of an expression in turn, and then takes the one step that is left of the expression
(`Check.check_eq`). So a contract that goes from two passes to both in turn (`Check.Law`) holds of the check of an expression
where it holds of the checks of its operands, and of the step for whatever they come out as (`Check.Law.check`).
-/

namespace Spmd

/-- Whether the children of an expression are checked: an allocation of `void` is refused at once. -/
def Expr.visits : Expr → Bool
  | .new _ t _ _ _ => !t.isVoid
  | _ => true

namespace Check

open Spmd.Expr

/-! ## Operands -/

/-- What an operand is to its expression: whether its type is needed, or how many arguments it is called with. -/
inductive Role
  | typed
  | plain
  | callee (arguments : Nat)

def Role.visit : Role → Expr → Check (Option Expr)
  | .typed, e => needed (Check.check e)
  | .plain, e | .callee _, e => Check.check e

/-- The operands of an expression in the order in which they are checked. -/
def operands : Expr → List (Role × Expr)
  | .unary _ _ c | .step _ _ c _ | .member _ c .. | .reference _ c | .dereference _ c | .sizeOf _ c => [(.typed, c)]
  | .cast _ _ c _ | .addressOf _ c => [(.plain, c)]
  | .binary _ _ l r _ | .index _ l r => [(.typed, l), (.typed, r)]
  | .assign _ op t v _ => [(.typed, t), (if op = .plain then .plain else .typed, v)]
  | .select _ t a b => [(.typed, t), (.typed, a), (.typed, b)]
  | .list _ es => es.map (.typed, ·)
  | .call _ c args _ count _ => (.callee args.length, c) :: (args ++ count.toList).map (.plain, ·)
  | .new _ _ count init _ => count.toList.map (.typed, ·) ++ init.toList.map (.plain, ·)
  | .const .. | .sizeOfType .. | .symbol .. | .function _ | .sync _ | .null _ => []

theorem map_snd_operands (e : Expr) : (operands e).map Prod.snd = e.children := by
  cases e <;> simp [operands, children, Function.comp_def]

theorem mem_children {e : Expr} {o : Role × Expr} (h : o ∈ operands e) : o.2 ∈ e.children :=
  map_snd_operands e ▸ List.mem_map_of_mem h

theorem callee_mem {e c : Expr} {n : Nat} (h : (.callee n, c) ∈ operands e) :
    ∃ node args launch count signature, e = .call node c args launch count signature ∧ n = args.length := by
  cases e with
  | call node c' args launch count signature =>
    have hc : n = args.length ∧ c = c' := by simpa [operands] using h
    obtain ⟨rfl, rfl⟩ := hc
    exact ⟨node, args, launch, count, signature, rfl, rfl⟩
  | assign node op =>
    by_cases hop : op = .plain <;> simp [operands, hop] at h
  | _ => simp [operands] at h

/-- Checks operands in turn; no result when one of them has none. -/
def visitAll : List (Role × Expr) → Check (Option (List Expr))
  | [] => return some []
  | o :: os => do
    let first ← o.1.visit o.2
    let rest ← visitAll os
    return first.bind fun e => rest.map (e :: ·)

/-- The step that is left of an expression, given what its operands came out as. -/
def join : Expr → List Expr → Check (Option Expr)
  | .unary node op _, [c] => checkUnary node op c
  | .step node s .., [c] => checkStep node s c
  | .binary node op .., [l, r] => checkBinary node op l r
  | .assign node op .., [t, v] => checkAssign node op t v
  | .select node .., [t, a, b] => checkSelect node t a b
  | .list node _, es => checkList node es
  | .call node _ _ launch none _, c :: args => checkCall node c args launch none
  | .call node _ _ launch (some _) _, c :: rest => checkCall node c rest.dropLast launch rest.getLast?
  | .index node .., [b, i] => checkIndex node b i
  | .member node _ name arrow _, [b] => checkMember node b name arrow
  | .cast node t .., [c] => checkCast node t c
  | .reference node _, [c] => checkReference node c
  | .dereference node _, [c] => checkDereference node c
  | .addressOf node _, [c] => checkAddressOf node c
  | .sizeOf node _, [c] => checkSizeOf node c
  | .new node t none none varying, _ => checkNew node t none none varying
  | .new node t (some _) none varying, [n] => checkNew node t (some n) none varying
  | .new node t none (some _) varying, [e] => checkNew node t none (some e) varying
  | .new node t (some _) (some _) varying, [n, e] => checkNew node t (some n) (some e) varying
  | e, _ => check e

theorem checkEach_eq (typesNeeded : Bool) (es : List Expr) :
    checkEach typesNeeded es = visitAll (es.map fun e => (if typesNeeded then .typed else .plain, e)) := by
  induction es with
  | nil => rw [checkEach]; rfl
  | cons e es ih =>
    rw [checkEach, ih]
    cases typesNeeded
    all_goals
      refine bind_congr fun first => bind_congr fun rest => ?_
      cases first <;> cases rest <;> rfl

theorem visitAll_append (os os' : List (Role × Expr)) :
    visitAll (os ++ os') = do
      let first ← visitAll os
      let rest ← visitAll os'
      return first.bind fun es => rest.map (es ++ ·) := by
  induction os with
  | nil =>
    simp only [List.nil_append, visitAll, pure_bind, Option.bind_some, Option.map_id', bind_pure]
  | cons o os ih =>
    simp only [List.cons_append, visitAll, ih, bind_assoc, pure_bind]
    refine bind_congr fun e => bind_congr fun es => bind_congr fun es' => ?_
    cases e <;> cases es <;> cases es' <;> rfl

/-- Unless it is refused at once, an expression is checked after its operands are, if they all have results. -/
theorem check_eq {e : Expr} (h : e.visits = true) :
    check e = visitAll (operands e) >>= fun
      | some es => join e es
      | none => return none := by
  -- both sides go over the operands alike, so that it only remains to compare what follows for all results
  cases e with
  | list node es =>
    rw [check, checkEach_eq]
    refine bind_congr fun es => ?_
    cases es <;> rfl
  | call node c args launch count signature =>
    rw [check, checkEach_eq]
    cases count with
    | none =>
      simp only [operands, Option.toList, List.append_nil, visitAll, bind_assoc, pure_bind]
      refine bind_congr fun c => bind_congr fun args => ?_
      cases c <;> cases args <;> rfl
    | some n =>
      simp only [operands, Option.toList, List.map_append, List.map_cons, List.map_nil, visitAll, visitAll_append, bind_assoc,
        pure_bind]
      refine bind_congr fun c => bind_congr fun args => bind_congr fun n => ?_
      cases c <;> cases args <;> cases n <;> simp [join]
  | new node t count init varying =>
    have ht : ¬t.isVoid = true := by simpa [visits] using h
    rw [check, if_neg ht]
    cases count <;> cases init <;>
      simp only [operands, Option.toList, List.map_nil, List.map_cons, List.nil_append, List.append_nil, List.cons_append,
        visitAll, bind_assoc, pure_bind]
    · rfl
    · refine bind_congr fun e => ?_
      cases e <;> rfl
    · refine bind_congr fun n => ?_
      cases n <;> rfl
    · refine bind_congr fun n => bind_congr fun e => ?_
      cases n <;> cases e <;> rfl
  | unary | step | member | reference | dereference | sizeOf | cast | addressOf =>
    rw [check]
    simp only [operands, visitAll, bind_assoc, pure_bind]
    refine bind_congr fun c => ?_
    cases c <;> rfl
  | binary | index =>
    rw [check]
    simp only [operands, visitAll, bind_assoc, pure_bind]
    refine bind_congr fun l => bind_congr fun r => ?_
    cases l <;> cases r <;> rfl
  | assign node op t v =>
    rw [check]
    simp only [operands, visitAll, bind_assoc, pure_bind]
    refine bind_congr fun t => ?_
    by_cases hop : op = .plain
    · simp only [if_pos hop]
      refine bind_congr fun v => ?_
      cases t <;> cases v <;> rfl
    · simp only [if_neg hop]
      refine bind_congr fun v => ?_
      cases t <;> cases v <;> rfl
  | select =>
    rw [check]
    simp only [operands, visitAll, bind_assoc, pure_bind]
    refine bind_congr fun t => bind_congr fun a => bind_congr fun b => ?_
    cases t <;> cases a <;> cases b <;> rfl
  | const | sizeOfType | symbol | function | sync | null => rfl

/-! ## The step that is left -/

/-- The step that is left of an expression whose operands came out as expressions with a property. -/
inductive Joined (P : Role → Expr → Prop) : Expr → Check (Option Expr) → Prop
  | unary {node op c c'} (hc : P .typed c') : Joined P (.unary node op c) (checkUnary node op c')
  | step {node s c amount c'} (hc : P .typed c') : Joined P (.step node s c amount) (checkStep node s c')
  | binary {node op l r reported l' r'} (hl : P .typed l') (hr : P .typed r') :
      Joined P (.binary node op l r reported) (checkBinary node op l' r')
  | set {node t v operandType t' v'} (ht : P .typed t') (hv : P .plain v') :
      Joined P (.assign node .plain t v operandType) (checkAssign node .plain t' v')
  | update {node op t v operandType t' v'} (hop : op ≠ .plain) (ht : P .typed t') (hv : P .typed v') :
      Joined P (.assign node op t v operandType) (checkAssign node op t' v')
  | select {node t a b t' a' b'} (ht : P .typed t') (ha : P .typed a') (hb : P .typed b') :
      Joined P (.select node t a b) (checkSelect node t' a' b')
  | list {node es es'} (hes : ∀ e ∈ es', P .typed e) : Joined P (.list node es) (checkList node es')
  | call {node c args launch count signature c' args' count'} (hc : P (.callee args.length) c')
      (hlength : args'.length = args.length) (hargs : ∀ a ∈ args', P .plain a) (hcount : ∀ n, count' = some n → P .plain n) :
      Joined P (.call node c args launch count signature) (checkCall node c' args' launch count')
  | index {node b i b' i'} (hb : P .typed b') (hi : P .typed i') : Joined P (.index node b i) (checkIndex node b' i')
  | member {node b name arrow access b'} (hb : P .typed b') :
      Joined P (.member node b name arrow access) (checkMember node b' name arrow)
  | cast {node t c reported c'} (hc : P .plain c') : Joined P (.cast node t c reported) (checkCast node t c')
  | reference {node c c'} (hc : P .typed c') : Joined P (.reference node c) (checkReference node c')
  | dereference {node c c'} (hc : P .typed c') : Joined P (.dereference node c) (checkDereference node c')
  | addressOf {node c c'} (hc : P .plain c') : Joined P (.addressOf node c) (checkAddressOf node c')
  | sizeOf {node c c'} (hc : P .typed c') : Joined P (.sizeOf node c) (checkSizeOf node c')
  | new {node t count init varying count' init'} (ht : t.isVoid = false) (hcount : ∀ n, count' = some n → P .typed n)
      (hinit : ∀ e, init' = some e → P .plain e) :
      Joined P (.new node t count init varying) (checkNew node t count' init' varying)
  | void {node t count init varying} (ht : t.isVoid = true) :
      Joined P (.new node t count init varying) (reject node.place .voidAllocation)
  | const {node c} : Joined P (.const node c) (return some (.const node c))
  | sizeOfType {node t} : Joined P (.sizeOfType node t) (checkSizeOfType node t)
  | symbol {node s} : Joined P (.symbol node s) (return some (.symbol node s))
  | function {f} : Joined P (.function f) (check (.function f))
  | sync {node} : Joined P (.sync node) (return some (.sync node))
  | null {node} : Joined P (.null node) (return some (.null node))

section
variable {P : Role → Expr → Prop} {e : Expr} {es : List Expr}

/-- Operands of one role, of which each came out as an expression with the property. -/
theorem each {r : Role} {cs : List Expr} (h : List.Forall₂ (fun o e => P o.1 e) (cs.map fun c => (r, c)) es) :
    es.length = cs.length ∧ ∀ e ∈ es, P r e := by
  refine ⟨by simpa using h.length_eq.symm, fun e he => ?_⟩
  obtain ⟨o, ho, hP⟩ := Forall₂.exists_of_mem h he
  obtain ⟨c, -, rfl⟩ := List.mem_map.mp ho
  exact hP

theorem joined (hv : e.visits = true) (h : List.Forall₂ (fun o r => P o.1 r) (operands e) es) : Joined P e (join e es) := by
  -- the operands and what they came out as are lists of the same shape
  cases e with
  | unary | step | member | reference | dereference | sizeOf | cast | addressOf =>
    obtain _ | ⟨hc, hnil⟩ := h
    cases hnil
    constructor
    exact hc
  | binary | index =>
    obtain _ | ⟨hl, _ | ⟨hr, hnil⟩⟩ := h
    cases hnil
    constructor
    · exact hl
    · exact hr
  | assign node op t v =>
    obtain _ | ⟨ht, _ | ⟨hv, hnil⟩⟩ := h
    cases hnil
    by_cases hop : op = .plain
    · subst hop
      exact .set ht hv
    · exact .update hop ht (by simpa only [if_neg hop] using hv)
  | select =>
    obtain _ | ⟨ht, _ | ⟨ha, _ | ⟨hb, hnil⟩⟩⟩ := h
    cases hnil
    exact .select ht ha hb
  | list node es => exact .list (each h).2
  | call node c args launch count signature =>
    obtain _ | @⟨_, _, c', rest, hc, hrest⟩ := h
    obtain ⟨hlength, hargs⟩ := each hrest
    cases count with
    | none => exact .call hc (by simpa using hlength) hargs nofun
    | some n =>
      have hlast : rest.dropLast.length = args.length := by simp [hlength]
      exact .call hc hlast (fun a ha => hargs a (rest.dropLast_subset ha)) fun n hn => hargs n (List.mem_of_getLast? hn)
  | new node t count init varying =>
    have ht : t.isVoid = false := by simpa [visits] using hv
    have one {r : Role} {e' : Expr} (he : P r e') : ∀ c, some e' = some c → P r c := fun _ hc => Option.some.inj hc ▸ he
    cases count with
    | none =>
      cases init with
      | none =>
        cases h
        rw [join]
        exact .new ht nofun nofun
      | some e =>
        obtain _ | ⟨he, hnil⟩ := h
        cases hnil
        rw [join]
        exact .new ht nofun (one he)
    | some n =>
      cases init with
      | none =>
        obtain _ | ⟨hn, hnil⟩ := h
        cases hnil
        rw [join]
        exact .new ht (one hn) nofun
      | some e =>
        obtain _ | ⟨hn, _ | ⟨he, hnil⟩⟩ := h
        cases hnil
        rw [join]
        exact .new ht (one hn) (one he)
  | const => exact .const
  | sizeOfType => exact .sizeOfType
  | symbol => exact .symbol
  | function => exact .function
  | sync => exact .sync
  | null => exact .null

end

/-! ## Results of operands -/

section
variable {T : Target} {e : Expr} {P : Expr → Prop} {m : Check (Option Expr)}

theorem resolved_yields (h : P e) : Yields T (resolved (some e)) P := by
  unfold resolved
  split
  · rename_i f hf
    cases hf
    split
    · exact Yields.some h
    · exact Yields.reject _ _
  · exact Yields.some h

/-- Where its type is needed, an operand is left as it is, or has no result. -/
theorem resolved_needed (h : Yields T m P) : Yields T (needed m) P :=
  Yields.bind h (fun _ he => resolved_yields he) (by
    unfold resolved
    exact Yields.none)

theorem Role.visit_yields (r : Role) (h : Yields T (check e) P) : Yields T (r.visit e) P := by
  cases r with
  | typed => exact resolved_needed h
  | plain | callee => exact h

end

/-! ## Contracts -/

section
variable {L : {α : Type} → Check (Option α) → (α → Prop) → Prop} {P : Role → Expr → Prop} {Q : Expr → Prop} {e : Expr}
  {es : List Expr}

theorem Law.visitAll {R : Role × Expr → Expr → Prop} {os : List (Role × Expr)} (hL : Law L)
    (h : ∀ o ∈ os, L (o.1.visit o.2) (R o)) : L (visitAll os) (List.Forall₂ R os) := by
  induction os with
  | nil => exact hL.some .nil
  | cons o os ih =>
    exact hL.both (h o List.mem_cons_self) (ih fun o ho => h o (List.mem_cons_of_mem _ ho))
      (fun e es he hes => hL.some (.cons he hes)) (fun _ => rfl) fun _ => rfl

theorem Law.checkEach {R : Expr → Expr → Prop} (hL : Law L) (typesNeeded : Bool)
    (h : ∀ e ∈ es, L (if typesNeeded then needed (check e) else check e) (R e)) :
    L (checkEach typesNeeded es) (List.Forall₂ R es) := by
  rw [checkEach_eq]
  refine hL.mono (hL.visitAll (R := fun o => R o.2) fun o ho => ?_) fun rs hrs => ?_
  · obtain ⟨e, he, rfl⟩ := List.mem_map.mp ho
    cases typesNeeded <;> exact h e he
  · rwa [List.forall₂_map_left_iff] at hrs

/-- A contract holds of the check of an expression that it holds of the checks of its operands, and then of the step that is
left. -/
theorem Law.check (hL : Law L) (h : ∀ o ∈ operands e, L (o.1.visit o.2) (P o.1)) (hstep : ∀ m, Joined P e m → L m Q) :
    L (check e) Q := by
  by_cases hv : e.visits = true
  · rw [check_eq hv]
    exact hL.bind (hL.visitAll h) (fun es hes => hstep _ (joined hv hes)) rfl
  · cases e with
    | new node t count init varying =>
      have ht : t.isVoid = true := by simpa [visits] using hv
      rw [Check.check, if_pos ht]
      exact hstep _ (.void ht)
    | _ => exact absurd rfl hv

end

end Check

end Spmd
