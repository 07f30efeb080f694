import Spmd.Optimization
import Spmd.Proofs.Expr.Everywhere
import Spmd.Proofs.Session.Secluded

/-!
# Optimizing in any session

What the optimizer makes of an expression, and what it reports of it, does not depend on the session
(`Check.optimize_steady`): the session only collects what could not be folded.
-/

namespace Spmd.Check

/-- A pass that does the same in all sessions, whatever is expected of its findings: it has none. -/
def Steady {α : Type} (m : Check α) : Prop := ∀ B : Bounds, Secluded B m fun _ => True

variable {α β : Type} {node : Node} {reported : Bool}

/-! ## Steps -/

theorem Steady.pure (a : α) : Steady (pure a) := fun _ => Secluded.pure trivial

theorem Steady.lift (x : Except Fault α) : Steady (liftM x) := fun _ => Secluded.lift fun _ _ => trivial

theorem Steady.bind {m : Check β} {k : β → Check α} (h : Steady m) (hk : ∀ b, Steady (k b)) : Steady (m >>= k) :=
  fun B => Secluded.bind (h B) fun b _ => hk b B

theorem Steady.read {x : Except Fault β} {k : β → Check α} (hk : ∀ b, Steady (k b)) :
    Steady ((liftM x : Check β) >>= k) :=
  Steady.bind (Steady.lift x) hk

/-- The result of a steady pass is the same in all sessions. -/
theorem Steady.result {m : Check α} (h : Steady m) : ∃ x : Except Fault α, ∀ s : Session, (m.run s).1 = x := by
  obtain ⟨x, new, found, hrun, -⟩ := h ⟨fun _ => True, fun _ => True, fun _ => True⟩
  exact ⟨x, fun s => congrArg Prod.fst (hrun s trivial)⟩

theorem reportFold_steady (cause : FoldProblem) : Steady (reportFold node cause reported) := by
  unfold reportFold
  split
  · exact Steady.pure ()
  · exact fun _ => report_secluded _ _

/-! ## Operators -/

theorem optimizeUnary_steady (op : ValueOp) (e : Expr) : Steady (optimizeUnary node op e) := by
  unfold optimizeUnary
  refine Steady.read fun renewed => ?_
  split
  · exact Steady.pure _
  · split
    · exact Steady.pure _
    · refine Steady.read fun f => ?_
      split
      · exact Steady.read fun _ => Steady.pure _
      · exact Steady.pure _

theorem optimizeComma_steady (l r : Expr) : Steady (optimizeComma node l r reported) := by
  unfold optimizeComma
  split
  · exact Steady.read fun _ => Steady.pure _
  · refine Steady.read fun t => ?_
    split
    · exact Steady.pure _
    · exact Steady.pure _

theorem foldConstants_steady (op : BinaryOp) (l r : Expr) (a b : Constant) :
    Steady (foldConstants node op l r a b reported) := by
  unfold foldConstants
  refine Steady.read fun renewed => Steady.read fun f => ?_
  split
  · exact Steady.read fun _ => Steady.pure _
  · exact Steady.bind (reportFold_steady _) fun _ => Steady.pure _
  · exact Steady.pure _

theorem optimizeBinary_steady (op : BinaryOp) (l r : Expr) (pointer : Except Fault Bool) :
    Steady (optimizeBinary node op l r reported pointer) := by
  unfold optimizeBinary
  split
  · exact optimizeComma_steady l r
  · split
    · refine Steady.read fun pointer => Steady.read fun renewed => ?_
      split
      · exact Steady.pure _
      · exact foldConstants_steady op l r _ _
    · exact Steady.read fun _ => Steady.pure _

theorem optimizeCast_steady (target : Ty) (e : Expr) : Steady (optimizeCast node target e reported) := by
  unfold optimizeCast
  refine Steady.read fun renewed => Steady.read fun type => Steady.read fun source => ?_
  split
  · exact Steady.pure _
  · split
    · split
      · unfold foldCasted
        refine Steady.read fun renewed => Steady.read fun kind => ?_
        split
        · exact Steady.read fun _ => Steady.pure _
        · exact Steady.bind (reportFold_steady _) fun _ => Steady.pure _
        · exact Steady.pure _
      · exact Steady.pure _
    · exact Steady.pure _

/-! ## Operands that may be missing -/

/-- Optimizes an operand, if there is one. -/
def optimizeGiven : Option Expr → Check (Option (Option Expr))
  | none => return some none
  | some e => do return (← optimize e).map some

section
variable {count init : Option Expr}

theorem optimize_call (callee : Expr) (args : List Expr) (launch : Bool) (signature : Option Signature) :
    optimize (.call node callee args launch count signature) = do
      let callee ← optimize callee
      let args ← optimizeAll args
      let count ← optimizeGiven count
      match callee, args, count with
      | some callee, some args, some count => return some (.call (← node.renewed) callee args launch count signature)
      | _, _, _ => return none := by
  cases count <;> simp only [optimize, optimizeGiven, pure_bind, bind_assoc] <;> rfl

theorem optimize_new (t : Ty) (varying : Bool) :
    optimize (.new node t count init varying) = do
      let count ← optimizeGiven count
      let init ← optimizeGiven init
      match count, init with
      | some count, some init => return some (.new (← node.renewed) t count init varying)
      | _, _ => return none := by
  cases count <;> cases init <;> simp only [optimize, optimizeGiven, pure_bind, bind_assoc] <;> rfl

end

/-! ## Expressions -/

theorem rebuild_steady (make : Node → Expr → Expr) (o : Option Expr) : Steady (rebuild node make o) := by
  unfold rebuild
  cases o with
  | none => exact Steady.pure _
  | some e => exact Steady.read fun _ => Steady.pure _

theorem rebuildBoth_steady (make : Node → Expr → Expr → Expr) (l r : Option Expr) :
    Steady (rebuildBoth node make l r) := by
  unfold rebuildBoth
  split
  · exact Steady.read fun _ => Steady.pure _
  · exact Steady.pure _

theorem kept_steady {e : Expr} {k : Option Expr → Check α} (h : Steady (optimize e)) (hk : ∀ o, Steady (k o)) :
    Steady (if isSymbol e = true then Pure.pure (some e) >>= k else optimize e >>= k) := by
  split
  · exact hk (some e)
  · exact Steady.bind h hk

theorem optimizeAll_steady : ∀ {es : List Expr}, (∀ e ∈ es, Steady (optimize e)) → Steady (optimizeAll es)
  | [], _ => Steady.pure _
  | e :: es, h => by
    rw [optimizeAll]
    refine Steady.bind (h e List.mem_cons_self) fun first => ?_
    refine Steady.bind (optimizeAll_steady fun c hc => h c (List.mem_cons_of_mem _ hc)) fun rest => ?_
    split
    · exact Steady.pure _
    · exact Steady.pure _

theorem optimizeGiven_steady {o : Option Expr} (h : ∀ e, o = some e → Steady (optimize e)) : Steady (optimizeGiven o) := by
  cases o with
  | none => exact Steady.pure _
  | some e => exact Steady.bind (h e rfl) fun _ => Steady.pure _

theorem optimize_steady (e : Expr) : Steady (optimize e) := by
  induction e using Expr.induct with
  | h e ih =>
  -- whatever becomes of the operands, the step that follows is steady
  cases e with
  | unary node op c =>
    rw [optimize]
    refine Steady.bind (ih c (by simp [Expr.children])) fun o => ?_
    cases o with
    | none => exact Steady.pure _
    | some c => exact optimizeUnary_steady op c
  | step node s c amount =>
    rw [optimize]
    exact kept_steady (ih c (by simp [Expr.children])) fun o => rebuild_steady _ o
  | binary node op l r reported =>
    rw [optimize]
    refine Steady.bind (ih l (by simp [Expr.children])) fun l' => ?_
    refine Steady.bind (ih r (by simp [Expr.children])) fun r' => ?_
    split
    · exact optimizeBinary_steady op _ _ _
    · exact Steady.pure _
  | assign node op t v operandType =>
    rw [optimize]
    refine kept_steady (ih t (by simp [Expr.children])) fun t' => ?_
    exact Steady.bind (ih v (by simp [Expr.children])) fun v' => rebuildBoth_steady _ t' v'
  | select node t a b =>
    rw [optimize]
    refine Steady.bind (ih t (by simp [Expr.children])) fun t' => ?_
    refine Steady.bind (ih a (by simp [Expr.children])) fun a' => ?_
    refine Steady.bind (ih b (by simp [Expr.children])) fun b' => ?_
    split
    · exact Steady.lift _
    · exact Steady.pure _
  | list node es =>
    rw [optimize]
    refine Steady.bind (optimizeAll_steady ih) fun o => ?_
    split
    · exact Steady.read fun _ => Steady.pure _
    · exact Steady.pure _
  | call node c args launch count signature =>
    rw [optimize_call]
    refine Steady.bind (ih c (by simp [Expr.children])) fun c' => ?_
    refine Steady.bind (optimizeAll_steady fun a ha => ih a (by simp [Expr.children, ha])) fun args' => ?_
    refine Steady.bind (optimizeGiven_steady fun n hn => ih n (by simp [Expr.children, hn])) fun count' => ?_
    split
    · exact Steady.read fun _ => Steady.pure _
    · exact Steady.pure _
  | index node b i =>
    rw [optimize]
    refine Steady.bind (ih b (by simp [Expr.children])) fun b' => ?_
    exact Steady.bind (ih i (by simp [Expr.children])) fun i' => rebuildBoth_steady _ b' i'
  | member node b name arrow access =>
    rw [optimize]
    exact Steady.bind (ih b (by simp [Expr.children])) fun o => rebuild_steady _ o
  | cast node t c reported =>
    rw [optimize]
    refine Steady.bind (ih c (by simp [Expr.children])) fun o => ?_
    cases o with
    | none => exact Steady.pure _
    | some c => exact optimizeCast_steady t c
  | reference node c =>
    rw [optimize]
    exact kept_steady (ih c (by simp [Expr.children])) fun o => rebuild_steady _ o
  | dereference node c =>
    rw [optimize]
    exact Steady.bind (ih c (by simp [Expr.children])) fun o => rebuild_steady _ o
  | addressOf node c =>
    rw [optimize]
    exact kept_steady (ih c (by simp [Expr.children])) fun o => rebuild_steady _ o
  | symbol node s =>
    rw [optimize]
    exact Steady.lift _
  | new node t count init varying =>
    rw [optimize_new]
    refine Steady.bind (optimizeGiven_steady fun n hn => ih n (by simp [Expr.children, hn])) fun count' => ?_
    refine Steady.bind (optimizeGiven_steady fun i hi => ih i (by simp [Expr.children, hi])) fun init' => ?_
    split
    · exact Steady.read fun _ => Steady.pure _
    · exact Steady.pure _
  | const | sizeOf | sizeOfType | function | sync | null => exact Steady.pure _

/-! ## The one result -/

/-- What the optimizer makes of an expression, in any session. -/
def optimized? (e : Expr) : Option Expr :=
  match (optimize e).run { target := .standard } with
  | (.ok o, _) => o
  | (.error _, _) => none

theorem optimized_of_run {e o : Expr} {s s' : Session} (h : (optimize e).run s = (.ok (some o), s')) :
    optimized? e = some o := by
  obtain ⟨x, hx⟩ := (optimize_steady e).result
  have hs := hx s
  have hstandard := hx { target := .standard }
  rw [h] at hs
  rw [← hs] at hstandard
  unfold optimized?
  cases hrun : (optimize e).run { target := .standard } with
  | mk y t =>
    rw [hrun] at hstandard
    rw [show y = .ok (some o) from hstandard]

theorem Meets.optimized {T : Target} {e : Expr} {Q : Option Expr → Log → Prop} (h : Meets T (optimize e) Q) :
    Meets T (optimize e) fun o new => Q o new ∧ ∀ e', o = some e' → optimized? e = some e' := by
  intro s hs
  obtain ⟨o, new, found, hrun, hq⟩ := h s hs
  exact ⟨o, new, found, hrun, hq, fun e' ho => optimized_of_run (ho ▸ hrun)⟩

theorem Folds.optimized {T : Target} {e : Expr} {P : Expr → Prop} (h : Folds T (optimize e) P) :
    Folds T (optimize e) fun o => P o ∧ optimized? e = Option.some o :=
  Meets.mono (Meets.optimized h) fun _ _ ⟨⟨⟨e', ho, hp⟩, hnew⟩, hopt⟩ => ⟨⟨e', ho, hp, hopt e' ho⟩, hnew⟩

end Spmd.Check
