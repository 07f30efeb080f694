import Spmd.Proofs.Code.Measured
import Spmd.Proofs.Optimization.Steady

/-!
# Optimizing without what `sizeof` measures

The optimizer does not enter the operand of a `sizeof`, and nothing it decides elsewhere depends on one. So to optimize the
unmeasured tree is to optimize the tree and to forget the operands then (`Check.optimize_unmeasured`). Neither the code nor what
is reported depends on the operands, but the cost does: it counts them (`typecheck_ignores_measured`).
-/

namespace Spmd

open Spmd.Expr

namespace Check

variable {e left right : Expr} {node : Node} {o o' : Option Expr}

/-- A result without what it measures. -/
abbrev forget {m : Type → Type} [Functor m] (x : m (Option Expr)) : m (Option Expr) := Option.map unmeasured <$> x

theorem forget_bind {m : Type → Type} [Monad m] [LawfulMonad m] {α : Type} (x : m α) (k : α → m (Option Expr)) :
    forget (x >>= k) = x >>= fun a => forget (k a) := map_bind _ x k

theorem forget_lift (x : Except Fault (Option Expr)) : forget (liftM x : Check (Option Expr)) = liftM (forget x) := by
  cases x <;> rfl

theorem unmeasured_folded {v : Constant} (h : folded node v = .ok e) : e.unmeasured = e := by
  unfold folded at h
  obtain ⟨t, -, h⟩ := bind_eq_ok h
  obtain ⟨l, -, h⟩ := bind_eq_ok h
  cases h
  rfl

theorem forget_folded (node : Node) (v : Constant) : forget (m := Check) (do return some (← folded node v)) =
    (do return some (← folded node v)) := by
  cases h : folded node v with
  | error f => rfl
  | ok e =>
    refine congrArg (fun o => (pure (some o) : Check (Option Expr))) ?_
    exact unmeasured_folded h

/-- Runs that are the same once the operands are forgotten end in the same session, with results that measure different things. -/
theorem forget_run {m m' : Check (Option Expr)} (h : forget m' = forget m) {r r' : Session} {o : Expr}
    (hm : (ExceptT.run m).run r = (.ok (some o), r')) :
    ∃ o', (ExceptT.run m').run r = (.ok (some o'), r') ∧ o'.unmeasured = o.unmeasured := by
  have hrun := congrArg (fun x : Check (Option Expr) => (ExceptT.run x).run r) h
  simp only [forget, ExceptT.run_map, StateT.run_map, hm] at hrun
  cases hm' : (ExceptT.run m').run r with
  | mk x s =>
    rw [hm'] at hrun
    rcases x with f | _ | o'
    · cases hrun
    · cases hrun
    · obtain ⟨hresult, rfl⟩ := Prod.mk.inj hrun
      exact ⟨o', rfl, Option.some.inj (Except.ok.inj hresult)⟩

/-! ## Operators -/

theorem optimizeUnary_unmeasured (op : ValueOp) : optimizeUnary node op e.unmeasured = forget (optimizeUnary node op e) := by
  unfold optimizeUnary
  rw [constant_unmeasured, forget_bind]
  refine bind_congr fun renewed => ?_
  dsimp only
  split
  · rfl
  · split
    · rfl
    · rw [forget_bind]
      refine bind_congr fun result => ?_
      split
      · exact (forget_folded node _).symm
      · rfl

theorem optimizeComma_unmeasured (reported : Bool) :
    optimizeComma node left.unmeasured right.unmeasured reported = forget (optimizeComma node left right reported) := by
  unfold optimizeComma
  rw [constant_unmeasured, type_unmeasured, place_unmeasured]
  split
  · rw [forget_bind]
    rfl
  · rw [forget_bind]
    refine bind_congr fun t => ?_
    split <;> rfl

theorem foldConstants_unmeasured (op : BinaryOp) (a b : Constant) (reported : Bool) :
    foldConstants node op left.unmeasured right.unmeasured a b reported =
      forget (foldConstants node op left right a b reported) := by
  unfold foldConstants
  rw [forget_bind]
  refine bind_congr fun renewed => ?_
  rw [forget_bind]
  refine bind_congr fun result => ?_
  cases result with
  | value v => exact (forget_folded node v).symm
  | problem cause =>
    rw [forget_bind]
    rfl
  | unfoldable => rfl

theorem optimizeBinary_unmeasured (op : BinaryOp) (reported : Bool) (pointer : Except Fault Bool) :
    optimizeBinary node op left.unmeasured right.unmeasured reported pointer =
      forget (optimizeBinary node op left right reported pointer) := by
  unfold optimizeBinary
  rw [constant_unmeasured, constant_unmeasured]
  split
  · exact optimizeComma_unmeasured reported
  · split
    · rw [forget_bind]
      refine bind_congr fun p => ?_
      rw [forget_bind]
      refine bind_congr fun renewed => ?_
      split
      · rfl
      · exact foldConstants_unmeasured op _ _ reported
    · rw [forget_bind]
      rfl

/-! ## Selections, casts and symbols -/

theorem foldLanes_unmeasured (test : Constant) :
    foldLanes node test left.unmeasured right.unmeasured = forget (foldLanes node test left right) := by
  unfold foldLanes
  rw [constant_unmeasured, constant_unmeasured, forget_bind]
  refine bind_congr fun renewed => ?_
  split
  · split
    · rfl
    · rw [forget_bind]
      refine bind_congr fun result => ?_
      split
      · rename_i value
        cases h : folded node value with
        | error f => rfl
        | ok l => exact congrArg (fun o => Except.ok (some o)) (unmeasured_folded h).symm
      · rfl
  · rfl

theorem optimizeSelect_unmeasured {test : Expr} :
    optimizeSelect node test.unmeasured left.unmeasured right.unmeasured = forget (optimizeSelect node test left right) := by
  unfold optimizeSelect
  rw [constant_unmeasured]
  split
  · rw [forget_bind]
    rfl
  · rw [forget_bind]
    refine bind_congr fun verdict => ?_
    split
    · rfl
    · rfl
    · rw [foldLanes_unmeasured]
      cases foldLanes node _ left right with
      | error f => rfl
      | ok o =>
        cases o with
        | some e => rfl
        | none =>
          change _ = forget (node.renewed >>= _)
          rw [forget_bind]
          rfl

theorem optimizeCast_unmeasured (target : Ty) (reported : Bool) :
    optimizeCast node target e.unmeasured reported = forget (optimizeCast node target e reported) := by
  unfold optimizeCast foldCasted
  rw [type_unmeasured, constant_unmeasured, forget_bind]
  refine bind_congr fun renewed => ?_
  rw [forget_bind]
  refine bind_congr fun type => ?_
  rw [forget_bind]
  refine bind_congr fun u => ?_
  split
  · rfl
  · split
    · split
      · rw [forget_bind]
        refine bind_congr fun renewed => ?_
        rw [forget_bind]
        refine bind_congr fun kind => ?_
        split
        · exact (forget_folded node _).symm
        · rw [forget_bind]
          rfl
        · rfl
      · rfl
    · rfl

theorem optimizeSymbol_unmeasured (s : Symbol) : forget (optimizeSymbol node s) = optimizeSymbol node s := by
  unfold optimizeSymbol
  rw [forget_bind]
  refine bind_congr fun type => ?_
  split
  · split
    · cases Literal.make type _ <;> rfl
    · rfl
  · rfl

/-! ## Expressions -/

theorem renewed_unmeasured (make : Node → Expr) : (do return some (make (← node.renewed)).unmeasured) =
    forget (m := Check) (do return some (make (← node.renewed))) := by
  rw [forget_bind]
  rfl

theorem rebuild_unmeasured (make : Node → Expr → Expr) (hmake : ∀ n e, (make n e).unmeasured = make n e.unmeasured)
    (o : Option Expr) : rebuild node make (o.map unmeasured) = forget (rebuild node make o) := by
  cases o with
  | none => rfl
  | some e =>
    refine Eq.trans ?_ (renewed_unmeasured (make · e))
    simp only [rebuild, Option.map_some, hmake]

theorem rebuildBoth_unmeasured (make : Node → Expr → Expr → Expr)
    (hmake : ∀ n l r, (make n l r).unmeasured = make n l.unmeasured r.unmeasured) (o o' : Option Expr) :
    rebuildBoth node make (o.map unmeasured) (o'.map unmeasured) = forget (rebuildBoth node make o o') := by
  cases o with
  | none => rfl
  | some l =>
    cases o' with
    | none => rfl
    | some r =>
      refine Eq.trans ?_ (renewed_unmeasured (make · l r))
      simp only [rebuildBoth, Option.map_some, hmake]

section
variable {k k' : Option Expr → Check (Option Expr)} (hk : ∀ o, k (o.map unmeasured) = forget (k' o))
include hk

theorem then_unmeasured (h : optimize e.unmeasured = forget (optimize e)) :
    optimize e.unmeasured >>= k = forget (optimize e >>= k') := by
  rw [h, forget_bind, bind_map_left]
  exact bind_congr hk

theorem kept_unmeasured (h : optimize e.unmeasured = forget (optimize e)) :
    (if isSymbol e.unmeasured = true then pure (some e.unmeasured) >>= k else optimize e.unmeasured >>= k) =
      forget (if isSymbol e = true then pure (some e) >>= k' else optimize e >>= k') := by
  rw [isSymbol_unmeasured]
  split
  · rw [pure_bind, pure_bind]
    exact hk (some e)
  · exact then_unmeasured hk h

end

theorem given_unmeasured {k k' : Expr → Check (Option Expr)} (hk : ∀ e, k e.unmeasured = forget (k' e)) (o : Option Expr) :
    (match o.map unmeasured with
      | some e => k e
      | none => pure none) = forget (match o with
      | some e => k' e
      | none => pure none) := by
  cases o with
  | none => rfl
  | some e => exact hk e

theorem optimizeAll_unmeasured {es : List Expr} (h : ∀ e ∈ es, optimize e.unmeasured = forget (optimize e)) :
    optimizeAll (unmeasuredEach es) = Option.map unmeasuredEach <$> optimizeAll es := by
  induction es with
  | nil => rfl
  | cons e es ih =>
    rw [unmeasuredEach, optimizeAll, optimizeAll, h e List.mem_cons_self, ih fun c hc => h c (List.mem_cons_of_mem e hc)]
    simp only [bind_map_left, map_bind]
    refine bind_congr fun first => bind_congr fun rest => ?_
    cases first <;> cases rest <;> rfl

theorem optimizeGiven_unmeasured {o : Option Expr} (h : ∀ e, o = some e → optimize e.unmeasured = forget (optimize e)) :
    optimizeGiven (unmeasuredOf o) = Option.map unmeasuredOf <$> optimizeGiven o := by
  cases o with
  | none => rfl
  | some e =>
    rw [unmeasuredOf, optimizeGiven, optimizeGiven, h e rfl]
    simp only [bind_map_left, map_bind, map_pure]
    refine bind_congr fun e' => ?_
    cases e' <;> rfl

/-- To optimize the unmeasured tree is to forget the operands of `sizeof` after optimizing. -/
theorem optimize_unmeasured (e : Expr) : optimize e.unmeasured = forget (optimize e) := by
  induction e using Expr.induct with
  | h e ih =>
  cases e with
  | unary node op c =>
    rw [unmeasured, optimize, optimize]
    exact then_unmeasured (given_unmeasured fun e => optimizeUnary_unmeasured op) (ih c (by simp [children]))
  | step node s c amount =>
    rw [unmeasured, optimize, optimize]
    exact kept_unmeasured (rebuild_unmeasured _ fun _ _ => rfl) (ih c (by simp [children]))
  | binary node op l r reported =>
    have hpointer : hasPointer l.unmeasured r.unmeasured = hasPointer l r := by
      unfold hasPointer
      rw [type_unmeasured, type_unmeasured]
    rw [unmeasured, optimize, optimize, hpointer]
    refine then_unmeasured (fun a => then_unmeasured (fun b => ?_) (ih r (by simp [children]))) (ih l (by simp [children]))
    cases a with
    | none => rfl
    | some a =>
      cases b with
      | none => rfl
      | some b => exact optimizeBinary_unmeasured op reported _
  | assign node op t v operandType =>
    rw [unmeasured, optimize, optimize]
    refine kept_unmeasured (fun a => ?_) (ih t (by simp [children]))
    exact then_unmeasured (rebuildBoth_unmeasured (fun n t v => .assign n op t v operandType) (fun _ _ _ => rfl) a)
      (ih v (by simp [children]))
  | select node t a b =>
    rw [unmeasured, optimize, optimize]
    refine then_unmeasured (fun x => then_unmeasured (fun y => then_unmeasured (fun z => ?_) (ih b (by simp [children])))
      (ih a (by simp [children]))) (ih t (by simp [children]))
    cases x with
    | none => rfl
    | some x =>
      cases y with
      | none => rfl
      | some y =>
        cases z with
        | none => rfl
        | some z =>
          change (liftM (optimizeSelect node x.unmeasured y.unmeasured z.unmeasured) : Check _) = forget (liftM _)
          rw [optimizeSelect_unmeasured, forget_lift]
  | list node es =>
    rw [unmeasured, optimize, optimize, optimizeAll_unmeasured fun a (ha : a ∈ es) => ih a ha, bind_map_left, forget_bind]
    refine bind_congr fun items => ?_
    cases items with
    | none => rfl
    | some items => exact renewed_unmeasured (.list · items)
  | call node callee args launch count signature =>
    rw [unmeasured, optimize_call, optimize_call]
    refine then_unmeasured (fun c => ?_) (ih callee (by simp [children]))
    rw [optimizeAll_unmeasured fun a ha => ih a (by simp [children, ha]), bind_map_left, forget_bind]
    refine bind_congr fun items => ?_
    rw [optimizeGiven_unmeasured fun n hn => ih n (by simp [children, hn]), bind_map_left, forget_bind]
    refine bind_congr fun count => ?_
    -- where one of the operands has no result there is none on either side
    cases c with
    | none => rfl
    | some c =>
      cases items with
      | none => rfl
      | some items =>
        cases count with
        | none => rfl
        | some count => exact renewed_unmeasured (.call · c items launch count signature)
  | index node b i =>
    rw [unmeasured, optimize, optimize]
    refine then_unmeasured (fun a => ?_) (ih b (by simp [children]))
    exact then_unmeasured (rebuildBoth_unmeasured .index (fun _ _ _ => rfl) a) (ih i (by simp [children]))
  | member node b name arrow access =>
    rw [unmeasured, optimize, optimize]
    exact then_unmeasured (rebuild_unmeasured _ fun _ _ => rfl) (ih b (by simp [children]))
  | cast node t c reported =>
    rw [unmeasured, optimize, optimize]
    exact then_unmeasured (given_unmeasured fun e => optimizeCast_unmeasured t reported) (ih c (by simp [children]))
  | reference node c =>
    rw [unmeasured, optimize, optimize]
    exact kept_unmeasured (rebuild_unmeasured _ fun _ _ => rfl) (ih c (by simp [children]))
  | dereference node c =>
    rw [unmeasured, optimize, optimize]
    exact then_unmeasured (rebuild_unmeasured _ fun _ _ => rfl) (ih c (by simp [children]))
  | addressOf node c =>
    rw [unmeasured, optimize, optimize]
    exact kept_unmeasured (rebuild_unmeasured _ fun _ _ => rfl) (ih c (by simp [children]))
  | symbol node s =>
    rw [unmeasured, optimize, forget_lift, optimizeSymbol_unmeasured]
  | new node t count init varying =>
    rw [unmeasured, optimize_new, optimize_new]
    rw [optimizeGiven_unmeasured fun n hn => ih n (by simp [children, hn]), bind_map_left, forget_bind]
    refine bind_congr fun count => ?_
    rw [optimizeGiven_unmeasured fun i hi => ih i (by simp [children, hi]), bind_map_left, forget_bind]
    refine bind_congr fun init => ?_
    cases count with
    | none => rfl
    | some count =>
      cases init with
      | none => rfl
      | some init => exact renewed_unmeasured (.new · t count init varying)
  | _ => rfl

end Check

open Check

variable {target : Target} {file : String} {json : Option Json} {p : Program} {e t t' : Expr} {s s' : Session}

/-- The code for the value and for the address is the same, after any other code, but for what the measured types contain. -/
def Expr.SameCode (t t' : Expr) : Prop :=
  (∀ c : Code, ∃ v d d', t.value.run c = (.ok v, d) ∧ t'.value.run c = (.ok v, d') ∧ d.Alike d' ∧ d.lines = d'.lines) ∧
    ∀ c : Code, ∃ a d d', t.address.run c = (.ok a, d) ∧ t'.address.run c = (.ok a, d') ∧ d.Alike d' ∧ d.lines = d'.lines

theorem Expr.Generates.sameCode (h : t.Generates) (hsame : t'.unmeasured = t.unmeasured) : SameCode t t' := by
  obtain ⟨hvalue, haddress⟩ := emits_remeasured hsame
  refine ⟨fun c => ?_, fun c => ?_⟩
  · obtain ⟨v, d, hrun⟩ := h.value c
    obtain ⟨d', hrun', halike⟩ := hvalue.run_ok hrun
    exact ⟨v, d, d', hrun, hrun', halike, halike.lines⟩
  · obtain ⟨_, -, haddressed⟩ := h.address
    obtain ⟨a, d, hrun, -⟩ := haddressed c
    obtain ⟨d', hrun', halike⟩ := haddress.run_ok hrun
    exact ⟨a, d, d', hrun, hrun', halike, halike.lines⟩

/-- The operand of a `sizeof` can be exchanged for another one of the same type. -/
theorem Expr.sizeOf_unmeasured_iff {n m : Node} {a b : Expr} : (sizeOf n a).unmeasured = (sizeOf m b).unmeasured ↔
    n = m ∧ a.type?.map Ty.bare = b.type?.map Ty.bare := by
  simp only [unmeasured, sizeOf.injEq, null.injEq, Node.mk.injEq, true_and]

/-- An expression that was accepted, and a tree that differs from it in the operands of `sizeof` only, which are checked and of
the same types. The same code is emitted for both, optimizing reports the same for both and has results that differ in such
operands only, and the costs differ by what the operands cost. -/
theorem typecheck_ignores_measured (hp : Program.read target file json = .ok p) (he : e ∈ p.expressions) (hs : s.target = target)
    (ht : (typecheck e).run s = (.ok (some t), s')) (hsame : t'.unmeasured = t.unmeasured)
    (hoperands : ∀ a ∈ t'.measured, Checked target a) :
    SameCode t t' ∧
    (∀ r : Session, ∃ o o' r', (optimize t).run r = (.ok (some o), r') ∧ (optimize t').run r = (.ok (some o'), r') ∧
      o'.unmeasured = o.unmeasured ∧ SameCode o o') ∧
    ∃ k n n', sumCosts (t.measured.map cost) = .ok n ∧ sumCosts (t'.measured.map cost) = .ok n' ∧
      t.cost = .ok (k + n) ∧ t'.cost = .ok (k + n') := by
  obtain ⟨hgenerates, hoptimize⟩ := typecheck_generates hp he hs ht
  refine ⟨hgenerates.here.sameCode hsame, fun r => ?_, ?_⟩
  · obtain ⟨o, r', hrun, ho⟩ := hoptimize r
    have hforget : forget (optimize t') = forget (optimize t) := by
      rw [← optimize_unmeasured, ← optimize_unmeasured, hsame]
    obtain ⟨o', hrun', hforgot⟩ := forget_run hforget hrun
    exact ⟨o, o', r', hrun, hrun', hforgot, ho.here.sameCode hforgot⟩
  · obtain ⟨c, hc⟩ := hgenerates.here.cost
    obtain ⟨k, n, hk, hn, rfl⟩ := (cost_unmeasured t c).mp hc
    obtain ⟨n', hn'⟩ : ∃ n', sumCosts (t'.measured.map cost) = .ok n' := by
      refine sumCosts_ok fun x hx => ?_
      obtain ⟨a, ha, rfl⟩ := List.mem_map.mp hx
      exact (hoperands a ha).cost_ok
    exact ⟨k, n, n', hn, hn', hc, (cost_unmeasured t' _).mpr ⟨k, n', hsame ▸ hk, hn', rfl⟩⟩

/-! ## A measured sum -/

/-- The size of the type of an expression of a variable `a`. -/
def measuringJson (operand : Json) : Json := programJson [("a", .string "int32")] (.object [("sizeof", operand)])

def successorJson : Json := .object [("binary", .string "+"), ("left", .object [("symbol", .string "a")]),
  ("right", .object [("const", .string "1"), ("type", .string "int32")])]

def variableNamed : Expr := localNamed "a" .int32

/-- `a + 1` with the operator in a state. -/
def successor (operator : Node) : Expr :=
  .binary operator (.arith .add) variableNamed (.const (.typed none Ty.int32.asConst) ⟨.int32, 8, [.int 1]⟩) false

def sizeTyped : Node := .typed none Target.standard.sizeType

theorem successor_checked : Checked .standard (successor (.typed none .int32)) := by
  obtain ⟨scope, hread⟩ : ∃ scope, Program.read .standard "program" (some (programJson [("a", .string "int32")] successorJson)) =
      .ok ⟨scope, [successor {}]⟩ := ⟨_, rfl⟩
  have hcheck : (typecheck (successor {})).run { target := .standard } =
      (.ok (some (successor (.typed none .int32))), { target := .standard }) := rfl
  exact typecheck_checked hread (List.mem_singleton_self _) rfl hcheck

/-- The same code for `sizeof(a)` and `sizeof(a + 1)`. -/
theorem typecheck_ignores_measured_sum :
    SameCode (.sizeOf sizeTyped variableNamed) (.sizeOf sizeTyped (successor (.typed none .int32))) := by
  obtain ⟨scope, hread⟩ : ∃ scope, Program.read .standard "program" (some (measuringJson (.object [("symbol", .string "a")]))) =
      .ok ⟨scope, [.sizeOf {} variableNamed]⟩ := ⟨_, rfl⟩
  have hcheck : (typecheck (.sizeOf {} variableNamed)).run { target := .standard } =
      (.ok (some (.sizeOf sizeTyped variableNamed)), { target := .standard }) := rfl
  have hsame : (sizeOf sizeTyped (successor (.typed none .int32))).unmeasured = (sizeOf sizeTyped variableNamed).unmeasured :=
    sizeOf_unmeasured_iff.mpr ⟨rfl, rfl⟩
  have hoperands : ∀ a ∈ (sizeOf sizeTyped (successor (.typed none .int32))).measured, Checked .standard a := by
    intro a ha
    rw [measured, List.mem_singleton] at ha
    exact ha ▸ successor_checked
  exact (typecheck_ignores_measured hread (List.mem_singleton_self _) rfl hcheck hsame hoperands).1

/-- What `sizeof` measures is not evaluated, but it is counted: `sizeof(a)` costs nothing, and `sizeof(a + 1)` costs a sum. -/
theorem measured_sum_counted : ∃ scope scope',
    Program.read .standard "program" (some (measuringJson (.object [("symbol", .string "a")]))) =
      .ok ⟨scope, [.sizeOf {} variableNamed]⟩ ∧
    Program.read .standard "program" (some (measuringJson successorJson)) = .ok ⟨scope', [.sizeOf {} (successor {})]⟩ ∧
    ((typecheck (.sizeOf {} variableNamed)).run { target := .standard }).1 = .ok (some (.sizeOf sizeTyped variableNamed)) ∧
    ((typecheck (.sizeOf {} (successor {}))).run { target := .standard }).1 =
      .ok (some (.sizeOf sizeTyped (successor (.typed none .int32)))) ∧
    (successor (.typed none .int32)).type? = variableNamed.type? ∧
    (sizeOf sizeTyped variableNamed).cost = .ok 0 ∧ (sizeOf sizeTyped (successor (.typed none .int32))).cost = .ok 1 :=
  ⟨_, _, rfl, rfl, rfl, rfl, rfl, rfl, rfl⟩

end Spmd
