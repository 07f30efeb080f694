import Spmd.Proofs.Code.Place
import Spmd.Proofs.Optimization.Typing
import Spmd.Proofs.Typing.Indirection
import Spmd.Proofs.Typing.Resolution
import Spmd.Proofs.WellTyped.Check

/-!
# Casts to references

A written cast to a reference is accepted by the types alone, whether its operand denotes storage or not
(`typecheck_reference_cast`). Its code gives the address that a reference holds; of anything else that denotes storage, it casts
the value that is loaded from there.
-/

namespace Spmd

namespace Ty

theorem obstacle_to_reference_eq {t : Ty} (explicit : Bool) (s : Ty) (h : t.isReference = true) :
    obstacle explicit s t = obstacle false s t := by
  cases t with
  | reference r o =>
    unfold obstacle
    split
    · rfl
    · cases s <;> rfl
  | _ => cases h

end Ty

open Emit (emit)

namespace Expr

/-- The code of an optimized cast of an operand that is optimized, too. -/
inductive CastOptimized (target : Ty) (c' : Expr) : Expr → Prop
  | dropped {t' : Ty} (type_eq : c'.type? = some t') (same : t'.same target = true) : CastOptimized target c' c'
  | kept {t' : Ty} (node : Node) (reported : Bool) (type_eq : c'.type? = some t')
      (value_eq : (Expr.cast node target c' reported).value = do emit (.cast (← c'.value) t' target)) :
      CastOptimized target c' (.cast node target c' reported)

/-- What checking gives for an expression, and for a cast of it to a reference. -/
inductive ReferenceCast (target : Ty) : Option Expr → Option Expr → Prop
  | refused : ReferenceCast target none none
  | unbound {c : Expr} {t : Ty} (type_eq : c.type? = some t) (cannot : Ty.obstacle true t target ≠ none) :
      ReferenceCast target (some c) none
  /-- A name that has the type already. -/
  | named {f : FunctionName} {t : Ty} (type_eq : f.node.type = some t) (same : t.same target = true) :
      ReferenceCast target (some (.function f)) (some (.function f))
  | bound {c : Expr} {t : Ty} (node : Node) (type_eq : c.type? = some t) (binds : Ty.obstacle true t target = none)
      (code : c.isStorage = .ok true →
        (Expr.cast node target c false).value = castCode (storageAddress c c.value c.address) t target)
      (optimized : ∀ r : Session, ∃ c' o s s', (Check.optimize c).run r = (.ok (some c'), s) ∧ c'.HasType t ∧
        (Check.optimize (.cast node target c false)).run r = (.ok (some o), s') ∧ CastOptimized target c' o) :
      ReferenceCast target (some c) (some (.cast node target c false))

end Expr

namespace Check

open Spmd.Expr

variable {T : Target} {c : Expr} {t target : Ty} {node : Node}

/-- A cast to a reference is optimized as its operand is. -/
theorem optimize_reference_cast (h : Checked T (.cast node target c false)) (ht : c.type? = some t) (hr : target.isReference = true)
    (r : Session) : ∃ c' o s s', (Check.optimize c).run r = (.ok (some c'), s) ∧ c'.HasType t ∧
      (Check.optimize (.cast node target c false)).run r = (.ok (some o), s') ∧ CastOptimized target c' o := by
  have hc : Checked T c := h.child (by simp [children])
  have hnode : node.type = some target := h.here.grounded.1
  obtain ⟨result, new, found, hrun, ⟨c', rfl, href⟩, -⟩ := optimize_folds (U := r.target) hc r rfl
  obtain ⟨t', ht', -⟩ := href.type ht
  -- no constant is a reference, so that there is nothing to fold
  have hfoldable : isFoldable target = false := by
    cases target with
    | reference => rfl
    | _ => cases hr
  have hcast : optimizeCast node target c' false =
      pure (some (if t'.same target then c' else .cast (.typed node.place target) target c' false)) := by
    unfold optimizeCast
    simp only [Node.renewed_ok hnode, Node.checked_ok hnode, type_ok ht', lift_ok, pure_bind]
    split
    · rfl
    · rw [hfoldable]
      split <;> rfl
  have hoptimized : (optimize (.cast node target c false)).run r =
      (.ok (some (if t'.same target then c' else .cast (.typed node.place target) target c' false)),
        { r with log := r.log ++ new, findings := r.findings ++ found }) := by
    rw [optimize]
    refine (run_bind hrun).trans ?_
    dsimp only
    rw [hcast]
    rfl
  refine ⟨c', _, _, _, hrun, href.alike t ht, hoptimized, ?_⟩
  split
  · rename_i hsame
    exact .dropped ht' hsame
  · refine .kept _ _ ht' ?_
    rw [value]
    simp only [type_ok ht', type_of_node (show (Node.typed node.place target).type = _ from rfl), Emit.lift_ok, pure_bind]

/-- What is no name is cast to a reference if its type can be bound. -/
theorem checkCast_reference (hc : Checked T c) (hw : c.WellTyped) (ht : c.type? = some t) (hl : target.Legal)
    (hr : target.isReference = true) (hname : c.isFunctionName = false) :
    Meets T (checkCast node target c) fun o _ => ReferenceCast target (some c) o := by
  have hnull : becomesNull c t target = false := by
    unfold becomesNull
    cases target with
    | reference => rfl
    | _ => cases hr
  have hcast : checkCast node target c = canConvert node.place "type cast" true t target >>= fun possible =>
      pure (if possible then some (.cast (.typed node.place target) target c false) else none) := by
    unfold checkCast
    cases c with
    | function => cases hname
    | _ => simp only [type_ok ht, lift_ok, pure_bind, hnull, Bool.false_eq_true, if_false]
  rw [hcast]
  cases ho : Ty.obstacle true t target with
  | none =>
    rw [canConvert_true ho, pure_bind]
    have hchecked : Checked T (.cast (.typed node.place target) target c false) := cast_checked hc ht hl _ true false fun _ => ho
    exact Meets.pure (.bound _ ht ho (fun hs => hchecked.cast_of_storage hw ht hs)
      fun r => optimize_reference_cast hchecked ht hr r)
  | some o =>
    unfold canConvert
    rw [ho, bind_assoc]
    refine Meets.bind (report_meets _ _) fun _ _ _ => Meets.pure (.unbound ht ?_)
    rw [ho]
    exact nofun

theorem convertFunction_reference {f : FunctionName} {context : String} (hf : Known f) (ht : f.node.type = some t)
    (hl : target.Legal) (hr : target.isReference = true) (hres : f.isResolved = true) :
    Meets T (convertFunction f target context) fun o _ => ReferenceCast target (some (.function f)) o := by
  have hpick : pickOverload f target = pure (some f) := by
    cases target with
    | reference => rfl
    | _ => cases hr
  unfold convertFunction
  rw [hpick]
  simp only [pure_bind, hres, Bool.not_true, Bool.false_eq_true, if_false, type_ok (e := .function f) ht, lift_ok]
  cases ho : Ty.obstacle false t target with
  | none =>
    rw [canConvert_true ho, pure_bind, if_pos rfl]
    have ho' : Ty.obstacle true t target = none := (Ty.obstacle_to_reference_eq true t hr).trans ho
    have hc : Checked T (.function f) := hf.checked ht
    have hchecked : Checked T (.cast (.typed f.node.place target) target (.function f) false) :=
      cast_checked hc ht hl _ false false fun _ => ho
    by_cases hsame : t.same target = true
    · rw [if_pos hsame]
      exact Meets.pure (.named ht hsame)
    · rw [if_neg hsame]
      exact Meets.pure (.bound _ ht ho' (fun hs => hchecked.cast_of_storage (function_wellTyped hf.type_eq).here ht hs)
        fun r => optimize_reference_cast hchecked ht hr r)
  | some o =>
    unfold canConvert
    rw [ho, bind_assoc]
    refine Meets.bind (report_meets _ _) fun _ _ _ => Meets.pure (.unbound ht ?_)
    rw [Ty.obstacle_to_reference_eq true t hr, ho]
    exact nofun

/-- An operand that may be used as it is, next to its cast. -/
theorem resolved_cast_pairs (hres : resolved (some c) = pure (some c))
    (h : Meets T (checkCast node target c) fun o _ => ReferenceCast target (some c) o) :
    Pairs T (resolved (some c)) (checkCast node target c >>= resolved) (ReferenceCast target) := by
  have hkept : Meets T (resolved (some c)) fun o _ => o = some c := hres ▸ Meets.pure rfl
  have hresult : Meets T (checkCast node target c >>= resolved) fun o _ => ReferenceCast target (some c) o := by
    refine Meets.bind h fun o _ ho => ?_
    cases ho with
    | unbound type_eq cannot => exact Meets.pure (.unbound type_eq cannot)
    | named type_eq same =>
      rw [hres]
      exact Meets.pure (.named type_eq same)
    | bound node type_eq binds code optimized => exact Meets.pure (.bound node type_eq binds code optimized)
  refine Pairs.of_meets hkept hresult fun o o' ho ho' => ?_
  obtain ⟨-, rfl⟩ := ho
  obtain ⟨-, ho'⟩ := ho'
  exact ho'

theorem unresolved_cast_pairs (node : Node) {f : FunctionName} (hres : f.isResolved = false) (hr : target.isReference = true) :
    Pairs T (resolved (some (.function f))) (checkCast node target (.function f) >>= resolved) (ReferenceCast target) := by
  have hpick : pickOverload f target = pure (some f) := by
    cases target with
    | reference => rfl
    | _ => cases hr
  have hcast : checkCast node target (.function f) = reject f.node.place (.unresolvedFor f.name "type cast") := by
    change convert (.function f) target "type cast" = _
    rw [convert]
    unfold convertFunction
    rw [hpick, pure_bind]
    simp only [hres, Bool.not_false, if_true]
  have hname : resolved (some (.function f)) = reject f.node.place (.unresolved f.name) := by
    unfold resolved
    simp only [hres, Bool.false_eq_true, if_false]
  rw [hcast, hname]
  exact Pairs.reject_bind .refused rfl

theorem typecheck_cast_pairs {e : Expr} (he : Everywhere (Prepared T) e) (hl : target.Legal) (hr : target.isReference = true)
    (reported : Bool) : Pairs T (typecheck e) (typecheck (.cast node target e reported)) (ReferenceCast target) := by
  have hcast : typecheck (.cast node target e reported) =
      check e >>= fun o => withOne o (checkCast node target) >>= resolved := by
    unfold typecheck
    rw [check]
    simp only [needed, bind_assoc]
  rw [hcast]
  refine Pairs.bind (Pairs.yields (check_pairs he) (check_wellTyped he)) fun o o' ho => ?_
  obtain ⟨⟨rfl, hpending⟩, hwell⟩ := ho
  cases o with
  | none => exact Pairs.pure .refused
  | some c =>
    have hc := (hpending c rfl).operand
    cases hname : c.isFunctionName with
    | false =>
      obtain ⟨t, ht⟩ := hc.typed fun f hf => by rw [hf] at hname; cases hname
      exact resolved_cast_pairs (resolved_plain hname)
        (checkCast_reference (hc.toChecked ht) (hwell c rfl).here ht hl hr hname)
    | true =>
      cases c with
      | function f =>
        have hknown := hc.known
        cases hres : f.isResolved with
        | false => exact unresolved_cast_pairs node hres hr
        | true =>
          obtain ⟨t, ht⟩ := hc.typed fun g hg => by cases hg; exact hres
          have hcasted : Meets T (checkCast node target (.function f)) fun o _ =>
              ReferenceCast target (some (.function f)) o := by
            change Meets T (convert (.function f) target "type cast") _
            rw [convert]
            exact convertFunction_reference hknown ht hl hr hres
          exact resolved_cast_pairs (if_pos hres) hcasted
      | _ => cases hname

end Check

/-- A cast of an expression to a reference is accepted, in all sessions with the target, exactly when the expression is and its type
can be bound, whatever the expression denotes. Its code gives the address that a reference holds, before and after the cast is
optimized; what denotes storage otherwise is loaded first. -/
theorem typecheck_reference_cast {T : Target} {node : Node} {target : Ty} {e : Expr} {reported : Bool}
    (h : Expr.Everywhere (Expr.Loaded T) (.cast node target e reported)) (hr : target.isReference = true) :
    Check.Pairs T (Check.typecheck e) (Check.typecheck (.cast node target e reported)) (Expr.ReferenceCast target) :=
  Check.typecheck_cast_pairs (Expr.prepared_of_loaded (h.child (by simp [Expr.children]))) h.here hr reported

/-! ## Casts in a program -/

/-- A cast of `x`, or of a call of it, to a reference to an `int32`. -/
def boundCastJson (type operand : Json) : Json :=
  .object [("symbols", .array [.object [("name", .string "x"), ("type", type)]]),
    ("expressions", .array [.object [("cast", .object [("reference", .string "int32")]), ("operand", operand)]])]

def boundCast (node : Node) (operand : Expr) : Expr := .cast node (.reference .int32) operand false

def xJson : Json := .object [("symbol", .string "x")]

theorem boundCast_read : ∃ scope, Program.read .standard "program"
    (some (boundCastJson (.object [("reference", .string "int32")]) xJson)) =
      .ok ⟨scope, [boundCast {} (localNamed "x" (.reference .int32))]⟩ := ⟨_, rfl⟩

theorem typecheck_reference_cast_kept : Check.Pairs .standard (Check.typecheck (localNamed "x" (.reference .int32)))
    (Check.typecheck (boundCast {} (localNamed "x" (.reference .int32)))) (Expr.ReferenceCast (.reference .int32)) := by
  obtain ⟨scope, hread⟩ := boundCast_read
  exact typecheck_reference_cast (Program.loaded hread (List.mem_singleton_self _)) rfl

/-- The call `x()`, where `x` is a function. -/
def getterCall (node : Node) (callee : FunctionName) (called : Option Signature) : Expr :=
  .call node (.function callee) [] false none called

def getterName : FunctionName := { node := {}, name := "x", candidates := [⟨"x", getter, .function, none, none⟩] }

/-- A variable is loaded before it is cast to a reference, and what a call returns is cast although it is stored nowhere. -/
theorem boundCast_loads :
    (∃ scope, Program.read .standard "program" (some (boundCastJson (.string "int32") xJson)) =
        .ok ⟨scope, [boundCast {} (localNamed "x" .int32)]⟩ ∧
      ∃ t, ((Check.typecheck (boundCast {} (localNamed "x" .int32))).run { target := .standard }).1 = .ok (some t) ∧
        (t.value.run []).2 =
          [.symbolAddress (localVariable "x" .int32), .load ⟨0⟩ .int32, .cast ⟨1⟩ .int32 (.reference .int32)]) ∧
    ∃ scope, Program.read .standard "program"
        (some (boundCastJson (functionJson "int32" []) (.object [("call", xJson), ("args", .array [])]))) =
        .ok ⟨scope, [boundCast {} (getterCall {} getterName none)]⟩ ∧
      ∃ node c, ((Check.typecheck (boundCast {} (getterCall {} getterName none))).run { target := .standard }).1 =
        .ok (some (boundCast node c)) ∧ c.isStorage = .ok false :=
  ⟨⟨_, rfl, _, rfl, rfl⟩, ⟨_, rfl, _, _, rfl, rfl⟩⟩

end Spmd
