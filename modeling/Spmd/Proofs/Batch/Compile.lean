import Spmd.Batch
import Spmd.Proofs.Code.Generation
import Spmd.Proofs.Sharing.Walk

/-!
# Compiling one expression of a batch

An expression is compiled in the same way whatever the batch has reported before (`Batch.outcomeOf_secluded`). If all it
reports are warnings, its outcome is complete (`Batch.outcomeOf_meets`).
-/

namespace Spmd

/-- An outcome with an expression and its cost. The code for the expression can follow any other code. -/
def Outcome.Complete (o : Outcome) : Prop :=
  ∃ e n, o.expression = some e ∧ o.cost = some n ∧ e.cost = .ok n ∧ ∀ c : Code, ∃ v calls, e.value.run c = (.ok v, c ++ calls)

theorem Outcome.Complete.accepted {o : Outcome} (h : o.Complete) : ∃ e n, o.expression = some e ∧ o.cost = some n := by
  obtain ⟨e, n, he, hn, -⟩ := h
  exact ⟨e, n, he, hn⟩

namespace Batch

open Check Spmd.Expr

variable {T : Target} {P : Option Nat → FunctionName → Prop} {source e : Expr}

/-- What becomes of an expression, of whose names is known what the batch knows. -/
def outcomeOf (source e : Expr) : Check Outcome := do
  match ← compile e with
  | some optimized => return ⟨source, some optimized, some (← optimized.cost)⟩
  | none => return ⟨source, none, none⟩

theorem runOne_run (e : Expr) (s : Session) : (runOne e).run s = (outcomeOf e (e.refresh s.findings)).run s := rfl

/-! ## Any session -/

theorem compile_secluded (hP : Lawful P) (h : ∀ u ∈ e.uses none, P u.1 u.2) :
    Secluded (onNames T P) (compile e) fun _ => True := by
  unfold compile
  refine Secluded.bind (typecheck_leaves hP h) fun o _ => ?_
  cases o with
  | none => exact Secluded.pure trivial
  | some t => exact optimize_steady t _

theorem outcomeOf_secluded (source : Expr) (hP : Lawful P) (h : ∀ u ∈ e.uses none, P u.1 u.2) :
    Secluded (onNames T P) (outcomeOf source e) fun o => o.source = source := by
  unfold outcomeOf
  refine Secluded.bind (compile_secluded hP h) fun o _ => ?_
  cases o with
  | none => exact Secluded.pure rfl
  | some x => exact Secluded.read fun _ _ => Secluded.pure rfl

/-! ## Complete outcomes -/

/-- Compiling gives an expression for which code can be generated, or reports an error. -/
theorem compile_meets (h : Everywhere (Prepared T) e) :
    Meets T (compile e) fun o new =>
      (∀ x ∈ o, Checked T x ∧ Everywhere (Ready false) x) ∧ (o = none → Log.errors new ≠ []) := by
  have hwelltyped := needed_yields (check_delivers h) (check_wellTyped h)
  unfold compile
  intro s hs
  obtain ⟨o, new, found, hrun, hout⟩ := typecheck_delivers h s hs
  rw [run_bind hrun]
  cases o with
  | none => exact ⟨none, new, found, rfl, nofun, fun _ => hout⟩
  | some t =>
    have hw : Everywhere WellTyped t := ((hwelltyped s hs _ _ hrun).1 t rfl).1
    have hready : Everywhere (Ready false) t := ready_everywhere hout.2 hw nofun
    obtain ⟨r, more, also, hopt, ⟨x, rfl, hx⟩, -⟩ :=
      optimize_faithful (U := T) hout.2 hw hready (s.after new found) hs
    refine ⟨some x, new ++ more, found ++ also, ?_, fun y hy => ?_, nofun⟩
    · exact hopt.trans (congrArg _ (s.after_after new more found also))
    · cases hy
      exact ⟨hx.checked, hx.ready⟩

theorem outcomeOf_meets (h : Everywhere (Prepared T) e) :
    Meets T (outcomeOf source e) fun o new => Log.errors new = [] → o.Complete := by
  unfold outcomeOf
  refine Meets.bind (compile_meets h) fun o new ⟨hsome, hnone⟩ => ?_
  cases o with
  | none =>
    refine Meets.pure fun he => absurd ?_ (hnone rfl)
    rwa [List.append_nil] at he
  | some x =>
    obtain ⟨hchecked, hready⟩ := hsome x rfl
    obtain ⟨n, hn⟩ := hchecked.cost_ok
    dsimp only
    rw [hn]
    refine Meets.pure fun _ => ⟨x, n, rfl, rfl, hn, fun c => ?_⟩
    obtain ⟨v, calls, hrun, -⟩ := (performs hchecked hready).1 c
    exact ⟨v, calls, hrun⟩

end Batch

end Spmd
