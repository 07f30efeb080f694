import Spmd.Code.Emission
import Spmd.Expr.Sharing
import Spmd.Optimization
import Spmd.Typing.Check

/-!
# Batches

A batch takes any number of expressions through checking and optimization with one log. Code is emitted
for the whole batch, and only when no expression was rejected.
-/

namespace Spmd

/-- What became of an expression: its optimized form and the cost of that, unless it was rejected. -/
structure Outcome where
  source : Expr
  expression : Option Expr
  cost : Option Nat
  deriving Inhabited

structure Batch where
  session : Session
  outcomes : List Outcome := []
  deriving Inhabited

namespace Batch

def new (target : Target) : Batch := { session := { target } }

def log (b : Batch) : Log := b.session.log

/-! ## Runs -/

def compile (e : Expr) : Check (Option Expr) := do
  match ← Check.typecheck e with
  | some typed => Check.optimize typed
  | none => return none

/-- Takes one expression through both passes. Where it was run before, its function names are known. -/
def runOne (e : Expr) : Check Outcome := do
  let findings := (← get).findings
  match ← compile (e.refresh findings) with
  | some optimized => return ⟨e, some optimized, some (← optimized.cost)⟩
  | none => return ⟨e, none, none⟩

def runAll : List Expr → Check (List Outcome)
  | [] => return []
  | e :: es => do
    let first ← runOne e
    let rest ← runAll es
    return first :: rest

/-- Runs expressions and adds their outcomes to the batch; a fault adds none. -/
def run (b : Batch) (es : List Expr) : Except Fault (List Outcome) × Batch :=
  match (runAll es).run b.session with
  | (.ok outcomes, session) => (.ok outcomes, ⟨session, b.outcomes ++ outcomes⟩)
  | (.error fault, session) => (.error fault, { b with session })

/-! ## Verdict and code -/

/-- Whether the batch is to be rejected; a strict one also for warnings. -/
def failed (b : Batch) (strict : Bool) : Bool :=
  !b.log.errors.isEmpty || (strict && !b.log.warnings.isEmpty)

def valuesOf : List Outcome → Emit (List Value)
  | [] => return []
  | o :: os => do
    match o.expression with
    | some e => do
      let v ← e.value
      let vs ← valuesOf os
      return v :: vs
    | none => valuesOf os

/-- The values of all expressions of the batch, or nothing when there are errors. -/
def emit (b : Batch) : Emit (Option (List Value)) := do
  if !b.log.errors.isEmpty then return none else return some (← valuesOf b.outcomes)

end Batch

end Spmd
