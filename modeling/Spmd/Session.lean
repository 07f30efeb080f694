import Spmd.Diagnostic.Message
import Spmd.Expr.Storage
import Spmd.Overload
import Spmd.Target

/-!
# Sessions

Checking and optimizing run in a session: it knows the target, keeps the messages reported so far,
and records what became of the function names that carry a tag. A fault ends a pass; what was reported
before it stays reported.
-/

namespace Spmd

/-- What is known about a function name after a pass. -/
structure Finding where
  tag : Nat
  choice : Choice
  type : Option Ty
  deriving Inhabited

structure Session where
  target : Target
  log : Log := []
  findings : List Finding := []
  deriving Inhabited

abbrev Check (α : Type) : Type := ExceptT Fault (StateM Session) α

namespace Check

def report (place : Option Location) (problem : Problem) : Check Unit :=
  modify fun s => { s with log := s.log ++ [⟨.error problem, place⟩] }

def warn (place : Option Location) (caution : Caution) : Check Unit :=
  modify fun s => { s with log := s.log ++ [⟨.warning caution, place⟩] }

/-- Reports a problem; there is no result. -/
def reject {α : Type} (place : Option Location) (problem : Problem) : Check (Option α) := do
  report place problem
  return none

def target : Check Target := do return (← get).target

def run {α : Type} (pass : Check α) (s : Session) : Except Fault α × Session :=
  (ExceptT.run pass).run s

end Check

/-! ## Function names -/

namespace FunctionName

/-- Records what is known about a name, so that other trees with the same name learn of it. -/
def note (f : FunctionName) : Check Unit :=
  match f.node.tag with
  | some tag => modify fun s => { s with findings := s.findings ++ [⟨tag, f.choice, f.node.type⟩] }
  | none => return

/-- Gives a name the type of its function, unless it has a type already. -/
def settleType (f : FunctionName) : FunctionName :=
  match f.function? with
  | some s => if f.node.type.isNone then { f with node.type := some s.type } else f
  | none => f

/-- Chooses the function to call with the arguments, and reports when there is no single best one.
Only the first attempt counts. -/
def resolve (f : FunctionName) (arguments : List Argument) : Check (Option Symbol × FunctionName) := do
  if f.choice.chosen.isSome || f.choice.attempted then return (f.choice.chosen, f)
  else
    match Spmd.resolve f.candidates arguments with
    | .resolved s =>
      let found := settleType { f with choice := ⟨some s, true⟩ }
      found.note
      return (some s, found)
    | .none =>
      let failed := { f with choice := ⟨none, true⟩ }
      failed.note
      Check.report f.node.place
        (.noOverload f.name (arguments.map Argument.type) (f.candidates.map Symbol.type))
      return (none, failed)
    | .ambiguous ss =>
      let failed := { f with choice := ⟨none, true⟩ }
      failed.note
      Check.report f.node.place
        (.ambiguousOverload f.name (arguments.map Argument.type) (ss.map Symbol.type))
      return (none, failed)

end FunctionName

end Spmd
