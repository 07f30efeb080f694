import Spmd.Symbol
import Spmd.Ty.Conversion

/-!
# Overload resolution

Candidates that take another number of arguments are out. A single candidate that matches every
argument exactly wins; otherwise those that every argument converts to are considered. An argument
that could be null also fits pointers, and where several candidates are left, those that take a
pointer there are preferred.
-/

namespace Spmd

structure Argument where
  type : Ty
  couldBeNull : Bool
  deriving Inhabited

/-- Arguments from their types; a missing flag means that the argument is no null. -/
def Argument.ofTypes : List Ty → List Bool → List Argument
  | [], _ => []
  | t :: ts, [] => ⟨t, false⟩ :: ofTypes ts []
  | t :: ts, n :: ns => ⟨t, n⟩ :: ofTypes ts ns

inductive Resolution where
  | resolved (symbol : Symbol)
  | none
  | ambiguous (candidates : List Symbol)
  deriving Inhabited

def Argument.fits (accepts : Ty → Ty → Bool) (a : Argument) (parameter : Ty) : Bool :=
  (a.couldBeNull && a.type.acceptsNull parameter) || accepts a.type parameter

/-- Whether a candidate takes the arguments, one parameter for each. -/
def Symbol.takes (accepts : Ty → Ty → Bool) (arguments : List Argument) (s : Symbol) : Bool :=
  match s.signature? with
  | some sig =>
    sig.parameters.length == arguments.length &&
      (arguments.zip sig.parameters).all fun (a, p) => a.fits accepts p
  | none => false

def Symbol.takesPointerAt (index : Nat) (s : Symbol) : Bool :=
  s.signature?.any fun sig => sig.parameters[index]?.any Ty.isPointer

/-- Keeps the candidates that take a pointer at a position, if that is some but not all of them. -/
def preferPointersAt (candidates : List Symbol) (index : Nat) : List Symbol :=
  let pointers := candidates.filter (Symbol.takesPointerAt index)
  if 0 < pointers.length ∧ pointers.length < candidates.length then pointers else candidates

/-- The preference for pointers, position after position. -/
def preferPointers (arguments : List Argument) (candidates : List Symbol) : List Symbol :=
  if candidates.length < 2 then candidates
  else
    arguments.zipIdx.foldl (fun kept (a, i) => if a.couldBeNull then preferPointersAt kept i else kept)
      candidates

/-- The verdict of one phase, if it leaves any candidate. -/
def settle? : List Symbol → Option Resolution
  | [] => none
  | [s] => some (.resolved s)
  | ss => some (.ambiguous ss)

def resolve (candidates : List Symbol) (arguments : List Argument) : Resolution :=
  let phase (accepts : Ty → Ty → Bool) : Option Resolution :=
    settle? (preferPointers arguments (candidates.filter (Symbol.takes accepts arguments)))
  match phase Ty.matchesExactly with
  | some r => r
  | none => (phase (Ty.converts false)).getD .none

end Spmd
