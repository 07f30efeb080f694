import Spmd.Typing.Operator

/-!
# Checking calls

A call of a function by name picks the overload that its arguments ask for. Any other callee has to
be a function or a pointer to one, and calling through a varying pointer makes the result varying.
-/

namespace Spmd.Check

/-! ## The called function -/

/-- A callee that is fit to be called: the callee itself, with its overload picked, what it takes and
returns, and whether each lane may call another function. -/
structure Callee where
  expr : Expr
  signature : Signature
  varying : Bool

/-- Refuses each overloaded name among arguments whose types are needed. -/
def resolvedAll : List Expr → Check Bool
  | [] => return true
  | e :: es => do
    let first ← resolved (some e)
    let rest ← resolvedAll es
    return first.isSome && rest

def typesOf : List Expr → Except Fault (List Ty)
  | [] => .ok []
  | e :: es => do .ok ((← e.type) :: (← typesOf es))

def calledByName (f : FunctionName) (args : List Expr) : Check (Option Callee) := do
  if !(← resolvedAll args) then return none
  else
    let types ← typesOf args
    let (found, f) ← f.resolve (Argument.ofTypes types (args.map Expr.isZeroConstant))
    match found.bind Symbol.signature? with
    | some s => return some ⟨.function f, s, false⟩
    | none => return none

/-- The signature behind the type of a callee, and whether it is reached through a varying
pointer. -/
def signatureBehind? : Ty → Option (Signature × Bool)
  | .pointer (.function r ps task _) q _ => some (⟨r, ps, task⟩, q.variability == .varying)
  | .function r ps task _ => some (⟨r, ps, task⟩, false)
  | _ => none

def calledByValue (node : Node) (callee : Expr) (args : List Expr) : Check (Option Callee) := do
  let type := (← callee.type).rvalue
  match signatureBehind? type with
  | none => reject node.place (.calledValue type)
  | some (s, varying) =>
    if s.parameters.length = args.length then return some ⟨callee, s, varying⟩
    else reject node.place (.argumentCount s args.length)

/-! ## Arguments -/

/-- Without a parameter nothing but `void` is refused: the type of the parameter is not looked at. -/
def refuseVoid (arg : Expr) (source : Ty) (context : String) : Check (Option Expr) :=
  if source.isVoid then reject arg.place (.conversion .fromVoid context) else throw .missingParameter

/-- Where a name was resolved for other arguments before, a parameter may be missing. -/
def convertStray (arg : Expr) (context : String) : Check (Option Expr) := do
  match arg with
  | .function f =>
    if f.isResolved then refuseVoid arg (← arg.type) context
    else reject f.node.place (.unresolvedFor f.name context)
  | _ => refuseVoid arg (← arg.type).stored context

/-- Converts every argument, reporting on each. -/
def convertArguments : List Expr → List Ty → Check (Option (List Expr))
  | [], _ => return some []
  | a :: as, parameters => do
    let context := "function call argument"
    let first ← match parameters.head? with
      | some p => convert a p context
      | none => convertStray a context
    let rest ← convertArguments as parameters.tail
    match first, rest with
    | some a, some as => return some (a :: as)
    | _, _ => return none

/-! ## Launches -/

/-- How many tasks to launch: one unless stated. -/
def launchCount (node : Node) (count : Option Expr) : Check (Option Expr) := do
  let stated ← match count with
    | some e => pure e
    | none => do pure ((← Literal.ofScalars (← target).width .int32 [.int 1]).expr node.place)
  convert stated .int32 "task launch count"

/-- Tasks are launched, and nothing else is. -/
def launchProblem? (launch : Bool) (callee : Callee) : Option Problem :=
  if callee.signature.isTask && !launch then some (.launchNeeded callee.expr.text)
  else if launch && !callee.signature.isTask then some (.launchIllegal callee.expr.text)
  else none

/-! ## Calls -/

def Callee.resultType (callee : Callee) : Ty :=
  let result := callee.signature.result
  if callee.varying && !result.isVoid then result.asVarying else result

def finishCall (node : Node) (callee : Callee) (args : List Expr) (launch : Bool)
    (count : Option Expr) : Expr :=
  .call (.typed node.place callee.resultType) callee.expr args launch count (some callee.signature)

def applyCallee (node : Node) (callee : Callee) (args : List Expr) (launch : Bool)
    (count : Option Expr) : Check (Option Expr) := do
  match launchProblem? launch callee with
  | some problem => reject node.place problem
  | none =>
    match ← convertArguments args callee.signature.parameters with
    | none => return none
    | some args =>
      if launch then
        match ← launchCount node count with
        | none => return none
        | some n => return some (finishCall node callee args true (some n))
      else return some (finishCall node callee args false none)

def checkCall (node : Node) (callee : Expr) (args : List Expr) (launch : Bool) (count : Option Expr) :
    Check (Option Expr) := do
  let called ← match callee with
    | .function f => calledByName f args
    | e => calledByValue node e args
  match called with
  | none => return none
  | some callee => applyCallee node callee args launch count

end Spmd.Check
