import Spmd.Session

/-!
# Conversion of expressions

`Check.convert` brings a checked expression to the type its context needs, or reports why it cannot.
References are read through, lists are converted element by element, function names pick an overload,
and everything else gets a cast.
-/

namespace Spmd.Check

/-! ## Types -/

/-- Whether a conversion is possible; reports the obstacle if not. -/
def canConvert (place : Option Location) (context : String) (explicit : Bool) (source target : Ty) :
    Check Bool :=
  match Ty.obstacle explicit source target with
  | none => return true
  | some o => do
    report place (.conversion o context)
    return false

/-- The common type of two operands; reports when there is none. -/
def commonType (place : Option Location) (context : String) (left right : Ty) : Check (Option Ty) :=
  match Ty.common left right with
  | .ok t => return some t
  | .error d => reject place (.discord d context)

/-! ## References -/

/-- Binds a reference to the storage of an expression. -/
def bindReference (e : Expr) (target : Ty) (context : String) : Check (Option Expr) := do
  let source ← e.type
  if source.isReference then
    if ← canConvert e.place context false source target then return some e else return none
  else if ← e.isAssignable then
    if ← canConvert e.place context false source target then
      return some (.reference (.typed e.place (← Ty.referenceTo source)) e)
    else return none
  else reject e.place (.boundValue target context)

/-! ## Function names -/

def pointedParameters? : Ty → Option (List Ty)
  | .pointer (.function _ ps _ _) _ _ => some ps
  | _ => none

/-- Becoming a function pointer picks the overload that takes its parameters. -/
def pickOverload (f : FunctionName) (target : Ty) : Check (Option FunctionName) := do
  match pointedParameters? target with
  | none => return some f
  | some parameters => do
    let (found, f) ← f.resolve (Argument.ofTypes parameters [])
    return (if found.isSome then some f else none)

def convertFunction (f : FunctionName) (target : Ty) (context : String) : Check (Option Expr) := do
  match ← pickOverload f target with
  | none => return none
  | some f => do
    if !f.isResolved then reject f.node.place (.unresolvedFor f.name context)
    else
      let source ← (Expr.function f).type
      if ← canConvert f.node.place context false source target then
        return some (if source.same target then .function f
          else .cast (.typed f.node.place target) target (.function f) false)
      else return none

/-! ## Values -/

/-- Warns when an integer constant changes its value in another integer kind. -/
def warnOfNarrowing (place : Option Location) (c : Constant) (source target : Ty) (context : String) :
    Check Unit :=
  match target with
  | .scalar s => do
    let kind := s.element.kind
    let narrowed := c.convert kind
    if c.kind.isInteger && kind.isInteger && !(narrowed.convert c.kind).same c then
      warn place (.narrowing c narrowed source target context)
  | _ => return

/-- Converts a value that is no reference: nothing is left of a dropped `const`, all else is a
cast. -/
def convertRead (e : Expr) (source target : Ty) (context : String) : Check (Option Expr) := do
  if ← canConvert e.place context false source target then
    if source.sameIgnoringConst target then return some e
    else
      match e with
      | .const _ c => warnOfNarrowing e.place c source target context
      | _ => pure ()
      return some (.cast (.typed e.place target) target e false)
  else return none

/-- Whether a null pointer, or a literal zero, may become a null pointer of the target type. -/
def becomesNull (e : Expr) (source target : Ty) : Bool :=
  target.isPointer && (e.isNull || e.isZeroConstant) && !(source.isVarying && target.isUniform)

/-- Converts any expression but a list that fills an aggregate and a function name. -/
def convertValue (e : Expr) (target : Ty) (context : String) : Check (Option Expr) := do
  let source ← e.type
  if source.same target then return some e
  else if becomesNull e source target then return some (.null (.typed e.place target))
  else if target.isReference then bindReference e target context
  else
    match source with
    | .reference referent _ =>
      let read := Expr.dereference (.typed e.place referent) e
      if referent.same target then return some read else convertRead read referent target context
    | _ => convertRead e source target context

/-! ## Lists -/

/-- The types of the elements that a list of a given length fills, if the type can be filled. -/
def fillTargets? (length : Nat) : Ty → Option (List (Option Ty))
  | .array e _ _ => some (List.replicate length (some e))
  | t@(.struct ..) => some ((List.range length).map t.elementAt?)
  | t@(.vector ..) => some ((List.range length).map t.elementAt?)
  | _ => none

/-- The type of a filled aggregate; an array without a size gets that of the list. -/
def filledType (length : Nat) : Ty → Except Fault Ty
  | .array e none _ => Ty.arrayOf e (some length)
  | t => .ok t

mutual
def convert : Expr → Ty → String → Check (Option Expr)
  | .function f, target, context => convertFunction f target context
  | .list node items, target, context => do
    let source ← (Expr.list node items).type
    match fillTargets? items.length target with
    | none => convertValue (.list node items) target context
    | some targets =>
      if source.same target || source.isReference then convertValue (.list node items) target context
      else if ← canConvert node.place context false source target then
        match ← convertItems items targets context with
        | none => return none
        | some converted =>
          return some (.list (.typed node.place (← filledType converted.length target)) converted)
      else return none
  | e, target, context => convertValue e target context
/-- Converts the elements of a list in turn, up to the first that cannot be. -/
def convertItems : List Expr → List (Option Ty) → String → Check (Option (List Expr))
  | e :: es, some t :: ts, context => do
    match ← convert e t context with
    | none => return none
    | some e =>
      match ← convertItems es ts context with
      | none => return none
      | some es => return some (e :: es)
  | [], _, _ => return some []
  | _, _, _ => return none
end

end Spmd.Check
