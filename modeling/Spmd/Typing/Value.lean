import Spmd.Typing.Call

/-!
# Checking the forms that make values

Lists, casts, sizes and allocations, given their checked operands.
-/

namespace Spmd.Check

/-! ## Lists -/

/-- A list has the types of its elements, until it fills an aggregate. -/
def checkList (node : Node) (items : List Expr) : Check (Option Expr) := do
  return some (.list (.typed node.place (.list (← typesOf items))) items)

/-! ## Casts -/

def checkCast (node : Node) (target : Ty) (operand : Expr) : Check (Option Expr) := do
  let context := "type cast"
  match operand with
  | .function _ => convert operand target context
  | _ => do
    let source ← operand.type
    let possible ← if becomesNull operand source target then pure true
      else canConvert node.place context true source target
    return (if possible then some (.cast (.typed node.place target) target operand false) else none)

/-! ## Sizes -/

def checkSizeOf (node : Node) (operand : Expr) : Check (Option Expr) := do
  if (← operand.type).isVoid then reject node.place .voidSize
  else return some (.sizeOf (.typed node.place (← target).sizeType) operand)

def checkSizeOfType (node : Node) (measured : Ty) : Check (Option Expr) := do
  if measured.isVoid then reject node.place .voidSize
  else return some (.sizeOfType (.typed node.place (← target).sizeType) measured)

/-! ## Allocations -/

/-- How many items to allocate, which may differ from lane to lane for a varying allocation. -/
def allocationCount (node : Node) (count : Expr) (varying : Bool) : Check (Option Expr) := do
  let type := (← count.type).rvalue
  if !type.isIntegerScalar then reject node.place (.allocationCount type)
  else
    convert count (.basic .int32 (if varying then .varying else .uniform))
      "item count for \"new\" expression"

def newOf (node : Node) (allocated : Ty) (varying : Bool) (count init : Option Expr) : Expr :=
  .new (.typed node.place (Expr.addressOfType allocated varying)) allocated count init varying

/-- One value, initialized or not, or a number of them. -/
def checkNew (node : Node) (allocated : Ty) (count init : Option Expr) (varying : Bool) :
    Check (Option Expr) := do
  match count, init with
  | some _, some _ => reject node.place .countAndInitializer
  | some c, none =>
    return (← allocationCount node c varying).map fun c => newOf node allocated varying (some c) none
  | none, some e =>
    return (← convert e allocated "\"new\" expression initializer").map fun e =>
      newOf node allocated varying none (some e)
  | none, none => return some (newOf node allocated varying none none)

end Spmd.Check
