import Spmd.Text.Distance
import Spmd.Typing.Operator

/-!
# Checking access to storage

Elements, members, references and addresses, given their checked operands. Whatever is reached through
a varying pointer or a varying index is varying.
-/

namespace Spmd.Check

/-! ## Elements -/

/-- What an index picks from: the type of an element, and whether the base alone makes it varying. -/
def indexed? : Ty → Option (Ty × Bool)
  | .pointer p q _ => some (p, q.variability == .varying)
  | .array e _ _ => some (e, false)
  | .vector s _ _ => some (.scalar s, false)
  | _ => none

def checkIndex (node : Node) (base position : Expr) : Check (Option Expr) := do
  let type := (← base.type).stored
  match indexed? type with
  | none => reject node.place (.indexedType type)
  | some (element, varyingBase) => do
    let positionType := (← position.type).rvalue
    if !positionType.isIntegerScalar then reject node.place (.indexType positionType)
    else
      match ← convert position (.basic .int32 positionType.variability) "array index" with
      | none => return none
      | some position =>
        if element.isVoid then reject node.place (.voidIndex type)
        else
          let type := if positionType.isVarying || varyingBase then element.asVarying else element
          return some (.index (.typed node.place type) base position)

/-! ## Members -/

def letterIndex? (c : Char) : Option Nat :=
  match ['x', 'y', 'z', 'w'].idxOf? c with
  | some i => some i
  | none => ['r', 'g', 'b', 'a'].idxOf? c

/-- The elements of a vector named by a string of letters. -/
def swizzle? (name : String) (count : Nat) : Option (List Nat) :=
  let named (c : Char) : Option Nat := (letterIndex? c).filter (· < count)
  match name.toList with
  | [] => none
  | letters => letters.mapM named

def memberOf (node : Node) (base : Expr) (name : String) (arrow : Bool) (access : Access) (type : Ty) :
    Expr :=
  .member (.typed node.place type) base name arrow (some access)

def checkField (node : Node) (base : Expr) (name : String) (arrow varying : Bool) (type : Ty)
    (members : List String) : Check (Option Expr) := do
  let found := (type.memberIndex? name).bind fun i => (type.elementAt? i).map fun t => (i, t)
  match found with
  | none => reject node.place (.missingMember name type (Text.hint name members))
  | some (i, t) =>
    return some (memberOf node base name arrow (.field i type) (if varying then t.asVarying else t))

/-- One letter picks an element, several make a vector. -/
def checkSwizzle (node : Node) (base : Expr) (name : String) (arrow varying : Bool) (type : Ty)
    (element : ScalarTy) (count : Nat) : Check (Option Expr) := do
  match swizzle? name count with
  | none => reject node.place (.swizzle name type)
  | some indices =>
    let element := if varying then element.withVariability .varying else element
    let picked := if indices.length = 1 then .scalar element else .vector element indices.length
    return some (memberOf node base name arrow (.swizzle indices type) picked)

/-- The type a member is looked up in, and whether it is reached through a varying pointer. -/
def memberBase (arrow : Bool) (type : Ty) : Except Problem (Ty × Bool) :=
  match arrow, type with
  | true, .pointer p q _ => .ok (p, q.variability == .varying)
  | true, t => .error (.arrowOnValue t)
  | false, .pointer .. => .error (.dotOnPointer type)
  | false, t => .ok (t, false)

def checkMember (node : Node) (base : Expr) (name : String) (arrow : Bool) : Check (Option Expr) := do
  match memberBase arrow (← base.type).stored with
  | .error problem => reject node.place problem
  | .ok (type, varying) =>
    match type with
    | .struct _ members _ _ => checkField node base name arrow varying type (members.map Prod.fst)
    | .vector s n _ => checkSwizzle node base name arrow varying type s n
    | t => reject node.place (.memberOperator (if arrow then "->" else ".") t)

/-! ## References and addresses -/

def checkReference (node : Node) (operand : Expr) : Check (Option Expr) := do
  let type ← operand.type
  if type.isReference then return some operand
  else if ← operand.isAssignable then
    return some (.reference (.typed node.place (← Ty.referenceTo type)) operand)
  else reject node.place (.referencedValue operand.text)

def checkDereference (node : Node) (operand : Expr) : Check (Option Expr) := do
  let type ← operand.type
  match type with
  | .reference t _ => return some (.dereference (.typed node.place t) operand)
  | .pointer p q _ =>
    if p.isVoid then reject node.place (.dereferencedVoid type.asNonConst)
    else
      let read := if q.variability = .varying then p.asVarying else p
      return some (.dereference (.typed node.place read) operand)
  | t => reject node.place (.dereferenced t)

/-- The type of the address of an expression; functions have one without denoting storage. -/
def addressTypeOf (operand : Expr) : Except Fault (Option Ty) := do
  match ← operand.type with
  | .reference t _ => .ok (some (.pointer t {}))
  | _ => operand.addressType

def checkAddressOf (node : Node) (operand : Expr) : Check (Option Expr) := do
  match operand with
  | .function f =>
    if !f.isResolved then reject node.place (.overloadedAddress f.name)
    else return some (.addressOf (.typed node.place (.pointer (← operand.type) {})) operand)
  | _ =>
    match ← addressTypeOf operand with
    | some t => return some (.addressOf (.typed node.place t) operand)
    | none => reject node.place (.addressOfValue operand.text)

end Spmd.Check
