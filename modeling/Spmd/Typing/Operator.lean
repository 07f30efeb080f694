import Spmd.Typing.Conversion

/-!
# Checking operators

Unary and binary operators, steps, assignments and selections, given their checked operands.
-/

namespace Spmd.Check

/-- Passes on an operand whose type is needed: an overloaded function name has none yet. -/
def resolved : Option Expr → Check (Option Expr)
  | some (.function f) =>
    if f.isResolved then return some (.function f) else reject f.node.place (.unresolved f.name)
  | e => return e

/-! ## Unary operators -/

def checkUnary (node : Node) (op : ValueOp) (operand : Expr) : Check (Option Expr) := do
  let type := (← operand.type).rvalue
  let typed : Expr := .unary (.typed node.place type) op operand
  match op with
  | .neg => if type.isNumeric then return some typed else reject node.place (.negated type)
  | .complement => if type.isInteger then return some typed else reject node.place (.complemented type)
  | .not => do
    match ← convert operand type.boolLike "logical not" with
    | none => return none
    | some e => return some (.unary (.typed node.place (← e.type).asNonConst) op e)

/-- What a step adds or subtracts: one, as a size for a pointer and otherwise of the operand's own
kind. -/
def stepAmount (node : Node) (s : Step) (type : Ty) : Check (Option Literal) := do
  let target ← target
  if type.isPointer then
    if type.isVoidPointer then reject node.place (.steppedVoidPointer s type)
    else return some (← Literal.ofScalars target.width target.sizeType [.int 1])
  else if type.isScalar && type.isNumeric then
    return some (← Literal.ofScalars target.width type.asUniform [.int 1])
  else reject node.place (.steppedType s type)

def checkStep (node : Node) (s : Step) (operand : Expr) : Check (Option Expr) := do
  let type := (← operand.type).rvalue
  if !(← operand.isStorage) then reject node.place (.steppedValue s operand.text)
  else
    let stored := (← operand.type).stored
    if stored.isConst then reject node.place (.steppedConst s stored)
    else
      match ← stepAmount node s type with
      | none => return none
      | some amount => return some (.step (.typed node.place type) s operand (some amount))

/-! ## Operands -/

def validOperand (op : BinaryOp) (t : Ty) : Bool :=
  match op with
  | .arith .mod | .arith .shl | .arith .shr => t.isInteger
  | .arith .add | .arith .sub | .arith .mul | .arith .div => t.isNumeric
  | .arith .and | .arith .xor | .arith .or => t.isInteger || t.isBool
  | _ => t.isNumeric || t.isBool

structure Operands where
  operandType : Ty
  resultType : Ty

def BinaryOp.isComparison : BinaryOp → Bool
  | .compare _ => true
  | _ => false

/-- The type both operands are converted to, and the type of the result. -/
def checkOperands (place : Option Location) (op : BinaryOp) (left right : Ty) :
    Check (Option Operands) := do
  let a := left.rvalue
  let b := right.rvalue
  if !validOperand op a then reject place (.operand .first op a)
  else if !validOperand op b then reject place (.operand .second op b)
  else
    match ← commonType place op.description a b with
    | none => return none
    | some t => return some ⟨t, if BinaryOp.isComparison op then t.boolLike else t⟩

/-- Converts both operands, reporting on each. -/
def convertBoth (left : Expr) (leftType : Ty) (right : Expr) (rightType : Ty) (context : String) :
    Check (Option (Expr × Expr)) := do
  let l ← convert left leftType context
  let r ← convert right rightType context
  match l, r with
  | some l, some r => return some (l, r)
  | _, _ => return none

/-! ## Pointers -/

/-- The type of an operand of a pointer operator, where arrays decay. -/
def decayed (t : Ty) : Ty :=
  match t.rvalue with
  | .array e _ _ => .pointer e {}
  | t => t

def binaryOf (node : Node) (op : BinaryOp) (type : Ty) : Option (Expr × Expr) → Option Expr
  | some (l, r) => some (.binary (.typed node.place type) op l r false)
  | none => none

def comparePointers (node : Node) (op : BinaryOp) (left right : Expr) (a b : Ty) :
    Check (Option Expr) := do
  match ← commonType node.place op.description a b with
  | none => return none
  | some t => do
    return binaryOf node op (.basic .bool t.variability) (← convertBoth left t right t op.description)

def subtractPointers (node : Node) (op : BinaryOp) (left right : Expr) (a b p q : Ty) :
    Check (Option Expr) := do
  if op = .arith .add then reject node.place (.addedPointers a b)
  else if !p.sameIgnoringConst q then reject node.place (.subtractedPointers a b)
  else if p.isVoid then reject node.place (.voidArithmetic a)
  else
    let v := a.variability.join b.variability
    let sizeType := (← target).sizeType.withVariability v
    return binaryOf node op sizeType
      (← convertBoth left (a.withVariability v) right (b.withVariability v) op.description)

def offsetPointer (node : Node) (op : BinaryOp) (left right : Expr) (a b : Ty) (pointerOnLeft : Bool) :
    Check (Option Expr) := do
  let pointer := if pointerOnLeft then a else b
  let offset := if pointerOnLeft then b else a
  if op = .arith .sub ∧ !pointerOnLeft then reject node.place (.subtractedFrom pointer offset)
  else if !offset.isIntegerScalar then reject node.place (.pointerOffset offset)
  else if pointer.isVoidPointer then reject node.place (.voidArithmetic pointer)
  else
    let result := (pointer.withVariability (a.variability.join b.variability)).asNonConst
    let offsetType := (← target).sizeType.withVariability offset.variability
    return binaryOf node op result
      (← convertBoth left (if pointerOnLeft then result else offsetType) right
        (if pointerOnLeft then offsetType else result) op.description)

/-- Binary operators of which an operand is a pointer or an array. -/
def checkPointers (node : Node) (op : BinaryOp) (left right : Expr) : Check (Option Expr) := do
  let a := decayed (← left.type)
  let b := decayed (← right.type)
  if BinaryOp.isComparison op then comparePointers node op left right a b
  else if op ≠ .arith .add ∧ op ≠ .arith .sub then reject node.place (.pointerOperands op a b)
  else
    match a, b with
    | .pointer p _ _, .pointer q _ _ => subtractPointers node op left right a b p q
    | .pointer .., _ => offsetPointer node op left right a b true
    | _, _ => offsetPointer node op left right a b false

/-! ## Binary operators -/

/-- `bool` with the variability of a stored value. -/
def truthType (t : Ty) : Ty := .basic .bool t.stored.variability

def checkLogic (node : Node) (op : BinaryOp) (left right : Expr) : Check (Option Expr) := do
  let l ← convert left (truthType (← left.type)) op.description
  let r ← convert right (truthType (← right.type)) op.description
  match l, r with
  | some l, some r => do
    let v := (← l.type).variability.join (← r.type).variability
    return some (.binary (.typed node.place (.basic .bool v)) op l r false)
  | _, _ => return none

def checkValues (node : Node) (op : BinaryOp) (left right : Expr) (a b : Ty) :
    Check (Option Expr) := do
  match ← checkOperands node.place op a b with
  | none => return none
  | some t =>
    return binaryOf node op t.resultType
      (← convertBoth left t.operandType right t.operandType op.description)

def checkBinary (node : Node) (op : BinaryOp) (left right : Expr) : Check (Option Expr) := do
  match op with
  | .comma => return some (.binary (.typed node.place (← right.type).rvalue) op left right false)
  | .logic _ => checkLogic node op left right
  | _ => do
    let a := (← left.type).rvalue
    let b := (← right.type).rvalue
    if a.isPointer || b.isPointer || a.isArray || b.isArray then checkPointers node op left right
    else checkValues node op left right a b

/-! ## Assignments -/

def assignOf (node : Node) (op : AssignOp) (target : Expr) (type : Ty) (operandType : Option Ty) :
    Option Expr → Option Expr
  | some value => some (.assign (.typed node.place type) op target value operandType)
  | none => none

/-- A compound assignment to a pointer adds or subtracts an integer. -/
def assignPointer (node : Node) (op : ArithOp) (target value : Expr) (type : Ty) :
    Check (Option Expr) := do
  let assignOp := AssignOp.compound op
  let offset := (← value.type).rvalue
  if op ≠ .add ∧ op ≠ .sub then reject node.place (.pointerAssignment assignOp type)
  else if !offset.isIntegerScalar then reject node.place (.pointerOffset offset)
  else if type.isVoidPointer then reject node.place (.voidArithmetic type)
  else
    let sizeType := (← Check.target).sizeType.withVariability type.variability
    return assignOf node assignOp target type (some type) (← convert value sizeType assignOp.description)

def assignCompound (node : Node) (op : ArithOp) (target value : Expr) (type : Ty) :
    Check (Option Expr) := do
  let assignOp := AssignOp.compound op
  match ← checkOperands node.place (.arith op) type (← value.type) with
  | none => return none
  | some t =>
    if ← canConvert node.place assignOp.description false t.resultType type then
      return assignOf node assignOp target type (some t.operandType)
        (← convert value t.operandType assignOp.description)
    else return none

def checkAssign (node : Node) (op : AssignOp) (target value : Expr) : Check (Option Expr) := do
  if !(← target.isStorage) then reject node.place (.assignedValue target.text)
  else
    let type := (← target.type).stored
    if type.isConst then reject node.place (.assignedConst type)
    else if type.isArray || type.isFunction then reject node.place (.assignedType type)
    else
      match op with
      | .plain => return assignOf node op target type none (← convert value type "assignment")
      | .compound op =>
        if type.isPointer then assignPointer node op target value type
        else assignCompound node op target value type

/-! ## Selections -/

def checkSelect (node : Node) (test ifTrue ifFalse : Expr) : Check (Option Expr) := do
  let testType := (← test.type).stored
  match ← convert test (.basic .bool testType.variability) "select test" with
  | none => return none
  | some test =>
    match ← commonType node.place "select expression" (← ifTrue.type) (← ifFalse.type) with
    | none => return none
    | some t => do
      let type := if testType.isVarying then t.asVarying else t
      match ← convertBoth ifTrue type ifFalse type "select expression" with
      | none => return none
      | some (a, b) => return some (.select (.typed node.place type) test a b)

end Spmd.Check
