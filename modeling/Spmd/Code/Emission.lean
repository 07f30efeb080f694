import Spmd.Code.Instruction
import Spmd.Expr.Cost
import Spmd.Expr.Storage

/-!
# Emission of code

`Expr.value` emits the code for the value of a checked expression, `Expr.address` the code for the
address of the storage it denotes. A fault ends the emission; what was emitted before it stays.
-/

namespace Spmd

abbrev Emit (α : Type) : Type := ExceptT Fault (StateM Code) α

namespace Emit

/-- Appends an instruction and gives the value it computes. -/
def emit (i : Instruction) : Emit Value := do
  let code ← get
  set (code ++ [i])
  return ⟨code.length⟩

def run {α : Type} (emission : Emit α) (code : Code) : Except Fault α × Code :=
  (ExceptT.run emission).run code

end Emit

open Emit (emit)

namespace Expr

/-! ## Storage -/

/-- The address of the storage a base denotes. The value of a reference is the address of what it
refers to. -/
def storageAddress (e : Expr) (value : Emit Value) (address : Emit (Option Value)) : Emit Value := do
  if (← e.type).isReference then value
  else
    match ← address with
    | some a => return a
    | none => throw (.noStorage e.text)

/-- The value at an address, if there is one. -/
def loadFrom (address : Option Value) (type : Except Fault Ty) (otherwise : Emit Value) :
    Emit Value := do
  match address with
  | some a => emit (.load a (← type))
  | none => otherwise

/-! ## Steps -/

/-- The sum or difference of a value and an amount; a pointer is moved by an offset. -/
def emitOffset (down : Bool) (before amount : Value) (amountType : Except Fault Ty) (type : Ty) :
    Emit Value := do
  let offset ← if down then do emit (.unary .neg amount (← amountType)) else pure amount
  emit (.pointerOffset before offset type)

def emitStep (node : Node) (s : Step) (amount : Option Literal) (address : Emit Value) :
    Emit Value := do
  match amount with
  | none => throw .uncheckedStep
  | some one => do
    let type ← node.checked
    let place ← address
    let before ← emit (.load place type)
    let amount ← emit (.constant one.value one.type)
    let after ← if type.isPointer then emitOffset s.isDown before amount (.ok one.type) type
      else emit (.binary (if s.isDown then .sub else .add) before amount type)
    let _ ← emit (.store after place type)
    return if s.isPost then before else after

/-! ## Binary operators -/

def emitLogic (node : Node) (op : LogicOp) (left right : Emit Value) : Emit Value := do
  let l ← left
  let type ← node.checked
  let _ ← emit (.rightOperand op l)
  let r ← right
  emit (.logical op l r type)

/-- Arithmetic of which an operand is a pointer. -/
def emitPointerArith (node : Node) (op : ArithOp) (leftType : Ty) (rightType : Except Fault Ty)
    (l r : Value) : Emit Value := do
  let rightType ← rightType
  if leftType.isPointer && rightType.isPointer then emit (.pointerDifference l r (← node.checked))
  else
    let type ← node.checked
    if !type.isPointer then throw (.pointerArithmeticType type)
    else if leftType.isPointer then emitOffset (op == .sub) l r (.ok rightType) type
    else emit (.pointerOffset r l type)

def emitArith (node : Node) (op : ArithOp) (left right : Expr) (l r : Value) : Emit Value := do
  let leftType ← left.type
  let pointer ← if leftType.isPointer then pure true else do pure (← right.type).isPointer
  if pointer then emitPointerArith node op leftType right.type l r
  else emit (.binary op l r (← node.checked))

/-- Both operands are evaluated, but for the right one of a logical operator. -/
def emitBinary (node : Node) (op : BinaryOp) (left right : Expr) (leftValue rightValue : Emit Value) :
    Emit Value := do
  match op with
  | .logic op => emitLogic node op leftValue rightValue
  | .comma => do
    let _ ← leftValue
    rightValue
  | .compare op => do
    let l ← leftValue
    let r ← rightValue
    emit (.compare op l r (← left.type))
  | .arith op => do
    let l ← leftValue
    let r ← rightValue
    emitArith node op left right l r

/-! ## Assignments -/

def emitCompound (op : ArithOp) (type operandType : Ty) (valueType : Except Fault Ty)
    (current value : Value) : Emit Value := do
  if type.isPointer then emitOffset (op == .sub) current value valueType type
  else if operandType.same type then emit (.binary op current value operandType)
  else do
    let left ← emit (.cast current type operandType)
    let combined ← emit (.binary op left value operandType)
    emit (.cast combined operandType type)

def emitAssign (node : Node) (op : AssignOp) (value : Expr) (operandType : Option Ty)
    (address assigned : Emit Value) : Emit Value := do
  let type ← node.checked
  let place ← address
  match op with
  | .plain => do
    let v ← assigned
    let _ ← emit (.store v place type)
    return v
  | .compound op => do
    let current ← emit (.load place type)
    let v ← assigned
    let result ← emitCompound op type (operandType.getD type) value.type current v
    let _ ← emit (.store result place type)
    return result

/-! ## Calls -/

def emitCall (e callee : Expr) (launch : Bool) (signature : Option Signature)
    (calleeValue : Emit Value) (args : Emit (List Value)) (count : Option (Emit Value)) :
    Emit Value := do
  match signature with
  | none => throw (.uncheckedCall e.text)
  | some s => do
    let c ← calleeValue
    let vs ← args
    if launch then
      match count with
      | none => throw (.launchWithoutCount e.text)
      | some n => do emit (.launch c vs (← n) s)
    else emit (.call (← callee.isVaryingCallee) c vs s)

/-! ## Elements and members -/

def elementAddress (e base : Expr) (baseValue : Emit Value) (baseAddress : Emit (Option Value))
    (position : Emit Value) : Emit (Option Value) := do
  match ← e.addressType with
  | none => return none
  | some type => do
    let stored := (← base.type).stored
    let b ← if stored.isPointer then baseValue else storageAddress base baseValue baseAddress
    let i ← position
    return some (← emit (.elementAddress b i stored type))

def accessOf (e : Expr) (access : Option Access) : Except Fault Access :=
  match access with
  | some a => .ok a
  | none => .error (.uncheckedMember e.text)

def memberAddress (e base : Expr) (arrow : Bool) (access : Option Access) (baseValue : Emit Value)
    (baseAddress : Emit (Option Value)) : Emit (Option Value) := do
  match ← e.addressType with
  | none => return none
  | some type => do
    let b ← if arrow then baseValue else storageAddress base baseValue baseAddress
    let a ← accessOf e access
    return some (← emit (.memberAddress b a.position a.aggregate type))

/-- Picks elements out of a value that has no address. -/
def pickElements (e : Expr) (node : Node) (access : Option Access) (base : Emit Value) :
    Emit Value := do
  let a ← accessOf e access
  let b ← base
  match a with
  | .swizzle (i :: j :: rest) _ => do
    let type ← node.checked
    if type.isVector then emit (.swizzle b (i :: j :: rest) type) else throw (.swizzleType type)
  | _ => do emit (.extractAt b a.position (← node.checked))

/-! ## Pointers -/

def emitFunction (f : FunctionName) : Emit Value := do
  match f.function? with
  | some s => emit (.functionAddress s)
  | none => throw (.unresolvedFunction f.name)

def emitNull (node : Node) : Emit Value := do
  let type ← node.checked
  if type.isPointer then emit (.nullPointer type) else throw (.nullType type)

def emitNew (node : Node) (allocated : Ty) (count init : Option (Emit Value)) : Emit Value := do
  let type ← node.checked
  if !type.isPointer then throw (.newType type)
  else
    let n ← match count with
      | some c => do pure (some (← c))
      | none => pure none
    let pointer ← emit (.allocate allocated n type)
    match init with
    | some v => do
      let _ ← emit (.store (← v) pointer allocated)
      return pointer
    | none => return pointer

/-! ## Expressions -/

mutual
def value : Expr → Emit Value
  | .unary node op e => do emit (.unary op (← e.value) (← node.checked))
  | .step node s e amount => emitStep node s amount (storageAddress e e.value e.address)
  | .binary node op l r _ => emitBinary node op l r l.value r.value
  | .assign node op t v operandType =>
    emitAssign node op v operandType (storageAddress t t.value t.address) v.value
  | .select node t a b => do
    let t ← t.value
    let a ← a.value
    let b ← b.value
    emit (.select t a b (← node.checked))
  | .list node es => do emit (.aggregate (← values es) (← node.checked))
  | .call node c args launch count signature =>
    emitCall (.call node c args launch count signature) c launch signature c.value (values args)
      (match count with
       | some n => some n.value
       | none => none)
  | .index node b i => do
    let address ← elementAddress (.index node b i) b b.value b.address i.value
    loadFrom address node.checked do
      let base ← b.value
      let position ← i.value
      emit (.extract base position (← node.checked))
  | .member node b name arrow access => do
    let e : Expr := .member node b name arrow access
    loadFrom (← memberAddress e b arrow access b.value b.address) node.checked
      (pickElements e node access b.value)
  | .const node c => do emit (.constant c (← node.checked))
  | .cast node _ e _ => do emit (.cast (← e.value) (← e.type) (← node.checked))
  | .reference _ e => storageAddress e e.value e.address
  | .dereference node e => do emit (.load (← e.value) (← node.checked))
  | .addressOf _ e => if e.isFunctionName then e.value else storageAddress e e.value e.address
  | .sizeOf node e => do emit (.sizeOf (← e.type) (← node.checked))
  | .sizeOfType node t => do emit (.sizeOf t (← node.checked))
  | .symbol node s => do emit (.load (← emit (.symbolAddress s)) (← node.checked))
  | .function f => emitFunction f
  | .sync _ => emit .sync
  | .null node => emitNull node
  | .new node t count init _ =>
    emitNew node t
      (match count with
       | some n => some n.value
       | none => none)
      (match init with
       | some e => some e.value
       | none => none)
def values : List Expr → Emit (List Value)
  | [] => return []
  | e :: es => do
    let v ← e.value
    let vs ← values es
    return v :: vs
def address : Expr → Emit (Option Value)
  | .index node b i => elementAddress (.index node b i) b b.value b.address i.value
  | .member node b name arrow access =>
    memberAddress (.member node b name arrow access) b arrow access b.value b.address
  | .reference _ e => e.address
  | .dereference _ e => some <$> e.value
  | .symbol _ s => do return some (← emit (.symbolAddress s))
  | _ => return none
end

end Expr

end Spmd
