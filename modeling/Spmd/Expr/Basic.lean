import Spmd.Operator
import Spmd.Symbol

/-!
# Expressions

Expressions are trees of nineteen forms. Each node carries its place in the source, the type it was
given when it was checked, and a tag by which several trees can refer to one node.
-/

namespace Spmd

structure Node where
  tag : Option Nat := none
  place : Option Location := none
  type : Option Ty := none
  deriving Inhabited

/-- A node that has been checked. -/
def Node.typed (place : Option Location) (type : Ty) : Node := ⟨none, place, some type⟩

def Node.checked (n : Node) : Except Fault Ty :=
  match n.type with
  | some t => .ok t
  | none => .error (.notSet "type")

/-- A new node in the place of a checked one. -/
def Node.renewed (n : Node) : Except Fault Node := do .ok (.typed n.place (← n.checked))

/-- What is known about the function that an overloaded name stands for. A name is resolved only
once, whether that succeeds or not. -/
structure Choice where
  chosen : Option Symbol := none
  attempted : Bool := false
  deriving Inhabited

/-- The name of a function, with all functions of that name. -/
structure FunctionName where
  node : Node
  name : String
  candidates : List Symbol
  choice : Choice := {}
  deriving Inhabited

namespace FunctionName

/-- The chosen function, or the only one there is. -/
def function? (f : FunctionName) : Option Symbol :=
  match f.choice.chosen with
  | some s => some s
  | none =>
    match f.candidates with
    | [s] => some s
    | _ => none

def isResolved (f : FunctionName) : Bool := f.function?.isSome

end FunctionName

inductive Access where
  | field (index : Nat) (aggregate : Ty)
  | swizzle (indices : List Nat) (aggregate : Ty)
  deriving Inhabited

namespace Access

def position : Access → Nat
  | .field i _ => i
  | .swizzle is _ => is.headD 0

def aggregate : Access → Ty
  | .field _ t => t
  | .swizzle _ t => t

/-- Several elements of a vector have no common address. -/
def isAddressable : Access → Bool
  | .field .. => true
  | .swizzle indices _ => indices.length == 1

end Access

structure Literal where
  type : Ty
  value : Constant
  deriving Inhabited

inductive Expr where
  | unary (node : Node) (op : ValueOp) (operand : Expr)
  | step (node : Node) (step : Step) (operand : Expr) (amount : Option Literal)
  | binary (node : Node) (op : BinaryOp) (left right : Expr) (reported : Bool)
  | assign (node : Node) (op : AssignOp) (target value : Expr) (operandType : Option Ty)
  | select (node : Node) (test ifTrue ifFalse : Expr)
  | list (node : Node) (items : List Expr)
  | call (node : Node) (callee : Expr) (args : List Expr) (launch : Bool) (count : Option Expr)
      (signature : Option Signature)
  | index (node : Node) (base position : Expr)
  | member (node : Node) (base : Expr) (name : String) (arrow : Bool) (access : Option Access)
  | const (node : Node) (value : Constant)
  | cast (node : Node) (target : Ty) (operand : Expr) (reported : Bool)
  | reference (node : Node) (operand : Expr)
  | dereference (node : Node) (operand : Expr)
  | addressOf (node : Node) (operand : Expr)
  | sizeOf (node : Node) (operand : Expr)
  | sizeOfType (node : Node) (measured : Ty)
  | symbol (node : Node) (symbol : Symbol)
  | function (name : FunctionName)
  | sync (node : Node)
  | null (node : Node)
  | new (node : Node) (allocated : Ty) (count init : Option Expr) (varying : Bool)
  deriving Inhabited

namespace Expr

/-! ## Nodes -/

def node : Expr → Node
  | unary n .. => n
  | step n .. => n
  | binary n .. => n
  | assign n .. => n
  | select n .. => n
  | list n _ => n
  | call n .. => n
  | index n .. => n
  | member n .. => n
  | const n _ => n
  | cast n .. => n
  | reference n _ => n
  | dereference n _ => n
  | addressOf n _ => n
  | sizeOf n _ => n
  | sizeOfType n _ => n
  | symbol n _ => n
  | function f => f.node
  | sync n => n
  | null n => n
  | new n .. => n

def mapNode (f : Node → Node) : Expr → Expr
  | unary n op e => unary (f n) op e
  | step n s e amount => step (f n) s e amount
  | binary n op l r reported => binary (f n) op l r reported
  | assign n op t v operandType => assign (f n) op t v operandType
  | select n t a b => select (f n) t a b
  | list n es => list (f n) es
  | call n c args launch count sig => call (f n) c args launch count sig
  | index n b i => index (f n) b i
  | member n b name arrow access => member (f n) b name arrow access
  | const n v => const (f n) v
  | cast n t e reported => cast (f n) t e reported
  | reference n e => reference (f n) e
  | dereference n e => dereference (f n) e
  | addressOf n e => addressOf (f n) e
  | sizeOf n e => sizeOf (f n) e
  | sizeOfType n t => sizeOfType (f n) t
  | symbol n s => symbol (f n) s
  | function g => function { g with node := f g.node }
  | sync n => sync (f n)
  | null n => null (f n)
  | new n t count init varying => new (f n) t count init varying

def place (e : Expr) : Option Location := e.node.place

def type? (e : Expr) : Option Ty := e.node.type

def isTyped (e : Expr) : Bool := e.type?.isSome

def type (e : Expr) : Except Fault Ty := e.node.checked

/-! ## Parts -/

def children : Expr → List Expr
  | unary _ _ e => [e]
  | step _ _ e _ => [e]
  | binary _ _ l r _ => [l, r]
  | assign _ _ t v _ => [t, v]
  | select _ t a b => [t, a, b]
  | list _ es => es
  | call _ c args _ count _ => c :: args ++ count.toList
  | index _ b i => [b, i]
  | member _ b .. => [b]
  | cast _ _ e _ => [e]
  | reference _ e => [e]
  | dereference _ e => [e]
  | addressOf _ e => [e]
  | sizeOf _ e => [e]
  | new _ _ count init _ => count.toList ++ init.toList
  | const .. | sizeOfType .. | symbol .. | function .. | sync .. | null .. => []

/-- A literal integer zero, which may stand for a null pointer. -/
def isZeroConstant : Expr → Bool
  | const n c => n.type.any Ty.isInteger && c.isZero
  | _ => false

def isNull : Expr → Bool
  | null _ => true
  | _ => false

def constant? : Expr → Option Constant
  | const _ c => some c
  | _ => none

end Expr

/-! ## Constants and their types -/

namespace Literal

/-- A constant fits a type of its kind: one element when the type is uniform, one in every lane when
it is varying. The type of a literal is `const`. -/
def make (type : Ty) (value : Constant) : Except Fault Literal :=
  match type with
  | .void _ => .error (.noConstantOf type)
  | .scalar s =>
    if s.element.kind ≠ value.kind then .error (.kindMismatch value.kind type)
    else if s.qualifiers.variability = .varying then .ok ⟨type.asConst, value.broadcast⟩
    else if value.count ≠ 1 then .error (.uniformElements value.count)
    else .ok ⟨type.asConst, value⟩
  | _ => .error (.kindMismatch value.kind type)

def ofScalars (width : Nat) (type : Ty) (values : List Scalar) : Except Fault Literal := do
  make type (← Constant.ofType width type values)

def expr (l : Literal) (place : Option Location) : Expr := .const (.typed place l.type) l.value

end Literal

end Spmd
