import Spmd.Operator
import Spmd.Symbol

/-!
# Straight-line code

Code is a list of instructions. The instruction at position `n` computes the value with number `n`, and
its operands are values of earlier instructions.
-/

namespace Spmd

structure Value where
  id : Nat
  deriving DecidableEq, Repr, Inhabited

def Value.text (v : Value) : String := s!"%{v.id}"

inductive Instruction where
  | constant (value : Constant) (type : Ty)
  | nullPointer (type : Ty)
  | unary (op : ValueOp) (operand : Value) (type : Ty)
  | binary (op : ArithOp) (left right : Value) (type : Ty)
  | compare (op : CompareOp) (left right : Value) (operandType : Ty)
  /-- The right operand of a logical operator starts here, and is needed only if the left one does not
  decide. -/
  | rightOperand (op : LogicOp) (left : Value)
  | logical (op : LogicOp) (left right : Value) (type : Ty)
  | select (test ifTrue ifFalse : Value) (type : Ty)
  | cast (operand : Value) (source target : Ty)
  | load (address : Value) (type : Ty)
  | store (stored address : Value) (type : Ty)
  | symbolAddress (symbol : Symbol)
  | functionAddress (symbol : Symbol)
  | elementAddress (base position : Value) (baseType type : Ty)
  | memberAddress (base : Value) (member : Nat) (aggregate type : Ty)
  | extract (aggregate position : Value) (type : Ty)
  | extractAt (aggregate : Value) (position : Nat) (type : Ty)
  | swizzle (vector : Value) (positions : List Nat) (type : Ty)
  | pointerOffset (pointer offset : Value) (type : Ty)
  | pointerDifference (left right : Value) (type : Ty)
  | call (varying : Bool) (callee : Value) (args : List Value) (signature : Signature)
  | launch (callee : Value) (args : List Value) (count : Value) (signature : Signature)
  | sync
  | allocate (type : Ty) (count : Option Value) (pointer : Ty)
  | sizeOf (measured type : Ty)
  | aggregate (parts : List Value) (type : Ty)
  deriving Inhabited

abbrev Code := List Instruction

namespace Instruction

/-! ## Parts -/

def operands : Instruction → List Value
  | constant .. | nullPointer _ | symbolAddress _ | functionAddress _ | sync | sizeOf .. => []
  | unary _ v _ => [v]
  | binary _ l r _ => [l, r]
  | compare _ l r _ => [l, r]
  | rightOperand _ l => [l]
  | logical _ l r _ => [l, r]
  | select t a b _ => [t, a, b]
  | cast v .. => [v]
  | load a _ => [a]
  | store v a _ => [v, a]
  | elementAddress b i .. => [b, i]
  | memberAddress b .. => [b]
  | extract a i _ => [a, i]
  | extractAt a .. => [a]
  | swizzle v .. => [v]
  | pointerOffset p o _ => [p, o]
  | pointerDifference l r _ => [l, r]
  | call _ c args _ => c :: args
  | launch c args n _ => c :: args ++ [n]
  | allocate _ n _ => n.toList
  | aggregate vs _ => vs

/-- Instructions that do more than compute a value. -/
def isEffect : Instruction → Bool
  | store .. | call .. | launch .. | allocate .. | sync => true
  | _ => false

/-! ## Text -/

def words : Instruction → List String
  | constant c t => ["constant", c.kind.name, c.text, t.text]
  | nullPointer t => ["nullPointer", t.text]
  | unary op v t => ["unary", op.text, v.text, t.text]
  | binary op l r t => ["binary", op.text, l.text, r.text, t.text]
  | compare op l r t => ["compare", op.text, l.text, r.text, t.text]
  | rightOperand op l => ["logicalRight", op.text, l.text]
  | logical op l r t => ["logical", op.text, l.text, r.text, t.text]
  | select c a b t => ["select", c.text, a.text, b.text, t.text]
  | cast v s t => ["cast", v.text, s.text, t.text]
  | load a t => ["load", a.text, t.text]
  | store v a t => ["store", v.text, a.text, t.text]
  | symbolAddress s => ["symbolAddress", s.name, s.storage.name]
  | functionAddress s => ["functionAddress", s.text]
  | elementAddress b i s t => ["elementAddress", b.text, i.text, s.text, t.text]
  | memberAddress b n s t => ["memberAddress", b.text, toString n, s.text, t.text]
  | extract a i t => ["extractElement", a.text, i.text, t.text]
  | extractAt a n t => ["extractElement", a.text, toString n, t.text]
  | swizzle v ns t => ["swizzle", v.text, ",".intercalate (ns.map toString), t.text]
  | pointerOffset p o t => ["pointerOffset", p.text, o.text, t.text]
  | pointerDifference l r t => ["pointerDifference", l.text, r.text, t.text]
  | call varying c args s =>
    (if varying then "varyingCall" else "call") :: c.text :: s.type.text :: args.map Value.text
  | launch c args n s => "launch" :: c.text :: s.type.text :: n.text :: args.map Value.text
  | sync => ["sync"]
  | allocate t n p => "allocate" :: t.text :: (n.toList.map Value.text ++ [p.text])
  | sizeOf m t => ["sizeOf", m.text, t.text]
  | aggregate vs t => "aggregate" :: t.text :: vs.map Value.text

end Instruction

namespace Code

/-- A line for each instruction, with the value it computes in front. -/
def lines (code : Code) : List String :=
  code.zipIdx.map fun (i, n) => (Value.mk n).text ++ " = " ++ " | ".intercalate i.words

end Code

end Spmd
