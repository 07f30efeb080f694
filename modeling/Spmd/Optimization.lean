import Spmd.Constant.Folding
import Spmd.Session

/-!
# Optimization

`Check.optimize` folds constants in a checked expression. An operator whose operands became constants
becomes a constant, a selection with a known test becomes one of its branches, and constant symbols are
replaced by their values where the value counts and not the storage. A fold that fails is reported once:
the node remembers it. Every other node is rebuilt around its optimized children.
-/

namespace Spmd.Check

/-! ## Outcomes of folding -/

/-- Types whose constants can be folded: `void` passes here, but no constant has that type. -/
def isFoldable (t : Ty) : Bool := t.isScalar || t.isVoid

/-- A folded constant takes the place and the type of the node it replaces. -/
def folded (node : Node) (value : Constant) : Except Fault Expr := do
  return (← Literal.make (← node.checked) value).expr node.place

/-- Reports why a constant could not be folded, unless that was reported before. -/
def reportFold (node : Node) (cause : FoldProblem) (reported : Bool) : Check Unit :=
  if reported then return else report node.place (.folding cause)

/-! ## Operators -/

def optimizeUnary (node : Node) (op : ValueOp) (operand : Expr) : Check (Option Expr) := do
  let renewed ← node.renewed
  let rebuilt : Expr := .unary renewed op operand
  match operand.constant? with
  | none => return some rebuilt
  | some c =>
    if !renewed.type.any isFoldable then return some rebuilt
    else
      match ← foldUnary (.value op) c with
      | .value v => return some (← folded node v)
      | _ => return some rebuilt

/-- The left operand of a comma is dropped once it is constant; what is left is a value. -/
def optimizeComma (node : Node) (left right : Expr) (reported : Bool) : Check (Option Expr) := do
  match left.constant? with
  | none => return some (.binary (← node.renewed) .comma left right reported)
  | some _ =>
    match ← right.type with
    | .reference t _ => return some (.dereference (.typed right.place t) right)
    | _ => return some right

def hasPointer (left right : Expr) : Except Fault Bool := do
  if (← left.type).isPointer then .ok true else .ok (← right.type).isPointer

def foldConstants (node : Node) (op : BinaryOp) (left right : Expr) (a b : Constant)
    (reported : Bool) : Check (Option Expr) := do
  let renewed ← node.renewed
  match ← foldBinary (some op) a.kind a b with
  | .value v => return some (← folded node v)
  | .problem cause => do
    reportFold node cause reported
    return some (.binary renewed op left right true)
  | .unfoldable => return some (.binary renewed op left right reported)

/-- Given the optimized operands, and whether one of the operands was a pointer before. -/
def optimizeBinary (node : Node) (op : BinaryOp) (left right : Expr) (reported : Bool)
    (pointer : Except Fault Bool) : Check (Option Expr) := do
  if op = .comma then optimizeComma node left right reported
  else
    match left.constant?, right.constant? with
    | some a, some b =>
      let pointer ← pointer
      let renewed ← node.renewed
      if pointer || !renewed.type.any isFoldable then
        return some (.binary renewed op left right reported)
      else foldConstants node op left right a b reported
    | _, _ => return some (.binary (← node.renewed) op left right reported)

/-! ## Selections -/

/-- The verdict of a constant test, if it is the same in every lane. -/
def verdict? (test : Constant) : Except Fault (Option Bool) := do
  let lanes ← test.extract .bool false
  if lanes.isEmpty then .ok none
  else if lanes.all (· == .bool true) then .ok (some true)
  else if lanes.all (· == .bool false) then .ok (some false)
  else .ok none

/-- Chooses between the lanes of two constants. -/
def foldLanes (node : Node) (test : Constant) (ifTrue ifFalse : Expr) : Except Fault (Option Expr) := do
  let renewed ← node.renewed
  match ifTrue.constant?, ifFalse.constant? with
  | some a, some b =>
    if !renewed.type.any isFoldable then .ok none
    else
      match ← foldSelect test a b with
      | .value v => .ok (some (← folded node v))
      | _ => .ok none
  | _, _ => .ok none

def optimizeSelect (node : Node) (test ifTrue ifFalse : Expr) : Except Fault (Option Expr) := do
  match test.constant? with
  | none => .ok (some (.select (← node.renewed) test ifTrue ifFalse))
  | some c =>
    match ← verdict? c with
    | some true => .ok (some ifTrue)
    | some false => .ok (some ifFalse)
    | none =>
      match ← foldLanes node c ifTrue ifFalse with
      | some e => .ok (some e)
      | none => .ok (some (.select (← node.renewed) test ifTrue ifFalse))

/-! ## Casts and symbols -/

def foldCasted (node : Node) (target type : Ty) (operand : Expr) (c : Constant) (reported : Bool) :
    Check (Option Expr) := do
  let renewed ← node.renewed
  match foldCast c (← type.constantKind) type.isVarying with
  | .value v => return some (← folded node v)
  | .problem cause => do
    reportFold node cause reported
    return some (.cast renewed target operand true)
  | .unfoldable => return some (.cast renewed target operand reported)

/-- A cast to the type an operand already has is dropped. -/
def optimizeCast (node : Node) (target : Ty) (operand : Expr) (reported : Bool) :
    Check (Option Expr) := do
  let renewed ← node.renewed
  let type ← node.checked
  if (← operand.type).same type then return some operand
  else
    match operand.constant? with
    | some c =>
      if isFoldable type then foldCasted node target type operand c reported
      else return some (.cast renewed target operand reported)
    | none => return some (.cast renewed target operand reported)

def optimizeSymbol (node : Node) (s : Symbol) : Except Fault (Option Expr) := do
  let type ← node.checked
  match s.value with
  | some v =>
    if isFoldable type then .ok (some ((← Literal.make type v).expr node.place))
    else .ok (some (.symbol node s))
  | none => .ok (some (.symbol node s))

/-! ## Expressions -/

def rebuild (node : Node) (make : Node → Expr → Expr) (operand : Option Expr) : Check (Option Expr) := do
  match operand with
  | some e => return some (make (← node.renewed) e)
  | none => return none

def rebuildBoth (node : Node) (make : Node → Expr → Expr → Expr) (left right : Option Expr) :
    Check (Option Expr) := do
  match left, right with
  | some l, some r => return some (make (← node.renewed) l r)
  | _, _ => return none

def isSymbol : Expr → Bool
  | .symbol .. => true
  | _ => false

mutual
def optimize : Expr → Check (Option Expr)
  | .unary node op e => do
    match ← optimize e with
    | some e => optimizeUnary node op e
    | none => return none
  | .step node s e amount => do
    let e ← if isSymbol e then pure (some e) else optimize e
    rebuild node (fun n e => .step n s e amount) e
  | .binary node op l r reported => do
    let pointer := hasPointer l r
    let l ← optimize l
    let r ← optimize r
    match l, r with
    | some l, some r => optimizeBinary node op l r reported pointer
    | _, _ => return none
  | .assign node op t v operandType => do
    let t ← if isSymbol t then pure (some t) else optimize t
    let v ← optimize v
    rebuildBoth node (fun n t v => .assign n op t v operandType) t v
  | .select node t a b => do
    let t ← optimize t
    let a ← optimize a
    let b ← optimize b
    match t, a, b with
    | some t, some a, some b => optimizeSelect node t a b
    | _, _, _ => return none
  | .list node es => do
    match ← optimizeAll es with
    | some es => return some (.list (← node.renewed) es)
    | none => return none
  | .call node c args launch count signature => do
    let c ← optimize c
    let args ← optimizeAll args
    let count ← match count with
      | none => pure (some none)
      | some n => do pure ((← optimize n).map some)
    match c, args, count with
    | some c, some args, some count =>
      return some (.call (← node.renewed) c args launch count signature)
    | _, _, _ => return none
  | .index node b i => do
    let b ← optimize b
    let i ← optimize i
    rebuildBoth node .index b i
  | .member node b name arrow access => do
    rebuild node (fun n b => .member n b name arrow access) (← optimize b)
  | .const node c => return some (.const node c)
  | .cast node t e reported => do
    match ← optimize e with
    | some e => optimizeCast node t e reported
    | none => return none
  | .reference node e => do
    rebuild node .reference (← if isSymbol e then pure (some e) else optimize e)
  | .dereference node e => do rebuild node .dereference (← optimize e)
  | .addressOf node e => do
    rebuild node .addressOf (← if isSymbol e then pure (some e) else optimize e)
  | .sizeOf node e => return some (.sizeOf node e)
  | .sizeOfType node t => return some (.sizeOfType node t)
  | .symbol node s => do optimizeSymbol node s
  | .function f => return some (.function f)
  | .sync node => return some (.sync node)
  | .null node => return some (.null node)
  | .new node t count init varying => do
    let count ← match count with
      | none => pure (some none)
      | some n => do pure ((← optimize n).map some)
    let init ← match init with
      | none => pure (some none)
      | some e => do pure ((← optimize e).map some)
    match count, init with
    | some count, some init => return some (.new (← node.renewed) t count init varying)
    | _, _ => return none
/-- Optimizes every expression of a list; no result when one of them has none. -/
def optimizeAll : List Expr → Check (Option (List Expr))
  | [] => return some []
  | e :: es => do
    let first ← optimize e
    let rest ← optimizeAll es
    match first, rest with
    | some e, some es => return some (e :: es)
    | _, _ => return none
end

end Spmd.Check
