import Spmd.Expr.Text

/-!
# Cost

The estimated cost of evaluating a checked expression: the cost of its own operation and that of its
children.
-/

namespace Spmd

namespace Cost

def simpleArithmetic : Nat := 1
def complexArithmetic : Nat := 4
def assign : Nat := 1
def select : Nat := 4
def load : Nat := 2
def gather : Nat := 8
def simpleCast : Nat := 1
def complexCast : Nat := 4
def functionCall : Nat := 4
def uniformPointerCall : Nat := 12
def varyingPointerCall : Nat := 24
def taskLaunch : Nat := 32
def new : Nat := 32
def sync : Nat := 32

def table : List (String × Nat) :=
  [("SimpleArithmetic", simpleArithmetic), ("ComplexArithmetic", complexArithmetic),
    ("Assign", assign), ("Select", select), ("Load", load), ("Gather", gather),
    ("SimpleCast", simpleCast), ("ComplexCast", complexCast), ("FunctionCall", functionCall),
    ("UniformFunctionPointerCall", uniformPointerCall),
    ("VaryingFunctionPointerCall", varyingPointerCall), ("TaskLaunch", taskLaunch), ("New", new),
    ("Sync", sync)]

/-- Reading memory costs more when every lane reads elsewhere. -/
def read (varying : Bool) : Nat := if varying then gather else load

end Cost

def ArithOp.cost : ArithOp → Nat
  | .div | .mod => Cost.complexArithmetic
  | _ => Cost.simpleArithmetic

namespace Expr

def isFunctionName : Expr → Bool
  | function _ => true
  | _ => false

/-- Whether a callee is a varying function pointer, so that each lane may call another function. -/
def isVaryingCallee (callee : Expr) : Except Fault Bool :=
  if callee.isFunctionName then .ok false else (·.stored.isVarying) <$> callee.type

/-- The cost of what a node does itself. -/
def ownCost : Expr → Except Fault Nat
  | unary .. => .ok Cost.simpleArithmetic
  | step .. => .ok (Cost.load + Cost.simpleArithmetic + Cost.assign)
  | binary _ op .. =>
    .ok (match op with
      | .comma => 0
      | .arith op => op.cost
      | _ => Cost.simpleArithmetic)
  | assign _ op .. =>
    .ok (match op with
      | .plain => Cost.assign
      | .compound op => Cost.assign + Cost.load + op.cost)
  | select .. => .ok Cost.select
  | call _ callee _ launch .. => do
    if launch then .ok Cost.taskLaunch
    else if callee.isFunctionName then .ok Cost.functionCall
    else .ok (if ← callee.isVaryingCallee then Cost.varyingPointerCall else Cost.uniformPointerCall)
  | index _ base position => do
    let stored := (← base.type).stored
    let varyingPosition := (← position.type).isVarying
    .ok (Cost.read (varyingPosition || (stored.isPointer && stored.isVarying)))
  | member _ base _ arrow _ => do
    if arrow then .ok (Cost.read (← base.type).stored.isVarying) else .ok 0
  | dereference _ e => do .ok (Cost.read (← e.type).isVarying)
  | e@(cast _ _ operand _) => do
    let source ← operand.type
    let target ← e.type
    .ok (if source.isFloat != target.isFloat then Cost.complexCast else Cost.simpleCast)
  | new .. => .ok Cost.new
  | sync _ => .ok Cost.sync
  | list .. | const .. | reference .. | addressOf .. | sizeOf .. | sizeOfType .. | symbol ..
  | function .. | null .. => .ok 0

/-- The sum of costs; the first that cannot be told decides. -/
def sumCosts : List (Except Fault Nat) → Except Fault Nat
  | [] => .ok 0
  | c :: cs => do .ok ((← c) + (← sumCosts cs))

mutual
def cost : Expr → Except Fault Nat
  | e@(unary _ _ a) => sumCosts [e.ownCost, a.cost]
  | e@(step _ _ a _) => sumCosts [e.ownCost, a.cost]
  | e@(binary _ _ l r _) => sumCosts [e.ownCost, l.cost, r.cost]
  | e@(assign _ _ t v _) => sumCosts [e.ownCost, t.cost, v.cost]
  | e@(select _ t a b) => sumCosts [e.ownCost, t.cost, a.cost, b.cost]
  | e@(list _ es) => sumCosts (e.ownCost :: costs es)
  | e@(call _ c args _ count _) =>
    sumCosts (e.ownCost :: c.cost :: costs args ++
      (match count with
       | some n => [n.cost]
       | none => []))
  | e@(index _ b i) => sumCosts [e.ownCost, b.cost, i.cost]
  | e@(member _ b _ _ _) => sumCosts [e.ownCost, b.cost]
  | e@(cast _ _ a _) => sumCosts [e.ownCost, a.cost]
  | e@(reference _ a) => sumCosts [e.ownCost, a.cost]
  | e@(dereference _ a) => sumCosts [e.ownCost, a.cost]
  | e@(addressOf _ a) => sumCosts [e.ownCost, a.cost]
  | e@(sizeOf _ a) => sumCosts [e.ownCost, a.cost]
  | e@(new _ _ count init _) =>
    sumCosts (e.ownCost ::
      (match count with
       | some n => [n.cost]
       | none => []) ++
      (match init with
       | some a => [a.cost]
       | none => []))
  | e@(const ..) => e.ownCost
  | e@(sizeOfType ..) => e.ownCost
  | e@(symbol ..) => e.ownCost
  | e@(function ..) => e.ownCost
  | e@(sync ..) => e.ownCost
  | e@(null ..) => e.ownCost
def costs : List Expr → List (Except Fault Nat)
  | [] => []
  | e :: es => e.cost :: costs es
end

end Expr

end Spmd
