import Spmd.Constant.Basic
import Spmd.Operator

/-!
# Folding constants

Operators act lane by lane; a single element stands for every lane of the other operand. A fold has
three outcomes: a constant, a problem to report, or nothing, when the operator does not apply.
-/

namespace Spmd

inductive FoldProblem where
  | divisionByZero
  | modulusByZero
  | notANumber (kind : Kind)
  | outOfRange (value : Binary) (kind : Kind)
  deriving DecidableEq, Inhabited

def FoldProblem.text : FoldProblem → String
  | .divisionByZero => "division by zero in constant expression"
  | .modulusByZero => "modulus by zero in constant expression"
  | .notANumber kind => "can't convert NaN to " ++ kind.name ++ " in constant expression"
  | .outOfRange value kind => "constant " ++ value.text ++ " out of range for " ++ kind.name

inductive Folded (α : Type) where
  | value (result : α)
  | problem (cause : FoldProblem)
  | unfoldable
  deriving Inhabited

namespace Folded

/-- The first outcome that is no value decides. -/
def all {α : Type} : List (Folded α) → Folded (List α)
  | [] => .value []
  | .problem p :: _ => .problem p
  | .unfoldable :: _ => .unfoldable
  | .value x :: rest =>
    match all rest with
    | .value xs => .value (x :: xs)
    | .problem p => .problem p
    | .unfoldable => .unfoldable

end Folded

/-! ## Operators on one lane -/

def CompareOp.onInts (op : CompareOp) (a b : Int) : Bool :=
  match op with
  | .lt => a < b
  | .gt => b < a
  | .le => a ≤ b
  | .ge => b ≤ a
  | .eq => a = b
  | .ne => a ≠ b

def CompareOp.onReals (op : CompareOp) (a b : Binary) : Bool :=
  match op with
  | .lt => a.lt b
  | .gt => b.lt a
  | .le => a.le b
  | .ge => b.le a
  | .eq => a.eqv b
  | .ne => !a.eqv b

def ArithOp.onBools (op : ArithOp) (a b : Bool) : Folded Bool :=
  match op with
  | .and => .value (a && b)
  | .or => .value (a || b)
  | .xor => .value (a != b)
  | _ => .unfoldable

/-- The results of wrapping operators are exact here and wrap when they are stored. -/
def ArithOp.onInts (op : ArithOp) (kind : Kind) (a b : Int) : Folded Int :=
  let bitwise (f : BitVec kind.bits → BitVec kind.bits → BitVec kind.bits) : Folded Int :=
    .value (f (BitVec.ofInt _ a) (BitVec.ofInt _ b)).toInt
  let amountFits : Bool := 0 ≤ b && b < kind.bits
  match op with
  | .add => .value (a + b)
  | .sub => .value (a - b)
  | .mul => .value (a * b)
  | .div => if b = 0 then .problem .divisionByZero else .value (a.tdiv b)
  | .mod => if b = 0 then .problem .modulusByZero else .value (a.tmod b)
  | .and => bitwise (· &&& ·)
  | .or => bitwise (· ||| ·)
  | .xor => bitwise (· ^^^ ·)
  | .shl => if amountFits then .value (a * (Nat.pow 2 b.toNat : Nat)) else .unfoldable
  | .shr => if amountFits then .value (a / (Nat.pow 2 b.toNat : Nat)) else .unfoldable

def ArithOp.onReals (op : ArithOp) (a b : Binary) : Folded Binary :=
  match op with
  | .add => .value (a.add b)
  | .sub => .value (a.sub b)
  | .mul => .value (a.mul b)
  | .div => .value (a.div b)
  | _ => .unfoldable

def LogicOp.onBools (op : LogicOp) (a b : Bool) : Bool :=
  match op with
  | .and => a && b
  | .or => a || b

def Folded.map {α β : Type} (f : α → β) : Folded α → Folded β
  | .value x => .value (f x)
  | .problem p => .problem p
  | .unfoldable => .unfoldable

/-- One lane of a binary operator on operands of one kind. -/
def foldLane (op : BinaryOp) (kind : Kind) (a b : Scalar) : Folded Scalar :=
  match op, a, b with
  | .compare op, .bool a, .bool b =>
    .value (.bool (op.onInts (Scalar.bool a).toInt (Scalar.bool b).toInt))
  | .compare op, .int a, .int b => .value (.bool (op.onInts a b))
  | .compare op, .real a, .real b => .value (.bool (op.onReals a b))
  | .arith op, .bool a, .bool b => (op.onBools a b).map .bool
  | .arith op, .int a, .int b => (op.onInts kind a b).map .int
  | .arith op, .real a, .real b => (op.onReals a b).map .real
  | .logic op, .bool a, .bool b => .value (.bool (op.onBools a b))
  | _, _, _ => .unfoldable

def foldUnaryLane (op : UnaryOp) (a : Scalar) : Folded Scalar :=
  match op, a with
  | .value .neg, .int n => .value (.int (-n))
  | .value .neg, .real x => .value (.real x.neg)
  | .value .complement, .int n => .value (.int (-n - 1))
  | .value .not, .bool b => .value (.bool !b)
  | _, _ => .unfoldable

/-! ## Operators on constants -/

def lanePairs (left right : Constant) : Except Fault (List (Scalar × Scalar)) :=
  (List.range (max left.count right.count)).mapM fun i => do .ok (← left.lane i, ← right.lane i)

def collect (width : Nat) (kind : Kind) (lanes : List (Folded Scalar)) :
    Except Fault (Folded Constant) :=
  match Folded.all lanes with
  | .value values => do .ok (.value (← Constant.create width kind values))
  | .problem p => .ok (.problem p)
  | .unfoldable => .ok .unfoldable

def BinaryOp.resultKind (op : BinaryOp) (kind : Kind) : Kind :=
  match op with
  | .compare _ => .bool
  | _ => kind

/-- An operator that is missing folds nothing, but its operands still have to match. -/
def foldBinary (op : Option BinaryOp) (kind : Kind) (left right : Constant) :
    Except Fault (Folded Constant) :=
  if left.kind ≠ kind ∨ right.kind ≠ kind ∨ op = some .comma then .ok .unfoldable
  else do
    let pairs ← lanePairs left right
    match op with
    | none => .ok .unfoldable
    | some op => collect left.width (op.resultKind kind) (pairs.map fun p => foldLane op kind p.1 p.2)

def foldUnary (op : UnaryOp) (value : Constant) : Except Fault (Folded Constant) :=
  collect value.width value.kind (value.lanes.map (foldUnaryLane op))

/-- What keeps a number from becoming an integer of a kind. -/
def narrowingProblem? (kind : Kind) (x : Binary) : Option FoldProblem :=
  if x = .nan then some (.notANumber kind)
  else
    match x.truncate? with
    | some n => if kind.holds n then none else some (.outOfRange x kind)
    | none => some (.outOfRange x kind)

/-- Conversion to a kind, into every lane when the result is varying. -/
def foldCast (value : Constant) (kind : Kind) (varying : Bool) : Folded Constant :=
  let narrowing :=
    if value.kind.isFloat ∧ kind.isInteger then
      value.lanes.findSome? fun s => narrowingProblem? kind s.toReal
    else none
  match narrowing with
  | some p => .problem p
  | none => .value (if varying then (value.convert kind).broadcast else value.convert kind)

/-- Chooses lane by lane between two constants of one kind. -/
def foldSelect (test ifTrue ifFalse : Constant) : Except Fault (Folded Constant) :=
  if ifTrue.kind ≠ ifFalse.kind then .ok .unfoldable
  else do
    let varying := !test.isUniform || !ifTrue.isUniform || !ifFalse.isUniform
    let tests ← test.extract .bool varying
    if tests.isEmpty then .ok .unfoldable
    else
      let chosen ← tests.zipIdx.mapM fun (t, i) =>
        if t = .bool true then ifTrue.lane i else ifFalse.lane i
      .ok (.value (← Constant.create test.width ifTrue.kind chosen))

end Spmd
