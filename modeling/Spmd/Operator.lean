/-!
# Operators
-/

namespace Spmd

inductive ArithOp where
  | add | sub | mul | div | mod | shl | shr | and | xor | or
  deriving DecidableEq, Repr, Inhabited

inductive CompareOp where
  | lt | gt | le | ge | eq | ne
  deriving DecidableEq, Repr, Inhabited

inductive LogicOp where
  | and | or
  deriving DecidableEq, Repr, Inhabited

inductive BinaryOp where
  | arith (op : ArithOp)
  | compare (op : CompareOp)
  | logic (op : LogicOp)
  | comma
  deriving DecidableEq, Repr, Inhabited

/-- An increment or decrement, before or after its operand is read. -/
structure Step where
  isPost : Bool
  isDown : Bool
  deriving DecidableEq, Repr, Inhabited

inductive ValueOp where
  | neg | not | complement
  deriving DecidableEq, Repr, Inhabited

inductive UnaryOp where
  | value (op : ValueOp)
  | step (step : Step)
  deriving DecidableEq, Repr, Inhabited

inductive AssignOp where
  | plain
  | compound (op : ArithOp)
  deriving DecidableEq, Repr, Inhabited

/-! ## Spelling -/

def ArithOp.text : ArithOp → String
  | .add => "+"
  | .sub => "-"
  | .mul => "*"
  | .div => "/"
  | .mod => "%"
  | .shl => "<<"
  | .shr => ">>"
  | .and => "&"
  | .xor => "^"
  | .or => "|"

def CompareOp.text : CompareOp → String
  | .lt => "<"
  | .gt => ">"
  | .le => "<="
  | .ge => ">="
  | .eq => "=="
  | .ne => "!="

def LogicOp.text : LogicOp → String
  | .and => "&&"
  | .or => "||"

def BinaryOp.text : BinaryOp → String
  | .arith op => op.text
  | .compare op => op.text
  | .logic op => op.text
  | .comma => ","

def Step.text (s : Step) : String :=
  (if s.isPost then "post" else "pre") ++ (if s.isDown then "--" else "++")

/-- The sign of a step as it is written beside its operand. -/
def Step.sign (s : Step) : String := if s.isDown then "--" else "++"

def ValueOp.text : ValueOp → String
  | .neg => "-"
  | .not => "!"
  | .complement => "~"

def UnaryOp.text : UnaryOp → String
  | .value op => op.text
  | .step s => s.text

def AssignOp.text : AssignOp → String
  | .plain => "="
  | .compound op => op.text ++ "="

/-! ## Reading -/

def ArithOp.all : List ArithOp := [.add, .sub, .mul, .div, .mod, .shl, .shr, .and, .xor, .or]

def CompareOp.all : List CompareOp := [.lt, .gt, .le, .ge, .eq, .ne]

def BinaryOp.all : List BinaryOp :=
  ArithOp.all.map .arith ++ CompareOp.all.map .compare ++ [.logic .and, .logic .or, .comma]

def UnaryOp.all : List UnaryOp :=
  [.step ⟨false, false⟩, .step ⟨false, true⟩, .step ⟨true, false⟩, .step ⟨true, true⟩,
    .value .neg, .value .not, .value .complement]

def AssignOp.all : List AssignOp := .plain :: ArithOp.all.map .compound

def BinaryOp.ofText? (s : String) : Option BinaryOp := all.find? fun op => op.text == s

def UnaryOp.ofText? (s : String) : Option UnaryOp := all.find? fun op => op.text == s

def AssignOp.ofText? (s : String) : Option AssignOp := all.find? fun op => op.text == s

/-! ## Names in diagnostics -/

def BinaryOp.description (op : BinaryOp) : String := "binary operator \"" ++ op.text ++ "\""

def AssignOp.description (op : AssignOp) : String := "assignment operator \"" ++ op.text ++ "\""

end Spmd
