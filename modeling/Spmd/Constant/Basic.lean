import Spmd.Constant.Scalar
import Spmd.Fault

/-!
# Constants

A constant has one lane, which stands for every lane, or as many lanes as the target is wide. All
its lanes are scalars of one kind.
-/

namespace Spmd

structure Constant where
  kind : Kind
  width : Nat
  lanes : List Scalar
  deriving DecidableEq, Inhabited

def Ty.constantKind : Ty → Except Fault Kind
  | .scalar s => .ok s.element.kind
  | t => .error (.noConstantOf t)

namespace Constant

def count (c : Constant) : Nat := c.lanes.length

/-- One scalar for all lanes, or one for each lane. -/
def create (width : Nat) (kind : Kind) (values : List Scalar) : Except Fault Constant :=
  if values.length ≠ 1 ∧ values.length ≠ width then .error (.elementCount values.length width)
  else .ok ⟨kind, width, values.map (·.toKind kind)⟩

def ofType (width : Nat) (type : Ty) (values : List Scalar) : Except Fault Constant := do
  create width (← type.constantKind) values

/-! ## Elements -/

def get (c : Constant) (index : Nat) : Except Fault Scalar :=
  match c.lanes[index]? with
  | some s => .ok s
  | none => .error (.elementOutOfRange (Binary.ofInt index))

/-- The scalar of a lane, which for a single element is that element. -/
def lane (c : Constant) (index : Nat) : Except Fault Scalar :=
  c.get (if c.count = 1 then 0 else index)

def isUniform (c : Constant) : Bool := c.count == 1

def isZero (c : Constant) : Bool := c.kind.isInteger && c.lanes.all (· == .int 0)

def same (a b : Constant) : Bool := a.kind == b.kind && a.lanes == b.lanes

/-! ## Shapes and kinds -/

def broadcast (c : Constant) : Constant :=
  if c.count = c.width then c else { c with lanes := List.replicate c.width (c.lanes.headD default) }

def convert (c : Constant) (kind : Kind) : Constant :=
  ⟨kind, c.width, c.lanes.map (·.toKind kind)⟩

/-- The elements read as a kind, once or in every lane. A truth value can be read as nothing
else. -/
def extract (c : Constant) (kind : Kind) (forceVarying : Bool) : Except Fault (List Scalar) :=
  if c.kind = .bool ∧ kind ≠ .bool then .ok []
  else
    (List.range (if forceVarying then c.width else c.count)).mapM fun i => do
      .ok (((← c.lane i).coerce kind).read kind)

/-! ## Text -/

def text (c : Constant) : String :=
  match c.lanes with
  | [s] => s.text
  | lanes => "<" ++ Text.commas (lanes.map Scalar.text) ++ ">"

instance : ToString Constant := ⟨text⟩

end Constant

end Spmd
