import Spmd.Number.Decimal
import Spmd.Ty.Kind

/-!
# Scalars

A scalar is a truth value, an integer of any size, or a binary number. Each kind keeps its own form
of scalar: integers in the range of the kind, numbers in its format. `Scalar.toKind` brings any
scalar into that form.
-/

namespace Spmd

inductive Scalar where
  | bool (value : Bool)
  | int (value : Int)
  | real (value : Binary)
  deriving DecidableEq, Inhabited

/-! ## Integer kinds -/

namespace Kind

def span (k : Kind) : Nat := Nat.pow 2 k.bits

/-- The integer of the kind that agrees with `n` in the kind's bits. -/
def wrap (k : Kind) (n : Int) : Int :=
  if k.isUnsigned then n % k.span else n.bmod k.span

def least (k : Kind) : Int := if k.isUnsigned then 0 else -(k.span / 2 : Nat)

def greatest (k : Kind) : Int := (if k.isUnsigned then k.span else k.span / 2 : Nat) - 1

def holds (k : Kind) (n : Int) : Bool := k.least ≤ n && n ≤ k.greatest

end Kind

namespace Scalar

/-! ## Reading a scalar as a number -/

def ofNumberPart (negative : Bool) (n : Int) : Binary :=
  if n = 0 then signedZero negative else .finite n

/-- A finite number without its fraction; a number that is not finite becomes zero. -/
def truncated (x : Binary) : Binary :=
  match x.truncate? with
  | some n => ofNumberPart x.isNegative n
  | none => .finite 0

def toBool : Scalar → Bool
  | .bool b => b
  | .int n => n ≠ 0
  | .real x => x.rational? ≠ some 0

def toInt : Scalar → Int
  | .bool b => if b then 1 else 0
  | .int n => n
  | .real x => x.truncate?.getD 0

def toReal : Scalar → Binary
  | .bool b => Binary.ofBool b
  | .int n => Binary.ofInt n
  | .real x => x

/-! ## Conversion -/

/-- The scalar on its way to a kind: truncated, but for the narrow integer kinds not yet wrapped to
the kind's own bits. -/
def coerce (k : Kind) (s : Scalar) : Scalar :=
  if k = .bool then .bool s.toBool
  else if k.isFloat then .real (if k = .float then s.toReal.roundTo .single else s.toReal)
  else if k.isWide then .int (k.wrap s.toInt)
  else
    match s with
    | .bool b => .int (if b then 1 else 0)
    | .int n => .int (n.bmod Kind.int32.span)
    | .real x => .real (truncated x)

def store (k : Kind) (s : Scalar) : Scalar :=
  if k = .bool then .bool s.toBool
  else if k.isFloat then .real (if k = .float then s.toReal.roundTo .single else s.toReal)
  else .int (k.wrap s.toInt)

/-- Integers wrap, numbers lose their fraction on the way to an integer, and what is not finite
becomes zero; not-a-number counts as true. -/
def toKind (k : Kind) (s : Scalar) : Scalar := (s.coerce k).store k

/-! ## Extraction -/

/-- An integer read through the low bits of a kind. -/
def lowBits (k : Kind) (n : Int) : Int :=
  let b := BitVec.ofInt k.bits n
  if k.isUnsigned then (b.toNat : Int) else b.toInt

/-- A coerced scalar as the reader of a kind delivers it. -/
def read (k : Kind) (s : Scalar) : Scalar :=
  match s with
  | .bool b => .bool b
  | .int n => if k.isInteger then .int (lowBits k n) else .int n
  | .real x => if k.isInteger then .int (lowBits k (x.truncate?.getD 0)) else .real x

/-! ## Text -/

def text : Scalar → String
  | .bool b => if b then "true" else "false"
  | .int n => toString n
  | .real x => x.text

end Scalar

end Spmd
