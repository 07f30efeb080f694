/-!
# Binary floating-point numbers

A number is a finite rational, a negative zero, an infinity, or not a number. Arithmetic is exact
and then rounded once to a format, to nearest with ties to even. Equality of the type tells the two
zeros apart and takes not-a-number equal to itself; `Binary.eqv` and `Binary.lt` compare values.
-/

namespace Spmd

inductive Binary where
  | nan
  | infinite (negative : Bool)
  | negativeZero
  | finite (value : Rat)
  deriving DecidableEq, Inhabited

/-- A format keeps `precision` significant bits, no bit below `2 ^ lowest`, and magnitudes below
`2 ^ ceiling`. -/
structure Format where
  precision : Nat
  lowest : Int
  ceiling : Int

def Format.single : Format := ⟨24, -149, 128⟩

def Format.double : Format := ⟨53, -1074, 1024⟩

/-! ## Powers of two and exact scaling -/

/-- The rational `m * 2 ^ e`. -/
def scaled (m : Int) (e : Int) : Rat :=
  if 0 ≤ e then ((m * (Nat.pow 2 e.toNat : Nat) : Int) : Rat) else mkRat m (Nat.pow 2 (-e).toNat)

/-- For a positive quotient `n / d`, the `e` with `2 ^ e ≤ n / d < 2 ^ (e + 1)`. -/
def binaryExponent (n d : Nat) : Int :=
  let e : Int := (n.log2 : Int) - (d.log2 : Int)
  let reached := if 0 ≤ e then d * Nat.pow 2 e.toNat ≤ n else d ≤ n * Nat.pow 2 (-e).toNat
  if reached then e else e - 1

/-- The integer nearest to `n / d`; a tie goes to the even one. -/
def roundQuotient (n d : Nat) : Nat :=
  let q := n / d
  let r := n % d
  if d < 2 * r ∨ (d = 2 * r ∧ q % 2 = 1) then q + 1 else q

/-! ## Rounding -/

def signedZero (negative : Bool) : Binary :=
  if negative then .negativeZero else .finite 0

/-- The number of `format` nearest to `x`. A magnitude that reaches the ceiling becomes infinite, a
magnitude that vanishes becomes the zero of its sign. -/
def round (format : Format) (x : Rat) : Binary :=
  if x.num = 0 then .finite 0
  else
    let negative := x.num < 0
    let n := x.num.natAbs
    let d := x.den
    let unit := max (binaryExponent n d + 1 - format.precision) format.lowest
    let m := if 0 ≤ unit then roundQuotient n (d * Nat.pow 2 unit.toNat)
      else roundQuotient (n * Nat.pow 2 (-unit).toNat) d
    if m = 0 then signedZero negative
    else
      let magnitude := scaled m unit
      if scaled 1 format.ceiling ≤ magnitude then .infinite negative
      else .finite (if negative then -magnitude else magnitude)

namespace Binary

/-- The same number in a narrower format. -/
def roundTo (format : Format) : Binary → Binary
  | .finite x => Spmd.round format x
  | x => x

def ofInt (n : Int) : Binary := Spmd.round .double n

def ofBool (b : Bool) : Binary := .finite (if b then 1 else 0)

/-! ## Views -/

def isNegative : Binary → Bool
  | .nan => false
  | .infinite negative => negative
  | .negativeZero => true
  | .finite x => x < 0

/-- The rational a number stands for; both zeros stand for zero. -/
def rational? : Binary → Option Rat
  | .finite x => some x
  | .negativeZero => some 0
  | _ => none

def isFinite (x : Binary) : Bool := x.rational?.isSome

/-- The integer a number is equal to. -/
def int? (x : Binary) : Option Int :=
  x.rational?.bind fun r => if r.den = 1 then some r.num else none

/-- The integer next to a finite number on the side of zero. -/
def truncate? (x : Binary) : Option Int :=
  x.rational?.map fun r => r.num.tdiv r.den

/-! ## Comparison -/

def lt : Binary → Binary → Bool
  | .nan, _ => false
  | _, .nan => false
  | .infinite true, y => y ≠ .infinite true
  | .infinite false, _ => false
  | _, .infinite negative => !negative
  | x, y => x.rational?.getD 0 < y.rational?.getD 0

def eqv : Binary → Binary → Bool
  | .nan, _ => false
  | _, .nan => false
  | .infinite a, .infinite b => a = b
  | .infinite _, _ => false
  | _, .infinite _ => false
  | x, y => x.rational?.getD 0 = y.rational?.getD 0

def le (x y : Binary) : Bool := x.lt y || x.eqv y

/-! ## Arithmetic in the double format -/

def neg : Binary → Binary
  | .nan => .nan
  | .infinite negative => .infinite !negative
  | .negativeZero => .finite 0
  | .finite x => if x = 0 then .negativeZero else .finite (-x)

def add : Binary → Binary → Binary
  | .nan, _ => .nan
  | _, .nan => .nan
  | .infinite a, .infinite b => if a = b then .infinite a else .nan
  | .infinite a, _ => .infinite a
  | _, .infinite b => .infinite b
  | .negativeZero, y => y
  | x, .negativeZero => x
  | .finite x, .finite y => Spmd.round .double (x + y)

def sub (x y : Binary) : Binary := x.add y.neg

/-- The rounded value of an exact result, with the sign given for an exact zero. -/
def ofResult (negative : Bool) (x : Rat) : Binary :=
  if x = 0 then signedZero negative else Spmd.round .double x

def mul (x y : Binary) : Binary :=
  let negative := x.isNegative != y.isNegative
  match x, y with
  | .nan, _ => .nan
  | _, .nan => .nan
  | .infinite _, y => if y.rational? = some 0 then .nan else .infinite negative
  | x, .infinite _ => if x.rational? = some 0 then .nan else .infinite negative
  | x, y => ofResult negative (x.rational?.getD 0 * y.rational?.getD 0)

def div (x y : Binary) : Binary :=
  let negative := x.isNegative != y.isNegative
  match x, y with
  | .nan, _ => .nan
  | _, .nan => .nan
  | .infinite _, .infinite _ => .nan
  | .infinite _, _ => .infinite negative
  | _, .infinite _ => signedZero negative
  | x, y =>
    let a := x.rational?.getD 0
    let b := y.rational?.getD 0
    if b = 0 then (if a = 0 then .nan else .infinite negative) else ofResult negative (a / b)

end Binary

end Spmd
