import Spmd.Number.Binary

/-!
# Decimal text of binary numbers

Reading rounds the written decimal once. Writing uses the fewest significant digits that read back
as the same double; of several such decimals it takes the nearest, and of two equally near the even
one.
-/

namespace Spmd

/-! ## Reading -/

/-- The rational `digits * 10 ^ exponent`. -/
def decimalValue (digits : Nat) (exponent : Int) : Rat :=
  if 0 ≤ exponent then ((digits * Nat.pow 10 exponent.toNat : Nat) : Rat)
  else mkRat digits (Nat.pow 10 (-exponent).toNat)

/-- Past these powers of ten every double is infinite, or zero. -/
def decimalLimit : Int := 400

/-- The double nearest to `digits * 10 ^ exponent`, with a sign. -/
def Binary.ofDecimal (negative : Bool) (digits : Nat) (exponent : Int) : Binary :=
  let magnitude : Int := exponent + (Nat.toDigits 10 digits).length
  if digits = 0 then signedZero negative
  else if decimalLimit < magnitude then .infinite negative
  else if magnitude < -decimalLimit then signedZero negative
  else
    let x := decimalValue digits exponent
    Binary.roundTo .double (.finite x) |> fun r => if negative then r.neg else r

/-! ## Shortest digits -/

/-- For a positive rational, the `k` with `10 ^ (k - 1) ≤ x < 10 ^ k`. -/
def decimalExponent (x : Rat) : Int :=
  let k := (binaryExponent x.num.natAbs x.den * 30103).fdiv 100000 + 1
  if x < decimalValue 1 k then k else k + 1

/-- The decimal of `count` digits that reads back as the positive double `x`, if there is one: its
digits and its exponent. -/
def digitsOfLength? (x : Rat) (count : Nat) : Option (Nat × Int) :=
  let exponent := decimalExponent x - count
  let scale := x / decimalValue 1 exponent
  let below := scale.floor.toNat
  let above := below + 1
  let readsBack (digits : Nat) : Bool := Binary.ofDecimal false digits exponent = .finite x
  let aboveIsNearer : Bool :=
    (above : Rat) - scale < scale - below || ((above : Rat) - scale = scale - below && below % 2 = 1)
  match readsBack below, readsBack above with
  | true, true => some (if aboveIsNearer then above else below, exponent)
  | true, false => some (below, exponent)
  | false, true => some (above, exponent)
  | false, false => none

def stripZeros : Nat → Nat → Int → Nat × Int
  | 0, digits, exponent => (digits, exponent)
  | fuel + 1, digits, exponent =>
    if digits ≠ 0 ∧ digits % 10 = 0 then stripZeros fuel (digits / 10) (exponent + 1)
    else (digits, exponent)

/-- The shortest decimal that reads back as the positive double `x`; seventeen digits always do. -/
def shortestDecimal (x : Rat) : Nat × Int :=
  let found := (List.range 17).findSome? fun n => digitsOfLength? x (n + 1)
  let (digits, exponent) := found.getD (0, 0)
  stripZeros 17 digits exponent

/-! ## Layout -/

/-- Values of `point` above `lowPoint` and up to `highPoint` are written positionally, where the
value is `0.d₁d₂… * 10 ^ point`; all others with an exponent. -/
structure Layout where
  lowPoint : Int
  highPoint : Int

/-- Doubles are positional from `1e-6` to below `1e21`. -/
def Layout.number : Layout := ⟨-6, 21⟩

def zeros (count : Nat) : String := String.ofList (List.replicate count '0')

def layoutDigits (layout : Layout) (digits : Nat) (exponent : Int) : String :=
  let text := toString digits
  let length := text.length
  let point : Int := exponent + length
  if layout.lowPoint < point ∧ point ≤ layout.highPoint then
    if (length : Int) ≤ point then text ++ zeros (point - length).toNat
    else if 0 < point then
      (text.take point.toNat).toString ++ "." ++ (text.drop point.toNat).toString
    else "0." ++ zeros (-point).toNat ++ text
  else
    let power := point - 1
    let sign := if power < 0 then "-" else "+"
    let mantissa :=
      if length = 1 then text else (text.take 1).toString ++ "." ++ (text.drop 1).toString
    mantissa ++ "e" ++ sign ++ toString power.natAbs

namespace Binary

/-- The text of a number inside messages and rendered values; both zeros are `0`. -/
def text : Binary → String
  | .nan => "NaN"
  | .infinite negative => if negative then "-Infinity" else "Infinity"
  | .negativeZero => "0"
  | .finite x =>
    if x = 0 then "0"
    else
      let (digits, exponent) := shortestDecimal (if x < 0 then -x else x)
      (if x < 0 then "-" else "") ++ layoutDigits .number digits exponent

/-- The text that tells the two zeros apart. -/
def signedText : Binary → String
  | .negativeZero => "-0"
  | x => x.text

end Binary

end Spmd
