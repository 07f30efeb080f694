import Spmd.Json.Parser
import Spmd.Text.Basic

/-!
# Numbers on the command line

An argument writes a number in decimal or in a radix named after a leading zero. A number with a minus sign is
told from an option by its form alone.
-/

namespace Spmd.CommandLine

/-! ## Values -/

/-- The radix that the letter after a leading zero stands for. -/
def radix? : Char → Option Nat
  | 'x' | 'X' => some 16
  | 'o' | 'O' => some 8
  | 'b' | 'B' => some 2
  | _ => none

def addDigit? (radix n : Nat) (c : Char) : Option Nat := do
  let d ← Json.hexDigit? c
  if d < radix then some (radix * n + d) else none

/-- A whole number in another radix than ten: a zero, the letter of the radix, and digits. -/
def readPrefixed? : List Char → Option Binary
  | '0' :: letter :: digit :: digits => do
    let radix ← radix? letter
    let n ← (digit :: digits).foldlM (addDigit? radix) 0
    some (Binary.ofDecimal false n 0)
  | _ => none

/-- The digits of a decimal number, with or without a fraction and an exponent. -/
def readMagnitude? (negative : Bool) (cs : List Char) : Option Binary := do
  let (whole, rest) := Json.spanDigits cs
  let (fraction, rest) := match rest with
    | '.' :: rest => Json.spanDigits rest
    | rest => ([], rest)
  if whole.isEmpty && fraction.isEmpty then none
  else
    let (power, rest) ← Json.readExponent rest
    if rest.isEmpty then
      some (Binary.ofDecimal negative (Json.digitsValue (whole ++ fraction)) (power - fraction.length))
    else none

/-- A decimal number, or infinity, which alone may have a sign. -/
def readSigned? (cs : List Char) : Option Binary :=
  let (negative, digits) := match cs with
    | '-' :: cs => (true, cs)
    | '+' :: cs => (false, cs)
    | cs => (false, cs)
  if digits = "Infinity".toList then some (.infinite negative) else readMagnitude? negative digits

/-- The number that an argument writes; an empty one writes zero, and any other text is not a
number. -/
def readNumber (text : String) : Binary :=
  match (Text.trim text).toList with
  | [] => Binary.ofInt 0
  | cs => ((readPrefixed? cs).or (readSigned? cs)).getD .nan

/-! ## Forms -/

def isDigits (cs : List Char) : Bool := !cs.isEmpty && cs.all Char.isDigit

/-- A minus sign and digits, with a point at most before some of them. -/
def isNegative : List Char → Bool
  | '-' :: cs =>
    match Json.spanDigits cs with
    | (whole, []) => !whole.isEmpty
    | (_, '.' :: fraction) => isDigits fraction
    | _ => false
  | _ => false

/-- Digits, with or without a fraction and a power of ten. -/
def isUnsigned (cs : List Char) : Bool :=
  let (whole, rest) := Json.spanDigits cs
  !whole.isEmpty && match Json.readFraction rest with
    | some (_, []) => true
    | some (_, 'e' :: '-' :: power) => isDigits power
    | some (_, 'e' :: power) => isDigits power
    | _ => false

end Spmd.CommandLine
