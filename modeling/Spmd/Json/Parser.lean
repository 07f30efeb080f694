import Spmd.Json.Basic

/-!
# Reading JSON

The grammar is the strict one: no comments, no trailing commas, no control characters in strings.
Each reader answers with what it read and the characters that follow. Escaped surrogates pair up; one
that stands alone becomes the replacement character.
-/

namespace Spmd.Json

/-! ## Strings -/

def hexDigit? (c : Char) : Option Nat :=
  let n := c.toNat
  if 48 ≤ n ∧ n ≤ 57 then some (n - 48)
  else if 97 ≤ n ∧ n ≤ 102 then some (n - 87)
  else if 65 ≤ n ∧ n ≤ 70 then some (n - 55)
  else none

def hexUnit? (a b c d : Char) : Option Nat := do
  some (((← hexDigit? a) * 16 + (← hexDigit? b)) * 256 + (← hexDigit? c) * 16 + (← hexDigit? d))

def escaped? : Char → Option Nat
  | '"' => some 34
  | '\\' => some 92
  | '/' => some 47
  | 'b' => some 8
  | 'f' => some 12
  | 'n' => some 10
  | 'r' => some 13
  | 't' => some 9
  | _ => none

/-- The code points and escaped 16-bit units up to the closing quote. -/
def stringUnits : List Char → Option (List Nat × List Char)
  | '"' :: rest => some ([], rest)
  | '\\' :: 'u' :: a :: b :: c :: d :: rest => do
    let unit ← hexUnit? a b c d
    let (units, rest) ← stringUnits rest
    some (unit :: units, rest)
  | '\\' :: c :: rest => do
    let unit ← escaped? c
    let (units, rest) ← stringUnits rest
    some (unit :: units, rest)
  | c :: rest =>
    if c.toNat < 32 then none
    else do
      let (units, rest) ← stringUnits rest
      some (c.toNat :: units, rest)
  | [] => none

def isHigh (n : Nat) : Bool := 0xD800 ≤ n && n < 0xDC00

def isLow (n : Nat) : Bool := 0xDC00 ≤ n && n < 0xE000

def joinUnits : List Nat → List Char
  | a :: b :: rest =>
    if isHigh a && isLow b then
      Char.ofNat (0x10000 + (a - 0xD800) * 0x400 + (b - 0xDC00)) :: joinUnits rest
    else (if isHigh a || isLow a then '\uFFFD' else Char.ofNat a) :: joinUnits (b :: rest)
  | [a] => [if isHigh a || isLow a then '\uFFFD' else Char.ofNat a]
  | [] => []

def readString (cs : List Char) : Option (String × List Char) :=
  (stringUnits cs).map fun (units, rest) => (String.ofList (joinUnits units), rest)

/-! ## Numbers -/

def digitsValue (cs : List Char) : Nat :=
  cs.foldl (fun n c => 10 * n + (c.toNat - '0'.toNat)) 0

def spanDigits (cs : List Char) : List Char × List Char := cs.span Char.isDigit

/-- A point and at least one digit, or nothing. -/
def readFraction : List Char → Option (List Char × List Char)
  | '.' :: rest =>
    let (digits, rest) := spanDigits rest
    if digits.isEmpty then none else some (digits, rest)
  | rest => some ([], rest)

def readPower (negative : Bool) (cs : List Char) : Option (Int × List Char) :=
  let (digits, rest) := spanDigits cs
  if digits.isEmpty then none
  else some (if negative then -(digitsValue digits : Int) else digitsValue digits, rest)

def readExponent : List Char → Option (Int × List Char)
  | 'e' :: '-' :: rest | 'E' :: '-' :: rest => readPower true rest
  | 'e' :: '+' :: rest | 'E' :: '+' :: rest => readPower false rest
  | 'e' :: rest | 'E' :: rest => readPower false rest
  | rest => some (0, rest)

def readMagnitude (negative : Bool) (cs : List Char) : Option (Binary × List Char) := do
  let (whole, rest) := spanDigits cs
  if whole.isEmpty || (whole.length > 1 && whole.head? == some '0') then none
  else
    let (fraction, rest) ← readFraction rest
    let (power, rest) ← readExponent rest
    some (Binary.ofDecimal negative (digitsValue (whole ++ fraction)) (power - fraction.length), rest)

def readNumber : List Char → Option (Binary × List Char)
  | '-' :: rest => readMagnitude true rest
  | cs => readMagnitude false cs

/-! ## Values -/

def skipBlanks (cs : List Char) : List Char :=
  cs.dropWhile fun c => c == ' ' || c == '\t' || c == '\n' || c == '\r'

mutual
/-- Every nested call has consumed a character, so the number of characters bounds the depth. -/
def readValue : Nat → List Char → Option (Json × List Char)
  | 0, _ => none
  | depth + 1, cs =>
    match skipBlanks cs with
    | '\x7b' :: rest =>
      match skipBlanks rest with
      | '\x7d' :: rest => some (.object [], rest)
      | rest => (readFields depth rest).map fun (fields, rest) => (.object (orderFields fields), rest)
    | '[' :: rest =>
      match skipBlanks rest with
      | ']' :: rest => some (.array [], rest)
      | rest => (readItems depth rest).map fun (items, rest) => (.array items, rest)
    | '"' :: rest => (readString rest).map fun (s, rest) => (.string s, rest)
    | 't' :: 'r' :: 'u' :: 'e' :: rest => some (.bool true, rest)
    | 'f' :: 'a' :: 'l' :: 's' :: 'e' :: rest => some (.bool false, rest)
    | 'n' :: 'u' :: 'l' :: 'l' :: rest => some (.null, rest)
    | rest => (readNumber rest).map fun (x, rest) => (.number x, rest)
def readItems : Nat → List Char → Option (List Json × List Char)
  | 0, _ => none
  | depth + 1, cs => do
    let (item, rest) ← readValue depth cs
    match skipBlanks rest with
    | ',' :: rest => do
      let (items, rest) ← readItems depth rest
      some (item :: items, rest)
    | ']' :: rest => some ([item], rest)
    | _ => none
def readFields : Nat → List Char → Option (List (String × Json) × List Char)
  | 0, _ => none
  | depth + 1, cs =>
    match skipBlanks cs with
    | '"' :: rest => do
      let (key, rest) ← readString rest
      match skipBlanks rest with
      | ':' :: rest => do
        let (value, rest) ← readValue depth rest
        match skipBlanks rest with
        | ',' :: rest => do
          let (fields, rest) ← readFields depth rest
          some ((key, value) :: fields, rest)
        | '\x7d' :: rest => some ([(key, value)], rest)
        | _ => none
      | _ => none
    | _ => none
end

/-- The value a text denotes; nothing may follow it but blanks. -/
def parse? (s : String) : Option Json :=
  let cs := s.toList
  match readValue (2 * cs.length + 1) cs with
  | some (value, rest) => if (skipBlanks rest).isEmpty then some value else none
  | none => none

end Spmd.Json
