import Spmd.Json.Basic

/-!
# Writing JSON

The compact form: no blanks, numbers as their shortest text, `null` for a number that is not finite.
-/

namespace Spmd.Json

def hexChar (n : Nat) : Char := if n < 10 then Char.ofNat (48 + n) else Char.ofNat (87 + n)

def escapeChar (c : Char) : List Char :=
  match c with
  | '"' => ['\\', '"']
  | '\\' => ['\\', '\\']
  | '\n' => ['\\', 'n']
  | '\r' => ['\\', 'r']
  | '\t' => ['\\', 't']
  | c =>
    let n := c.toNat
    if n = 8 then ['\\', 'b']
    else if n = 12 then ['\\', 'f']
    else if n < 32 then ['\\', 'u', '0', '0', hexChar (n / 16), hexChar (n % 16)]
    else [c]

def quote (s : String) : String :=
  "\"" ++ String.ofList (s.toList.flatMap escapeChar) ++ "\""

mutual
def print : Json → String
  | .null => "null"
  | .bool b => if b then "true" else "false"
  | .number x => if x.isFinite then x.text else "null"
  | .string s => quote s
  | .array items => "[" ++ ",".intercalate (printItems items) ++ "]"
  | .object fields => "\x7b" ++ ",".intercalate (printFields fields) ++ "\x7d"
def printItems : List Json → List String
  | [] => []
  | item :: rest => item.print :: printItems rest
def printFields : List (String × Json) → List String
  | [] => []
  | (key, value) :: rest => (quote key ++ ":" ++ value.print) :: printFields rest
end

end Spmd.Json
