import Spmd.Number.Decimal

/-!
# JSON values

Objects keep the order of their keys, and numbers are doubles.
-/

namespace Spmd

inductive Json where
  | null
  | bool (value : Bool)
  | number (value : Binary)
  | string (value : String)
  | array (items : List Json)
  | object (fields : List (String × Json))
  deriving Inhabited

namespace Json

def lookup? (key : String) : List (String × Json) → Option Json
  | [] => none
  | (k, value) :: rest => if k = key then some value else lookup? key rest

/-- The value of a key; absent when the key is missing or the value is no object. -/
def field? (key : String) : Json → Option Json
  | .object fields => lookup? key fields
  | _ => none

/-- An absent field and `null` are both nothing. -/
def present? : Option Json → Option Json
  | some .null => none
  | value => value

/-! ## Plain text -/

mutual
/-- The text of a value inside a sentence: strings stand for themselves, arrays are joined by
commas, `null` inside an array is empty. -/
def plain : Json → String
  | .null => "null"
  | .bool b => if b then "true" else "false"
  | .number x => x.text
  | .string s => s
  | .array items => ",".intercalate (plainItems items)
  | .object _ => "[object Object]"
def plainItems : List Json → List String
  | [] => []
  | .null :: rest => "" :: plainItems rest
  | item :: rest => item.plain :: plainItems rest
end

/-! ## Key order -/

/-- A key that is a decimal number below `2 ^ 32 - 1`, written without leading zeros. -/
def indexKey? (key : String) : Option Nat :=
  match key.toList with
  | [] => none
  | '0' :: rest => if rest.isEmpty then some 0 else none
  | cs =>
    if cs.all Char.isDigit then
      let n := cs.foldl (fun n c => 10 * n + (c.toNat - '0'.toNat)) 0
      if n < 4294967295 then some n else none
    else none

/-- A later value replaces an earlier one of the same key, in its place. -/
def setField (fields : List (String × Json)) (field : String × Json) : List (String × Json) :=
  if fields.any (fun f => f.1 == field.1) then
    fields.map fun f => if f.1 = field.1 then field else f
  else fields ++ [field]

/-- The fields of an object in their order: numeric keys first and ascending, then the others as
first written. -/
def orderFields (written : List (String × Json)) : List (String × Json) :=
  let fields := written.foldl setField []
  let indexed := fields.filterMap fun f => (indexKey? f.1).map fun n => (n, f)
  let named := fields.filter fun f => (indexKey? f.1).isNone
  (indexed.mergeSort fun a b => a.1 ≤ b.1).map Prod.snd ++ named

end Json

end Spmd
