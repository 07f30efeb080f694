import Spmd.Program.Types
import Spmd.Symbol
import Spmd.Target

/-!
# Reading scalars, symbols and places

Only functions may share a name. A symbol with a value is a constant of a scalar type.
-/

namespace Spmd

/-- What a program is read with: the target, the name of its file, and the names it defines. -/
structure Scope where
  target : Target
  file : String
  types : TypeNames := []
  symbols : List Symbol := []
  deriving Inhabited

namespace Scope

/-- The place that an object states, with column zero unless it states one. -/
def place (scope : Scope) (fields : List (String × Json)) : Option Location :=
  match Json.lookup? "line" fields with
  | some (.number line) =>
    match Json.lookup? "column" fields with
    | some (.number column) => some ⟨scope.file, line, column⟩
    | _ => some ⟨scope.file, line, Binary.ofInt 0⟩
  | _ => none

/-! ## Scalars -/

/-- The integer that a string of decimal digits writes. -/
def wholeNumber? (text : String) : Option Int :=
  let digits? (cs : List Char) : Option Int :=
    if cs.isEmpty || !cs.all Char.isDigit then none
    else some (cs.foldl (fun n c => 10 * n + (c.toNat - '0'.toNat)) (0 : Nat))
  match text.toList with
  | '-' :: cs => (digits? cs).map fun n => -n
  | cs => digits? cs

/-- A scalar for an element; integers of any size can be written as strings. -/
def readScalar (path : Path) (element : Element) (json : Json) : Read Scalar :=
  if element.kind = .bool then
    match json with
    | .bool b => .ok (.bool b)
    | _ => Read.fail path .notBool
  else
    match json with
    | .number x => .ok (.real x)
    | .string s =>
      match wholeNumber? s with
      | some n => .ok (.int n)
      | none => Read.fail path .notNumber
    | _ => Read.fail path .notNumber

def readLanes (path : Path) (element : Element) : Nat → List Json → Read (List Scalar)
  | _, [] => .ok []
  | i, j :: js => do
    .ok ((← readScalar (path.item i) element j) :: (← readLanes path element (i + 1) js))

/-- One scalar, or for a varying type one for each lane. -/
def readScalars (scope : Scope) (path : Path) (element : Element) (q : Qualifiers) (json : Json) :
    Read (List Scalar) :=
  let varying := q.variability == .varying
  let fits (count : Nat) : Bool := count == 1 || (varying && count == scope.target.width)
  match json with
  | .array items =>
    if fits items.length then readLanes path element 0 items
    else Read.fail path (.valueCount varying scope.target.width items.length)
  | json => do .ok [← readScalar path element json]

/-! ## Symbols -/

/-- The storage of a symbol, unless stated that of a function or a local variable. -/
def readStorage (path : Path) (type : Ty) (fields : List (String × Json)) : Read Storage :=
  match Json.present? (Json.lookup? "storage" fields) with
  | none => .ok (if type.isFunction then .function else .local)
  | some (.string s) =>
    match Storage.ofName? s with
    | some storage => .ok storage
    | none => Read.fail (path.field "storage") .notStorage
  | some _ => Read.fail (path.field "storage") .notStorage

def readValue (scope : Scope) (path : Path) (type : Ty) (fields : List (String × Json)) :
    Read (Option Constant) :=
  match Json.lookup? "value" fields with
  | none => .ok none
  | some json =>
    match type with
    | .scalar s =>
      if !s.qualifiers.isConst then Read.fail path (.valueOf type)
      else do
        let values ← scope.readScalars path s.element s.qualifiers json
        .ok (some (← Read.lift (Constant.ofType scope.target.width type values)))
    | t => Read.fail path (.valueOf t)

/-- The symbols of a name, in the order of their declaration. -/
def named (scope : Scope) (name : String) : List Symbol :=
  scope.symbols.filter fun s => s.name == name

def readSymbol (scope : Scope) (path : Path) (json : Json) : Read Symbol := do
  let fields ← Read.fields path (some json)
  let name ← Read.string (path.field "name") (Json.lookup? "name" fields)
  let type ← match Json.lookup? "type" fields with
    | some t => scope.types.read (path.field "type") t
    | none => Read.fail (path.field "type") .notObject
  let storage ← readStorage path type fields
  let value ← scope.readValue (path.field "value") type fields
  let symbol : Symbol := ⟨name, type, storage, scope.place fields, value⟩
  let existing := scope.named name
  if !existing.isEmpty && !(symbol.isFunction && existing.all Symbol.isFunction) then
    Read.fail (path.field "name") (.redefinition name)
  else .ok symbol

def declare (scope : Scope) : Nat → List Json → Read Scope
  | _, [] => .ok scope
  | i, j :: js => do
    let symbol ← scope.readSymbol ((Path.root "symbols").item i) j
    declare { scope with symbols := scope.symbols ++ [symbol] } (i + 1) js

end Scope

end Spmd
