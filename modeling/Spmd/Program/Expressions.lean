import Spmd.Expr.Basic
import Spmd.Program.Symbols

/-!
# Reading expressions

An expression is an object whose first known key says which form it has. Every name in it has to be
declared, and a name of functions stands for all functions of that name.
-/

namespace Spmd

/-! ## Forms -/

/-- The keys that say which form an expression has, in the order they are looked for. -/
inductive ExprForm where
  | const | symbol | unary | binary | assign | select | list | call | index | member | cast
  | reference | dereference | addressOf | sizeOf | sizeOfType | sync | null | new
  deriving DecidableEq

def ExprForm.key : ExprForm → String
  | .const => "const"
  | .symbol => "symbol"
  | .unary => "unary"
  | .binary => "binary"
  | .assign => "assign"
  | .select => "select"
  | .list => "list"
  | .call => "call"
  | .index => "index"
  | .member => "member"
  | .cast => "cast"
  | .reference => "reference"
  | .dereference => "dereference"
  | .addressOf => "addressOf"
  | .sizeOf => "sizeof"
  | .sizeOfType => "sizeofType"
  | .sync => "sync"
  | .null => "null"
  | .new => "new"

def ExprForm.all : List ExprForm :=
  [.const, .symbol, .unary, .binary, .assign, .select, .list, .call, .index, .member, .cast,
    .reference, .dereference, .addressOf, .sizeOf, .sizeOfType, .sync, .null, .new]

def ExprForm.of? (fields : List (String × Json)) : Option ExprForm :=
  all.find? fun form => (Json.lookup? form.key fields).isSome

namespace Scope

/-! ## Leaves -/

/-- The type of a literal that states none: `bool`, `int32` for whole numbers, or `float`; varying when
it has several values. -/
def literalType (path : Path) (json : Json) : Read Ty :=
  let values := match json with
    | .array items => items
    | json => [json]
  let v : Variability := if 1 < values.length then .varying else .uniform
  let isBool : Json → Bool
    | .bool _ => true
    | _ => false
  let isWhole : Json → Bool
    | .number x => x.int?.isSome
    | _ => false
  let isNumber : Json → Bool
    | .number _ => true
    | _ => false
  if values.all isBool then .ok (.basic .bool v)
  else if values.all isWhole then .ok (.basic .int32 v)
  else if values.all isNumber then .ok (.basic .float v)
  else Read.fail path .notLiteral

def readTypeOf (scope : Scope) (path : Path) (key : String) (fields : List (String × Json)) : Read Ty :=
  match Json.lookup? key fields with
  | some json => scope.types.read (path.field key) json
  | none => Read.fail (path.field key) .notObject

def readConst (scope : Scope) (path : Path) (fields : List (String × Json)) : Read Expr := do
  let json := (Json.lookup? "const" fields).getD .null
  let type ← match Json.lookup? "type" fields with
    | none => literalType (path.field "const") json
    | some t => scope.types.read (path.field "type") t
  match type with
  | .scalar s => do
    let values ← scope.readScalars (path.field "const") s.element s.qualifiers json
    let literal ← Read.lift (Literal.ofScalars scope.target.width type values)
    .ok (literal.expr (scope.place fields))
  | t => Read.fail (path.field "type") (.constantType t)

def readReference (scope : Scope) (path : Path) (fields : List (String × Json)) : Read Expr := do
  let name ← Read.string (path.field "symbol") (Json.lookup? "symbol" fields)
  let place := scope.place fields
  match scope.named name with
  | [] => Read.fail (path.field "symbol") (.undefinedSymbol name)
  | s :: ss =>
    if s.isFunction then .ok (.function { node := ⟨none, place, none⟩, name, candidates := s :: ss })
    else .ok (.symbol (.typed place s.type) s)

/-- A null pointer, of type `void *` unless stated. -/
def readNull (scope : Scope) (path : Path) (fields : List (String × Json)) : Read Expr := do
  let place := scope.place fields
  if Read.isTrue (Json.lookup? "null" fields) then .ok (.null (.typed place .voidPointer))
  else
    let type ← scope.readTypeOf path "null" fields
    if type.isPointer then .ok (.null (.typed place type))
    else Read.fail (path.field "null") (.notPointer type)

def readOperator {α : Type} (path : Path) (key : String) (ofText? : String → Option α)
    (unknown : Json → Malformation) (fields : List (String × Json)) : Read α :=
  let json := (Json.lookup? key fields).getD .null
  let known := match json with
    | .string s => ofText? s
    | _ => none
  match known with
  | some op => .ok op
  | none => Read.fail (path.field key) (unknown json)

def unaryOf (node : Node) (op : UnaryOp) (operand : Expr) : Expr :=
  match op with
  | .value op => .unary node op operand
  | .step s => .step node s operand none

/-! ## Expressions -/

mutual
def readExpr (scope : Scope) (path : Path) : Json → Read Expr
  | .object fields => do
    let node : Node := ⟨none, scope.place fields, none⟩
    let flag (key : String) : Bool := Read.isTrue (Json.lookup? key fields)
    match ExprForm.of? fields with
    | some .const => scope.readConst path fields
    | some .symbol => scope.readReference path fields
    | some .unary => do
      let op ← readOperator path "unary" UnaryOp.ofText? .unknownUnary fields
      .ok (unaryOf node op (← scope.readExprField (path.field "operand") "operand" fields))
    | some .binary => do
      let op ← readOperator path "binary" BinaryOp.ofText? .unknownBinary fields
      let left ← scope.readExprField (path.field "left") "left" fields
      let right ← scope.readExprField (path.field "right") "right" fields
      .ok (.binary node op left right false)
    | some .assign => do
      let op ← readOperator path "assign" AssignOp.ofText? .unknownAssignment fields
      let target ← scope.readExprField (path.field "target") "target" fields
      let value ← scope.readExprField (path.field "value") "value" fields
      .ok (.assign node op target value none)
    | some .select => do
      let test ← scope.readExprField (path.field "select") "select" fields
      let ifTrue ← scope.readExprField (path.field "ifTrue") "ifTrue" fields
      let ifFalse ← scope.readExprField (path.field "ifFalse") "ifFalse" fields
      .ok (.select node test ifTrue ifFalse)
    | some .list => do .ok (.list node (← scope.readExprsField (path.field "list") "list" false fields))
    | some .call => do
      let args ← scope.readExprsField (path.field "args") "args" true fields
      let callee ← scope.readExprField (path.field "call") "call" fields
      let count ← scope.readOptional (path.field "count") "count" fields
      .ok (.call node callee args (flag "launch") count none)
    | some .index => do
      let base ← scope.readExprField (path.field "index") "index" fields
      let position ← scope.readExprField (path.field "at") "at" fields
      .ok (.index node base position)
    | some .member => do
      let base ← scope.readExprField (path.field "member") "member" fields
      let name ← Read.string (path.field "name") (Json.lookup? "name" fields)
      .ok (.member node base name (flag "arrow") none)
    | some .cast => do
      let target ← scope.readTypeOf path "cast" fields
      .ok (.cast node target (← scope.readExprField (path.field "operand") "operand" fields) false)
    | some .reference => do
      .ok (.reference node (← scope.readExprField (path.field "reference") "reference" fields))
    | some .dereference => do
      .ok (.dereference node (← scope.readExprField (path.field "dereference") "dereference" fields))
    | some .addressOf => do
      .ok (.addressOf node (← scope.readExprField (path.field "addressOf") "addressOf" fields))
    | some .sizeOf => do
      .ok (.sizeOf node (← scope.readExprField (path.field "sizeof") "sizeof" fields))
    | some .sizeOfType => do .ok (.sizeOfType node (← scope.readTypeOf path "sizeofType" fields))
    | some .sync => .ok (.sync (.typed node.place .void))
    | some .null => scope.readNull path fields
    | some .new => do
      let allocated ← scope.readTypeOf path "new" fields
      let count ← scope.readOptional (path.field "count") "count" fields
      let init ← scope.readOptional (path.field "init") "init" fields
      .ok (.new node allocated count init (flag "varying"))
    | none => Read.fail path (.unknownExpression (.object fields))
  | _ => Read.fail path .notObject
def readExprField (scope : Scope) (path : Path) (key : String) : List (String × Json) → Read Expr
  | [] => Read.fail path .notObject
  | (k, json) :: rest =>
    if k = key then scope.readExpr path json else scope.readExprField path key rest
def readOptional (scope : Scope) (path : Path) (key : String) :
    List (String × Json) → Read (Option Expr)
  | [] => .ok none
  | (k, json) :: rest =>
    if k = key then some <$> scope.readExpr path json else scope.readOptional path key rest
/-- The expressions under a key. Where the array may be left out, it may also be `null`. -/
def readExprsField (scope : Scope) (path : Path) (key : String) (mayBeMissing : Bool) :
    List (String × Json) → Read (List Expr)
  | [] => if mayBeMissing then .ok [] else Read.fail path .notArray
  | (k, json) :: rest =>
    if k = key then
      match json with
      | .array items => scope.readExprs path 0 items
      | .null => if mayBeMissing then .ok [] else Read.fail path .notArray
      | _ => Read.fail path .notArray
    else scope.readExprsField path key mayBeMissing rest
def readExprs (scope : Scope) (path : Path) : Nat → List Json → Read (List Expr)
  | _, [] => .ok []
  | i, j :: js => do
    .ok ((← scope.readExpr (path.item i) j) :: (← scope.readExprs path (i + 1) js))
end

end Scope

end Spmd
