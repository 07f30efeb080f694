import Spmd.Fault
import Spmd.Json.Printer

/-!
# Malformed programs

A program is read from JSON. What is wrong with a malformed one is a problem at a path, the way from
the root of the JSON value to the part that is meant.
-/

namespace Spmd

/-! ## Paths -/

inductive Path where
  | root (name : String)
  | field (parent : Path) (name : String)
  | item (parent : Path) (index : Nat)
  deriving DecidableEq, Inhabited

def Path.text : Path → String
  | .root name => name
  | .field p name => p.text ++ "." ++ name
  | .item p i => p.text ++ s!"[{i}]"

/-! ## Problems -/

inductive Malformation where
  | notJson
  | notProgram
  | notObject
  | notArray
  | notString
  | notCount
  | notVariability
  | notStorage
  | notBool
  | notNumber
  | notLiteral
  | valueCount (varying : Bool) (width given : Nat)
  | unknownType (json : Json)
  | unknownTypeName (name : String)
  | unknownQualifier (word text : String)
  | conflictingQualifiers (text : String)
  | vectorElement (type : Ty)
  | referenceToReference
  | valueOf (type : Ty)
  | redefinition (name : String)
  | constantType (type : Ty)
  | undefinedSymbol (name : String)
  | unknownUnary (json : Json)
  | unknownBinary (json : Json)
  | unknownAssignment (json : Json)
  | notPointer (type : Ty)
  | unknownExpression (json : Json)
  deriving Inhabited

def Malformation.text : Malformation → String
  | .notJson => "invalid JSON"
  | .notProgram => "expected an object with \"symbols\" and \"expressions\""
  | .notObject => "expected an object"
  | .notArray => "expected an array"
  | .notString => "expected a string"
  | .notCount => "expected a positive integer"
  | .notVariability => "expected \"uniform\" or \"varying\""
  | .notStorage => "expected one of global, function, parameter, local"
  | .notBool => "expected a boolean"
  | .notNumber => "expected a number"
  | .notLiteral => "expected booleans or numbers"
  | .valueCount varying width given =>
    "expected 1" ++ (if varying then s!" or {width}" else "") ++ s!" values, not {given}"
  | .unknownType json => "unknown type " ++ json.print
  | .unknownTypeName name => "unknown type " ++ Text.quoted name
  | .unknownQualifier word text => "unknown qualifier " ++ Text.quoted word ++ " in " ++ Text.quoted text
  | .conflictingQualifiers text => "conflicting qualifiers in " ++ Text.quoted text
  | .vectorElement type => s!"vector elements must be atomic or enum types, not \"{type}\""
  | .referenceToReference => "reference to reference"
  | .valueOf type => s!"only const atomic symbols may have a value, not \"{type}\""
  | .redefinition name => "redefinition of " ++ Text.quoted name
  | .constantType type => s!"constants must have atomic or enum type, not \"{type}\""
  | .undefinedSymbol name => "undefined symbol " ++ Text.quoted name
  | .unknownUnary json => "unknown unary operator " ++ json.print
  | .unknownBinary json => "unknown binary operator " ++ json.print
  | .unknownAssignment json => "unknown assignment operator " ++ json.print
  | .notPointer type => s!"expected a pointer type, not \"{type}\""
  | .unknownExpression json => "unknown expression " ++ json.print

/-! ## Failures to read -/

inductive ReadError where
  | malformed (path : Option Path) (problem : Malformation)
  | fault (cause : Fault)
  deriving Inhabited

abbrev Read (α : Type) : Type := Except ReadError α

namespace Read

def fail {α : Type} (path : Path) (problem : Malformation) : Read α :=
  .error (.malformed (some path) problem)

def lift {α : Type} : Except Fault α → Read α
  | .ok x => .ok x
  | .error fault => .error (.fault fault)

/-! ## Simple values -/

def fields (path : Path) : Option Json → Read (List (String × Json))
  | some (.object fields) => .ok fields
  | _ => fail path .notObject

def items (path : Path) : Option Json → Read (List Json)
  | some (.array items) => .ok items
  | _ => fail path .notArray

def string (path : Path) : Option Json → Read String
  | some (.string s) => .ok s
  | _ => fail path .notString

def count (path : Path) (json : Option Json) : Read Nat :=
  let whole := match json with
    | some (.number x) => x.int?
    | _ => none
  match whole with
  | some (.ofNat (n + 1)) => .ok (n + 1)
  | _ => fail path .notCount

/-- A setting that holds only when it is literally `true`. -/
def isTrue : Option Json → Bool
  | some (.bool b) => b
  | _ => false

end Read

namespace ReadError

def text : ReadError → String
  | .malformed _ problem => problem.text
  | .fault f => f.message

/-- The text of a problem with its path in front. -/
def message : ReadError → String
  | .malformed (some path) problem => path.text ++ ": " ++ problem.text
  | .malformed none problem => problem.text
  | .fault f => f.message

end ReadError

end Spmd
