import Spmd.Ty.Basic

/-!
# Faults

A fault is a misuse of the library: an expression used before it was checked, or a value built
outside the limits of its type. Malformed programs are reported as diagnostics instead.
-/

namespace Spmd

inductive Fault where
  | notSet (property : String)
  | alreadySet (property previous next : String)
  | arrayOfVoid
  | vectorOfVoid
  | referenceToReference
  | noConstantOf (type : Ty)
  | elementCount (count width : Nat)
  | elementOutOfRange (index : Binary)
  | kindMismatch (kind : Kind) (type : Ty)
  | uniformElements (count : Nat)
  | uncheckedStep
  | uncheckedCall (call : String)
  | uncheckedMember (member : String)
  | launchWithoutCount (call : String)
  | noStorage (expression : String)
  | missingMember (name : String)
  | swizzleType (type : Ty)
  | unresolvedFunction (name : String)
  | pointerArithmeticType (type : Ty)
  | nullType (type : Ty)
  | newType (type : Ty)
  | missingParameter
  deriving Inhabited

def Fault.text : Fault → String
  | .notSet property => s!"write-once property {property} not set"
  | .alreadySet property previous next =>
    s!"write-once property {property} already set to {previous}, cannot set to {next}"
  | .arrayOfVoid => "array of void"
  | .vectorOfVoid => "vector of void"
  | .referenceToReference => "reference to reference"
  | .noConstantOf type => s!"no constant of type {type}"
  | .elementCount count width => s!"constant with {count} elements on a target of width {width}"
  | .elementOutOfRange index => "constant element " ++ index.text ++ " out of range"
  | .kindMismatch kind type => "constant of kind " ++ kind.name ++ " for type " ++ type.text
  | .uniformElements count => s!"uniform constant with {count} elements"
  | .uncheckedStep => "increment has not been typechecked"
  | .uncheckedCall call => s!"call {call} has not been typechecked"
  | .uncheckedMember member => s!"member {member} has not been typechecked"
  | .launchWithoutCount call => s!"launch {call} has no count"
  | .noStorage expression => s!"{expression} does not denote storage"
  | .missingMember name => s!"missing member {name}"
  | .swizzleType type => s!"unexpected swizzle type {type}"
  | .unresolvedFunction name => s!"unresolved function {name}"
  | .pointerArithmeticType type => s!"unexpected pointer arithmetic type {type}"
  | .nullType type => s!"null of non-pointer type {type}"
  | .newType type => s!"new of non-pointer type {type}"
  | .missingParameter => "argument without a parameter"

def Fault.message (fault : Fault) : String := "internal: " ++ fault.text

/-! ## Types within limits -/

def Ty.arrayOf (element : Ty) (count : Option Nat) : Except Fault Ty :=
  if element.isVoid then .error .arrayOfVoid else .ok (.array element count)

def Ty.vectorOf (element : Ty) (count : Nat) : Except Fault Ty :=
  match element with
  | .scalar s => .ok (.vector s count)
  | _ => .error .vectorOfVoid

def Ty.referenceTo (target : Ty) : Except Fault Ty :=
  if target.isReference then .error .referenceToReference else .ok (.reference target)

end Spmd
