/-!
# Kinds of scalar values

The eleven kinds a machine value can have, from least to most general.
-/

namespace Spmd

inductive Kind where
  | bool | int8 | uint8 | int16 | uint16 | int32 | uint32 | float | int64 | uint64 | double
  deriving DecidableEq, Repr, Inhabited

namespace Kind

def all : List Kind :=
  [.bool, .int8, .uint8, .int16, .uint16, .int32, .uint32, .float, .int64, .uint64, .double]

def name : Kind → String
  | .bool => "bool"
  | .int8 => "int8"
  | .uint8 => "uint8"
  | .int16 => "int16"
  | .uint16 => "uint16"
  | .int32 => "int32"
  | .uint32 => "uint32"
  | .float => "float"
  | .int64 => "int64"
  | .uint64 => "uint64"
  | .double => "double"

def ofName? (name : String) : Option Kind := all.find? fun k => k.name == name

def bits : Kind → Nat
  | .bool => 1
  | .int8 | .uint8 => 8
  | .int16 | .uint16 => 16
  | .int32 | .uint32 | .float => 32
  | .int64 | .uint64 | .double => 64

def isFloat : Kind → Bool
  | .float | .double => true
  | _ => false

def isUnsigned : Kind → Bool
  | .uint8 | .uint16 | .uint32 | .uint64 => true
  | _ => false

def isInteger (k : Kind) : Bool := k != .bool && !k.isFloat

/-- Integers too wide for every one of them to be a double. -/
def isWide : Kind → Bool
  | .int64 | .uint64 => true
  | _ => false

def rank : Kind → Nat
  | .bool => 0
  | .int8 => 1
  | .uint8 => 2
  | .int16 => 3
  | .uint16 => 4
  | .int32 => 5
  | .uint32 => 6
  | .float => 7
  | .int64 => 8
  | .uint64 => 9
  | .double => 10

def join (a b : Kind) : Kind := if a.rank < b.rank then b else a

end Kind

end Spmd
