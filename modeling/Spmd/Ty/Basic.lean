import Spmd.Number.Decimal
import Spmd.Text.Basic
import Spmd.Ty.Kind

/-!
# Types

Every type is uniform, one value for the whole gang, or varying, one value per lane. Scalars,
pointers and structs carry this and `const` themselves; arrays, vectors and references take them
from what they are made of. `Ty.same` is equality of types: enumerations and structs are the same
when their names are, whatever they contain. `Ty.isOne` is narrower: it holds of a defined type and
itself.
-/

namespace Spmd

inductive Variability where
  | uniform | varying
  deriving DecidableEq, Repr, Inhabited

def Variability.name : Variability → String
  | .uniform => "uniform"
  | .varying => "varying"

/-- Varying as soon as one of the two is. -/
def Variability.join : Variability → Variability → Variability
  | .uniform, v => v
  | .varying, _ => .varying

structure Qualifiers where
  variability : Variability := .uniform
  isConst : Bool := false
  deriving DecidableEq, Repr, Inhabited

def Qualifiers.text (q : Qualifiers) : String :=
  (if q.isConst then "const " else "") ++ q.variability.name

/-! ## Elements -/

inductive Element where
  | basic (kind : Kind)
  | enumeration (name : String) (enumerators : List String)
  deriving Repr, Inhabited

namespace Element

/-- Enumerations are stored as `uint32`. -/
def kind : Element → Kind
  | .basic k => k
  | .enumeration .. => .uint32

def isBasic : Element → Bool
  | .basic _ => true
  | .enumeration .. => false

def same : Element → Element → Bool
  | .basic a, .basic b => a == b
  | .enumeration a _, .enumeration b _ => a == b
  | _, _ => false

def text : Element → String
  | .basic k => k.name
  | .enumeration name _ => "enum " ++ name

end Element

/-! ## The type language -/

/-- The name that a type was defined under. Only the defined type itself has it: a type that is made
from a defined one has no name. -/
abbrev Origin := Option String

structure ScalarTy where
  element : Element
  qualifiers : Qualifiers
  origin : Origin := none
  deriving Inhabited

namespace ScalarTy

/-- Basic scalars are not made anew for qualifiers that they have already. -/
def qualify (s : ScalarTy) (q : Qualifiers) : ScalarTy :=
  ⟨s.element, q, if s.element.isBasic && q == s.qualifiers then s.origin else none⟩

def withVariability (v : Variability) (s : ScalarTy) : ScalarTy :=
  s.qualify { s.qualifiers with variability := v }

def withConst (c : Bool) (s : ScalarTy) : ScalarTy := s.qualify { s.qualifiers with isConst := c }

def same (a b : ScalarTy) : Bool := a.element.same b.element && a.qualifiers == b.qualifiers

def text (s : ScalarTy) : String := s.qualifiers.text ++ " " ++ s.element.text

end ScalarTy

inductive Ty where
  | void (origin : Origin := none)
  | scalar (scalar : ScalarTy)
  | pointer (pointee : Ty) (qualifiers : Qualifiers) (origin : Origin := none)
  | array (element : Ty) (count : Option Nat) (origin : Origin := none)
  | vector (element : ScalarTy) (count : Nat) (origin : Origin := none)
  | struct (name : String) (members : List (String × Ty)) (qualifiers : Qualifiers)
      (origin : Origin := none)
  | reference (target : Ty) (origin : Origin := none)
  | function (result : Ty) (parameters : List Ty) (isTask : Bool) (origin : Origin := none)
  | list (elements : List Ty)
  deriving Inhabited

namespace Ty

def basic (kind : Kind) (v : Variability := .uniform) : Ty := .scalar ⟨.basic kind, ⟨v, false⟩, none⟩

def bool : Ty := basic .bool

def int32 : Ty := basic .int32

def voidPointer : Ty := .pointer .void {}

/-! ## Defined types -/

def origin : Ty → Origin
  | .void o => o
  | .scalar s => s.origin
  | .pointer _ _ o => o
  | .array _ _ o => o
  | .vector _ _ o => o
  | .struct _ _ _ o => o
  | .reference _ o => o
  | .function _ _ _ o => o
  | .list _ => none

/-- What a definition makes of a type: it gives a name to a type that has none, and a type that was
defined before keeps its name. -/
def defined (name : String) : Ty → Ty
  | .void o => .void (o.or (some name))
  | .scalar s => .scalar { s with origin := s.origin.or (some name) }
  | .pointer p q o => .pointer p q (o.or (some name))
  | .array e n o => .array e n (o.or (some name))
  | .vector e n o => .vector e n (o.or (some name))
  | .struct s ms q o => .struct s ms q (o.or (some name))
  | .reference t o => .reference t (o.or (some name))
  | .function r ps task o => .function r ps task (o.or (some name))
  | .list es => .list es

/-- Whether two types are one defined type, and do not only look the same. -/
def isOne (a b : Ty) : Bool := a.origin.isSome && a.origin == b.origin

/-! ## Qualifiers -/

mutual
def variability : Ty → Variability
  | .void _ => .uniform
  | .scalar s => s.qualifiers.variability
  | .pointer _ q _ => q.variability
  | .array e _ _ => e.variability
  | .vector s _ _ => s.qualifiers.variability
  | .struct _ _ q _ => q.variability
  | .reference t _ => t.variability
  | .function .. => .uniform
  | .list es => joinVariability es
def joinVariability : List Ty → Variability
  | [] => .uniform
  | t :: ts => t.variability.join (joinVariability ts)
end

def isConst : Ty → Bool
  | .void _ => false
  | .scalar s => s.qualifiers.isConst
  | .pointer _ q _ => q.isConst
  | .array e _ _ => e.isConst
  | .vector s _ _ => s.qualifiers.isConst
  | .struct _ _ q _ => q.isConst
  | .reference t _ => t.isConst
  | .function .. => false
  | .list _ => false

def isVarying (t : Ty) : Bool := t.variability == .varying

def isUniform (t : Ty) : Bool := t.variability == .uniform

mutual
def withVariability (v : Variability) : Ty → Ty
  | .void o => .void (if v = .uniform then o else none)
  | .scalar s => .scalar (s.withVariability v)
  | .pointer p q _ => .pointer p { q with variability := v }
  | .array e n _ => .array (withVariability v e) n
  | .vector s n _ => .vector (s.withVariability v) n
  | .struct s ms q _ => .struct s ms { q with variability := v }
  | .reference t _ => .reference (withVariability v t)
  | .function r ps task o => .function r ps task o
  | .list es => .list (allWithVariability v es)
def allWithVariability (v : Variability) : List Ty → List Ty
  | [] => []
  | t :: ts => withVariability v t :: allWithVariability v ts
end

def withConst (c : Bool) : Ty → Ty
  | .void o => .void (if c then none else o)
  | .scalar s => .scalar (s.withConst c)
  | .pointer p q _ => .pointer p { q with isConst := c }
  | .array e n _ => .array (withConst c e) n
  | .vector s n _ => .vector (s.withConst c) n
  | .struct s ms q _ => .struct s ms { q with isConst := c }
  | .reference t _ => .reference (withConst c t)
  | .function r ps task o => .function r ps task o
  | .list es => .list es

def asVarying (t : Ty) : Ty := t.withVariability .varying

def asUniform (t : Ty) : Ty := t.withVariability .uniform

def asConst (t : Ty) : Ty := t.withConst true

def asNonConst (t : Ty) : Ty := t.withConst false

/-! ## Equality -/

mutual
/-- Equality of types does not ask where they were defined. -/
def same : Ty → Ty → Bool
  | .void _, .void _ => true
  | .scalar a, .scalar b => a.same b
  | .pointer a q _, .pointer b r _ => q == r && a.same b
  | .array a m _, .array b n _ => m == n && a.same b
  | .vector a m _, .vector b n _ => m == n && a.same b
  | .struct a _ q _, .struct b _ r _ => a == b && q == r
  | .reference a _, .reference b _ => a.same b
  | .function r ps task _, .function s qs job _ => task == job && r.same s && allSame ps qs
  | .list as, .list bs => allSame as bs
  | _, _ => false
def allSame : List Ty → List Ty → Bool
  | [], [] => true
  | a :: as, b :: bs => a.same b && allSame as bs
  | _, _ => false
end

def sameIgnoringConst (a b : Ty) : Bool := a.asNonConst.same b.asNonConst

/-! ## Classification -/

def isVoid : Ty → Bool
  | .void _ => true
  | _ => false

def element? : Ty → Option Element
  | .scalar s => some s.element
  | .vector s _ _ => some s.element
  | _ => none

def isBool (t : Ty) : Bool := t.element?.any fun e => e.kind == .bool

def isInteger (t : Ty) : Bool := t.element?.any fun e => e.kind.isInteger

def isFloat (t : Ty) : Bool := t.element?.any fun e => e.kind.isFloat

def isUnsigned (t : Ty) : Bool := t.element?.any fun e => e.kind.isUnsigned

/-- Numeric types take part in arithmetic; `bool` does not. -/
def isNumeric (t : Ty) : Bool := t.isInteger || t.isFloat

def isScalar : Ty → Bool
  | .scalar _ => true
  | _ => false

def isIntegerScalar (t : Ty) : Bool := t.isScalar && t.isInteger

def isArray : Ty → Bool
  | .array .. => true
  | _ => false

def isStruct : Ty → Bool
  | .struct .. => true
  | _ => false

def isVector : Ty → Bool
  | .vector .. => true
  | _ => false

def isPointer : Ty → Bool
  | .pointer .. => true
  | _ => false

def isVoidPointer : Ty → Bool
  | .pointer p _ _ => p.isVoid
  | _ => false

def isReference : Ty → Bool
  | .reference .. => true
  | _ => false

def isFunction : Ty → Bool
  | .function .. => true
  | _ => false

/-! ## Parts -/

def elementCount : Ty → Nat
  | .array _ n _ => n.getD 0
  | .vector _ n _ => n
  | .struct _ ms _ _ => ms.length
  | .list es => es.length
  | _ => 0

/-- The type of a member of a struct, which takes `varying` and `const` from the struct. -/
def memberType (q : Qualifiers) (t : Ty) : Ty :=
  let t := if q.variability = .varying then t.asVarying else t
  if q.isConst then t.asConst else t

/-- The type of the element at an index of an aggregate. -/
def elementAt? (index : Nat) : Ty → Option Ty
  | .array e n _ => if n.all (index < ·) then some e else none
  | .vector s n _ => if index < n then some (.scalar s) else none
  | .struct _ ms q _ => ms[index]?.map fun m => memberType q m.2
  | .list es => es[index]?
  | _ => none

/-- The type of the element at any position, whole or not. Sequences have the same element all the way
between their first position and their end, and an array without a size has it even before its start. -/
def elementAround? (position : Binary) : Ty → Option Ty
  | .array e none _ => some e
  | t =>
    let index := if t.isArray || t.isVector then position.truncate? else position.int?
    if position.lt (.finite 0) then none else index.bind fun i => t.elementAt? i.toNat

def memberIndex? (name : String) : Ty → Option Nat
  | .struct _ ms _ _ => ms.findIdx? fun m => m.1 == name
  | _ => none

/-- The type of a value once it is read: references are followed and `const` is dropped. -/
def rvalue : Ty → Ty
  | .reference t _ => t.asNonConst
  | t => t.asNonConst

/-- The type a value is stored as: references are followed and `const` is kept. -/
def stored : Ty → Ty
  | .reference t _ => t
  | t => t

/-- `bool` with the shape and variability of a type. -/
def boolLike (t : Ty) : Ty :=
  let v := t.stored.variability
  match t with
  | .vector _ n _ => .vector ⟨.basic .bool, ⟨v, false⟩, none⟩ n
  | _ => basic .bool v

/-! ## Text -/

/-- Counts are written as numbers are, so a very large one has an exponent. -/
def countText (n : Nat) : String := (Binary.ofInt n).text

mutual
def text : Ty → String
  | .void _ => "void"
  | .scalar s => s.text
  | .pointer p q _ => p.text ++ " * " ++ q.text
  | .array e n _ => e.text ++ "[" ++ (n.map countText).getD "" ++ "]"
  | .vector s n _ => s.text ++ "<" ++ countText n ++ ">"
  | .struct s _ q _ => q.text ++ " struct " ++ s
  | .reference t _ => t.text ++ " &"
  | .function r ps task _ => (if task then "task " else "") ++ r.text ++ "(" ++ Text.commas (texts ps) ++ ")"
  | .list es => "\x7b " ++ Text.commas (texts es) ++ " \x7d"
def texts : List Ty → List String
  | [] => []
  | t :: ts => t.text :: texts ts
end

instance : ToString Ty := ⟨text⟩

end Ty

/-! ## Signatures -/

/-- The type of a function, apart from the other types. -/
structure Signature where
  result : Ty
  parameters : List Ty
  isTask : Bool
  deriving Inhabited

def Signature.type (s : Signature) : Ty := .function s.result s.parameters s.isTask

def Ty.signature? : Ty → Option Signature
  | .function r ps task _ => some ⟨r, ps, task⟩
  | _ => none

end Spmd
