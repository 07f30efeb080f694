import Spmd.Ty.Basic

/-!
# Conversion between types

`Ty.obstacle` says what keeps a value of one type from becoming a value of another in a single step,
and `Ty.common` finds the type that both operands of an operator are converted to.
-/

namespace Spmd

inductive Obstacle where
  | fromVoid
  | toVoid
  | mismatch (source target : Ty)
  | binding (source target : Ty)
  | lostVariability (source target : Ty)
  | lostConst (source target : Ty)
  | voidPointer (source target : Ty)
  | vectorCounts (source target : Ty)
  | enumCast (source target : Ty)
  | listCount (target : Ty) (count : Nat)
  | listTarget (target : Ty)
  deriving Inhabited

/-- The word for a type that an initializer list can fill. -/
def Ty.aggregateName : Ty → String
  | .array .. => "array"
  | .vector .. => "vector"
  | _ => "struct"

def Obstacle.text : Obstacle → String
  | .fromVoid => "can't convert from \"void\""
  | .toVoid => "can't convert to \"void\""
  | .mismatch s t => s!"can't convert from type \"{s}\" to type \"{t}\""
  | .binding s t => s!"can't bind reference of type \"{t}\" to a value of type \"{s}\""
  | .lostVariability s t => s!"can't convert from varying type \"{s}\" to uniform type \"{t}\""
  | .lostConst s t =>
    s!"can't convert from pointer to const type \"{s}\" to pointer to non-const type \"{t}\""
  | .voidPointer s t =>
    s!"can't convert from \"void *\" type \"{s}\" to type \"{t}\" without an explicit cast"
  | .vectorCounts s t =>
    s!"can't convert between vector types \"{s}\" and \"{t}\" with different element counts"
  | .enumCast s t => s!"can't convert from type \"{s}\" to enum type \"{t}\" without an explicit cast"
  | .listCount t n => "can't initialize " ++ t.aggregateName ++ s!" type \"{t}\" with {n} values"
  | .listTarget t => s!"can't convert initializer list to type \"{t}\""

namespace Ty

/-! ## Single conversions -/

/-- From a scalar, or the elements of a vector, to a scalar of the same shape: only an enumeration
asks for a cast. -/
def elementObstacle (explicit : Bool) (a b : ScalarTy) : Option Obstacle :=
  match b.element with
  | .basic _ => none
  | .enumeration name _ =>
    match a.element with
    | .enumeration name' _ =>
      if name' = name ∨ explicit then none else some (.enumCast (.scalar a) (.scalar b))
    | .basic _ => if explicit then none else some (.enumCast (.scalar a) (.scalar b))

/-- A reference binds to a value of its own type, and never drops a `const`. -/
def bindingObstacle (source target : Ty) : Option Obstacle :=
  let referent := target.stored
  let bound := source.stored
  if referent.sameIgnoringConst bound && (referent.isConst || !bound.isConst) then none
  else some (.binding source target)

/-- An array decays to a pointer to its first element. -/
def decayObstacle (explicit : Bool) (source element target pointee : Ty) : Option Obstacle :=
  if pointee.isVoid || explicit then none
  else if element.sameIgnoringConst pointee && (pointee.isConst || !element.isConst) then none
  else some (.mismatch source target)

def pointerObstacle (explicit : Bool) (source pointee target : Ty) : Option Obstacle :=
  match target with
  | .scalar ⟨.basic kind, _, _⟩ =>
    if kind = .bool ∨ (kind.isInteger ∧ explicit) then none else some (.mismatch source target)
  | .pointer pointee' _ _ =>
    if pointee'.isVoid then none
    else if pointee.sameIgnoringConst pointee' then
      if pointee.isConst && !pointee'.isConst && !explicit then some (.lostConst source target) else none
    else if explicit then none
    else if pointee.isVoid then some (.voidPointer source target)
    else some (.mismatch source target)
  | _ => some (.mismatch source target)

/-- The elements that an initializer list of `count` values has to supply. -/
def listTargets (count : Nat) (target : Ty) : Except Obstacle (List Ty) :=
  match target with
  | .array e n _ =>
    if n.all (· == count) then .ok (List.replicate count e) else .error (.listCount target count)
  | .vector s n _ =>
    if n = count then .ok (List.replicate count (.scalar s)) else .error (.listCount target count)
  | .struct _ ms q _ =>
    if ms.length = count then .ok (ms.map fun m => memberType q m.2)
    else .error (.listCount target count)
  | _ => .error (.listTarget target)

/-- The remaining cases: neither side is a function or a reference, an array does not become a
pointer, and nothing varying becomes uniform. -/
def valueObstacle (explicit : Bool) (source target : Ty) : Option Obstacle :=
  match source, target with
  | .pointer p _ _, _ => pointerObstacle explicit source p target
  | .scalar s, .pointer .. =>
    if explicit && s.element.kind.isInteger then none else some (.mismatch source target)
  | .struct a _ _ _, .struct b _ _ _ => if a = b then none else some (.mismatch source target)
  | .array a m _, .array b n _ =>
    if (a.withVariability b.variability).sameIgnoringConst b && (n.isNone || n == m) then none
    else some (.mismatch source target)
  | .vector a m _, .vector b n _ =>
    if m = n then elementObstacle explicit a b else some (.vectorCounts source target)
  | .scalar a, .vector b _ _ => elementObstacle explicit a b
  | .scalar a, .scalar b => elementObstacle explicit a b
  | _, _ => some (.mismatch source target)

mutual
def obstacle (explicit : Bool) : Ty → Ty → Option Obstacle
  | source, target =>
    if source.same target then none
    else if source.isVoid then some .fromVoid
    else if target.isVoid then some .toVoid
    else
      match source with
      | .function .. =>
        match target with
        | .pointer p _ _ => if p.isFunction && p.same source then none else some (.mismatch source target)
        | _ => some (.mismatch source target)
      | .reference referent _ =>
        match target with
        | .function .. => some (.mismatch source target)
        | .reference .. => bindingObstacle source target
        | _ => obstacle explicit referent target
      | .list elements =>
        match target with
        | .function .. => some (.mismatch source target)
        | .reference .. => bindingObstacle source target
        | _ =>
          if source.isVarying && target.isUniform then some (.lostVariability source target)
          else
            match listTargets elements.length target with
            | .ok targets => firstObstacle explicit elements targets
            | .error o => some o
      | .array element _ _ =>
        match target with
        | .function .. => some (.mismatch source target)
        | .reference .. => bindingObstacle source target
        | .pointer p _ _ => decayObstacle explicit source element target p
        | _ =>
          if source.isVarying && target.isUniform then some (.lostVariability source target)
          else valueObstacle explicit source target
      | _ =>
        match target with
        | .function .. => some (.mismatch source target)
        | .reference .. => bindingObstacle source target
        | _ =>
          if source.isVarying && target.isUniform then some (.lostVariability source target)
          else valueObstacle explicit source target
/-- The first obstacle among the elements of a list and their targets. -/
def firstObstacle (explicit : Bool) : List Ty → List Ty → Option Obstacle
  | s :: ss, t :: ts =>
    match obstacle explicit s t with
    | some o => some o
    | none => firstObstacle explicit ss ts
  | _, _ => none
end

/-- Whether a value of one type converts to another in a single step. -/
def converts (explicit : Bool) (source target : Ty) : Bool := (obstacle explicit source target).isNone

end Ty

/-! ## Common types -/

/-- What keeps two operands from having a common type. -/
inductive Discord where
  | incompatible (left right : Ty)
  | vectorCounts (left right : Ty)
  | void
  deriving Inhabited

namespace Element

/-- Two operands of one enumeration keep it; any others meet at the more general kind. -/
def join (a b : Element) : Element :=
  match a, b with
  | .enumeration s es, .enumeration t _ => if s = t then .enumeration s es else .basic .uint32
  | _, _ => .basic (a.kind.join b.kind)

end Element

/-- The type that two scalars are converted to, with the variability of their operator. -/
def ScalarTy.join (a b : ScalarTy) (v : Variability) : ScalarTy :=
  ⟨a.element.join b.element, ⟨v, false⟩, none⟩

namespace Ty

def commonPointer (a b : Ty) (v : Variability) : Option Ty :=
  match a, b with
  | .pointer p _ _, .pointer p' _ _ =>
    if p.sameIgnoringConst p' then some (.pointer (if p.isConst then p else p') ⟨v, false⟩)
    else if p.isVoid then some (a.withVariability v)
    else if p'.isVoid then some (b.withVariability v)
    else none
  | .pointer .., other => if other.isIntegerScalar then some (a.withVariability v) else none
  | other, .pointer .. => if other.isIntegerScalar then some (b.withVariability v) else none
  | _, _ => none

/-- The common type of two types of which one is a vector. -/
def commonVector (a b : Ty) (v : Variability) : Except Discord Ty :=
  match a, b with
  | .vector s m _, .vector t n _ =>
    if m = n then .ok (.vector (s.join t v) m) else .error (.vectorCounts a b)
  | .vector s n _, .scalar t => .ok (.vector (s.join t v) n)
  | .scalar s, .vector t n _ => .ok (.vector (s.join t v) n)
  | .vector s n _, .void _ | .void _, .vector s n _ =>
    .ok (.vector ⟨.basic s.element.kind, ⟨v, false⟩, none⟩ n)
  | _, _ => .error (.incompatible a b)

/-- The type both operands are converted to: varying if either is, and the more general of two
scalar kinds, in a vector when one of them is a vector. -/
def common (left right : Ty) : Except Discord Ty :=
  let a := left.rvalue
  let b := right.rvalue
  let v := a.variability.join b.variability
  if a.same b then .ok a
  else if a.isPointer || b.isPointer then
    match commonPointer a b v with
    | some t => .ok t
    | none => .error (.incompatible a b)
  else if a.isVector || b.isVector then commonVector a b v
  else
    match a, b with
    | .scalar s, .scalar t => .ok (.scalar (s.join t v))
    | .scalar _, .void _ | .void _, .scalar _ => .error .void
    | _, _ =>
      if (a.withVariability v).same (b.withVariability v) then .ok (a.withVariability v)
      else .error (.incompatible a b)

/-! ## Overload matching -/

/-- An argument matches a parameter exactly when the types of what they hold differ at most in
`const`. -/
def matchesExactly (argument parameter : Ty) : Bool :=
  argument.stored.sameIgnoringConst parameter.stored

/-- A literal zero passes as a null pointer, but not a varying one as a uniform pointer. -/
def acceptsNull (argument parameter : Ty) : Bool :=
  parameter.isPointer && !(argument.isVarying && parameter.isUniform)

end Ty

end Spmd
