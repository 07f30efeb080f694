import Spmd.Expr.Text

/-!
# Storage

Some expressions denote storage. `Expr.addressType` is the type of their address, and
`Expr.root` the variable they are part of.
-/

namespace Spmd.Expr

/-- A pointer to storage, varying when the address differs from lane to lane. -/
def addressOfType (pointee : Ty) (varying : Bool) : Ty :=
  .pointer pointee ⟨if varying then .varying else .uniform, false⟩

/-- The address of an element, given the type of the base, whether the base denotes storage, and the
type of the position. -/
def elementAddressType (base : Ty) (isStorage : Except Fault Bool) (position : Except Fault Ty) :
    Except Fault (Option Ty) :=
  match base.stored with
  | .pointer pointee q _ => do
    let varying ← if q.variability = .varying then .ok true else (·.isVarying) <$> position
    .ok (some (addressOfType pointee varying))
  | .array element _ _ => do
    if ← isStorage then .ok (some (addressOfType element (← position).isVarying)) else .ok none
  | .vector element _ _ => do
    if ← isStorage then .ok (some (addressOfType (.scalar element) (← position).isVarying))
    else .ok none
  | _ => .ok none

def accessedType? : Access → Option Ty
  | .field i aggregate => aggregate.elementAt? i
  | .swizzle _ aggregate =>
    match aggregate with
    | .vector element _ _ => some (.scalar element)
    | _ => none

/-- The address type of a base, as far as the base denotes storage: nothing for a value, and for
storage whether its address is varying. -/
def storageVariability (address : Except Fault (Option Ty)) (type : Except Fault Ty) :
    Except Fault (Option Bool) := do
  match ← address with
  | some t => .ok (some t.isVarying)
  | none => .ok (if (← type).isReference then some false else none)

/-- The type of the address of the storage an expression denotes. -/
def addressType : Expr → Except Fault (Option Ty)
  | index _ base position => do
    elementAddressType (← base.type) (Option.isSome <$> storageVariability base.addressType base.type)
      position.type
  | e@(member _ base name arrow access) =>
    match access with
    | none => .error (.uncheckedMember e.text)
    | some access => do
      if !access.isAddressable then .ok none
      else
        let varying ← if arrow then (fun t => some t.stored.isVarying) <$> base.type
          else storageVariability base.addressType base.type
        match varying with
        | none => .ok none
        | some v =>
          match accessedType? access with
          | some t => .ok (some (addressOfType t v))
          | none => .error (.missingMember name)
  | reference _ e => e.addressType
  | dereference _ e => do
    match ← e.type with
    | .reference t _ => .ok (some (addressOfType t false))
    | .pointer p q _ => .ok (some (.pointer p { q with isConst := false }))
    | _ => .ok none
  | e@(symbol ..) => do .ok (some (addressOfType (← e.type) false))
  | _ => .ok none

def isAssignable (e : Expr) : Except Fault Bool := Option.isSome <$> e.addressType

/-- Whether an expression denotes storage, its own or that of a reference. -/
def isStorage (e : Expr) : Except Fault Bool :=
  Option.isSome <$> storageVariability e.addressType e.type

/-- The variable that the value of an expression is derived from. -/
def root : Expr → Option Symbol
  | step _ _ e _ => e.root
  | assign _ _ t _ _ => t.root
  | index _ b _ => b.root
  | member _ b .. => b.root
  | cast _ _ e _ => e.root
  | reference _ e => e.root
  | dereference _ e => e.root
  | addressOf _ e => e.root
  | symbol _ s => some s
  | function f => f.function?
  | _ => none

end Spmd.Expr
