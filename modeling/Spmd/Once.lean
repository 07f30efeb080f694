import Spmd.Fault

/-!
# Properties that are written once

Writing the same value again is allowed, writing another is a fault. Reading a property before it is
written is a fault too, unless the property is optional.
-/

namespace Spmd

structure Once (α : Type) where
  name : String
  isOptional : Bool
  value : Option α

namespace Once

variable {α : Type}

def new (name : String) (isOptional : Bool) : Once α := ⟨name, isOptional, none⟩

def isWritten (p : Once α) : Bool := p.value.isSome

def get (p : Once α) : Except Fault (Option α) :=
  if p.value.isNone && !p.isOptional then .error (.notSet p.name) else .ok p.value

/-- Assigns a value, or nothing. What counts as the same value is decided by `same`. -/
def set (same : α → α → Bool) (text : Option α → String) (p : Once α) (next : Option α) :
    Except Fault (Once α) :=
  match p.value with
  | none => .ok { p with value := next }
  | some previous =>
    if next.any (same previous) then .ok { p with value := next }
    else .error (.alreadySet p.name (text (some previous)) (text next))

end Once

end Spmd
