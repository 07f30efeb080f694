import Spmd.Json.Basic
import Spmd.Ty.Basic

/-!
# Targets

A target fixes how many lanes a gang has and how wide addresses are.
-/

namespace Spmd

inductive Addressing where
  | bits32 | bits64
  deriving DecidableEq, Repr, Inhabited

def Addressing.bits : Addressing → Nat
  | .bits32 => 32
  | .bits64 => 64

/-- The lane widths a target may have: the powers of two up to the greatest. -/
def laneWidths : List Nat := [1, 2, 4, 8, 16, 32, 64]

structure Target where
  width : Nat
  addressing : Addressing
  width_mem : width ∈ laneWidths

inductive TargetError where
  | width (given : String)
  | addressing (given : String)

def TargetError.text : TargetError → String
  | .width given => s!"invalid lane width {given}; expected a power of two from 1 to 64"
  | .addressing given => s!"invalid addressing width {given}; expected 32 or 64"

namespace Target

def standard : Target := ⟨8, .bits64, by decide⟩

instance : Inhabited Target := ⟨standard⟩

def is32Bit (t : Target) : Bool := t.addressing == .bits32

/-- The type of sizes and pointer differences. -/
def sizeType (t : Target) : Ty := if t.is32Bit then .basic .int32 else .basic .int64

def text (t : Target) : String := s!"width {t.width}, {t.addressing.bits}-bit addressing"

/-! ## Settings -/

def whole? : Json → Option Int
  | .number x => x.int?
  | _ => none

def readWidth (setting : Option Json) : Except TargetError { w : Nat // w ∈ laneWidths } :=
  match Json.present? setting with
  | none => .ok ⟨8, by decide⟩
  | some value =>
    match whole? value with
    | some n =>
      if h : n.toNat ∈ laneWidths then .ok ⟨n.toNat, h⟩ else .error (.width value.plain)
    | none => .error (.width value.plain)

def readAddressing (setting : Option Json) : Except TargetError Addressing :=
  match Json.present? setting with
  | none => .ok .bits64
  | some value =>
    match whole? value with
    | some 32 => .ok .bits32
    | some 64 => .ok .bits64
    | _ => .error (.addressing value.plain)

/-- A setting that is missing or `null` takes its usual value. -/
def ofSettings (width addressing : Option Json) : Except TargetError Target := do
  let ⟨w, h⟩ ← readWidth width
  let a ← readAddressing addressing
  .ok ⟨w, a, h⟩

end Target

end Spmd
