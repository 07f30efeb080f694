import Spmd.CommandLine.Argument
import Spmd.Target

/-!
# Options

The options of a command line: what the settings say, one after another, and the files that the words name.
-/

namespace Spmd.CommandLine

structure Options where
  files : List String := []
  width : Option Json := none
  addressing : Option Json := none
  cost : Bool := false
  strict : Bool := false
  deriving Inhabited

namespace Options

/-! ## Settings -/

/-- A flag that is just named is on. -/
def flagOf : Stated → Bool
  | .value text => text = "true"
  | .named => true
  | .negated => false

/-- A number that is just named has its usual value, and one that does not hold is zero. -/
def numberOf (usual : Int) : Stated → Binary
  | .value text => readNumber text
  | .named => Binary.ofInt usual
  | .negated => Binary.ofInt 0

/-- A file that is just named has no name. -/
def fileOf? : Stated → Option String
  | .value text => some text
  | .named => some ""
  | .negated => none

/-- What a number comes to when it is stated after others. A one counts up what was stated before, which for a
list means its text with the digit at the end; any other number joins a list of all that were stated. -/
def restate (before : Option Json) (x : Binary) : Json :=
  match before with
  | none => .number x
  | some held =>
    if x = Binary.ofInt 1 then
      match held with
      | .number y => .number (y.add x)
      | several => .string (several.plain ++ "1")
    else
      match held with
      | .array items => .array (items ++ [.number x])
      | single => .array [single, .number x]

/-- Takes up a setting. A flag is as last stated. -/
def set (o : Options) : Setting → Option Options
  | (.width, s) => some { o with width := some (restate o.width (numberOf 8 s)) }
  | (.addressing, s) => some { o with addressing := some (restate o.addressing (numberOf 64 s)) }
  | (.cost, s) => some { o with cost := flagOf s }
  | (.strict, s) => some { o with strict := flagOf s }
  | (.files, s) => do some { o with files := o.files ++ [← fileOf? s] }

/-! ## Addressing -/

def isAddressing : Json → Bool
  | .number x => x = Binary.ofInt 32 || x = Binary.ofInt 64
  | _ => false

/-- Addresses are 32 or 64 bits wide, and so is each width in a list of several. -/
def hasAddressing (o : Options) : Bool :=
  match o.addressing with
  | none => true
  | some (.array items) => items.all isAddressing
  | some single => isAddressing single

/-- The addressing as a setting. A list of several stands for the usual addressing. -/
def addressingSetting (o : Options) : Option Json := o.addressing.filter isAddressing

/-! ## Lines -/

/-- The options of a line, which must have a word and a possible addressing. A word that starts with a dash
names no file, unless it is a negative number. -/
def ofLine? (line : Line) : Option Options :=
  if line.words.isEmpty then none
  else do
    let o ← (line.settings.foldlM set {}).filter hasAddressing
    some { o with files := o.files ++ line.words.filter fun w => !isDashed w }

def ofArguments (args : List String) : Option Options := do ofLine? (← Line.ofArguments? args)

def target (o : Options) : Except TargetError Target :=
  Target.ofSettings o.width o.addressingSetting

end Options

end Spmd.CommandLine
