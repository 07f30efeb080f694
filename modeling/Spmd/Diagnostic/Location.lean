import Spmd.Number.Decimal

/-!
# Places in a file
-/

namespace Spmd

structure Location where
  file : String
  line : Binary
  column : Binary
  deriving DecidableEq, Inhabited

def Location.text (l : Location) : String :=
  l.file ++ "(" ++ l.line.text ++ ")[" ++ l.column.text ++ "]"

def Location.mark (place : Option Location) (text : String) : String :=
  match place with
  | some l => l.text ++ ": " ++ text
  | none => text

end Spmd
