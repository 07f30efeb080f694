import Spmd.Text.Distance

/-!
# Choosing loggers

A comma-separated list picks loggers among the known ones; no list picks all of them.
-/

namespace Spmd

inductive UsageError where
  | unknownLogger (name hint : String)

def UsageError.text : UsageError → String
  | .unknownLogger name hint => s!"unknown logger \"{name}\"{hint}"

/-- The names in a comma-separated list. -/
def loggerNames (requested : String) : List String :=
  ((Text.split ',' requested).map Text.trim).filter fun name => name ≠ ""

def selectLoggers (requested : Option String) (known : List String) :
    Except UsageError (List String) :=
  match requested with
  | none | some "" => .ok known
  | some list =>
    (loggerNames list).mapM fun name =>
      if name ∈ known then .ok name else .error (.unknownLogger name (Text.hint name known))

end Spmd
