import Spmd.Diagnostic.Location
import Spmd.Diagnostic.Problem

/-!
# Messages

A message is an error or a warning at a place. A log keeps messages in the order they were reported.
-/

namespace Spmd

inductive Caution where
  | narrowing (constant narrowed : Constant) (source target : Ty) (context : String)
  | stated (text : String)
  deriving Inhabited

def Caution.text : Caution → String
  | .narrowing c n s t context =>
    s!"conversion of constant {c} from type \"{s}\" to type \"{t}\" for {context} changes its value to {n}"
  | .stated text => text

inductive Report where
  | error (problem : Problem)
  | warning (caution : Caution)
  deriving Inhabited

def Report.text : Report → String
  | .error p => p.text
  | .warning c => c.text

structure Message where
  report : Report
  place : Option Location
  deriving Inhabited

namespace Message

def isError (m : Message) : Bool :=
  match m.report with
  | .error _ => true
  | .warning _ => false

def category? (m : Message) : Option Category :=
  match m.report with
  | .error p => some p.category
  | .warning _ => none

def text (m : Message) : String :=
  match m.report with
  | .error p => "error: " ++ Location.mark m.place p.text
  | .warning c => "warning: " ++ Location.mark m.place c.text

end Message

/-! ## Logs -/

abbrev Log := List Message

namespace Log

def errors (log : Log) : List Message := log.filter Message.isError

def warnings (log : Log) : List Message := log.filter fun m => !m.isError

def errorsOf (category : Category) (log : Log) : List Message :=
  log.errors.filter fun m => m.category? == some category

def text (log : Log) : String := "\n".intercalate (log.map Message.text)

end Log

end Spmd
