import Spmd.Json.Parser
import Spmd.Program.Expressions

/-!
# Programs

A program is a list of symbols and a list of expressions over them. `Program.read` reads one from a JSON
value and `Program.parse` from text.
-/

namespace Spmd

structure Program where
  scope : Scope
  expressions : List Expr
  deriving Inhabited

namespace Program

def symbols (p : Program) : List Symbol := p.scope.symbols

def readDefinitions (make : String → Ty → Ty) (json : Option Json) : Read TypeNames :=
  match Json.present? json with
  | none => .ok []
  | some (.object fields) => TypeNames.define make [] fields
  | some _ => Read.fail (.root "types") .notObject

/-- The types that names stand for in a program, where only their structure counts. -/
def readTypes (json : Option Json) : Read TypeNames := readDefinitions (fun _ t => t) json

/-- The types that names stand for, each of them known by its name. -/
def readDefinedTypes (json : Option Json) : Read TypeNames := readDefinitions Ty.defined json

def readSymbols (scope : Scope) (json : Option Json) : Read Scope :=
  match Json.present? json with
  | none => .ok scope
  | some (.array items) => scope.declare 0 items
  | some _ => Read.fail (.root "symbols") .notArray

/-- Types are read first, then symbols, then expressions. -/
def read (target : Target) (file : String) (json : Option Json) : Read Program :=
  match json with
  | some (.object fields) => do
    let types ← readTypes (Json.lookup? "types" fields)
    let scope ← readSymbols { target, file, types } (Json.lookup? "symbols" fields)
    let path := Path.root "expressions"
    let items ← Read.items path (Json.lookup? "expressions" fields)
    .ok ⟨scope, ← scope.readExprs path 0 items⟩
  | _ => .error (.malformed none .notProgram)

def parse (target : Target) (file text : String) : Read Program :=
  match Json.parse? text with
  | some json => read target file (some json)
  | none => .error (.malformed none .notJson)

/-- The name of the file where none is given. -/
def unnamedFile : String := "<input>"

end Program

end Spmd
