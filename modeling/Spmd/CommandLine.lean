import Spmd.Batch
import Spmd.CommandLine.Options
import Spmd.Program.Basic

/-!
# The command line

The command checks and optimizes the programs in some files, prints what became of each expression, and
fails when an expression was rejected. All of it is a function of the arguments and the contents of the
files.
-/

namespace Spmd.CommandLine

/-! ## Output -/

structure Output where
  exitCode : Nat
  stdout : String
  stderr : String
  deriving DecidableEq

def failure : Nat := 255

def Output.ofError (stdout message : String) : Output :=
  ⟨failure, stdout, "error: " ++ message ++ "\n"⟩

/-- What is printed about an expression that was not rejected. -/
def reportOf (o : Options) (file : String) (outcome : Outcome) : String :=
  match outcome.expression with
  | none => ""
  | some e =>
    let cost := match outcome.cost with
      | some n => if o.cost then s!" (cost {n})" else ""
      | none => ""
    file ++ ": " ++ outcome.source.text ++ cost ++ "\n  " ++ Text.indent e.dump 1 ++ "\n"

/-! ## Runs -/

/-- Why a file has no contents. -/
inductive Unreadable where
  | missing | underFile | folder
  deriving DecidableEq

def Unreadable.message (file : String) : Unreadable → String
  | .missing => "unknown: Error: ENOENT: no such file or directory, open '" ++ file ++ "'"
  | .underFile => "unknown: Error: ENOTDIR: not a directory, open '" ++ file ++ "'"
  | .folder => "unknown: Error: EISDIR: illegal operation on a directory, read"

abbrev Contents := String → Except Unreadable String

/-- The first file that cannot be read. All files are opened before one is read, and only reading tells a
folder from a file. -/
def firstUnreadable? (contents : Contents) (files : List String) : Option (String × Unreadable) :=
  let failures := files.filterMap fun file =>
    match contents file with
    | .ok _ => none
    | .error e => some (file, e)
  (failures.find? fun (_, e) => e ≠ .folder).or failures.head?

/-- The contents of all files, or what is said of the first that cannot be read. -/
def readFiles (contents : Contents) (files : List String) : Except String (List (String × String)) :=
  match firstUnreadable? contents files with
  | some (file, e) => .error (e.message file)
  | none => .ok (files.filterMap fun file => (contents file).toOption.map (file, ·))

def readPrograms (target : Target) : List (String × String) → Read (List (String × Program))
  | [] => .ok []
  | (file, text) :: rest => do
    let p ← Program.parse target file text
    .ok ((file, p) :: (← readPrograms target rest))

/-- Runs programs in turn; gives what is printed about them, and how the batch ends. -/
def runPrograms (o : Options) (b : Batch) : List (String × Program) → String × Except Fault Batch
  | [] => ("", .ok b)
  | (file, p) :: rest =>
    match b.run p.expressions with
    | (.error fault, _) => ("", .error fault)
    | (.ok outcomes, b) =>
      let printed := String.join (outcomes.map (reportOf o file))
      let (others, result) := runPrograms o b rest
      (printed ++ others, result)

def outputOf (o : Options) (target : Target) (programs : List (String × Program)) : Output :=
  match runPrograms o (.new target) programs with
  | (stdout, .error fault) => .ofError stdout fault.message
  | (stdout, .ok b) =>
    let messages := if b.log.isEmpty then "" else b.log.text ++ "\n"
    ⟨if b.failed o.strict then failure else 0, stdout, messages⟩

def usage : Output :=
  ⟨1, "", "usage: [--width N] [--addressing 32|64] [--cost] [--strict] <files..>\n"⟩

/-- Runs the command on files with the given contents. The target is settled first, then all files are
read, and then all programs, before the first is run. -/
def run (contents : Contents) (args : List String) : Output :=
  match Options.ofArguments args with
  | none => usage
  | some o =>
    match o.target with
    | .error e => .ofError "" e.text
    | .ok target =>
      match readFiles contents o.files with
      | .error message => .ofError "" message
      | .ok texts =>
        match readPrograms target texts with
        | .error e => .ofError "" e.message
        | .ok programs => outputOf o target programs

end Spmd.CommandLine
