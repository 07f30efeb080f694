import Spmd.Proofs.Typing.Check

/-!
# Checking the expressions of a program

Whatever a session has reported before, checking an expression of a program ends without a fault, and it gives a result
exactly when it reports no error (`typecheck_settles`).
-/

namespace Spmd

open Check

variable {target : Target} {file : String} {json : Option Json} {p : Program} {e : Expr} {s : Session}

theorem Program.loaded (hp : Program.read target file json = .ok p) (he : e ∈ p.expressions) :
    Expr.Everywhere (Expr.Loaded target) e :=
  Expr.Everywhere.mono (fun _ h => h.1) ((Program.read_unshared hp).2 e he)

theorem Program.prepared (hp : Program.read target file json = .ok p) (he : e ∈ p.expressions) :
    Expr.Everywhere (Expr.Prepared target) e :=
  Expr.prepared_of_loaded (Program.loaded hp he)

/-- Checking an expression of a program never faults. It gives an expression if and only if it reports no error. -/
theorem typecheck_settles (hp : Program.read target file json = .ok p) (he : e ∈ p.expressions)
    (hs : s.target = target) :
    ∃ result s' new, (typecheck e).run s = (.ok result, s') ∧ s'.target = target ∧ s'.log = s.log ++ new ∧
      (result.isSome = true ↔ Log.errors new = []) := by
  obtain ⟨result, new, found, hrun, hout⟩ := typecheck_delivers (Program.prepared hp he) s hs
  refine ⟨result, _, new, hrun, hs, rfl, ?_⟩
  cases result with
  | none => exact ⟨nofun, fun h => absurd h hout⟩
  | some t => exact ⟨fun _ => hout.1, fun _ => rfl⟩

/-- A program that declares variables by name and type, and has one expression. -/
def programJson (symbols : List (String × Json)) (expression : Json) : Json :=
  .object [("symbols", .array (symbols.map fun s => .object [("name", .string s.1), ("type", s.2)])),
    ("expressions", .array [expression])]

def functionJson (result : String) (parameters : List Json) : Json :=
  .object [("function", .string result), ("parameters", .array parameters)]

/-- A function without a result. -/
def procedure (parameters : List Ty) : Symbol := ⟨"f", .function .void parameters false, .function, none, none⟩

def oneJson : Json := .object [("const", .string "1"), ("type", .string "int32")]

def one : Expr := .const (.typed none Ty.int32.asConst) ⟨.int32, 8, [.int 1]⟩

def localVariable (name : String) (type : Ty) : Symbol := ⟨name, type, .local, none, none⟩

def localNamed (name : String) (type : Ty) : Expr := .symbol (.typed none type) (localVariable name type)

def int32Array : Ty := .array .int32 none

/-- The logical complement of a truth value, as a program states it. -/
def complementJson : Json :=
  .object [("expressions", .array [.object [("unary", .string "!"), ("operand", .object [("const", .bool true)])]])]

def complementExpr : Expr := .unary {} .not (.const (.typed none Ty.bool.asConst) ⟨.bool, 8, [.bool true]⟩)

theorem complement_read : Program.read .standard "program" (some complementJson) =
    .ok ⟨{ target := .standard, file := "program" }, [complementExpr]⟩ := rfl

theorem typecheck_settles_complement : ∃ result s' new,
    (typecheck complementExpr).run { target := .standard } = (.ok result, s') ∧ s'.target = .standard ∧
      s'.log = [] ++ new ∧ (result.isSome = true ↔ Log.errors new = []) :=
  typecheck_settles complement_read (List.mem_singleton_self _) rfl

end Spmd
