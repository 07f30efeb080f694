import Spmd.Proofs.Retyping.Check

/-!
# Checking the expressions of a program again

What checking an expression of a program gives is accepted as it is by another check, up to lists that fill uniform structs
with varying members and selections among structs of one name (`typecheck_idempotent`).
-/

namespace Spmd

open Check

section
variable {target : Target} {file : String} {json : Option Json} {p : Program} {e t : Expr} {s s' r : Session}

/-- Checking what a check gave reports nothing, and shows the same tree. -/
theorem typecheck_idempotent (hp : Program.read target file json = .ok p) (he : e ∈ p.expressions) (hs : s.target = target)
    (ht : (typecheck e).run s = (.ok (some t), s')) (hrep : t.Everywhere Expr.Repeats) (hr : r.target = target) :
    ∃ u r', (typecheck t).run r = (.ok (some u), r') ∧ r'.log = r.log ∧ u.dump = t.dump := by
  have hagain := (typecheck_again (Program.loaded hp he) s hs _ _ ht).1 t rfl hrep
  obtain ⟨_, r', hrun, -, hlog, u, rfl, hu⟩ := hagain.run hr
  exact ⟨u, r', hrun, hlog, by rw [← Expr.dump_outline, hu, Expr.dump_outline]⟩

end

/-! ## A list that fills a struct -/

/-- `new S({ 1 })` where `S` has one member, of the given type. -/
def boxJson (member : String) : Json :=
  let box : Json := .object [("struct", .string "S"),
    ("members", .array [.object [("name", .string "x"), ("type", .string member)]])]
  let one : Json := .object [("const", .string "1"), ("type", .string "int32")]
  .object [("types", .object [("S", box)]),
    ("expressions", .array [.object [("new", .string "S"), ("init", .object [("list", .array [one])])]])]

def boxType (member : Variability) : Ty := .struct "S" [("x", .basic .int32 member)] {}

/-- `new S({ item })` with the allocation and the list in a state. -/
def boxExpr (member : Variability) (allocation list : Node) (item : Expr) : Expr :=
  .new allocation (boxType member) none (some (.list list [item])) false

def boxOne : Expr := .const (.typed none Ty.int32.asConst) ⟨.int32, 8, [.int 1]⟩

def boxTyped (member : Variability) (item : Expr) : Expr :=
  boxExpr member (.typed none (.pointer (boxType member) {})) (.typed none (boxType member)) item

theorem uniformBox_read : Program.read .standard "program" (some (boxJson "int32")) =
    .ok ⟨{ target := .standard, file := "program", types := [("S", boxType .uniform)] },
      [boxExpr .uniform {} {} boxOne]⟩ := rfl

theorem typecheck_idempotent_uniformBox : ∃ u r', (typecheck (boxTyped .uniform boxOne)).run { target := .standard } =
    (.ok (some u), r') ∧ r'.log = [] ∧ u.dump = (boxTyped .uniform boxOne).dump := by
  have hchecks : (typecheck (boxExpr .uniform {} {} boxOne)).run { target := .standard } =
    (.ok (some (boxTyped .uniform boxOne)), { target := .standard }) := rfl
  refine typecheck_idempotent uniformBox_read (List.mem_singleton_self _) rfl hchecks (.one trivial rfl ?_) rfl
  refine .one (fun _ _ _ item hm => ?_) rfl (.leaf trivial rfl)
  rw [List.mem_singleton] at hm
  subst hm
  rfl

def boxCast : Expr := .cast (.typed none (.basic .int32 .varying)) (.basic .int32 .varying) boxOne false

theorem varyingBox_read : Program.read .standard "program" (some (boxJson "varying int32")) =
    .ok ⟨{ target := .standard, file := "program", types := [("S", boxType .varying)] },
      [boxExpr .varying {} {} boxOne]⟩ := rfl

theorem varyingBox_checks : (typecheck (boxExpr .varying {} {} boxOne)).run { target := .standard } =
    (.ok (some (boxTyped .varying boxCast)), { target := .standard }) := rfl

/-- The list was made a uniform struct when it was filled. Checked again it has a varying item, and is refused. -/
theorem boxTyped_refused : ∃ p e t, Program.read .standard "program" (some (boxJson "varying int32")) = .ok p ∧
    e ∈ p.expressions ∧ (typecheck e).run { target := .standard } = (.ok (some t), { target := .standard }) ∧
    (typecheck t).run { target := .standard } = (.ok none, { target := .standard, log := [⟨.error (.conversion
      (.lostVariability (.list [.basic .int32 .varying]) (boxType .varying)) "\"new\" expression initializer"), none⟩] }) :=
  ⟨_, _, _, varyingBox_read, List.mem_singleton_self _, varyingBox_checks, rfl⟩

end Spmd
