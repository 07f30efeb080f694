import Spmd.Proofs.Optimization.Typing
import Spmd.Proofs.Typing.Program

/-!
# Optimizing the expressions of a program

What checking gives for an expression of a program is a coherent tree, and optimizing it never fails: there is always a
result, of the same type up to `const`, that is coherent again (`typecheck_elaborates`, `optimize_settles`).
-/

namespace Spmd

open Check Spmd.Expr

variable {target : Target} {file : String} {json : Option Json} {p : Program} {e t : Expr} {s s' : Session}

theorem typecheck_checked (hp : Program.read target file json = .ok p) (he : e ∈ p.expressions)
    (hs : s.target = target) (ht : (typecheck e).run s = (.ok (some t), s')) : Checked target t := by
  obtain ⟨result, new, found, hrun, hout⟩ := typecheck_delivers (Program.prepared hp he) s hs
  rw [hrun] at ht
  cases ht
  exact hout.2

/-- In what checking gives, the children of every node have the types that the form of the node asks for, and so they
have after optimizing. -/
theorem typecheck_elaborates (hp : Program.read target file json = .ok p) (he : e ∈ p.expressions)
    (hs : s.target = target) (ht : (typecheck e).run s = (.ok (some t), s')) :
    Everywhere (Coherent target) t ∧
      ∀ r : Session, ∃ o r', (optimize t).run r = (.ok (some o), r') ∧ Everywhere (Coherent target) o := by
  have hc := typecheck_checked hp he hs ht
  refine ⟨Everywhere.mono (fun _ h => h.coherent) hc, fun r => ?_⟩
  obtain ⟨result, new, found, hrun, ⟨o, rfl, href⟩, -⟩ := optimize_folds (U := r.target) hc r rfl
  exact ⟨o, _, hrun, Everywhere.mono (fun _ h => h.coherent) href.checked⟩

/-- A constant is of the kind of its type, with one element when the type is uniform and one for each lane when it is
varying. -/
def Expr.Housed (T : Target) : Expr → Prop
  | .const node c => ∃ q, node.type = some (.scalar q) ∧ c.kind = q.element.kind ∧
    (q.qualifiers.variability = .uniform → c.lanes.length = 1) ∧
      (q.qualifiers.variability = .varying → c.lanes.length = T.width)
  | _ => True

theorem Expr.Formed.housed {T : Target} (h : Formed T e) : Housed T e := by
  cases e with
  | const node c =>
    obtain ⟨q, hn, hsuits⟩ := h.grounded
    exact ⟨q, hn, hsuits.kind_eq, hsuits.single, hsuits.full⟩
  | _ => trivial

/-- Optimizing what checking gave never faults and always has a result. It reports nothing but errors about constants,
and the result has the type it had before, up to `const`. -/
theorem optimize_settles (hp : Program.read target file json = .ok p) (he : e ∈ p.expressions)
    (hs : s.target = target) (ht : (typecheck e).run s = (.ok (some t), s')) (r : Session) :
    ∃ o r' new, (optimize t).run r = (.ok (some o), r') ∧ r'.log = r.log ++ new ∧
      (∀ m ∈ new, m.isError = true ∧ m.category? = some .constant) ∧ Everywhere (Housed target) o ∧
        ∃ u v, t.type? = some u ∧ o.type? = some v ∧ v.sameIgnoringConst u = true := by
  have hc := typecheck_checked hp he hs ht
  obtain ⟨result, new, found, hrun, ⟨o, rfl, href⟩, hnew⟩ := optimize_folds (U := r.target) hc r rfl
  obtain ⟨u, hu⟩ := href.typed
  obtain ⟨v, hv, hsame⟩ := href.alike u hu
  exact ⟨o, _, new, hrun, rfl, hnew, Everywhere.mono (fun _ h => h.housed) href.checked, u, v, hu, hv, hsame⟩

/-! ## A program -/

/-- A variable next to operators on constants: `n + 2 * 3`. -/
def sumJson : Json :=
  let literal (text : String) : Json := .object [("const", .string text), ("type", .string "int32")]
  .object [("symbols", .array [.object [("name", .string "n"), ("type", .string "int32")]]),
    ("expressions", .array [.object [("binary", .string "+"), ("left", .object [("symbol", .string "n")]),
      ("right", .object [("binary", .string "*"), ("left", literal "2"), ("right", literal "3")])]])]

def sumSymbol : Symbol := ⟨"n", .int32, .local, none, none⟩

/-- `n + 2 * 3` with the operators in a state. -/
def sumExpr (operator : Node) : Expr :=
  let literal (n : Int) : Expr := .const (.typed none Ty.int32.asConst) ⟨.int32, 8, [.int n]⟩
  .binary operator (.arith .add) (.symbol (.typed none .int32) sumSymbol)
    (.binary operator (.arith .mul) (literal 2) (literal 3) false) false

def sumProgram : Program := ⟨{ target := .standard, file := "program", symbols := [sumSymbol] }, [sumExpr {}]⟩

theorem sumProgram_read : Program.read .standard "program" (some sumJson) = .ok sumProgram := rfl

theorem sumExpr_checks : (typecheck (sumExpr {})).run { target := .standard } =
    (.ok (some (sumExpr (.typed none .int32))), { target := .standard }) := rfl

theorem typecheck_elaborates_sum :
    Everywhere (Coherent .standard) (sumExpr (.typed none .int32)) ∧
      ∀ r : Session, ∃ o r', (optimize (sumExpr (.typed none .int32))).run r = (.ok (some o), r') ∧
        Everywhere (Coherent .standard) o :=
  typecheck_elaborates sumProgram_read (List.mem_singleton_self _) rfl sumExpr_checks

theorem optimize_settles_sum : ∃ o r' new,
    (optimize (sumExpr (.typed none .int32))).run { target := .standard } = (.ok (some o), r') ∧
      r'.log = [] ++ new ∧ (∀ m ∈ new, m.isError = true ∧ m.category? = some .constant) ∧
        Everywhere (Housed .standard) o ∧ ∃ u v, (sumExpr (.typed none .int32)).type? = some u ∧
          o.type? = some v ∧ v.sameIgnoringConst u = true :=
  optimize_settles sumProgram_read (List.mem_singleton_self _) rfl sumExpr_checks { target := .standard }

end Spmd
