import Spmd.Proofs.Folded.Check
import Spmd.Proofs.Optimization.Program
import Spmd.Proofs.Retyping.Program

/-!
# Checking the optimized expressions of a program

What the optimizer makes of a checked expression is accepted by another check, with the type of the expression up to `const`, where
no node of the expression was taken as it is for a `const` or for members that folding brings back (`typecheck_accepts_optimized`).
-/

namespace Spmd

open Check Spmd.Expr

section
variable {target : Target} {file : String} {json : Option Json} {p : Program} {e t : Expr} {s s' : Session}

/-- Checking what the optimizer makes of a checked expression reports no error, and gives an expression of the type that the
checked one has. Only items of a list may get `const`. -/
theorem typecheck_accepts_optimized (hp : Program.read target file json = .ok p) (he : e ∈ p.expressions) (hs : s.target = target)
    (ht : (typecheck e).run s = (.ok (some t), s')) (hrep : t.Everywhere Repeats) (htol : t.Everywhere Tolerant) (q : Session) :
    ∃ o q', (optimize t).run q = (.ok (some o), q') ∧ ∀ r : Session, r.target = target → ∃ u r' new,
      (typecheck o).run r = (.ok (some u), r') ∧ r'.log = r.log ++ new ∧ new.errors = [] ∧
        ∃ a b, t.type? = some a ∧ u.type? = some b ∧ b.relaxed = a.relaxed ∧
          (a.isList = false → b.sameIgnoringConst a = true) := by
  have hfolds := (typecheck_optimized (U := q.target) (Program.loaded hp he) s hs _ _ ht).1 t rfl hrep htol
  obtain ⟨_, _, _, hrun, ⟨o, rfl, ho⟩, -⟩ := hfolds q rfl
  refine ⟨o, _, hrun, fun r hr => ?_⟩
  obtain ⟨_, new, _, hrun, hnew, u, rfl, a, b, ha, hb, hrelaxed⟩ := ho r hr
  refine ⟨u, _, new, hrun, rfl, hnew, a, b, ha, hb, hrelaxed, fun hl => ?_⟩
  exact (Ty.sameIgnoringConst_iff _ _).mpr (Ty.core_of_relaxed hrelaxed hl)

end

/-! ## A sum, and a list that fills a struct -/

theorem typecheck_accepts_optimized_sum : ∃ o q', (optimize (sumExpr (.typed none .int32))).run { target := .standard } =
    (.ok (some o), q') ∧ ∀ r : Session, r.target = .standard → ∃ u r' new, (typecheck o).run r = (.ok (some u), r') ∧
      r'.log = r.log ++ new ∧ new.errors = [] ∧ ∃ a b, (sumExpr (.typed none .int32)).type? = some a ∧ u.type? = some b ∧
        b.relaxed = a.relaxed ∧ (a.isList = false → b.sameIgnoringConst a = true) := by
  have leaf : ∀ {e : Expr}, e.children = [] → e.TolerantNode → Everywhere Tolerant e := fun hc hn =>
    .leaf ⟨fun _ c h => (by rw [hc] at h; cases h), hn⟩ hc
  have pair : ∀ {c d : Expr}, c.isOpen = false → d.isOpen = false → ∀ x ∈ [c, d], x.isOpen = false := fun hc hd =>
    List.forall_mem_cons.mpr ⟨hc, List.forall_mem_singleton.mpr hd⟩
  refine typecheck_accepts_optimized sumProgram_read (List.mem_singleton_self _) rfl sumExpr_checks ?_ ?_ { target := .standard }
  · exact .two trivial rfl (.leaf trivial rfl) (.two trivial rfl (.leaf trivial rfl) (.leaf trivial rfl))
  · refine .two ⟨fun _ => pair rfl rfl, trivial⟩ rfl (leaf rfl trivial) ?_
    exact .two ⟨fun _ => pair rfl rfl, trivial⟩ rfl (leaf rfl trivial) (leaf rfl trivial)

/-- The list was made a uniform struct when it was filled. Optimized, it has a varying item and is refused as well. -/
theorem boxTyped_optimized_refused : ∃ p e t o, Program.read .standard "program" (some (boxJson "varying int32")) = .ok p ∧
    e ∈ p.expressions ∧ (typecheck e).run { target := .standard } = (.ok (some t), { target := .standard }) ∧
    (optimize t).run { target := .standard } = (.ok (some o), { target := .standard }) ∧
    (typecheck o).run { target := .standard } = (.ok none, { target := .standard, log := [⟨.error (.conversion
      (.lostVariability (.list [(Ty.basic .int32 .varying).asConst]) (boxType .varying)) "\"new\" expression initializer"), none⟩] }) :=
  ⟨_, _, _, _, varyingBox_read, List.mem_singleton_self _, varyingBox_checks, rfl, rfl⟩

end Spmd
