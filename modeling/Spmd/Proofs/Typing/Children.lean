import Spmd.Proofs.Sharing.Check
import Spmd.Proofs.Typing.Program

/-!
# Expressions with a rejected child

All children of an expression are checked, one after the other, before the expression itself is. Where one of them has no
result, the expression has none, and there is nothing to report about it (`rejected_child_rejects`).
-/

namespace Spmd

namespace Check

open Spmd.Expr

variable {T : Target} {α : Type} {e c : Expr} {cs ds : List Expr} {s s' : Session} {results : List (Option Expr)}

/-! ## Visits -/

/-- Checking a child: its result, and the session after it. A name that has no function gets an error where its type is
needed. -/
inductive Visit : Session → Expr → Option Expr → Session → Prop
  | plain {s s' : Session} {c : Expr} {r : Option Expr} (run : (check c).run s = (.ok r, s')) : Visit s c r s'
  | refused {s s' : Session} {f : FunctionName} {r : Option Expr} (run : (check (.function f)).run s = (.ok r, s'))
      (unresolved : f.isResolved = false) :
      Visit s (.function f) r { s' with log := s'.log ++ [⟨.error (.unresolved f.name), f.node.place⟩] }

/-- Checking children in turn. -/
inductive Visits : Session → List Expr → List (Option Expr) → Session → Prop
  | nil {s : Session} : Visits s [] [] s
  | cons {s t s' : Session} {c : Expr} {cs : List Expr} {r : Option Expr} {rs : List (Option Expr)}
      (first : Visit s c r t) (rest : Visits t cs rs s') : Visits s (c :: cs) (r :: rs) s'

theorem Visits.append {t : Session} {more : List (Option Expr)} (h : Visits s cs results t) (h' : Visits t ds more s') :
    Visits s (cs ++ ds) (results ++ more) s' := by
  induction h with
  | nil => exact h'
  | cons first _ ih => exact .cons first (ih h')

/-! ## Children in any session -/

/-- What comes of a check is the same in all sessions with the target. -/
theorem check_alike (h : Everywhere (Prepared T) e) :
    ∃ x new found, ∀ s : Session, s.target = T → (check e).run s = (x, s.after new found) := by
  obtain ⟨x, new, found, hrun, -⟩ := check_leaves (T := T) (k := none) known_lawful fun _ hu => uses_everywhere h hu
  exact ⟨x, new, found, hrun⟩

theorem Visit.run {r : Option Expr} (h : Visit s c r s') : ∃ t, (check c).run s = (.ok r, t) ∧ t.target = s'.target := by
  cases h with
  | plain run => exact ⟨_, run, rfl⟩
  | refused run _ => exact ⟨_, run, rfl⟩

/-- A child without a result has none whenever it is visited. -/
theorem Visits.none_mem (h : Visits s cs results s') (hcs : ∀ c ∈ cs, Everywhere (Prepared T) c) (hs : s.target = T)
    (hc : c ∈ cs) {t t' : Session} (ht : t.target = T) (hnone : (check c).run t = (.ok none, t')) : none ∈ results := by
  induction h with
  | nil => cases hc
  | @cons s t s' d ds r rs first _ ih =>
    obtain ⟨u, hrun, hu⟩ := first.run
    obtain ⟨x, new, found, hall⟩ := check_alike (hcs d List.mem_cons_self)
    rw [hall s hs] at hrun
    cases hrun
    rcases List.mem_cons.mp hc with rfl | hc
    · rw [hall _ ht] at hnone
      cases hnone
      exact List.mem_cons_self
    · exact List.mem_cons_of_mem _ (ih (fun c hc => hcs c (List.mem_cons_of_mem _ hc)) (hu.symm.trans hs) hc)

/-- Only a name without a function comes out as one. -/
theorem check_name (h : Everywhere (Prepared T) e) (hs : s.target = T) {f : FunctionName}
    (hrun : (check e).run s = (.ok (some (.function f)), s')) (hf : f.isResolved = false) :
    ∃ g, e = .function g ∧ f = g.settleType := by
  have hknown : ∀ u ∈ e.uses none, Known u.2.settleType := fun _ hu => uses_everywhere h hu
  by_cases he : ∃ g, e = .function g
  · obtain ⟨g, rfl⟩ := he
    have hname := checkName_lawful (T := T) (k := none) known_lawful (hknown (none, g) List.mem_cons_self)
    have hout := hname.result hs hrun _ rfl
    cases hout
    exact ⟨g, rfl, rfl⟩
  · have hout := (check_finishes (T := T) known_lawful hknown fun g hg => he ⟨g, hg⟩).result hs hrun _ rfl
    rw [hout.resolved f rfl] at hf
    cases hf

/-! ## Steps that visit children -/

/-- A step that visits children, and has no result where a child has none. -/
def Views (T : Target) (cs : List Expr) (m : Check (Option α)) : Prop :=
  ∀ s : Session, s.target = T → ∃ results o s', Visits s cs results s' ∧ m.run s = (.ok o, s') ∧ s'.target = T ∧
    (none ∈ results → o = none)

theorem views_check (h : Everywhere (Prepared T) c) : Views T [c] (check c) := by
  intro s hs
  obtain ⟨o, new, found, hrun, -⟩ := check_delivers h s hs
  exact ⟨[o], o, _, .cons (.plain hrun) .nil, hrun, hs, fun hn => (List.mem_singleton.mp hn).symm⟩

theorem views_needed (h : Everywhere (Prepared T) c) : Views T [c] (needed (check c)) := by
  intro s hs
  obtain ⟨o, new, found, hrun, -⟩ := check_delivers h s hs
  by_cases hopen : ∃ f, o = some (.function f) ∧ f.isResolved = false
  · obtain ⟨f, rfl, hf⟩ := hopen
    obtain ⟨g, rfl, rfl⟩ := check_name h hs hrun hf
    have hg : g.isResolved = false := g.settleType_isResolved.symm.trans hf
    refine ⟨[some (.function g.settleType)], none, _, .cons (.refused hrun hg) .nil, ?_, hs, fun _ => rfl⟩
    rw [needed, run_bind hrun, resolved, hf, g.settleType_name, g.settleType_place]
    rfl
  · refine ⟨[o], o, _, .cons (.plain hrun) .nil, ?_, hs, fun hn => (List.mem_singleton.mp hn).symm⟩
    rw [needed, run_bind hrun]
    unfold resolved
    split
    · rename_i f
      have hf : f.isResolved = true := by
        by_contra hn
        exact hopen ⟨f, rfl, Bool.eq_false_iff.mpr hn⟩
      rw [if_pos hf]
      rfl
    · rfl

theorem Views.both {β γ : Type} {l : Check (Option β)} {r : Check (Option γ)} {k : Option β → Option γ → Check (Option α)}
    (hl : Views T cs l) (hr : Views T ds r)
    (hk : ∀ o o', ∃ x, k o o' = Pure.pure x ∧ (o = none ∨ o' = none → x = none)) :
    Views T (cs ++ ds) (l >>= fun o => r >>= fun o' => k o o') := by
  intro s hs
  obtain ⟨results, o, t, hvisits, hrun, ht, hnone⟩ := hl s hs
  obtain ⟨more, o', s', hvisits', hrun', hs', hnone'⟩ := hr t ht
  obtain ⟨x, hx, hxnone⟩ := hk o o'
  refine ⟨results ++ more, x, s', hvisits.append hvisits', ?_, hs', fun hmem => hxnone ?_⟩
  · rw [run_bind hrun, run_bind hrun', hx]
    rfl
  · exact (List.mem_append.mp hmem).imp hnone hnone'

theorem views_operand {o : Role × Expr} (h : Everywhere (Prepared T) o.2) : Views T [o.2] (o.1.visit o.2) := by
  obtain ⟨r, c⟩ := o
  cases r with
  | typed => exact views_needed h
  | plain | callee => exact views_check h

theorem views_all {os : List (Role × Expr)} (h : ∀ o ∈ os, Everywhere (Prepared T) o.2) :
    Views T (os.map Prod.snd) (visitAll os) := by
  induction os with
  | nil => exact fun s hs => ⟨[], some [], s, .nil, rfl, hs, fun hn => by cases hn⟩
  | cons o os ih =>
    refine Views.both (views_operand (h o List.mem_cons_self)) (ih fun c hc => h c (List.mem_cons_of_mem _ hc)) fun o os => ?_
    cases o <;> cases os <;> exact ⟨_, rfl, by simp⟩

/-- Checking an expression visits its children, and does nothing else where one of them has no result. -/
theorem check_defers (h : Everywhere (Prepared T) e) (hv : e.visits = true) (hs : s.target = T) :
    ∃ results s', Visits s e.children results s' ∧ (none ∈ results → (check e).run s = (.ok none, s')) := by
  obtain ⟨results, o, s', hvisits, hrun, -, hnone⟩ := views_all (fun o ho => h.child (mem_children ho)) s hs
  rw [map_snd_operands] at hvisits
  refine ⟨results, s', hvisits, fun hmem => ?_⟩
  rw [check_eq hv, run_bind hrun, hnone hmem]
  rfl

end Check

/-! ## Programs -/

open Check Spmd.Expr

variable {target : Target} {file : String} {json : Option Json} {p : Program} {e : Expr}

/-- In an expression of a program, where the check of a child has no result, the node has none either. All of its children
are checked all the same, and what is reported is what they report. -/
theorem rejected_child_rejects (hp : Program.read target file json = .ok p) (he : e ∈ p.expressions) :
    e.Everywhere fun n => n.visits = true → ∀ c ∈ n.children,
      (∃ r r' : Session, r.target = target ∧ (check c).run r = (.ok none, r')) →
      ∀ s : Session, s.target = target → ∃ results s', Visits s n.children results s' ∧ none ∈ results ∧
        (check n).run s = (.ok none, s') := by
  have hprepared := Program.prepared hp he
  clear he
  induction hprepared with
  | @node n here below ih =>
    refine .node (fun hv c hc hrej s hs => ?_) ih
    obtain ⟨r, r', hr, hnone⟩ := hrej
    obtain ⟨results, s', hvisits, hrun⟩ := check_defers (.node here below) hv hs
    have hmem := hvisits.none_mem below hs hc hr hnone
    exact ⟨results, s', hvisits, hmem, hrun hmem⟩

/-- An assignment to a literal next to a name of two functions: `(1 = 2) + f`. -/
def spoiledJson : Json :=
  let literal (text : String) : Json := .object [("const", .string text), ("type", .string "int32")]
  programJson [("f", .object [("function", .string "int32")]), ("f", .object [("function", .string "float")])]
    (.object [("binary", .string "+"),
      ("left", .object [("assign", .string "="), ("target", literal "1"), ("value", literal "2")]),
      ("right", .object [("symbol", .string "f")])])

def spoiledTarget : Expr :=
  let literal (n : Int) : Expr := .const (.typed none Ty.int32.asConst) ⟨.int32, 8, [.int n]⟩
  .assign {} .plain (literal 1) (literal 2) none

def spoiledName : FunctionName :=
  { node := {}, name := "f", candidates := [⟨"f", .function .int32 [] false, .function, none, none⟩,
      ⟨"f", .function (.basic .float .uniform) [] false, .function, none, none⟩] }

def spoiledExpr : Expr := .binary {} (.arith .add) spoiledTarget (.function spoiledName) false

theorem spoiledProgram_read : ∃ scope, Program.read .standard "program" (some spoiledJson) = .ok ⟨scope, [spoiledExpr]⟩ :=
  ⟨_, rfl⟩

theorem rejected_child_rejects_spoiled : ∃ results s',
    Visits { target := .standard } [spoiledTarget, .function spoiledName] results s' ∧ none ∈ results ∧
      (check spoiledExpr).run { target := .standard } = (.ok none, s') := by
  obtain ⟨scope, hread⟩ := spoiledProgram_read
  exact (rejected_child_rejects hread (List.mem_singleton_self _)).here rfl spoiledTarget List.mem_cons_self
    ⟨{ target := .standard }, _, rfl, rfl⟩ _ rfl

/-- Both children report, and the sum does not. -/
example : ((check spoiledExpr).run { target := .standard }).2.log =
    [⟨.error (.assignedValue "1"), none⟩, ⟨.error (.unresolved "f"), none⟩] := rfl

end Spmd
